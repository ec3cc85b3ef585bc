import ChatServer.Lib.Program
import Mathlib.Data.Prod.Lex
import Mathlib.Logic.Relation
import Mathlib.Order.WithBotTop

/-!
# Crews

The threads of a crew share a memory and move one instruction at a time. Who wants a mutex that
is taken is blocked, and so is who waits for a task. If all code takes its mutexes in the order
of a rank, nobody ever waits in a circle.
-/

namespace Program

variable {μ σ τ α β : Type}

/-! ## Moves -/

/-- The agent `(t, 0)` is the thread `t` itself, and `(t, d + 1)` is the task that `(t, d)` waits
for. The last of them, `(t, depth t)`, runs the code. -/
structure Crew (μ σ τ : Type) where
  mem : σ
  code : τ → Program μ σ Unit
  depth : τ → Nat
  owner : μ → Option (τ × Nat)

namespace Crew

def idle (s : σ) : Crew μ σ τ := ⟨s, fun _ => .ret (), fun _ => 0, fun _ => none⟩

section Run

variable [DecidableEq μ] [DecidableEq τ]

def call (c : Crew μ σ τ) (t : τ) (p : Program μ σ Unit) : Crew μ σ τ :=
  { c with code := Function.update c.code t p }

/-- One instruction of `t`, if it has one and is not blocked. -/
def step (c : Crew μ σ τ) (t : τ) : Option (Crew μ σ τ) :=
  match c.code t with
  | .ret _ => none
  | .lock m p =>
    if c.owner m = none then some { c with
      code := Function.update c.code t p
      owner := Function.update c.owner m (some (t, c.depth t)) }
    else none
  | .unlock m p => some { c with
      code := Function.update c.code t p
      owner := Function.update c.owner m none }
  | .access f k => some { c with
      mem := f c.mem
      code := Function.update c.code t (k c.mem) }
  | .spawn p => some { c with
      code := Function.update c.code t p
      depth := Function.update c.depth t (c.depth t + 1) }
  | .join p => some { c with
      code := Function.update c.code t p
      depth := Function.update c.depth t (c.depth t - 1) }

/-- What the instructions do. -/
inductive Stepped (c : Crew μ σ τ) (t : τ) : Crew μ σ τ → Prop
  | lock {m : μ} {p : Program μ σ Unit} (hcode : c.code t = .lock m p) (hfree : c.owner m = none) :
      Stepped c t ⟨c.mem, Function.update c.code t p, c.depth,
        Function.update c.owner m (some (t, c.depth t))⟩
  | unlock {m : μ} {p : Program μ σ Unit} (hcode : c.code t = .unlock m p) :
      Stepped c t ⟨c.mem, Function.update c.code t p, c.depth, Function.update c.owner m none⟩
  | access {f : σ → σ} {k : σ → Program μ σ Unit} (hcode : c.code t = .access f k) :
      Stepped c t ⟨f c.mem, Function.update c.code t (k c.mem), c.depth, c.owner⟩
  | spawn {p : Program μ σ Unit} (hcode : c.code t = .spawn p) :
      Stepped c t ⟨c.mem, Function.update c.code t p,
        Function.update c.depth t (c.depth t + 1), c.owner⟩
  | join {p : Program μ σ Unit} (hcode : c.code t = .join p) :
      Stepped c t ⟨c.mem, Function.update c.code t p,
        Function.update c.depth t (c.depth t - 1), c.owner⟩

theorem stepped {c c' : Crew μ σ τ} {t : τ} (hstep : c.step t = some c') : Stepped c t c' := by
  unfold step at hstep
  cases hcode : c.code t with
  | ret a =>
    rw [hcode] at hstep
    cases hstep
  | lock m p =>
    rw [hcode] at hstep
    dsimp only at hstep
    split at hstep
    · rename_i hfree
      exact Option.some.inj hstep ▸ .lock hcode hfree
    · cases hstep
  | unlock m p =>
    rw [hcode] at hstep
    exact Option.some.inj hstep ▸ .unlock hcode
  | access f k =>
    rw [hcode] at hstep
    exact Option.some.inj hstep ▸ .access hcode
  | spawn p =>
    rw [hcode] at hstep
    exact Option.some.inj hstep ▸ .spawn hcode
  | join p =>
    rw [hcode] at hstep
    exact Option.some.inj hstep ▸ .join hcode

/-- A step of a thread. -/
structure Move (μ σ τ : Type) where
  thread : τ
  before : Crew μ σ τ
  after : Crew μ σ τ

/-- A run in which idle threads take up the code of `jobs`, from any memory on, and its moves, the
last one first. -/
inductive Run (jobs : Set (Program μ σ Unit)) : Crew μ σ τ → List (Move μ σ τ) → Prop
  | idle (s : σ) : Run jobs (.idle s) []
  | call {c : Crew μ σ τ} {log : List (Move μ σ τ)} (t : τ) {p : Program μ σ Unit}
      (h : Run jobs c log) (hidle : c.code t = .ret ()) (hp : p ∈ jobs) : Run jobs (c.call t p) log
  | step {c c' : Crew μ σ τ} {log : List (Move μ σ τ)} (t : τ) (h : Run jobs c log)
      (hstep : c.step t = some c') : Run jobs c' (⟨t, c, c'⟩ :: log)

/-- A move of `t`, where it can make one. -/
def tryStep (run : Crew μ σ τ × List (Move μ σ τ)) (t : τ) : Crew μ σ τ × List (Move μ σ τ) :=
  match run.1.step t with
  | some c' => (c', ⟨t, run.1, c'⟩ :: run.2)
  | none => run

theorem Run.schedule {jobs : Set (Program μ σ Unit)} {run : Crew μ σ τ × List (Move μ σ τ)}
    (h : Run jobs run.1 run.2) (ts : List τ) :
    Run jobs (ts.foldl tryStep run).1 (ts.foldl tryStep run).2 := by
  induction ts generalizing run with
  | nil => exact h
  | cons t ts ih =>
    apply ih
    unfold tryStep
    split
    · rename_i hstep
      exact .step t h hstep
    · exact h

/-- The run up to a move that is in its log. -/
theorem Run.upTo {jobs : Set (Program μ σ Unit)} {c : Crew μ σ τ} {newer older : List (Move μ σ τ)}
    {mv : Move μ σ τ} (h : Run jobs c (newer ++ mv :: older)) :
    Run jobs mv.before older ∧ mv.before.step mv.thread = some mv.after := by
  generalize hlog : newer ++ mv :: older = log at h
  induction h generalizing newer with
  | idle => simp at hlog
  | call _ _ _ _ ih => exact ih hlog
  | step t hrun hstep ih =>
    cases newer with
    | nil =>
      obtain ⟨rfl, rfl⟩ := List.cons.inj hlog
      exact ⟨hrun, hstep⟩
    | cons x newer => exact ih (List.cons.inj hlog).2

end Run

/-- The first agent waits for a mutex that the second one holds, or for its end. -/
inductive Waits (c : Crew μ σ τ) : τ × Nat → τ × Nat → Prop
  | mutex {t : τ} {m : μ} {p : Program μ σ Unit} {a : τ × Nat} (hcode : c.code t = .lock m p)
      (howner : c.owner m = some a) : Waits c (t, c.depth t) a
  | task {t : τ} {d : Nat} (hd : d < c.depth t) : Waits c (t, d) (t, d + 1)

end Crew

/-! ## The order of ranks -/

/-- Mutexes that are held, the last one first, with the depth of the agents, and the depth of the
agent that runs. -/
abbrev Holding (μ : Type) := List (μ × Nat) × Nat

/-- From `cur` on, the code takes only mutexes above all that it and those who wait for it hold,
gives back the last one first, ends tasks with nothing in their hands, and ends at `target`. -/
def Ordered (rank : μ → Nat) (target : Holding μ) : Holding μ → Program μ σ α → Prop
  | cur, .ret _ => cur = target
  | cur, .lock m p => (∀ h ∈ cur.1, rank h.1 < rank m) ∧ Ordered rank target ((m, cur.2) :: cur.1, cur.2) p
  | cur, .unlock m p => ∃ rest, cur.1 = (m, cur.2) :: rest ∧ Ordered rank target (rest, cur.2) p
  | cur, .access _ k => ∀ s, Ordered rank target cur (k s)
  | cur, .spawn p => Ordered rank target (cur.1, cur.2 + 1) p
  | cur, .join p => ∃ d, cur.2 = d + 1 ∧ (∀ h ∈ cur.1, h.2 ≤ d) ∧ Ordered rank target (cur.1, d) p

section Ordered

variable {rank : μ → Nat}

theorem Ordered.bind {cur mid target : Holding μ} {p : Program μ σ α} {f : α → Program μ σ β}
    (hp : Ordered rank mid cur p) (hf : ∀ a, Ordered rank target mid (f a)) :
    Ordered rank target cur (p.bind f) := by
  induction p generalizing cur with
  | ret a =>
    obtain rfl : cur = mid := hp
    exact hf a
  | access g k ih => exact fun s => ih s (hp s)
  | lock m p ih => exact ⟨hp.1, ih hp.2⟩
  | unlock m p ih =>
    obtain ⟨rest, hrest, hp⟩ := hp
    exact ⟨rest, hrest, ih hp⟩
  | spawn p ih => exact ih hp
  | join p ih =>
    obtain ⟨d, hd, hreleased, hp⟩ := hp
    exact ⟨d, hd, hreleased, ih hp⟩

/-- Whoever holds only mutexes below `n` may run the code, and holds the same at its end. -/
def LocksFrom (rank : μ → Nat) (n : Nat) (p : Program μ σ α) : Prop :=
  ∀ held d, (∀ h ∈ held, rank h.1 < n ∧ h.2 ≤ d) → Ordered rank (held, d) (held, d) p

namespace LocksFrom

variable {n : Nat}

theorem ret (a : α) : LocksFrom rank n (.ret a : Program μ σ α) := fun _ _ _ => rfl

theorem access {f : σ → σ} {k : σ → Program μ σ α} (h : ∀ s, LocksFrom rank n (k s)) :
    LocksFrom rank n (.access f k) := fun held d hheld s => h s held d hheld

theorem update (f : σ → σ) : LocksFrom rank n (Program.update f : Program μ σ Unit) :=
  access fun _ => ret ()

theorem bind {p : Program μ σ α} {f : α → Program μ σ β} (hp : LocksFrom rank n p)
    (hf : ∀ a, LocksFrom rank n (f a)) : LocksFrom rank n (p.bind f) :=
  fun held d hheld => (hp held d hheld).bind fun a => hf a held d hheld

theorem load_bind {f : σ → Program μ σ α} (hf : ∀ s, LocksFrom rank n (f s)) :
    LocksFrom rank n (load.bind f) := access hf

theorem withLock {m : μ} {body : Program μ σ α} (hm : n ≤ rank m)
    (hb : LocksFrom rank (rank m + 1) body) : LocksFrom rank n (withLock m body) := by
  intro held d hheld
  refine ⟨fun h hh => (hheld h hh).1.trans_le hm, (hb _ d ?_).bind fun a => ⟨held, rfl, rfl⟩⟩
  intro h hh
  rcases List.mem_cons.mp hh with rfl | hh
  · exact ⟨Nat.lt_succ_self _, le_rfl⟩
  · exact ⟨Nat.lt_succ_of_lt ((hheld h hh).1.trans_le hm), (hheld h hh).2⟩

theorem async {task : Program μ σ α} (h : LocksFrom rank n task) :
    LocksFrom rank n (async task) := by
  intro held d hheld
  refine Ordered.bind (h held (d + 1) fun x hx => ?_ : Ordered rank (held, d + 1) _ _) fun a => ?_
  · exact ⟨(hheld x hx).1, (hheld x hx).2.trans (Nat.le_succ d)⟩
  · exact ⟨d, rfl, fun x hx => (hheld x hx).2, rfl⟩

theorem forEach {ι : Type} {f : ι → Program μ σ Unit} (is : List ι)
    (hf : ∀ i, LocksFrom rank n (f i)) : LocksFrom rank n (forEach is f) := by
  induction is with
  | nil => exact ret ()
  | cons i is ih => exact (hf i).bind fun _ => ih

end LocksFrom

end Ordered

/-! ## No circles -/

/-- What the thread holds, and that its code fits it. -/
structure Disciplined (rank : μ → Nat) (c : Crew μ σ τ) (t : τ) (held : List (μ × Nat)) : Prop where
  ordered : Ordered rank ([], 0) (held, c.depth t) (c.code t)
  owns : ∀ m d, c.owner m = some (t, d) ↔ (m, d) ∈ held
  falling : held.Pairwise fun h h' => rank h'.1 < rank h.1

variable {rank : μ → Nat}

theorem Disciplined.other {c c' : Crew μ σ τ} {u : τ} {held : List (μ × Nat)}
    (h : Disciplined rank c u held) (hcode : c'.code u = c.code u) (hdepth : c'.depth u = c.depth u)
    (howner : ∀ m d, c'.owner m = some (u, d) ↔ c.owner m = some (u, d)) :
    Disciplined rank c' u held where
  ordered := by
    rw [hcode, hdepth]
    exact h.ordered
  owns m d := (howner m d).trans (h.owns m d)
  falling := h.falling

namespace Crew

variable {c c' : Crew μ σ τ} {t : τ}

/-- The rank of the mutex that the code of the thread takes next. -/
def wanted (rank : μ → Nat) (c : Crew μ σ τ) (t : τ) : WithTop Nat :=
  match c.code t with
  | .lock m _ => WithTop.some (rank m)
  | _ => ⊤

theorem wanted_lock {m : μ} {p : Program μ σ Unit} (hcode : c.code t = .lock m p) :
    c.wanted rank t = WithTop.some (rank m) := by
  unfold wanted
  rw [hcode]

/-- Whoever is waited for wants a mutex of a higher rank, or is the later task. -/
theorem Waits.lt (h : ∀ u, ∃ held, Disciplined rank c u held) {a b : τ × Nat} (hw : c.Waits a b) :
    toLex (c.wanted rank a.1, a.2) < toLex (c.wanted rank b.1, b.2) := by
  rw [Prod.Lex.toLex_lt_toLex]
  obtain ⟨u, d⟩ := b
  cases hw with
  | task hd => exact .inr ⟨rfl, Nat.lt_succ_self _⟩
  | @mutex t m p _ hcode howner =>
    left
    obtain ⟨held, hu⟩ := h u
    have hmem : (m, d) ∈ held := (hu.owns m d).mp howner
    have hordered := hu.ordered
    rw [wanted_lock hcode]
    unfold wanted
    dsimp only
    cases hcode' : c.code u with
    | lock m' p' =>
      rw [hcode'] at hordered
      exact WithTop.coe_lt_coe.mpr (hordered.1 _ hmem)
    | _ => exact WithTop.coe_lt_top _

section Run

variable [DecidableEq μ]

/-- A mutex that `t` takes or gives back is none of the others'. -/
theorem owner_update {owner : μ → Option (τ × Nat)} {m : μ} {a : Option (τ × Nat)} {t u : τ}
    (hut : u ≠ t) (ha : ∀ v ∈ a, v.1 = t) (hm : ∀ v ∈ owner m, v.1 = t) (m' : μ) (d : Nat) :
    Function.update owner m a m' = some (u, d) ↔ owner m' = some (u, d) := by
  by_cases hm' : m' = m
  · subst hm'
    rw [Function.update_self]
    exact ⟨fun h => absurd (ha _ h) hut, fun h => absurd (hm _ h) hut⟩
  · rw [Function.update_of_ne hm']

variable [DecidableEq τ]

/-- A step of `t` changes nothing of another thread. -/
theorem step_other (hstep : c.step t = some c') {held : List (μ × Nat)}
    (ht : Disciplined rank c t held) {u : τ} (hut : u ≠ t) : c'.code u = c.code u ∧
      c'.depth u = c.depth u ∧ ∀ m d, c'.owner m = some (u, d) ↔ c.owner m = some (u, d) := by
  have hordered := ht.ordered
  cases stepped hstep with
  | lock hcode hfree =>
    exact ⟨Function.update_of_ne hut _ _, rfl, owner_update hut (by simp) (by simp [hfree])⟩
  | unlock hcode =>
    rw [hcode] at hordered
    obtain ⟨rest, hheld, -⟩ := hordered
    have howner := (ht.owns _ _).mpr (hheld ▸ List.mem_cons_self)
    exact ⟨Function.update_of_ne hut _ _, rfl, owner_update hut (by simp) (by simp [howner])⟩
  | access => exact ⟨Function.update_of_ne hut _ _, rfl, fun _ _ => .rfl⟩
  | spawn | join =>
    exact ⟨Function.update_of_ne hut _ _, Function.update_of_ne hut _ _, fun _ _ => .rfl⟩

theorem step_self (hstep : c.step t = some c') {held : List (μ × Nat)}
    (ht : Disciplined rank c t held) : ∃ held', Disciplined rank c' t held' := by
  have hordered := ht.ordered
  cases stepped hstep with
  | @lock m p hcode hfree =>
    rw [hcode] at hordered
    refine ⟨(m, c.depth t) :: held, ?_, ?_, List.pairwise_cons.mpr ⟨hordered.1, ht.falling⟩⟩
    · simpa only [Function.update_self] using hordered.2
    · intro m' d
      by_cases hm' : m' = m
      · subst hm'
        have hnot : (m', d) ∉ held := by
          rw [← ht.owns, hfree]
          exact nofun
        simp [hnot, eq_comm]
      · simp [hm', ht.owns]
  | @unlock m p hcode =>
    rw [hcode] at hordered
    obtain ⟨rest, hheld, hordered⟩ := hordered
    dsimp only at hheld
    subst hheld
    obtain ⟨habove, hfalling⟩ := List.pairwise_cons.mp ht.falling
    refine ⟨rest, by simpa only [Function.update_self] using hordered, fun m' d => ?_, hfalling⟩
    by_cases hm' : m' = m
    · subst hm'
      have hnot : (m', d) ∉ rest := fun hmem => lt_irrefl _ (habove (m', d) hmem)
      simp [hnot]
    · simp [hm', ht.owns]
  | access hcode =>
    rw [hcode] at hordered
    exact ⟨held, by simpa only [Function.update_self] using hordered c.mem, ht.owns, ht.falling⟩
  | spawn hcode =>
    rw [hcode] at hordered
    refine ⟨held, ?_, ht.owns, ht.falling⟩
    simpa only [Function.update_self, Ordered] using hordered
  | join hcode =>
    rw [hcode] at hordered
    obtain ⟨d, hd, -, hordered⟩ := hordered
    dsimp only at hd
    refine ⟨held, ?_, ht.owns, ht.falling⟩
    simpa only [Function.update_self, hd, Nat.add_sub_cancel] using hordered

theorem Run.disciplined {jobs : Set (Program μ σ Unit)} {log : List (Move μ σ τ)}
    (h : Run jobs c log) (hjobs : ∀ p ∈ jobs, LocksFrom rank 0 p) (u : τ) :
    ∃ held, Disciplined rank c u held := by
  induction h generalizing u with
  | idle s => exact ⟨[], rfl, fun _ _ => ⟨nofun, nofun⟩, .nil⟩
  | @call c log t p _ hidle hp ih =>
    obtain ⟨held, hu⟩ := ih u
    by_cases hut : u = t
    · subst hut
      have hordered := hu.ordered
      rw [hidle] at hordered
      obtain ⟨rfl, hdepth⟩ := Prod.mk.inj hordered
      refine ⟨[], ?_, hu.owns, .nil⟩
      have hcode : (c.call u p).code u = p := Function.update_self _ _ _
      rw [hcode, show (c.call u p).depth u = 0 from hdepth]
      exact hjobs p hp [] 0 (by simp)
    · exact ⟨held, hu.other (Function.update_of_ne hut _ _) rfl fun _ _ => .rfl⟩
  | step t _ hstep ih =>
    obtain ⟨held, ht⟩ := ih t
    by_cases hut : u = t
    · subst hut
      exact step_self hstep ht
    · obtain ⟨held', hu⟩ := ih u
      obtain ⟨hcode, hdepth, howner⟩ := step_other hstep ht hut
      exact ⟨held', hu.other hcode hdepth howner⟩

/-- **No circles.** Where all code takes its mutexes in the order of a rank, no agents wait for one
another in a circle. -/
theorem Run.no_circle {jobs : Set (Program μ σ Unit)} {log : List (Move μ σ τ)} (h : Run jobs c log)
    (hjobs : ∀ p ∈ jobs, LocksFrom rank 0 p) (a : τ × Nat) : ¬ Relation.TransGen c.Waits a a := by
  have hlt : ∀ b, Relation.TransGen c.Waits a b →
      toLex (c.wanted rank a.1, a.2) < toLex (c.wanted rank b.1, b.2) := by
    intro b hab
    induction hab with
    | single hw => exact hw.lt (h.disciplined hjobs)
    | tail _ hw ih => exact ih.trans (hw.lt (h.disciplined hjobs))
  exact fun hcircle => lt_irrefl _ (hlt a hcircle)

/-- Nobody takes a mutex that it, or someone who waits for it, holds. -/
theorem Run.not_again {jobs : Set (Program μ σ Unit)} {log : List (Move μ σ τ)}
    (h : Run jobs c log) (hjobs : ∀ p ∈ jobs, LocksFrom rank 0 p) {m : μ} {p : Program μ σ Unit}
    (hcode : c.code t = .lock m p) (d : Nat) : c.owner m ≠ some (t, d) := by
  obtain ⟨held, ht⟩ := h.disciplined hjobs t
  have hordered := ht.ordered
  rw [hcode] at hordered
  intro howner
  exact lt_irrefl _ (hordered.1 _ ((ht.owns m d).mp howner))

/-- Whoever is done holds nothing. -/
theorem Run.released {jobs : Set (Program μ σ Unit)} {log : List (Move μ σ τ)}
    (h : Run jobs c log) (hjobs : ∀ p ∈ jobs, LocksFrom rank 0 p) (hcode : c.code t = .ret ()) :
    c.depth t = 0 ∧ ∀ m d, c.owner m ≠ some (t, d) := by
  obtain ⟨held, ht⟩ := h.disciplined hjobs t
  have hordered := ht.ordered
  rw [hcode] at hordered
  obtain ⟨rfl, hdepth⟩ := Prod.mk.inj hordered
  exact ⟨hdepth, fun m d howner => List.not_mem_nil ((ht.owns m d).mp howner)⟩

theorem step_eq_none (hstep : c.step t = none) :
    c.code t = .ret () ∨ ∃ m p a, c.code t = .lock m p ∧ c.owner m = some a := by
  unfold step at hstep
  cases hcode : c.code t with
  | ret a => exact .inl rfl
  | lock m p =>
    rw [hcode] at hstep
    dsimp only at hstep
    split at hstep
    · cases hstep
    · rename_i howner
      obtain ⟨a, ha⟩ := Option.ne_none_iff_exists'.mp howner
      exact .inr ⟨m, p, a, rfl, ha⟩
  | _ =>
    rw [hcode] at hstep
    cases hstep

/-- **Progress.** Somebody can move unless all are done. -/
theorem Run.progress {jobs : Set (Program μ σ Unit)} {log : List (Move μ σ τ)} (h : Run jobs c log)
    (hjobs : ∀ p ∈ jobs, LocksFrom rank 0 p) {n : Nat} (hbound : ∀ m, rank m < n)
    (hbusy : c.code t ≠ .ret ()) : ∃ u c', c.step u = some c' := by
  by_contra hstuck
  have hnone : ∀ u, c.step u = none :=
    fun u => Option.eq_none_iff_forall_ne_some.mpr fun c' hstep => hstuck ⟨u, c', hstep⟩
  -- Who waits for a mutex waits for someone that waits for a mutex of a higher rank.
  have hclimb : ∀ k u m p, c.code u = .lock m p → n - rank m ≤ k → False := by
    intro k
    induction k with
    | zero =>
      intro u m p _ hle
      have := hbound m
      omega
    | succ k ih =>
      intro u m p hcode hle
      obtain hdone | ⟨m₁, p₁, a, hcode₁, howner⟩ := step_eq_none (hnone u)
      · rw [hcode] at hdone
        cases hdone
      · rw [hcode] at hcode₁
        cases hcode₁
        obtain ⟨held, hv⟩ := h.disciplined hjobs a.1
        have hmem := (hv.owns m a.2).mp howner
        have hordered := hv.ordered
        obtain hdone | ⟨m', p', -, hcode', -⟩ := step_eq_none (hnone a.1)
        · exact (h.released hjobs hdone).2 m a.2 howner
        · rw [hcode'] at hordered
          have hlt : rank m < rank m' := hordered.1 _ hmem
          have := hbound m'
          exact ih a.1 m' p' hcode' (by omega)
  obtain hdone | ⟨m, p, -, hcode, -⟩ := step_eq_none (hnone t)
  · exact hbusy hdone
  · exact hclimb _ t m p hcode le_rfl

end Run

end Crew

end Program
