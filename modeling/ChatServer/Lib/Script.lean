import ChatServer.Lib.Interleave
import Mathlib.Tactic.Choose

/-!
# Scripts

A `Script` says which steps the code of a thread may take at each stage, and the stage that a
step leads to. `Follows` is the judgement that code keeps to a script, whatever the other
threads do in between, as long as what the thread knows at its stage stays true.
-/

namespace Program

variable {μ σ ι α β : Type}

/-! ## How code begins -/

/-- The code runs `q` first. -/
def Begins (q : Program μ σ β) (p : Program μ σ α) : Prop := ∃ k, p = q.bind k

theorem Begins.refl (p : Program μ σ α) : Begins p p := ⟨.ret, (bind_ret p).symm⟩

theorem Begins.bind {γ : Type} {q : Program μ σ γ} {p : Program μ σ α} (h : Begins q p)
    (f : α → Program μ σ β) : Begins q (p.bind f) := by
  obtain ⟨k, rfl⟩ := h
  exact ⟨_, Program.bind_assoc q k f⟩

variable [DecidableEq μ]

theorem Begins.advance {m : μ} {body : Program μ σ β} {p p' : Program μ σ α} {s s' : σ}
    (h : Begins (withLock m body) p) (hb : Avoids m body)
    (hadv : Program.advance m p s = some (p', s')) : s' = (body.run s).2 := by
  obtain ⟨k, rfl⟩ := h
  rw [(IsSection.withLock hb).advance_bind, run_withLock, Option.some.injEq, Prod.mk.injEq] at hadv
  exact hadv.2.symm

/-! ## Scripts -/

structure Script (m : μ) (σ ι : Type) where
  know : ι → σ → Prop
  /-- The code, and the memory, before the step, then the memory and the stage after it. -/
  step : ∀ {α : Type}, ι → Program μ σ α → σ → ι → σ → Prop
  step_bind : ∀ {α β : Type} {i j : ι} {p : Program μ σ α} {s s' : σ} (f : α → Program μ σ β),
    (∀ a, p ≠ .ret a) → step i p s j s' → step i (p.bind f) s j s'
  idle : ∀ {α : Type} (i : ι) (p : Program μ σ α) (s : σ), p.takes m = false → step i p s i s

/-- The code keeps to the script from stage `i` on, and ends where `E` holds. -/
inductive Follows {m : μ} (S : Script m σ ι) (E : α → ι → Prop) : Program μ σ α → ι → Prop
  | intro {p i} (ends : ∀ a, p = .ret a → E a i) (go : ∀ s, S.know i s → ι)
      (acts : ∀ s p' s' (hs : S.know i s), advance m p s = some (p', s') →
        S.step i p s (go s hs) s')
      (next : ∀ s p' s' (hs : S.know i s), advance m p s = some (p', s') →
        Follows S E p' (go s hs)) : Follows S E p i

namespace Follows

variable {m : μ} {S : Script m σ ι} {E : α → ι → Prop} {E' : β → ι → Prop} {i : ι}

theorem done {a : α} (h : Follows S E (.ret a) i) : E a i := by
  obtain ⟨ends, -, -, -⟩ := h
  exact ends a rfl

theorem advance {p p' : Program μ σ α} {s s' : σ} (h : Follows S E p i) (hs : S.know i s)
    (hadv : advance m p s = some (p', s')) : ∃ j, S.step i p s j s' ∧ Follows S E p' j := by
  obtain ⟨-, go, acts, next⟩ := h
  exact ⟨go s hs, acts s p' s' hs hadv, next s p' s' hs hadv⟩

protected theorem ret {a : α} (h : E a i) : Follows S E (.ret a) i := by
  refine .intro ?_ (fun _ _ => i) ?_ ?_
  · rintro b ⟨⟩
    exact h
  · intro s p' s' _ hadv
    simp [Program.advance] at hadv
  · intro s p' s' _ hadv
    simp [Program.advance] at hadv

theorem mono {R : α → ι → Prop} {p : Program μ σ α} (h : Follows S E p i)
    (her : ∀ a j, E a j → R a j) : Follows S R p i := by
  induction h with
  | intro ends go acts _ ih => exact .intro (fun a hp => her a _ (ends a hp)) go acts ih

/-- A property of stages that no step of the script ends. -/
theorem keep {P : ι → Prop} (hstep : ∀ {α : Type} {i j : ι} {p : Program μ σ α} {s s' : σ},
      S.step i p s j s' → P i → P j) {p : Program μ σ α} (h : Follows S E p i) (hi : P i) :
    Follows S (fun a j => E a j ∧ P j) p i := by
  induction h with
  | intro ends go acts _ ih =>
    exact .intro (fun a hp => ⟨ends a hp, hi⟩) go acts fun s p' s' hs hadv =>
      ih s p' s' hs hadv (hstep (acts s p' s' hs hadv) hi)

/-- Sequencing. The first part holds no lock at its end, so no step spans both. -/
protected theorem bind {p : Program μ σ α} {f : α → Program μ σ β} (hp : Balanced m false p)
    (h : Follows S E p i) (hf : ∀ a j, E a j → Follows S E' (f a) j) :
    Follows S E' (p.bind f) i := by
  induction h with
  | @intro p i ends go acts next ih =>
    by_cases hpure : ∃ a, p = .ret a
    · obtain ⟨a, rfl⟩ := hpure
      exact hf a i (ends a rfl)
    · have hgo : ∀ a, p ≠ .ret a := fun a ha => hpure ⟨a, ha⟩
      refine .intro ?_ go ?_ ?_
      · intro b hb
        exact absurd hb (bind_ne_ret hgo f b)
      · intro s q s' hs hadv
        obtain ⟨p', hp', -⟩ := advance_bind_of_ne hp hgo f hadv
        exact S.step_bind f hgo (acts s p' s' hs hp')
      · intro s q s' hs hadv
        obtain ⟨p', hp', rfl⟩ := advance_bind_of_ne hp hgo f hadv
        exact ih s p' s' hs hp' (balanced_advance hp hp')

/-- A critical section is one step. -/
theorem section_bind {p : Program μ σ α} {f : α → Program μ σ β} (hp : IsSection m p)
    (h : ∀ s, S.know i s → ∃ j, S.step i p s j (p.run s).2 ∧ Follows S E' (f (p.run s).1) j) :
    Follows S E' (p.bind f) i := by
  choose go hgo using h
  refine .intro ?_ go ?_ ?_
  · intro b hb
    exact absurd hb (hp.bind_ne_ret f b)
  · intro s p' s' hs hadv
    rw [hp.advance_bind] at hadv
    simp only [Option.some.injEq, Prod.mk.injEq] at hadv
    obtain ⟨-, rfl⟩ := hadv
    refine S.step_bind f ?_ (hgo s hs).1
    intro a
    rw [← bind_ret p]
    exact hp.bind_ne_ret .ret a
  · intro s p' s' hs hadv
    rw [hp.advance_bind] at hadv
    simp only [Option.some.injEq, Prod.mk.injEq] at hadv
    obtain ⟨rfl, -⟩ := hadv
    exact (hgo s hs).2

theorem of_section {p : Program μ σ α} (hp : IsSection m p)
    (h : ∀ s, S.know i s → ∃ j, S.step i p s j (p.run s).2 ∧ E (p.run s).1 j) :
    Follows S E p i := by
  rw [← bind_ret p]
  apply section_bind hp
  intro s hs
  obtain ⟨j, hstep, hend⟩ := h s hs
  exact ⟨j, hstep, .ret hend⟩

protected theorem access {f : σ → σ} {k : σ → Program μ σ α}
    (h : ∀ s, S.know i s → ∃ j, S.step i (.access f k) s j (f s) ∧ Follows S E (k s) j) :
    Follows S E (.access f k) i := by
  choose go hgo using h
  refine .intro ?_ go ?_ ?_
  · intro a hp
    cases hp
  · intro s p' s' hs hadv
    simp only [Program.advance, Option.some.injEq, Prod.mk.injEq] at hadv
    obtain ⟨-, rfl⟩ := hadv
    exact (hgo s hs).1
  · intro s p' s' hs hadv
    simp only [Program.advance, Option.some.injEq, Prod.mk.injEq] at hadv
    obtain ⟨rfl, -⟩ := hadv
    exact (hgo s hs).2

theorem skip {p q : Program μ σ α} (hgo : ∀ a, p ≠ .ret a)
    (hadv : ∀ s, Program.advance m p s = some (q, s)) (hp : p.takes m = false)
    (h : Follows S E q i) : Follows S E p i := by
  refine .intro ?_ (fun _ _ => i) ?_ ?_
  · intro a ha
    exact absurd ha (hgo a)
  · intro s p' s' _ h'
    rw [hadv] at h'
    simp only [Option.some.injEq, Prod.mk.injEq] at h'
    obtain ⟨-, rfl⟩ := h'
    exact S.idle i p s hp
  · intro s p' s' _ h'
    rw [hadv] at h'
    simp only [Option.some.injEq, Prod.mk.injEq] at h'
    obtain ⟨rfl, -⟩ := h'
    exact h

protected theorem async {task : Program μ σ α} (ht : Balanced m false task)
    (h : Follows S E task i) : Follows S E (async task) i := by
  refine skip (q := task.bind fun a => .join (.ret a)) nofun
    (fun _ => rfl) rfl ?_
  refine Follows.bind ht h ?_
  intro a j hj
  exact skip (q := .ret a) nofun (fun _ => rfl) rfl (.ret hj)

/-- A loop whose rounds end at the stage where they begin. -/
protected theorem forEach {κ : Type} {f : κ → Program μ σ Unit} (xs : List κ)
    (hbal : ∀ x, Balanced m false (f x))
    (hf : ∀ x ∈ xs, Follows S (fun _ j => j = i) (f x) i) :
    Follows S (fun _ j => j = i) (forEach xs f) i := by
  induction xs with
  | nil => exact .ret rfl
  | cons x xs ih =>
    refine Follows.bind (hbal x) (hf x List.mem_cons_self) ?_
    rintro - j rfl
    exact ih fun y hy => hf y (List.mem_cons_of_mem x hy)

end Follows

end Program
