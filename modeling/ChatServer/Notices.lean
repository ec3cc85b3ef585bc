import ChatServer.Deadlock

/-!
# The order of notifications

The 53, 54 and 55 frames of a run in which the threads move one instruction at a time. A
notification goes by the number of the move that takes `connections_mutex` for it.
-/

open Program

namespace ChatServer

variable {τ : Type}

abbrev Step (τ : Type) := Crew.Move Mutex World τ

namespace Step

/-- What the server did in the step. -/
def news (s : Step τ) : List Event := s.after.mem.trace.drop s.before.mem.trace.length

/-- The thread takes `connections_mutex`. -/
def takesConnections (s : Step τ) : Bool := (s.before.code s.thread).takes .connectionsMutex

end Step

/-! ## Notifications and their frames -/

def Event.noticeTo (c : Conn) : Event → Bool
  | .sendBinary conn payload => conn = c && Event.notifies (.sendBinary conn payload)
  | _ => false

/-- The number of the last step that took `connections_mutex`. -/
def newest : List (Step τ) → Option Nat
  | [] => none
  | s :: log => if s.takesConnections then some log.length else newest log

theorem newest_lt {log : List (Step τ)} {k : Nat} (h : newest log = some k) : k < log.length := by
  induction log with
  | nil => cases h
  | cons s log ih =>
    unfold newest at h
    split at h
    · obtain rfl := Option.some.inj h
      exact Nat.lt_succ_self _
    · exact (ih h).trans (Nat.lt_succ_self _)

variable [DecidableEq τ]

/-- The last step in which `t` took `connections_mutex`, and its number. -/
def lastTaken (t : τ) : List (Step τ) → Option (Nat × Step τ)
  | [] => none
  | s :: log => if s.thread = t ∧ s.takesConnections then some (log.length, s) else lastTaken t log

/-- The notifications that `c` was sent a frame of, in the order of the frames. -/
def told (c : Conn) : List (Step τ) → List Nat
  | [] => []
  | s :: log => told c log ++
    (s.news.filter (Event.noticeTo c)).filterMap fun _ => (lastTaken s.thread log).map (·.1)

def SentBefore (e f : Nat) (notices : List Nat) : Prop :=
  ∃ i j : Nat, i < j ∧ notices[i]? = some e ∧ notices[j]? = some f

/-- Each frame is part of a notification, and any two clients are sent the notifications that both
are sent in the same order. -/
structure OneOrder (log : List (Step τ)) : Prop where
  /-- Who sends a frame has taken `connections_mutex` for a notification, and still holds it. -/
  within : ∀ newer s older, log = newer ++ s :: older → (∃ e ∈ s.news, e.notifies) →
    ∃ k s', lastTaken s.thread older = some (k, s') ∧ StartsNotification (s'.before.code s'.thread) ∧
      ∃ d, s.before.owner .connectionsMutex = some (s.thread, d)
  agreed : ∀ c d e f, e ≠ f → e ∈ told c log → f ∈ told c log → e ∈ told d log → f ∈ told d log →
    (SentBefore e f (told c log) ↔ SentBefore e f (told d log))

theorem sentBefore_iff {notices : List Nat} (hsorted : notices.Pairwise (· ≤ ·)) {e f : Nat}
    (hne : e ≠ f) (he : e ∈ notices) (hf : f ∈ notices) : SentBefore e f notices ↔ e < f := by
  have hle : ∀ {x y i j : Nat}, i < j → notices[i]? = some x → notices[j]? = some y → x ≤ y := by
    intro x y i j hij hx hy
    obtain ⟨hi, rfl⟩ := List.getElem?_eq_some_iff.mp hx
    obtain ⟨hj, rfl⟩ := List.getElem?_eq_some_iff.mp hy
    exact List.pairwise_iff_getElem.mp hsorted i j hi hj hij
  constructor
  · rintro ⟨i, j, hij, hi, hj⟩
    exact lt_of_le_of_ne (hle hij hi hj) hne
  · intro hlt
    obtain ⟨i, hi⟩ := List.mem_iff_getElem?.mp he
    obtain ⟨j, hj⟩ := List.mem_iff_getElem?.mp hf
    refine ⟨i, j, ?_, hi, hj⟩
    by_contra hij
    rcases (not_lt.mp hij).lt_or_eq with hji | rfl
    · exact absurd (hle hji hj hi) (not_le.mpr hlt)
    · exact hne (Option.some.inj (hi.symm.trans hj))

/-! ## Who speaks -/

/-- Where `t` is with its notifications: if it is within one, it holds `connections_mutex` and has
taken it for that. -/
def Speaking (c : Crew Mutex World τ) (log : List (Step τ)) (t : τ) : Prop :=
  ∃ inside, Speaks inside (c.code t) ∧ (inside = true →
    (∃ d, c.owner .connectionsMutex = some (t, d)) ∧
    ∃ k s, lastTaken t log = some (k, s) ∧ StartsNotification (s.before.code s.thread))

structure Settled (c : Crew Mutex World τ) (log : List (Step τ)) : Prop where
  speaking : ∀ t, Speaking c log t
  /-- Who holds `connections_mutex` took it last. -/
  current : ∀ t d, c.owner .connectionsMutex = some (t, d) →
    (lastTaken t log).map (·.1) = newest log
  sorted : ∀ conn, (told conn log).Pairwise (· ≤ ·)
  bounded : ∀ conn, ∀ k ∈ told conn log, ∃ k', newest log = some k' ∧ k ≤ k'

theorem told_silent {s : Step τ} (hnews : s.news = []) (conn : Conn) (log : List (Step τ)) :
    told conn (s :: log) = told conn log := by
  rw [told, hnews, List.filter_nil, List.filterMap_nil, List.append_nil]

theorem lastTaken_other {s : Step τ} (h : s.takesConnections = false) (t : τ)
    (log : List (Step τ)) : lastTaken t (s :: log) = lastTaken t log := by
  rw [lastTaken, if_neg (by simp [h])]

omit [DecidableEq τ] in
theorem newest_other {s : Step τ} (h : s.takesConnections = false) (log : List (Step τ)) :
    newest (s :: log) = newest log := by
  rw [newest, if_neg (by simp [h])]

omit [DecidableEq τ] in
theorem Step.news_eq_nil {s : Step τ} (h : s.after.mem = s.before.mem) : s.news = [] := by
  unfold Step.news
  rw [h, List.drop_length]

theorem speaks_news {c c' : Crew Mutex World τ} {t : τ} {inside : Bool}
    (hspeaks : Speaks inside (c.code t)) (hstep : c.step t = some c') :
    ∀ e ∈ Step.news ⟨t, c, c'⟩, e.notifies → inside = true := by
  cases Crew.stepped hstep with
  | access hcode =>
    rw [hcode] at hspeaks
    exact (hspeaks c.mem).1
  | lock | unlock | spawn | join =>
    rw [Step.news_eq_nil rfl]
    exact nofun

namespace Settled

variable {c c' : Crew Mutex World τ} {log : List (Step τ)} {t : τ}

/-- A step that leaves `connections_mutex` alone, and sends a frame only within a notification. -/
theorem keep (h : Settled c log) (hstep : c.step t = some c')
    (htakes : Step.takesConnections ⟨t, c, c'⟩ = false)
    (howner : c'.owner .connectionsMutex = c.owner .connectionsMutex)
    {p : Prog Unit} (hcode' : c'.code = Function.update c.code t p)
    (hself : ∀ inside, Speaks inside (c.code t) → Speaks inside p) :
    Settled c' (⟨t, c, c'⟩ :: log) := by
  obtain ⟨inside, hspeaks, hinside⟩ := h.speaking t
  -- All frames of the step belong to the newest notification.
  have hmine : ∀ conn, ∀ k ∈ ((Step.news ⟨t, c, c'⟩).filter (Event.noticeTo conn)).filterMap
      (fun _ => (lastTaken t log).map (·.1)), newest log = some k := by
    intro conn k hk
    obtain ⟨e, he, heq⟩ := List.mem_filterMap.mp hk
    obtain ⟨hmem, hnotice⟩ := List.mem_filter.mp he
    have hnotifies : e.notifies := by
      cases e with
      | sendBinary conn' payload => exact (Bool.and_eq_true _ _ ▸ hnotice).2
      | _ => cases hnotice
    obtain ⟨⟨d, hd⟩, -⟩ := hinside (speaks_news hspeaks hstep e hmem hnotifies)
    rw [← h.current t d hd, heq]
  refine ⟨fun u => ?_, fun u d hu => ?_, fun conn => ?_, fun conn k hk => ?_⟩
  · unfold Speaking
    rw [howner, lastTaken_other htakes, hcode']
    by_cases hut : u = t
    · subst hut
      rw [Function.update_self]
      exact ⟨inside, hself inside hspeaks, hinside⟩
    · rw [Function.update_of_ne hut]
      exact h.speaking u
  · rw [lastTaken_other htakes, newest_other htakes]
    exact h.current u d (howner ▸ hu)
  · refine List.pairwise_append.mpr ⟨h.sorted conn, ?_, fun k hk k' hk' => ?_⟩
    · apply List.pairwise_of_forall_mem_list
      intro k hk k' hk'
      exact (Option.some.inj ((hmine conn k hk).symm.trans (hmine conn k' hk'))).le
    · obtain ⟨k₁, hk₁, hle⟩ := h.bounded conn k hk
      rw [hmine conn k' hk', Option.some.injEq] at hk₁
      exact hk₁ ▸ hle
  · rw [newest_other htakes]
    rcases List.mem_append.mp hk with hk | hk
    · exact h.bounded conn k hk
    · exact ⟨k, hmine conn k hk, le_rfl⟩

/-- Nobody is within a notification while nobody, or another thread, holds `connections_mutex`. -/
theorem outside (h : Settled c log) {u : τ} (hno : ∀ d, c.owner .connectionsMutex ≠ some (u, d)) :
    Speaks false (c.code u) := by
  obtain ⟨inside, hspeaks, hinside⟩ := h.speaking u
  cases inside with
  | false => exact hspeaks
  | true =>
    obtain ⟨⟨d, hd⟩, -⟩ := hinside rfl
    exact absurd hd (hno d)

theorem take (h : Settled c log) {p : Prog Unit} (hcode : c.code t = .lock .connectionsMutex p)
    (hfree : c.owner .connectionsMutex = none) (hcode' : c'.code = Function.update c.code t p)
    (howner : c'.owner .connectionsMutex = some (t, c.depth t)) (hmem : c'.mem = c.mem) :
    Settled c' (⟨t, c, c'⟩ :: log) := by
  have htakes : Step.takesConnections ⟨t, c, c'⟩ = true := by
    unfold Step.takesConnections
    rw [hcode]
    rfl
  have hsilent : Step.news ⟨t, c, c'⟩ = [] := Step.news_eq_nil hmem
  have hlast : lastTaken t (⟨t, c, c'⟩ :: log) = some (log.length, ⟨t, c, c'⟩) := by
    unfold lastTaken
    rw [if_pos ⟨rfl, htakes⟩]
  have hnewest : newest (⟨t, c, c'⟩ :: log) = some log.length := by
    unfold newest
    rw [if_pos htakes]
  refine ⟨fun u => ?_, fun u d hu => ?_, fun conn => ?_, fun conn k hk => ?_⟩
  · by_cases hut : u = t
    · subst hut
      have hspeaks := h.outside (u := u) fun d => by simp [hfree]
      rw [hcode] at hspeaks
      unfold Speaking
      rw [hcode', Function.update_self]
      unfold Speaks at hspeaks
      rw [if_pos rfl] at hspeaks
      rcases hspeaks with hquiet | ⟨hstart, hloud⟩
      · exact ⟨false, hquiet, by simp⟩
      · refine ⟨true, hloud, fun _ => ⟨⟨_, howner⟩, _, _, hlast, ?_⟩⟩
        rw [hcode]
        exact hstart
    · unfold Speaking
      rw [hcode', Function.update_of_ne hut]
      exact ⟨false, h.outside fun d => by simp [hfree], by simp⟩
  · rw [howner, Option.some.injEq, Prod.mk.injEq] at hu
    rw [← hu.1, hlast, hnewest]
    rfl
  · rw [told_silent hsilent]
    exact h.sorted conn
  · rw [told_silent hsilent] at hk
    obtain ⟨k', hk', hle⟩ := h.bounded conn k hk
    exact ⟨_, hnewest, hle.trans (newest_lt hk').le⟩

theorem giveBack (h : Settled c log) {p : Prog Unit} (hcode : c.code t = .unlock .connectionsMutex p)
    {d : Nat} (hheld : c.owner .connectionsMutex = some (t, d))
    (hcode' : c'.code = Function.update c.code t p) (howner : c'.owner .connectionsMutex = none)
    (hmem : c'.mem = c.mem) : Settled c' (⟨t, c, c'⟩ :: log) := by
  have htakes : Step.takesConnections ⟨t, c, c'⟩ = false := by
    unfold Step.takesConnections
    rw [hcode]
    rfl
  have hsilent : Step.news ⟨t, c, c'⟩ = [] := Step.news_eq_nil hmem
  refine ⟨fun u => ?_, fun u d hu => ?_, fun conn => ?_, fun conn k hk => ?_⟩
  · refine ⟨false, ?_, nofun⟩
    rw [hcode']
    by_cases hut : u = t
    · subst hut
      obtain ⟨inside, hspeaks, -⟩ := h.speaking u
      rw [hcode] at hspeaks
      simpa [Speaks] using hspeaks
    · rw [Function.update_of_ne hut]
      refine h.outside fun d' hd' => hut ?_
      rw [hheld, Option.some.injEq, Prod.mk.injEq] at hd'
      exact hd'.1.symm
  · rw [howner] at hu
    cases hu
  · rw [told_silent hsilent]
    exact h.sorted conn
  · rw [told_silent hsilent] at hk
    rw [newest_other htakes]
    exact h.bounded conn k hk

theorem step (h : Settled c log) (hdisc : ∀ u, ∃ held, Disciplined Mutex.rank c u held)
    (hstep : c.step t = some c') : Settled c' (⟨t, c, c'⟩ :: log) := by
  cases Crew.stepped hstep with
  | @lock m p hcode hfree =>
    by_cases hm : m = .connectionsMutex
    · subst hm
      exact h.take hcode hfree rfl (by simp) rfl
    · refine h.keep hstep ?_ (Function.update_of_ne (Ne.symm hm) _ _) rfl fun inside hspeaks => ?_
      · simp [Step.takesConnections, hcode, Program.takes, hm]
      · rw [hcode] at hspeaks
        unfold Speaks at hspeaks
        rw [if_neg hm] at hspeaks
        exact hspeaks
  | @unlock m p hcode =>
    obtain ⟨held, ht⟩ := hdisc t
    have hordered := ht.ordered
    rw [hcode] at hordered
    obtain ⟨rest, hheld, -⟩ := hordered
    have howner := (ht.owns m _).mpr (hheld ▸ List.mem_cons_self)
    by_cases hm : m = .connectionsMutex
    · subst hm
      exact h.giveBack hcode howner rfl (by simp) rfl
    · refine h.keep hstep ?_ (Function.update_of_ne (Ne.symm hm) _ _) rfl fun inside hspeaks => ?_
      · simp [Step.takesConnections, hcode, Program.takes]
      · rw [hcode] at hspeaks
        simpa [Speaks, hm] using hspeaks
  | access hcode =>
    refine h.keep hstep ?_ rfl rfl fun inside hspeaks => ?_
    · simp [Step.takesConnections, hcode, Program.takes]
    · rw [hcode] at hspeaks
      exact (hspeaks c.mem).2
  | spawn hcode | join hcode =>
    refine h.keep hstep ?_ rfl rfl fun inside hspeaks => ?_
    · simp [Step.takesConnections, hcode, Program.takes]
    · rw [hcode] at hspeaks
      exact hspeaks

end Settled

theorem speaks_waitForLogs (wakeups : Nat) : Speaks false (waitForLogs wakeups) := by
  induction wakeups with
  | zero => trivial
  | succ k ih => simpa [waitForLogs, Speaks] using ih

theorem speaks_jobs : ∀ p ∈ jobs, Speaks false p := by
  rintro p (⟨c, rfl⟩ | ⟨wakeups, rfl⟩)
  · exact (tame_call c).speaks
  · unfold processLogs withLock Speaks
    rw [if_neg (by decide)]
    exact (speaks_waitForLogs wakeups).bind fun _ => trivial

theorem settled_of_run {c : Crew Mutex World τ} {log : List (Step τ)} (h : Crew.Run jobs c log) :
    Settled c log := by
  induction h with
  | idle s => exact ⟨fun t => ⟨false, trivial, nofun⟩, nofun, fun _ => .nil, nofun⟩
  | @call c log t p hrun hidle hp ih =>
    refine ⟨fun u => ?_, ih.current, ih.sorted, ih.bounded⟩
    by_cases hut : u = t
    · subst hut
      have hcode : (c.call u p).code u = p := Function.update_self _ _ _
      refine ⟨false, ?_, nofun⟩
      rw [hcode]
      exact speaks_jobs p hp
    · have hcode : (c.call t p).code u = c.code u := Function.update_of_ne hut _ _
      unfold Speaking
      rw [hcode]
      exact ih.speaking u
  | step t hrun hstep ih => exact ih.step (hrun.disciplined locks_jobs) hstep

/-- **One order.** In every run, all clients are sent the notifications that they are sent in the
order in which these have taken `connections_mutex`. -/
theorem one_order {c : Crew Mutex World τ} {log : List (Step τ)} (h : Crew.Run jobs c log) :
    OneOrder log where
  within := by
    rintro newer s older rfl ⟨e, he, hnotifies⟩
    obtain ⟨hrun, hstep⟩ := h.upTo
    obtain ⟨inside, hspeaks, hinside⟩ := (settled_of_run hrun).speaking s.thread
    obtain ⟨hholds, k, s', hlast, hstart⟩ := hinside (speaks_news hspeaks hstep e he hnotifies)
    exact ⟨k, s', hlast, hstart, hholds⟩
  agreed c d e f hne hce hcf hde hdf := by
    have hsorted := (settled_of_run h).sorted
    rw [sentBefore_iff (hsorted c) hne hce hcf, sentBefore_iff (hsorted d) hne hde hdf]

/-- Two users come, and each of them writes to all. -/
def twoVoices : Crew Mutex World Nat × List (Step Nat) :=
  (List.replicate 60 0 ++ List.replicate 60 1 ++ List.replicate 60 2 ++
    List.replicate 60 3).foldl Crew.tryStep
    ((Crew.idle (World.init (fun _ => 0) (fun _ => 0) fun _ => [])
      |>.call 0 (onOpen 1 (ascii "a"))
      |>.call 1 (onOpen 2 (ascii "b"))
      |>.call 2 (onMessage 1 (4 :: pushString8 generalChat ++ pushString8 (ascii "x")) true)
      |>.call 3 (onMessage 2 (4 :: pushString8 generalChat ++ pushString8 (ascii "y")) true)), [])

theorem one_order_two : ∃ c log, Crew.Run jobs c log ∧ (told (τ := Nat) 1 log).length = 3 ∧
    told 2 log = (told 1 log).drop 1 ∧ OneOrder log := by
  have hjob : ∀ c : Call, c.code ∈ jobs := fun c => .inl ⟨c, rfl⟩
  have hrun : Crew.Run jobs twoVoices.1 twoVoices.2 := by
    refine .schedule (.call 3 (.call 2 (.call 1 (.call 0 (.idle _) rfl ?_) rfl ?_) rfl ?_) rfl ?_) _
    · exact hjob (.onOpen 1 (ascii "a"))
    · exact hjob (.onOpen 2 (ascii "b"))
    · exact hjob (.onMessage 1 _ true)
    · exact hjob (.onMessage 2 _ true)
  exact ⟨_, _, hrun, by decide +kernel, by decide +kernel, one_order hrun⟩

end ChatServer
