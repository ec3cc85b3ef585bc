import ChatServer.Discipline

/-!
# No deadlock

Any number of threads that run the handlers, the two loops and the worker of the logger, one
instruction at a time. The tasks of `notify_new_message` run in agents of their own.
-/

open Program

namespace ChatServer

/-! ## The worker of the logger -/

/-- `condition.wait` in `processLogs`, which is woken up `wakeups` times. -/
def waitForLogs : Nat → Prog Unit
  | 0 => pure ()
  | wakeups + 1 => .unlock .queueMutex (.lock .queueMutex (waitForLogs wakeups))

/-- One round of the loop of `processLogs`, without the queue and the file. -/
def processLogs (wakeups : Nat) : Prog Unit := withLock .queueMutex (waitForLogs wakeups)

/-- What the threads of the server run. -/
def jobs : Set (Prog Unit) := {p | (∃ c : Call, p = c.code) ∨ ∃ wakeups, p = processLogs wakeups}

theorem ordered_waitForLogs (wakeups : Nat) (held : List (Mutex × Nat)) (d : Nat)
    (hheld : ∀ h ∈ held, h.1.rank < 2) : Ordered Mutex.rank ((.queueMutex, d) :: held, d)
      ((.queueMutex, d) :: held, d) (waitForLogs wakeups) := by
  induction wakeups with
  | zero => rfl
  | succ k ih => exact ⟨held, rfl, hheld, ih⟩

theorem locks_processLogs (wakeups : Nat) : LocksFrom Mutex.rank 0 (processLogs wakeups) := by
  intro held d hheld
  have hbelow : ∀ h ∈ held, h.1.rank < 2 := fun h hh => absurd (hheld h hh).1 (Nat.not_lt_zero _)
  exact ⟨hbelow, (ordered_waitForLogs wakeups held d hbelow).bind fun _ => ⟨held, rfl, rfl⟩⟩

theorem locks_jobs : ∀ p ∈ jobs, LocksFrom Mutex.rank 0 p := by
  rintro p (⟨c, rfl⟩ | ⟨wakeups, rfl⟩)
  · exact (tame_call c).locks
  · exact locks_processLogs wakeups

/-! ## Any interleaving -/

section Crew

variable {τ : Type} [DecidableEq τ] {c : Crew Mutex World τ} {log : List (Crew.Move Mutex World τ)}

/-- **No deadlock.** In any state of any run, nobody waits in a circle, nobody takes a mutex that it
or someone who waits for it holds, and who is done has given back all. -/
theorem no_deadlock (h : Crew.Run jobs c log) :
    (∀ a, ¬ Relation.TransGen c.Waits a a) ∧
    (∀ t m p d, c.code t = .lock m p → c.owner m ≠ some (t, d)) ∧
    ∀ t, c.code t = .ret () → c.depth t = 0 ∧ ∀ m d, c.owner m ≠ some (t, d) :=
  ⟨h.no_circle locks_jobs, fun _ _ _ d hcode => h.not_again locks_jobs hcode d,
    fun _ hcode => h.released locks_jobs hcode⟩

/-- **Progress.** Unless all threads are done, one of them can move. -/
theorem somebody_moves (h : Crew.Run jobs c log) {t : τ} (hbusy : c.code t ≠ .ret ()) :
    ∃ u c', c.step u = some c' :=
  h.progress (n := 3) locks_jobs (fun m => by cases m <;> decide) hbusy

end Crew

/-- Two cleanup passes, one of which waits for the other. -/
theorem no_deadlock_two : ∃ (c : Crew Mutex World Nat) (log : List (Crew.Move Mutex World Nat)),
    Crew.Run jobs c log ∧ c.Waits (1, 0) (0, 0) ∧ (∀ a, ¬ Relation.TransGen c.Waits a a) ∧
      (∀ t m p d, c.code t = .lock m p → c.owner m ≠ some (t, d)) ∧
      ∀ t, c.code t = .ret () → c.depth t = 0 ∧ ∀ m d, c.owner m ≠ some (t, d) := by
  have hjob : cleanupPass ∈ jobs := .inl ⟨.cleanupPass 0, rfl⟩
  have hrun := Crew.Run.call 1 (.step 0 (.call 0 (.idle (World.init (fun _ => 0) (fun _ => 0)
    fun _ => [])) rfl hjob) rfl) rfl hjob
  exact ⟨_, _, hrun, .mutex (t := 1) (m := .connectionsMutex) rfl rfl, no_deadlock hrun⟩

end ChatServer
