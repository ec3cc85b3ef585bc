import ChatServer.Deadlock
import ChatServer.Lib.Endings

/-!
# Every call returns

The calls that have begun come to their ends, however the scheduler treats the threads, and
however often the worker of the logger is woken up.
-/

open Program

namespace ChatServer

variable {τ : Type} [DecidableEq τ] {c : Crew Mutex World τ} {log : List (Crew.Move Mutex World τ)}

/-- **Every call returns.** From any state of any run, the threads cannot go on forever without new
calls. When none of them can move any more, all their calls have returned, and every mutex is
free. -/
theorem every_call_returns (h : Crew.Run jobs c log) :
    (¬ ∃ run : Nat → Crew Mutex World τ,
      run 0 = c ∧ ∀ i, ∃ t, (run i).step t = some (run (i + 1))) ∧
    ∀ c', Relation.ReflTransGen (fun a b : Crew Mutex World τ => ∃ t, a.step t = some b) c c' →
      (∀ t, c'.step t = none) → ∀ t, c'.code t = .ret () ∧ ∀ m d, c'.owner m ≠ some (t, d) := by
  refine ⟨Crew.comes_to_rest h.busy_finite, fun c' hsteps hstuck t => ?_⟩
  obtain ⟨log', h'⟩ := h.steps hsteps
  have hdone : c'.code t = .ret () := by
    by_contra hbusy
    obtain ⟨u, c'', hstep⟩ := somebody_moves h' hbusy
    rw [hstuck u] at hstep
    cases hstep
  exact ⟨hdone, (h'.released locks_jobs hdone).2⟩

theorem every_call_returns_cleanup : ∃ (c : Crew Mutex World Nat) (log : List (Crew.Move Mutex World Nat)),
    Crew.Run jobs c log ∧ c.code 0 ≠ .ret () ∧
      ¬ ∃ run : Nat → Crew Mutex World Nat,
        run 0 = c ∧ ∀ i, ∃ t, (run i).step t = some (run (i + 1)) := by
  have hjob : cleanupPass ∈ jobs := .inl ⟨.cleanupPass 0, rfl⟩
  have hrun := Crew.Run.call 0 (.idle (World.init (fun _ => 0) (fun _ => 0) fun _ => [])) rfl hjob
  have hbusy : Function.update (fun _ : Nat => (.ret () : Prog Unit)) 0 cleanupPass 0 ≠ .ret () := by
    rw [Function.update_self]
    exact fun hdone => by cases hdone
  exact ⟨_, _, hrun, hbusy, (every_call_returns hrun).1⟩

end ChatServer
