import ChatServer.Lib.Crew
import Mathlib.Data.DFinsupp.WellFounded
import Mathlib.SetTheory.Ordinal.Family

/-!
# Endings

All code is finite, so a crew that gets nothing new to do comes to rest, however its threads take
turns.
-/

namespace Program

variable {μ σ τ α : Type}

/-! ## The size of code -/

/-- How much is still to run at most, whatever the memory will be. -/
noncomputable def size : Program μ σ α → Ordinal.{0}
  | .ret _ => 0
  | .lock _ p | .unlock _ p | .spawn p | .join p => Order.succ p.size
  | .access _ k => ⨆ s, Order.succ (k s).size

namespace Crew

/-- The threads that have something to run. -/
def busy (c : Crew μ σ τ) : Set τ := {t | c.code t ≠ .ret ()}

theorem mem_busy {c : Crew μ σ τ} {t : τ} : t ∈ c.busy ↔ c.code t ≠ .ret () := Iff.rfl

variable [DecidableEq μ] [DecidableEq τ] {c c' : Crew μ σ τ} {t : τ}

/-- A step runs code of one thread. -/
theorem size_step (hstep : c.step t = some c') :
    (c'.code t).size < (c.code t).size ∧ ∀ u, u ≠ t → c'.code u = c.code u := by
  have hrun {p : Program μ σ Unit} (hp : p.size < (c.code t).size) :
      (Function.update c.code t p t).size < (c.code t).size ∧
        ∀ u, u ≠ t → Function.update c.code t p u = c.code u := by
    rw [Function.update_self]
    exact ⟨hp, fun u hu => Function.update_of_ne hu _ _⟩
  cases stepped hstep with
  | @access f k hcode =>
    apply hrun
    rw [hcode]
    exact (Order.lt_succ _).trans_le (Ordinal.le_iSup (fun s => Order.succ (k s).size) c.mem)
  | lock hcode | unlock hcode | spawn hcode | join hcode =>
    apply hrun
    rw [hcode]
    exact Order.lt_succ _

/-! ## Rest -/

theorem mem_busy_of_step (hstep : c.step t = some c') : t ∈ c.busy := by
  intro hdone
  unfold step at hstep
  rw [hdone] at hstep
  cases hstep

theorem busy_step (hstep : c.step t = some c') : c'.busy ⊆ c.busy := by
  intro u hu
  by_cases hut : u = t
  · subst hut
    exact mem_busy_of_step hstep
  · rwa [mem_busy, (size_step hstep).2 u hut] at hu

/-- **Rest.** Finitely many threads cannot go on forever. -/
theorem comes_to_rest (hfinite : c.busy.Finite) :
    ¬ ∃ run : Nat → Crew μ σ τ, run 0 = c ∧ ∀ i, ∃ t, (run i).step t = some (run (i + 1)) := by
  rintro ⟨run, rfl, hrun⟩
  have hbusy : ∀ i, (run i).busy ⊆ (run 0).busy := by
    intro i
    induction i with
    | zero => exact subset_rfl
    | succ i ih =>
      obtain ⟨t, ht⟩ := hrun i
      exact (busy_step ht).trans ih
  have := hfinite.to_subtype
  let left (i : Nat) (t : (run 0).busy) : Ordinal.{0} := ((run i).code t).size
  have hfall : ∀ i, left (i + 1) < left i := by
    intro i
    obtain ⟨t, ht⟩ := hrun i
    obtain ⟨hself, hother⟩ := size_step ht
    refine Pi.lt_def.mpr ⟨fun u => ?_, ⟨t, hbusy i (mem_busy_of_step ht)⟩, hself⟩
    by_cases hu : u = t
    · change ((run (i + 1)).code u).size ≤ ((run i).code u).size
      rw [hu]
      exact hself.le
    · exact (congrArg size (hother u hu)).le
  exact not_strictAnti_of_wellFoundedLT left (strictAnti_nat_of_succ_lt hfall)

theorem Run.busy_finite {jobs : Set (Program μ σ Unit)} {log : List (Move μ σ τ)}
    (h : Run jobs c log) : c.busy.Finite := by
  induction h with
  | idle s => exact Set.finite_empty.subset fun u hu => absurd rfl hu
  | @call c log t p _ _ _ ih =>
    refine (ih.insert t).subset fun u hu => ?_
    by_cases hut : u = t
    · exact .inl hut
    · refine .inr (mem_busy.mpr fun hdone => hu ?_)
      exact (Function.update_of_ne hut _ _).trans hdone
  | step t _ hstep ih => exact ih.subset (busy_step hstep)

theorem Run.steps {jobs : Set (Program μ σ Unit)} {log : List (Move μ σ τ)} (h : Run jobs c log)
    (hsteps : Relation.ReflTransGen (fun a b : Crew μ σ τ => ∃ t, a.step t = some b) c c') :
    ∃ log', Run jobs c' log' := by
  induction hsteps with
  | refl => exact ⟨log, h⟩
  | tail _ hstep ih =>
    obtain ⟨log', h'⟩ := ih
    obtain ⟨t, ht⟩ := hstep
    exact ⟨_, .step t h' ht⟩

end Crew

end Program
