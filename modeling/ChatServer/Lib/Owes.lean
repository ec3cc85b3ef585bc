import ChatServer.Lib.Interleave

/-!
# Steps still to come

`Owes m I P p`: whatever the other threads do to the memory, as long as it satisfies `I`,
the code `p` comes to a step of its own that is a `P` step.
-/

namespace Program

variable {μ σ α β : Type} [DecidableEq μ]

inductive Owes (m : μ) (I : σ → Prop) (P : σ → σ → Prop) : Program μ σ α → Prop
  | now {p} (hgo : ∀ a, p ≠ .ret a)
      (h : ∀ s p' s', I s → advance m p s = some (p', s') → P s s') : Owes m I P p
  | later {p} (hgo : ∀ a, p ≠ .ret a)
      (h : ∀ s p' s', I s → advance m p s = some (p', s') → Owes m I P p') : Owes m I P p

namespace Owes

variable {m : μ} {I : σ → Prop} {P : σ → σ → Prop}

theorem not_ret {a : α} : ¬ Owes m I P (.ret a : Program μ σ α) := by
  rintro (⟨hgo, -⟩ | ⟨hgo, -⟩) <;> exact hgo a rfl

/-- A step pays the debt or leaves it. -/
theorem advance {p p' : Program μ σ α} {s s' : σ} (h : Owes m I P p) (hs : I s)
    (hadv : advance m p s = some (p', s')) : P s s' ∨ Owes m I P p' := by
  cases h with
  | now _ h => exact .inl (h s p' s' hs hadv)
  | later _ h => exact .inr (h s p' s' hs hadv)

protected theorem access {f : σ → σ} {k : σ → Program μ σ α} (h : ∀ s, I s → Owes m I P (k s)) :
    Owes m I P (.access f k) := by
  refine .later nofun fun s p' s' hs hadv => ?_
  simp only [Program.advance, Option.some.injEq, Prod.mk.injEq] at hadv
  exact hadv.1 ▸ h s hs

protected theorem bind {p : Program μ σ α} {f : α → Program μ σ β} (hp : Balanced m false p)
    (h : Owes m I P p) : Owes m I P (p.bind f) := by
  induction h with
  | now hgo h =>
    refine .now (bind_ne_ret hgo f) fun s q s' hs hadv => ?_
    obtain ⟨p', hp', -⟩ := advance_bind_of_ne hp hgo f hadv
    exact h s p' s' hs hp'
  | later hgo _ ih =>
    refine .later (bind_ne_ret hgo f) fun s q s' hs hadv => ?_
    obtain ⟨p', hp', rfl⟩ := advance_bind_of_ne hp hgo f hadv
    exact ih s p' s' hs hp' (balanced_advance hp hp')

theorem bind_right {p : Program μ σ α} {f : α → Program μ σ β} (hp : Balanced m false p)
    (h : ∀ a, Owes m I P (f a)) : Owes m I P (p.bind f) := by
  induction p using advance_induction (m := m) with
  | h p ih =>
    by_cases hret : ∃ a, p = .ret a
    · obtain ⟨a, rfl⟩ := hret
      exact h a
    · have hgo : ∀ a, p ≠ .ret a := fun a ha => hret ⟨a, ha⟩
      refine .later (bind_ne_ret hgo f) fun s q s' _ hadv => ?_
      obtain ⟨p', hp', rfl⟩ := advance_bind_of_ne hp hgo f hadv
      exact ih s p' s' hp' (balanced_advance hp hp')

theorem of_section {p : Program μ σ α} (hp : IsSection m p) (h : ∀ s, I s → P s (p.run s).2) :
    Owes m I P p := by
  refine .now ?_ fun s p' s' hs hadv => ?_
  · rw [← bind_ret p]
    exact hp.bind_ne_ret .ret
  · rw [hp.advance] at hadv
    simp only [Option.some.injEq, Prod.mk.injEq] at hadv
    exact hadv.2 ▸ h s hs

protected theorem forEach {ι : Type} {f : ι → Program μ σ Unit} {is : List ι} {i : ι}
    (hi : i ∈ is) (hbal : ∀ i, Balanced m false (f i)) (h : Owes m I P (f i)) :
    Owes m I P (forEach is f) := by
  induction is with
  | nil => cases hi
  | cons j js ih =>
    rcases List.mem_cons.mp hi with rfl | hi
    · exact h.bind (hbal i)
    · exact bind_right (hbal j) fun _ => ih hi

end Owes

end Program
