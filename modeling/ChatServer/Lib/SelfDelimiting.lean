import Mathlib.Data.List.Basic

/-!
# Self-delimiting codes

The words of such a code say where they end. A string of words then has one reading, and whoever
has seen a part of the string has seen a part of that reading.
-/

structure SelfDelimiting {α β : Type} (encode : α → List β) : Prop where
  ne_nil : ∀ a, encode a ≠ []
  inj : ∀ {a b s t}, encode a ++ s = encode b ++ t → a = b ∧ s = t

namespace SelfDelimiting

variable {α β : Type} {encode : α → List β}

theorem of_flatMap_append (h : SelfDelimiting encode) {as bs : List α} {s : List β}
    (heq : as.flatMap encode ++ s = bs.flatMap encode) :
    ∃ cs, bs = as ++ cs ∧ s = cs.flatMap encode := by
  induction as generalizing bs with
  | nil => exact ⟨bs, rfl, heq⟩
  | cons a as ih =>
    rw [List.flatMap_cons, List.append_assoc] at heq
    cases bs with
    | nil => exact absurd (List.append_eq_nil_iff.mp heq).1 (h.ne_nil a)
    | cons b bs =>
      rw [List.flatMap_cons] at heq
      obtain ⟨rfl, hrest⟩ := h.inj heq
      obtain ⟨cs, rfl, hs⟩ := ih hrest
      exact ⟨cs, rfl, hs⟩

/-- What a reader has made out of a part is the beginning of what was written. -/
theorem isPrefix_of_flatMap (h : SelfDelimiting encode) {as bs : List α}
    (hpre : as.flatMap encode <+: bs.flatMap encode) : as <+: bs := by
  obtain ⟨s, hs⟩ := hpre
  obtain ⟨cs, rfl, -⟩ := h.of_flatMap_append hs
  exact List.prefix_append as cs

end SelfDelimiting
