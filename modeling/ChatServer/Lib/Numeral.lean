import Mathlib.Order.Monotone.Defs
import Mathlib.Order.Nat

/-!
# Numerals

A numeral without leading zeros gets no shorter when its value grows, and it has one value. So two
numerals in a row can be told apart without a separator, if both values only grow.
-/

namespace Numeral

variable {γ : Type} {b : Nat}

/-! ## Two strings in a row -/

theorem append_inj_of_le {s s' t t' : List γ} (hs : s.length ≤ s'.length) (ht : t.length ≤ t'.length)
    (h : s ++ t = s' ++ t') : s = s' ∧ t = t' := by
  have hlen := congrArg List.length h
  rw [List.length_append, List.length_append] at hlen
  apply List.append_inj h
  omega

/-- The strings of a sequence are different if their first parts never get shorter and their second
parts grow. -/
theorem nodup_append {α β : Type} [Preorder α] [Preorder β] {f : α → List γ} {g : β → List γ}
    (hf : Monotone fun a => (f a).length) (hg : Monotone fun b => (g b).length)
    (hinj : Function.Injective g) {l : List (α × β)}
    (hl : l.Pairwise fun p q => q.1 ≤ p.1 ∧ q.2 < p.2) : (l.map fun p => f p.1 ++ g p.2).Nodup := by
  unfold List.Nodup
  rw [List.pairwise_map]
  apply hl.imp
  rintro p q ⟨hle, hlt⟩ heq
  obtain ⟨-, hg'⟩ := append_inj_of_le (hf hle) (hg hlt.le) heq.symm
  exact hlt.ne (hinj hg')

/-! ## Digits -/

/-- The last digit comes off the end. -/
theorem toDigits_eq (hb : 1 < b) (n : Nat) :
    Nat.toDigits b n = (if n < b then [] else Nat.toDigits b (n / b)) ++ [Nat.digitChar (n % b)] := by
  rw [Nat.toDigits_eq_if hb]
  split
  · rename_i hn
    rw [Nat.mod_eq_of_lt hn, List.nil_append]
  · rfl

theorem length_toDigits_mono (hb : 1 < b) : Monotone fun n => (Nat.toDigits b n).length := by
  intro m n hmn
  have hpos : 0 < (Nat.toDigits b n).length := Nat.length_toDigits_pos
  have hn : n < b ^ (Nat.toDigits b n).length := (Nat.length_toDigits_le_iff hb hpos).mp le_rfl
  exact (Nat.length_toDigits_le_iff hb hpos).mpr (hmn.trans_lt hn)

/-- A numeral has one value, however its digits are written, if no two of them are written alike. -/
theorem map_toDigits_injective (hb : 1 < b) {f : Char → γ}
    (hf : ∀ d < b, ∀ e < b, f (Nat.digitChar d) = f (Nat.digitChar e) → d = e) :
    Function.Injective fun n => (Nat.toDigits b n).map f := by
  intro m n h
  induction m using Nat.strong_induction_on generalizing n with
  | _ m ih =>
    dsimp only at h
    rw [toDigits_eq hb m, toDigits_eq hb n, List.map_append, List.map_append] at h
    obtain ⟨hinit, hlast⟩ := List.append_inj' h rfl
    have hmod : m % b = n % b :=
      hf _ (Nat.mod_lt m (by omega)) _ (Nat.mod_lt n (by omega)) (List.singleton_inj.mp hlast)
    split at hinit
    · rename_i hm
      split at hinit
      · rename_i hn
        rwa [Nat.mod_eq_of_lt hm, Nat.mod_eq_of_lt hn] at hmod
      · exact absurd (List.map_eq_nil_iff.mp hinit.symm) Nat.toDigits_ne_nil
    · rename_i hm
      split at hinit
      · exact absurd (List.map_eq_nil_iff.mp hinit) Nat.toDigits_ne_nil
      · have hdiv : m / b = n / b := ih (m / b) (Nat.div_lt_self (by omega) hb) hinit
        rw [← Nat.div_add_mod m b, ← Nat.div_add_mod n b, hdiv, hmod]

end Numeral
