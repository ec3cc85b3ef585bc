import Mathlib.Data.List.Basic

/-!
# Byte codecs

A codec takes one value off the front of a byte string. Its law goes both ways: it reads
exactly the encodings of the values that fit, and gives back what follows them.
-/

/-- An encoder, its decoder, and the values for which the encoding can be read back. -/
structure Codec (α : Type) where
  fits : α → Prop
  encode : α → List UInt8
  decode : List UInt8 → Option (α × List UInt8)
  law : ∀ bs a rest, decode bs = some (a, rest) ↔ fits a ∧ bs = encode a ++ rest

namespace Codec

variable {α β : Type}

/-- The decoder for a byte string that is one encoding and nothing else. -/
def decodeAll (c : Codec α) (bs : List UInt8) : Option α :=
  match c.decode bs with
  | some (a, []) => some a
  | _ => none

theorem decodeAll_eq_some (c : Codec α) (bs : List UInt8) (a : α) :
    c.decodeAll bs = some a ↔ c.fits a ∧ bs = c.encode a := by
  have hlaw := c.law bs a []
  rw [List.append_nil] at hlaw
  rw [← hlaw]
  unfold decodeAll
  split
  · rename_i b h
    simp [h]
  · rename_i hne
    constructor
    · simp
    · intro h
      exact absurd h (hne a)

/-! ## The building blocks -/

def byte : Codec UInt8 where
  fits _ := True
  encode b := [b]
  decode
    | [] => none
    | b :: rest => some (b, rest)
  law bs b rest := by
    cases bs with
    | nil => simp
    | cons c cs => simp

theorem toNat_ofNat_of_lt {n : Nat} (h : n < 256) : (UInt8.ofNat n).toNat = n := by
  simpa using h

def string8 : Codec (List UInt8) where
  fits s := s.length < 256
  encode s := UInt8.ofNat s.length :: s
  decode
    | [] => none
    | n :: rest => if n.toNat ≤ rest.length then some (rest.take n.toNat, rest.drop n.toNat) else none
  law bs s rest := by
    cases bs with
    | nil => simp
    | cons n cs =>
      simp only [Option.ite_none_right_eq_some, Option.some.injEq, Prod.mk.injEq, List.cons_append,
        List.cons.injEq]
      constructor
      · rintro ⟨hle, rfl, rfl⟩
        have hlen : (cs.take n.toNat).length = n.toNat := by simp [hle]
        refine ⟨by rw [hlen]; exact n.toNat_lt, ?_, by simp⟩
        rw [hlen]
        simp
      · rintro ⟨hlt, rfl, rfl⟩
        rw [toNat_ofNat_of_lt hlt]
        simp

def prod (c : Codec α) (d : Codec β) : Codec (α × β) where
  fits p := c.fits p.1 ∧ d.fits p.2
  encode p := c.encode p.1 ++ d.encode p.2
  decode bs := do
    let (a, bs) ← c.decode bs
    let (b, bs) ← d.decode bs
    pure ((a, b), bs)
  law bs p rest := by
    obtain ⟨a, b⟩ := p
    simp only [Option.bind_eq_bind, Option.bind_eq_some_iff, Option.pure_def, Option.some.injEq,
      Prod.mk.injEq, Prod.exists, c.law, d.law]
    constructor
    · rintro ⟨_, _, ⟨ha, rfl⟩, _, _, ⟨hb, rfl⟩, ⟨rfl, rfl⟩, rfl⟩
      exact ⟨⟨ha, hb⟩, by simp⟩
    · rintro ⟨⟨ha, hb⟩, rfl⟩
      exact ⟨a, d.encode b ++ rest, ⟨ha, by simp⟩, b, rest, ⟨hb, rfl⟩, ⟨rfl, rfl⟩, rfl⟩

def decodeTimes (c : Codec α) : Nat → List UInt8 → Option (List α × List UInt8)
  | 0, bs => some ([], bs)
  | n + 1, bs => do
    let (a, bs) ← c.decode bs
    let (as, bs) ← decodeTimes c n bs
    pure (a :: as, bs)

theorem decodeTimes_eq_some (c : Codec α) (n : Nat) (bs : List UInt8) (as : List α)
    (rest : List UInt8) : c.decodeTimes n bs = some (as, rest) ↔
      as.length = n ∧ (∀ a ∈ as, c.fits a) ∧ bs = as.flatMap c.encode ++ rest := by
  induction n generalizing bs as rest with
  | zero =>
    simp only [decodeTimes, Option.some.injEq, Prod.mk.injEq, List.length_eq_zero_iff]
    constructor
    · rintro ⟨rfl, rfl⟩
      simp
    · rintro ⟨rfl, -, rfl⟩
      simp
  | succ n ih =>
    simp only [decodeTimes, Option.bind_eq_bind, Option.bind_eq_some_iff, Option.pure_def,
      Option.some.injEq, Prod.mk.injEq, Prod.exists, c.law, ih]
    constructor
    · rintro ⟨a, _, ⟨ha, rfl⟩, as, _, ⟨rfl, has, rfl⟩, rfl, rfl⟩
      exact ⟨rfl, by simpa using ⟨ha, has⟩, by simp⟩
    · rintro ⟨hlen, has, rfl⟩
      cases as with
      | nil => simp at hlen
      | cons a as =>
        simp only [List.length_cons, Nat.add_right_cancel_iff, List.forall_mem_cons] at hlen has
        exact ⟨a, _, ⟨has.1, by simp⟩, as, rest, ⟨hlen, has.2, rfl⟩, rfl, rfl⟩

/-- One count byte, then that many values. -/
def list8 (c : Codec α) : Codec (List α) where
  fits as := as.length < 256 ∧ ∀ a ∈ as, c.fits a
  encode as := UInt8.ofNat as.length :: as.flatMap c.encode
  decode
    | [] => none
    | n :: rest => c.decodeTimes n.toNat rest
  law bs as rest := by
    cases bs with
    | nil => simp
    | cons n cs =>
      simp only [decodeTimes_eq_some, List.cons_append, List.cons.injEq]
      constructor
      · rintro ⟨hlen, has, rfl⟩
        refine ⟨⟨by rw [hlen]; exact n.toNat_lt, has⟩, ?_, rfl⟩
        rw [hlen]
        simp
      · rintro ⟨⟨hlt, has⟩, rfl, rfl⟩
        exact ⟨(toNat_ofNat_of_lt hlt).symm, has, rfl⟩

/-- A byte string cut short of, or longer than, what its count byte says is no `list8`. -/
theorem list8_decodeAll_of_length (c : Codec α) {n : UInt8} {as : List α}
    (has : ∀ a ∈ as, c.fits a) (hne : ∀ a, c.encode a ≠ []) (hlen : n.toNat < as.length) :
    c.list8.decodeAll (n :: as.flatMap c.encode) = none := by
  by_contra h
  obtain ⟨bs, hbs⟩ := Option.ne_none_iff_exists'.mp h
  rw [decodeAll_eq_some] at hbs
  obtain ⟨⟨hlt, hfit⟩, heq⟩ := hbs
  simp only [list8, List.cons.injEq] at heq
  obtain ⟨hn, hflat⟩ := heq
  have hbn : bs.length = n.toNat := by rw [hn, toNat_ofNat_of_lt hlt]
  -- Reading `bs.length` values off both sides leaves nothing on one and something on the other.
  have hl := (c.decodeTimes_eq_some bs.length (bs.flatMap c.encode) bs []).mpr ⟨rfl, hfit, by simp⟩
  have hr := (c.decodeTimes_eq_some bs.length (as.flatMap c.encode) (as.take bs.length)
    ((as.drop bs.length).flatMap c.encode)).mpr
    ⟨by simp; omega, fun a ha => has a (List.mem_of_mem_take ha), by
      rw [← List.flatMap_append, List.take_append_drop]⟩
  rw [hflat, hl] at hr
  simp only [Option.some.injEq, Prod.mk.injEq] at hr
  have hnil := hr.2.symm
  rw [List.flatMap_eq_nil_iff] at hnil
  have hpos : 0 < (as.drop bs.length).length := by simp; omega
  obtain ⟨a, rest, hcons⟩ := List.exists_cons_of_length_pos hpos
  exact hne a (hnil a (by rw [hcons]; exact List.mem_cons_self))

end Codec
