import Mathlib.Algebra.Group.Nat.Defs
import Mathlib.Data.List.Induction

/-!
# Byte order

Unsigned integers in memory. A host lays them out low byte first or high byte first, the network
high byte first.
-/

inductive ByteOrder
  | little
  | big
  deriving DecidableEq

namespace ByteOrder

/-! ## The order of the network -/

/-- The `k` low bytes of `n`, high byte first. -/
def network : Nat → Nat → List UInt8
  | 0, _ => []
  | k + 1, n => network k (n / 256) ++ [UInt8.ofNat n]

def value (bs : List UInt8) : Nat := bs.foldl (fun n b => n * 256 + b.toNat) 0

@[simp] theorem length_network (k n : Nat) : (network k n).length = k := by
  induction k generalizing n with
  | zero => rfl
  | succ k ih => rw [network, List.length_append, ih, List.length_singleton]

theorem value_concat (bs : List UInt8) (b : UInt8) : value (bs ++ [b]) = value bs * 256 + b.toNat := by
  unfold value
  rw [List.foldl_append, List.foldl_cons, List.foldl_nil]

theorem value_append (as bs : List UInt8) :
    value (as ++ bs) = value as * 256 ^ bs.length + value bs := by
  induction bs using List.reverseRecOn with
  | nil => simp [value]
  | append_singleton bs b ih =>
    rw [← List.append_assoc, value_concat, ih, value_concat, List.length_append, List.length_singleton,
      pow_succ, Nat.add_mul, Nat.mul_assoc, Nat.add_assoc]

theorem value_lt (bs : List UInt8) : value bs < 256 ^ bs.length := by
  induction bs using List.reverseRecOn with
  | nil => simp [value]
  | append_singleton bs b ih =>
    have hb : b.toNat < 256 := b.toNat_lt
    rw [value_concat, List.length_append, List.length_singleton, pow_succ]
    omega

theorem value_network (k n : Nat) : value (network k n) = n % 256 ^ k := by
  induction k generalizing n with
  | zero => simp [network, value, Nat.mod_one]
  | succ k ih =>
    have hsplit : n % 256 ^ (k + 1) = n % 256 + 256 * (n / 256 % 256 ^ k) := by
      rw [pow_succ, Nat.mul_comm, Nat.mod_mul]
    rw [network, value_concat, ih, hsplit, UInt8.toNat_ofNat']
    omega

theorem network_value (bs : List UInt8) : network bs.length (value bs) = bs := by
  induction bs using List.reverseRecOn with
  | nil => rfl
  | append_singleton bs b ih =>
    have hb : b.toNat < 256 := b.toNat_lt
    have hdiv : (value bs * 256 + b.toNat) / 256 = value bs := by omega
    rw [List.length_append, List.length_singleton, network, value_concat, hdiv, ih]
    simp

/-- Bytes above the `k` low ones do not show. -/
theorem network_add_mul (k n m : Nat) : network k (m * 256 ^ k + n) = network k n := by
  induction k generalizing n with
  | zero => rfl
  | succ k ih =>
    have hdiv : (m * 256 ^ (k + 1) + n) / 256 = m * 256 ^ k + n / 256 := by
      rw [pow_succ, ← Nat.mul_assoc, Nat.add_comm, Nat.add_mul_div_right _ _ (by omega), Nat.add_comm]
    rw [network, hdiv, ih, network]
    congr 2
    rw [← UInt8.toNat_inj, UInt8.toNat_ofNat', UInt8.toNat_ofNat', pow_succ, ← Nat.mul_assoc]
    omega

theorem network_add (j k n : Nat) : network (j + k) n = network j (n / 256 ^ k) ++ network k n := by
  induction k generalizing n with
  | zero => simp [network]
  | succ k ih =>
    rw [← Nat.add_assoc, network, ih, network, List.append_assoc, Nat.div_div_eq_div_mul, pow_succ,
      Nat.mul_comm]

/-! ## The order of the host -/

variable (host : ByteOrder)

/-- An unsigned integer of `k` bytes in the memory of the host. -/
def store (k n : Nat) : List UInt8 :=
  match host with
  | little => (network k n).reverse
  | big => network k n

def load (bs : List UInt8) : Nat :=
  match host with
  | little => value bs.reverse
  | big => value bs

/-- `htons` and `htonl`: what lies in memory as `n` lies on the network. -/
def hton (k n : Nat) : Nat := host.load (network k n)

/-- `ntohs` and `ntohl`. -/
def ntoh (k n : Nat) : Nat := value (host.store k n)

@[simp] theorem length_store (k n : Nat) : (host.store k n).length = k := by
  cases host <;> simp [store]

theorem load_lt (bs : List UInt8) : host.load bs < 256 ^ bs.length := by
  cases host with
  | little =>
    have h := value_lt bs.reverse
    rwa [List.length_reverse] at h
  | big => exact value_lt bs

theorem store_load (bs : List UInt8) : host.store bs.length (host.load bs) = bs := by
  cases host with
  | little =>
    have h := network_value bs.reverse
    rw [List.length_reverse] at h
    rw [store, load, h, List.reverse_reverse]
  | big => exact network_value bs

theorem store_hton (k n : Nat) : host.store k (host.hton k n) = network k n := by
  have h := host.store_load (network k n)
  rwa [length_network] at h

theorem ntoh_load {k : Nat} {bs : List UInt8} (h : bs.length = k) :
    host.ntoh k (host.load bs) = value bs := by
  subst h
  rw [ntoh, store_load]

theorem hton_lt (k n : Nat) : host.hton k n < 256 ^ k := by
  have h := host.load_lt (network k n)
  rwa [length_network] at h

theorem ntoh_lt (k n : Nat) : host.ntoh k n < 256 ^ k := by
  have h := value_lt (host.store k n)
  rwa [length_store] at h

end ByteOrder
