import ChatServer.Lib.SelfDelimiting
import ChatServer.WebsocketSteps
import Mathlib.Data.Nat.Bitwise

/-!
# Frames on the wire

What RFC 6455 calls a frame, and what the two sides of the connection make of one.
-/

namespace ChatServer.Websocket

/-! ## The format -/

/-- How many bytes of length follow the first two. -/
def extSize (second : UInt8) : Nat :=
  if second.toNat % 128 = 127 then 8 else if second.toNat % 128 = 126 then 2 else 0

/-- The length of the payload. -/
def announced (second : UInt8) (ext : Bytes) : Nat :=
  if second.toNat % 128 < 126 then second.toNat % 128 else ByteOrder.value ext

def Masked (second : UInt8) : Prop := 128 ≤ second.toNat

instance (second : UInt8) : Decidable (Masked second) := inferInstanceAs (Decidable (_ ≤ _))

def keySize (second : UInt8) : Nat := if Masked second then 4 else 0

/-- The length may be given in more bytes than it needs. -/
structure WireFrame where
  head : UInt8
  second : UInt8
  ext : Bytes
  key : Bytes
  data : Bytes
  length_ext : ext.length = extSize second
  length_key : key.length = keySize second
  length_data : data.length = announced second ext

namespace WireFrame

variable (f : WireFrame)

def bytes : Bytes := f.head :: f.second :: (f.ext ++ f.key ++ f.data)

def fin : Bool := 128 ≤ f.head.toNat

def opcode : Nat := f.head.toNat % 16

def payload : Bytes := if Masked f.second then unmask f.key f.data else f.data

theorem selfDelimiting : SelfDelimiting bytes where
  ne_nil f := List.cons_ne_nil _ _
  inj {f g s t} h := by
    obtain ⟨head, second, ext, key, data, hext, hkey, hdata⟩ := f
    obtain ⟨head', second', ext', key', data', hext', hkey', hdata'⟩ := g
    unfold bytes at h
    simp only [List.cons_append, List.cons.injEq, List.append_assoc] at h
    obtain ⟨rfl, rfl, h⟩ := h
    obtain ⟨rfl, hafter⟩ := List.append_inj h (hext.trans hext'.symm)
    obtain ⟨rfl, hrest⟩ := List.append_inj hafter (hkey.trans hkey'.symm)
    obtain ⟨rfl, rfl⟩ := List.append_inj hrest (hdata.trans hdata'.symm)
    exact ⟨rfl, rfl⟩

end WireFrame

/-! ## The bits of the header -/

section Header

variable {m : Nat} {head second : UInt8}

/-- One bit of a number. -/
theorem and_bit (m i : Nat) : m &&& 2 ^ i = if m / 2 ^ i % 2 = 1 then 2 ^ i else 0 := by
  rw [Nat.and_two_pow, Nat.testBit_eq_decide_div_mod_eq]
  split
  · rename_i h
    simp [h]
  · rename_i h
    simp [h]

theorem value_header : ByteOrder.value [head, second] = head.toNat * 256 + second.toNat := by
  simp [ByteOrder.value]

theorem header_length (hm : m = ByteOrder.value [head, second]) : m &&& 0x7f = second.toNat % 128 := by
  rw [hm, value_header, Nat.and_two_pow_sub_one_eq_mod _ 7]
  omega

theorem header_masked (hm : m = ByteOrder.value [head, second]) :
    m &&& 0x80 = 0x80 ↔ Masked second := by
  have hlt : second.toNat < 256 := second.toNat_lt
  have hbit : m &&& 0x80 = if m / 2 ^ 7 % 2 = 1 then 2 ^ 7 else 0 := and_bit m 7
  rw [value_header] at hm
  rw [hbit]
  unfold Masked
  split <;> omega

theorem header_fin (hm : m = ByteOrder.value [head, second]) :
    m &&& 0x8000 ≠ 0 ↔ 128 ≤ head.toNat := by
  have hlt : second.toNat < 256 := second.toNat_lt
  have hlt' : head.toNat < 256 := head.toNat_lt
  have hbit : m &&& 0x8000 = if m / 2 ^ 15 % 2 = 1 then 2 ^ 15 else 0 := and_bit m 15
  rw [value_header] at hm
  rw [hbit]
  split <;> omega

theorem header_opcode (hm : m = ByteOrder.value [head, second]) :
    (m &&& 0x0f00) >>> 8 = head.toNat % 16 := by
  have hlt : second.toNat < 256 := second.toNat_lt
  have hshift : (m &&& 0x0f00) >>> 8 = m / 256 % 16 := by
    rw [Nat.shiftRight_and_distrib, Nat.shiftRight_eq_div_pow]
    exact Nat.and_two_pow_sub_one_eq_mod _ 4
  rw [value_header] at hm
  omega

end Header

/-! ## Masking -/

theorem length_unmask (key data : Bytes) : (unmask key data).length = data.length := by
  unfold unmask
  rw [List.length_mapIdx]

/-- The mask comes off as it went on. -/
theorem unmask_unmask (key data : Bytes) : unmask key (unmask key data) = data := by
  unfold unmask
  apply List.ext_getElem
  · rw [List.length_mapIdx, List.length_mapIdx]
  · intro i h h'
    rw [List.getElem_mapIdx, List.getElem_mapIdx, UInt8.xor_assoc, UInt8.xor_self, UInt8.xor_zero]

/-! ## Making a frame -/

namespace WireFrame

/-- The seven bits of a length, and the bytes after them. -/
def lengthOf (size : Nat) : Nat × Bytes :=
  if size < 126 then (size, [])
  else if size < 0x10000 then (126, ByteOrder.network 2 size)
  else (127, ByteOrder.network 8 size)

theorem lengthOf_lt (size : Nat) : (lengthOf size).1 < 128 := by
  unfold lengthOf
  split
  · omega
  · split
    · simp
    · simp

theorem length_lengthOf (size : Nat) {second : UInt8} (h : second.toNat % 128 = (lengthOf size).1) :
    (lengthOf size).2.length = extSize second := by
  unfold extSize
  rw [h]
  unfold lengthOf
  split
  · rw [if_neg (by omega), if_neg (by omega)]
    rfl
  · split <;> rfl

theorem announced_lengthOf {size : Nat} (hsize : size < 256 ^ 8) {second : UInt8}
    (h : second.toNat % 128 = (lengthOf size).1) : announced second (lengthOf size).2 = size := by
  unfold announced
  rw [h]
  unfold lengthOf
  split
  · rfl
  · split
    · rename_i hlt
      exact (ByteOrder.value_network 2 size).trans (Nat.mod_eq_of_lt hlt)
    · exact (ByteOrder.value_network 8 size).trans (Nat.mod_eq_of_lt hsize)

/-- The second byte of a frame. -/
def secondOf (masked : Bool) (size : Nat) : UInt8 :=
  UInt8.ofNat ((if masked then 128 else 0) + (lengthOf size).1)

theorem secondOf_mod (masked : Bool) (size : Nat) :
    (secondOf masked size).toNat % 128 = (lengthOf size).1 := by
  have hlt := lengthOf_lt size
  unfold secondOf
  rw [UInt8.toNat_ofNat']
  split <;> omega

theorem masked_secondOf (masked : Bool) (size : Nat) :
    Masked (secondOf masked size) ↔ masked = true := by
  have hlt := lengthOf_lt size
  unfold Masked secondOf
  rw [UInt8.toNat_ofNat']
  cases masked
  · simp only [Bool.false_eq_true, iff_false]
    rw [if_neg (by simp)]
    omega
  · simp only [iff_true]
    rw [if_pos (by simp)]
    omega

/-- What is sent for a part of a message, with a key or without one. -/
def make (fin : Bool) (opcode : Nat) (key : Option (Vector UInt8 4)) (payload : Bytes)
    (hsize : payload.length < 256 ^ 8) : WireFrame where
  head := UInt8.ofNat ((if fin then 128 else 0) + opcode % 16)
  second := secondOf key.isSome payload.length
  ext := (lengthOf payload.length).2
  key := (key.map Vector.toList).getD []
  data := (key.map fun k => unmask k.toList payload).getD payload
  length_ext := length_lengthOf _ (secondOf_mod _ _)
  length_key := by
    unfold keySize
    rw [if_congr (masked_secondOf _ _) rfl rfl]
    cases key
    · rfl
    · exact Vector.length_toList
  length_data := by
    rw [announced_lengthOf hsize (secondOf_mod _ _)]
    cases key
    · rfl
    · exact length_unmask _ _

section Make

variable (fin : Bool) (opcode : Nat) (key : Option (Vector UInt8 4)) {payload : Bytes}
  (hsize : payload.length < 256 ^ 8)

theorem fin_make : (make fin opcode key payload hsize).fin = fin := by
  unfold WireFrame.fin make
  dsimp only
  rw [UInt8.toNat_ofNat']
  cases fin
  · rw [if_neg (by simp), decide_eq_false_iff_not]
    omega
  · rw [if_pos rfl, decide_eq_true_iff]
    omega

theorem opcode_make : (make fin opcode key payload hsize).opcode = opcode % 16 := by
  unfold WireFrame.opcode make
  dsimp only
  rw [UInt8.toNat_ofNat']
  split <;> omega

/-- Whoever takes the mask off has what was sent. -/
theorem payload_make : (make fin opcode key payload hsize).payload = payload := by
  unfold WireFrame.payload make
  dsimp only
  rw [if_congr (masked_secondOf _ _) rfl rfl]
  cases key
  · rfl
  · exact unmask_unmask _ _

end Make

end WireFrame

/-! ## What the server makes of it -/

section Server

variable (host : ByteOrder)

/-- Two integers of 32 bits, one after the other. -/
theorem shiftLeft_or {a b : Nat} (h : b < 256 ^ 4) : a <<< 32 ||| b = a * 256 ^ 4 + b := by
  rw [← Nat.shiftLeft_add_eq_or_of_lt (i := 32) h a, Nat.shiftLeft_eq]
  rfl

theorem low_half (n : Nat) : n &&& 0xFFFFFFFF = n % 256 ^ 4 := Nat.and_two_pow_sub_one_eq_mod n 32

theorem high_half (n : Nat) : n >>> 32 = n / 256 ^ 4 := Nat.shiftRight_eq_div_pow n 32

/-- This is how the source asks for the order of the host. -/
theorem hton_one : host.hton 4 1 = 1 ↔ host = .big := by
  cases host <;> simp [ByteOrder.hton, ByteOrder.load, ByteOrder.network, ByteOrder.value]

theorem ntoh_one : host.ntoh 4 1 = 1 ↔ host = .big := by
  cases host <;> simp [ByteOrder.ntoh, ByteOrder.store, ByteOrder.network, ByteOrder.value]

theorem network_hton_little (n : Nat) :
    ByteOrder.network 4 (ByteOrder.hton .little 4 n) = (ByteOrder.network 4 n).reverse := by
  have h := ByteOrder.store_hton .little 4 n
  unfold ByteOrder.store at h
  rw [← h, List.reverse_reverse]

theorem store_hton64 (n : Nat) : host.store 8 (Outbox.hton64 host n) = ByteOrder.network 8 n := by
  unfold Outbox.hton64
  cases host with
  | big => rw [if_pos ((hton_one .big).mpr rfl), ByteOrder.store]
  | little =>
    have hlt := ByteOrder.hton_lt .little 4 (n / 256 ^ 4)
    have hmod : ByteOrder.network 4 (n % 256 ^ 4) = ByteOrder.network 4 n := by
      have h := ByteOrder.network_add_mul 4 (n % 256 ^ 4) (n / 256 ^ 4)
      rwa [Nat.div_add_mod', eq_comm] at h
    have hlow := network_hton_little (n % 256 ^ 4)
    have hhigh := network_hton_little (n / 256 ^ 4)
    rw [if_neg fun h => by simpa using (hton_one .little).mp h, low_half, high_half, shiftLeft_or hlt]
    generalize ByteOrder.hton .little 4 (n % 256 ^ 4) = low at *
    generalize ByteOrder.hton .little 4 (n / 256 ^ 4) = high at *
    have hdiv : (low * 256 ^ 4 + high) / 256 ^ 4 = low := by omega
    unfold ByteOrder.store
    dsimp only
    rw [ByteOrder.network_add 4 4, hdiv, ByteOrder.network_add_mul, hlow, hhigh, hmod,
      ← List.reverse_append, List.reverse_reverse, ← ByteOrder.network_add 4 4]

theorem ntoh64_load {bs : Bytes} (h : bs.length = 8) :
    Connection.ntoh64 host (host.load bs) = ByteOrder.value bs := by
  unfold Connection.ntoh64
  cases host with
  | big => rw [if_pos ((ntoh_one .big).mpr rfl), ByteOrder.load]
  | little =>
    obtain ⟨front, back, rfl, hfront, hback⟩ : ∃ front back : Bytes, bs = front ++ back ∧
        front.length = 4 ∧ back.length = 4 :=
      ⟨bs.take 4, bs.drop 4, (List.take_append_drop 4 bs).symm, by simp [h], by simp [h]⟩
    have hload : ByteOrder.load .little (front ++ back) =
        ByteOrder.load .little back * 256 ^ 4 + ByteOrder.load .little front := by
      unfold ByteOrder.load
      dsimp only
      rw [List.reverse_append, ByteOrder.value_append, List.length_reverse, hfront]
    have hlt := ByteOrder.load_lt .little front
    rw [hfront] at hlt
    have hlow : ByteOrder.load .little (front ++ back) % 256 ^ 4 = ByteOrder.load .little front := by
      rw [hload]
      omega
    have hhigh : ByteOrder.load .little (front ++ back) / 256 ^ 4 = ByteOrder.load .little back := by
      rw [hload]
      omega
    have hback' := ByteOrder.value_lt back
    rw [hback] at hback'
    rw [if_neg fun h => by simpa using (ntoh_one .little).mp h, low_half, high_half, hlow, hhigh,
      ByteOrder.ntoh_load .little hfront, ByteOrder.ntoh_load .little hback, shiftLeft_or hback',
      ByteOrder.value_append, hback]

/-- The frame in which the server sends a payload. -/
def serverFrame (opcode : Nat) (payload : Bytes) (hsize : payload.length < 256 ^ 8) : WireFrame :=
  .make true opcode none payload hsize

/-- A host of either order writes the same frame. -/
theorem bytes_serverFrame {opcode : Nat} (hop : opcode < 16) {payload : Bytes}
    (hsize : payload.length < 256 ^ 8) : Outbox.buildHeader host opcode payload.length ++ payload =
      (serverFrame opcode payload hsize).bytes := by
  have hmod : opcode % 16 = opcode := Nat.mod_eq_of_lt hop
  unfold Outbox.buildHeader serverFrame WireFrame.bytes WireFrame.make WireFrame.secondOf
    WireFrame.lengthOf
  dsimp only
  split
  · simp [hmod]
  · split
    · rw [ByteOrder.store_hton]
      simp [hmod]
    · rw [store_hton64]
      simp [hmod]

end Server

end ChatServer.Websocket
