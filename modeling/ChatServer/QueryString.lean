import ChatServer.State
import Mathlib.Data.List.TakeWhile

/-!
# The query string

`crow/query_string.h`, as far as `get` uses it, and the `onaccept` of `setup_routes`, which takes
the user name from there. A pointer into the buffer is the list of the bytes from there on. Each
pair is decoded in its own part of the buffer.
-/

namespace ChatServer.QueryString

/-! ## Characters -/

def chr (c : Char) : UInt8 := UInt8.ofNat c.toNat

/-- A C string ends at its first zero byte. -/
def cString (s : Bytes) : Bytes := s.takeWhile (· ≠ 0)

def isQsChr (c : UInt8) : Bool := c ≠ chr '=' && c ≠ chr '#' && c ≠ chr '&' && c ≠ 0

def isHex (c : UInt8) : Bool :=
  chr '0' ≤ c && c ≤ chr '9' || chr 'A' ≤ c && c ≤ chr 'F' || chr 'a' ≤ c && c ≤ chr 'f'

def hex2dec (c : UInt8) : UInt8 :=
  if chr '0' ≤ c && c ≤ chr '9' then c - 48
  else if chr 'A' ≤ c && c ≤ chr 'F' then c - 55
  else if chr 'a' ≤ c && c ≤ chr 'f' then c - 87
  else 0

/-! ## Reading -/

/-- One character of `qs_strncmp`, and what comes after it. -/
def qsNext (s : Bytes) : UInt8 × Bytes :=
  let c := if isQsChr (s.headD 0) then s.headD 0 else 0
  let c := if c = chr '+' then chr ' ' else c
  if c = chr '%' then
    let unyb := s.tail.headD 0
    let lnyb := s.tail.tail.headD 0
    (if isHex unyb && isHex lnyb then hex2dec unyb * 16 + hex2dec lnyb else 0, s.drop 3)
  else (c, s.tail)

def qsStrncmp (s qs : Bytes) : Nat → Int
  | 0 => if isQsChr (qs.headD 0) then -1 else 0
  | n + 1 =>
    let (u1, s) := qsNext s
    let (u2, qs) := qsNext qs
    if u1 ≠ u2 then u1.toNat - u2.toNat
    else if u1 = 0 then 0
    else qsStrncmp s qs n

def qsDecode : Bytes → Bytes
  | [] => []
  | c :: rest =>
    if ¬ isQsChr c then []
    else if c = chr '+' then chr ' ' :: qsDecode rest
    else if c = chr '%' then
      match rest with
      | unyb :: lnyb :: rest =>
        if isHex unyb && isHex lnyb then (hex2dec unyb * 16 + hex2dec lnyb) :: qsDecode rest else []
      | _ => []
    else c :: qsDecode rest

/-- The loop of `qs_parse` that decodes, for one pair: only its value changes. -/
def decodePair (pair : Bytes) : Bytes :=
  let key := pair.takeWhile fun c => c ≠ chr '=' && c ≠ chr '&' && c ≠ chr '#'
  match pair.drop key.length with
  | [] => key
  | delimiter :: value => key ++ delimiter :: qsDecode value

def maxKeyValuePairsCount : Nat := 256

def qsParse (url : Bytes) : List Bytes :=
  match (cString url).dropWhile fun c => c ≠ chr '?' && c ≠ chr '#' with
  | [] => []
  | _ :: query => ((query.splitOn (chr '&')).take maxKeyValuePairsCount).map decodePair

/-- `qs_k2v` for the first occurrence of the key. -/
def qsK2v (key : Bytes) (pairs : List Bytes) : Option Bytes :=
  (pairs.find? fun pair => qsStrncmp key pair key.length = 0).map fun pair =>
    ((cString pair).dropWhile (· ≠ chr '=')).tail

/-- `get` of `query_string(url)`, read as a string. -/
def get (url name : Bytes) : Option Bytes := qsK2v name (if url = [] then [] else qsParse url)

/-- The handler of `onaccept`: the name that it stores, or that it refuses. -/
def onaccept (url : Bytes) : Option Bytes :=
  match get url (ascii "name") with
  | none => none
  | some name => if name = [] then none else some name

/-! ## Encodings -/

/-- `enc` stands for `s`, each byte of it as itself, as a plus, or by two hexadecimal digits. -/
inductive Encodes : Bytes → Bytes → Prop
  | nil : Encodes [] []
  | literal {c : UInt8} {enc s : Bytes} (hc : isQsChr c) (hplus : c ≠ chr '+') (hpercent : c ≠ chr '%')
      (h : Encodes enc s) : Encodes (c :: enc) (c :: s)
  | plus {enc s : Bytes} (h : Encodes enc s) : Encodes (chr '+' :: enc) (chr ' ' :: s)
  | escape {unyb lnyb : UInt8} {enc s : Bytes} (hu : isHex unyb) (hl : isHex lnyb)
      (h : Encodes enc s) :
      Encodes (chr '%' :: unyb :: lnyb :: enc) ((hex2dec unyb * 16 + hex2dec lnyb) :: s)

/-- Where a key or a value ends. -/
def Ends (t : Bytes) : Prop := isQsChr (t.headD 0) = false

theorem isQsChr_eq_false {c : UInt8} :
    isQsChr c = false ↔ c = chr '=' ∨ c = chr '#' ∨ c = chr '&' ∨ c = 0 := by
  unfold isQsChr
  by_cases h1 : c = chr '=' <;> by_cases h2 : c = chr '#' <;> by_cases h3 : c = chr '&' <;>
    simp [h1, h2, h3]

theorem isHex_isQsChr {c : UInt8} (h : isHex c) : isQsChr c := by
  by_contra hno
  rw [Bool.not_eq_true, isQsChr_eq_false] at hno
  rcases hno with rfl | rfl | rfl | rfl <;> exact absurd h (by decide)

theorem Ends.decode {t : Bytes} (h : Ends t) : qsDecode t = [] := by
  cases t with
  | nil => rfl
  | cons c t =>
    unfold qsDecode
    rw [if_pos (by simpa [Ends] using h)]

theorem qsDecode_literal {c : UInt8} (rest : Bytes) (hc : isQsChr c) (hplus : c ≠ chr '+')
    (hpercent : c ≠ chr '%') : qsDecode (c :: rest) = c :: qsDecode rest := by
  conv_lhs => unfold qsDecode
  rw [if_neg (by simp [hc]), if_neg hplus, if_neg hpercent]

theorem qsDecode_plus (rest : Bytes) : qsDecode (chr '+' :: rest) = chr ' ' :: qsDecode rest := by
  conv_lhs => unfold qsDecode
  rw [if_neg (by decide), if_pos rfl]

theorem qsDecode_escape {unyb lnyb : UInt8} (rest : Bytes) (hu : isHex unyb) (hl : isHex lnyb) :
    qsDecode (chr '%' :: unyb :: lnyb :: rest) =
      (hex2dec unyb * 16 + hex2dec lnyb) :: qsDecode rest := by
  conv_lhs => unfold qsDecode
  rw [if_neg (by decide), if_neg (by decide), if_pos rfl]
  exact if_pos (by simp [hu, hl])

/-- Decoding undoes every encoding. -/
theorem qsDecode_encodes {enc s t : Bytes} (h : Encodes enc s) (ht : Ends t) :
    qsDecode (enc ++ t) = s := by
  induction h with
  | nil => exact ht.decode
  | literal hc hplus hpercent _ ih => rw [List.cons_append, qsDecode_literal _ hc hplus hpercent, ih]
  | plus _ ih => rw [List.cons_append, qsDecode_plus, ih]
  | escape hu hl _ ih =>
    rw [List.cons_append, List.cons_append, List.cons_append, qsDecode_escape _ hu hl, ih]

/-- An encoding stays within its pair. -/
theorem Encodes.isQsChr {enc s : Bytes} (h : Encodes enc s) : ∀ c ∈ enc, isQsChr c := by
  induction h with
  | nil => exact nofun
  | literal hc _ _ _ ih =>
    intro c hmem
    rcases List.mem_cons.mp hmem with rfl | hmem
    · exact hc
    · exact ih c hmem
  | plus _ ih =>
    intro c hmem
    rcases List.mem_cons.mp hmem with rfl | hmem
    · decide
    · exact ih c hmem
  | escape hu hl _ ih =>
    intro c hmem
    rcases List.mem_cons.mp hmem with rfl | hmem
    · decide
    · rcases List.mem_cons.mp hmem with rfl | hmem
      · exact isHex_isQsChr hu
      · rcases List.mem_cons.mp hmem with rfl | hmem
        · exact isHex_isQsChr hl
        · exact ih c hmem

/-! ## Keys -/

/-- A key of plain characters. -/
def Plain (key : Bytes) : Prop := ∀ c ∈ key, isQsChr c ∧ c ≠ chr '+' ∧ c ≠ chr '%'

instance (key : Bytes) : Decidable (Plain key) := inferInstanceAs (Decidable (∀ _ ∈ _, _))

theorem qsNext_plain {c : UInt8} (s : Bytes) (hc : isQsChr c) (hplus : c ≠ chr '+')
    (hpercent : c ≠ chr '%') : qsNext (c :: s) = (c, s) := by
  simp [qsNext, hc, hplus, hpercent]

theorem qsNext_plus (s : Bytes) : qsNext (chr '+' :: s) = (chr ' ', s) := by
  simp [qsNext, chr, isQsChr]

theorem qsNext_escape {unyb lnyb : UInt8} (s : Bytes) (hu : isHex unyb) (hl : isHex lnyb) :
    qsNext (chr '%' :: unyb :: lnyb :: s) = (hex2dec unyb * 16 + hex2dec lnyb, s) := by
  simp [qsNext, chr, isQsChr, hu, hl]

/-- A pair has the key, in whatever encoding. -/
theorem qsStrncmp_encodes {enc key : Bytes} (h : Encodes enc key) (hplain : Plain key) {t : Bytes}
    (ht : Ends t) : qsStrncmp key (enc ++ t) key.length = 0 := by
  have hstep {c : UInt8} {key qs qs' : Bytes} (hplain : Plain (c :: key))
      (hnext : qsNext qs = (c, qs')) (hrest : qsStrncmp key qs' key.length = 0) :
      qsStrncmp (c :: key) qs (c :: key).length = 0 := by
    obtain ⟨hc, hplus, hpercent⟩ := hplain c List.mem_cons_self
    rw [List.length_cons, qsStrncmp, qsNext_plain key hc hplus hpercent, hnext]
    dsimp only
    rw [if_neg (by simp)]
    split
    · rfl
    · exact hrest
  induction h with
  | nil => exact if_neg (by simpa [Ends] using ht)
  | literal hc hplus hpercent _ ih =>
    refine hstep hplain (qsNext_plain _ hc hplus hpercent) (ih fun c hmem => ?_)
    exact hplain c (List.mem_cons_of_mem _ hmem)
  | plus _ ih =>
    refine hstep hplain (qsNext_plus _) (ih fun c hmem => ?_)
    exact hplain c (List.mem_cons_of_mem _ hmem)
  | escape hu hl _ ih =>
    refine hstep hplain (qsNext_escape _ hu hl) (ih fun c hmem => ?_)
    exact hplain c (List.mem_cons_of_mem _ hmem)

/-! ## The name of the user -/

/-- Decoding of the value leaves the key. -/
theorem decodePair_eq {key enc s t : Bytes} (hkey : ∀ c ∈ key, isQsChr c) (h : Encodes enc s)
    (ht : Ends t) : decodePair (key ++ chr '=' :: (enc ++ t)) = key ++ chr '=' :: s := by
  have hwhile : (key ++ chr '=' :: (enc ++ t)).takeWhile
      (fun c => c ≠ chr '=' && c ≠ chr '&' && c ≠ chr '#') = key := by
    rw [List.takeWhile_append_of_pos, List.takeWhile_cons_of_neg (by simp), List.append_nil]
    intro c hc
    have hchr := hkey c hc
    unfold isQsChr at hchr
    simp only [Bool.and_eq_true] at hchr ⊢
    exact ⟨⟨hchr.1.1.1, hchr.1.2⟩, hchr.1.1.2⟩
  unfold decodePair
  dsimp only
  rw [hwhile, List.drop_left]
  dsimp only
  rw [qsDecode_encodes h ht]

theorem zero_notMem_cString (s : Bytes) : 0 ∉ cString s := by
  intro h
  simpa using List.mem_takeWhile_imp h

/-- A name never has a zero byte in it. -/
theorem onaccept_name {url name : Bytes} (h : onaccept url = some name) : name ≠ [] ∧ 0 ∉ name := by
  unfold onaccept at h
  split at h
  · cases h
  · rename_i found hfound
    split at h
    · cases h
    · rename_i hne
      obtain rfl := Option.some.inj h
      refine ⟨hne, fun hzero => ?_⟩
      unfold get qsK2v at hfound
      obtain ⟨pair, -, rfl⟩ := Option.map_eq_some_iff.mp hfound
      apply zero_notMem_cString pair
      exact (List.dropWhile_sublist _).subset (List.mem_of_mem_tail hzero)

/-! ## Pairs -/

theorem splitOn_others {others : List Bytes} (h : ∀ pair ∈ others, chr '&' ∉ pair) (last : Bytes) :
    (others.flatMap (· ++ [chr '&']) ++ last).splitOn (chr '&') = others ++ last.splitOn (chr '&') := by
  induction others with
  | nil => rfl
  | cons pair others ih =>
    have hpair : ∀ c ∈ pair, (c == chr '&') = false := by
      intro c hc
      rw [beq_eq_false_iff_ne]
      rintro rfl
      exact h pair List.mem_cons_self hc
    rw [List.flatMap_cons, List.append_assoc, List.append_assoc, List.singleton_append,
      List.splitOn_eq_splitOnP, List.splitOnP_append_cons_of_forall_mem hpair _ (by simp),
      ← List.splitOn_eq_splitOnP, ih fun p hp => h p (List.mem_cons_of_mem _ hp), List.cons_append]

/-- The pair that holds the value, and whatever follows. -/
theorem splitOn_last {s t : Bytes} (hs : chr '&' ∉ s) (ht : Ends t) :
    ∃ t' more, Ends t' ∧ (s ++ t).splitOn (chr '&') = (s ++ t') :: more := by
  have hplain {xs : Bytes} (h : chr '&' ∉ xs) : ∀ c ∈ xs, (c == chr '&') = false := by
    intro c hc
    rw [beq_eq_false_iff_ne]
    rintro rfl
    exact h hc
  by_cases hmem : chr '&' ∈ t
  · obtain ⟨t', more, rfl, ht'⟩ := List.eq_append_cons_of_mem hmem
    refine ⟨t', more.splitOn (chr '&'), ?_, ?_⟩
    · cases t' with
      | nil => exact (rfl : isQsChr 0 = false)
      | cons c t' => exact ht
    · rw [← List.append_assoc, List.splitOn_eq_splitOnP,
        List.splitOnP_append_cons_of_forall_mem _ _ (by simp),
        ← List.splitOn_eq_splitOnP]
      intro c hc
      rcases List.mem_append.mp hc with hc | hc
      · exact hplain hs c hc
      · exact hplain ht' c hc
  · refine ⟨t, [], ht, ?_⟩
    rw [List.splitOn_eq_splitOnP, List.splitOnP_eq_singleton]
    intro c hc
    rcases List.mem_append.mp hc with hc | hc
    · exact hplain hs c hc
    · exact hplain hmem c hc

/-! ## Addresses -/

/-- An address with the name of the user in its query: each byte of the key and of the name is
written as the client likes, other pairs come before, up to the 256 that are read, and anything
comes after. -/
structure NamedUrl where
  path : Bytes
  others : List Bytes
  key : Bytes
  enc : Bytes
  name : Bytes
  after : Bytes
  path_plain : ∀ c ∈ path, c ≠ 0 ∧ c ≠ chr '?' ∧ c ≠ chr '#'
  others_plain : ∀ pair ∈ others, chr '&' ∉ pair ∧ 0 ∉ pair
  others_else : ∀ pair ∈ others, qsStrncmp (ascii "name") (decodePair pair) (ascii "name").length ≠ 0
  others_few : others.length < maxKeyValuePairsCount
  encodes_key : Encodes key (ascii "name")
  encodes_name : Encodes enc name
  name_ne_nil : name ≠ []
  name_plain : 0 ∉ name
  after_ends : Ends after

namespace NamedUrl

variable (u : NamedUrl)

/-- The pair of the user name, as the client writes it. -/
def pair : Bytes := u.key ++ chr '=' :: u.enc

def query : Bytes := u.others.flatMap (· ++ [chr '&']) ++ u.pair

def bytes : Bytes := u.path ++ chr '?' :: (u.query ++ u.after)

theorem key_isQsChr : ∀ c ∈ u.key, isQsChr c := u.encodes_key.isQsChr

theorem mem_pair {c : UInt8} (h : c ∈ u.pair) : isQsChr c ∨ c = chr '=' := by
  rcases List.mem_append.mp h with hc | hc
  · exact .inl (u.key_isQsChr c hc)
  · rcases List.mem_cons.mp hc with hc | hc
    · exact .inr hc
    · exact .inl (u.encodes_name.isQsChr c hc)

theorem zero_notMem : 0 ∉ u.path ++ chr '?' :: u.query := by
  intro hc
  rcases List.mem_append.mp hc with hc | hc
  · exact (u.path_plain 0 hc).1 rfl
  · rcases List.mem_cons.mp hc with hc | hc
    · exact absurd hc (by decide)
    · rcases List.mem_append.mp hc with hc | hc
      · obtain ⟨other, hother, hc⟩ := List.mem_flatMap.mp hc
        rcases List.mem_append.mp hc with hc | hc
        · exact (u.others_plain other hother).2 hc
        · exact absurd (List.mem_singleton.mp hc) (by decide)
      · rcases u.mem_pair hc with hc | hc
        · exact absurd hc (by decide)
        · exact absurd hc (by decide)

theorem cString_bytes : cString u.bytes = u.path ++ chr '?' :: (u.query ++ cString u.after) := by
  have h : ∀ c ∈ u.path ++ chr '?' :: u.query, decide (c ≠ 0) = true := by
    intro c hc
    rw [decide_eq_true_iff]
    rintro rfl
    exact u.zero_notMem hc
  unfold cString bytes
  rw [← List.cons_append, ← List.append_assoc, List.takeWhile_append_of_pos h, List.append_assoc,
    List.cons_append]

theorem ends_cString {t : Bytes} (h : Ends t) : Ends (cString t) := by
  cases t with
  | nil => exact h
  | cons c t =>
    unfold cString
    rw [List.takeWhile_cons]
    split
    · exact h
    · exact (rfl : isQsChr 0 = false)

/-- The decoded pairs: others, the one of the name, others. -/
theorem exists_qsParse : ∃ more, qsParse u.bytes =
    u.others.map decodePair ++ (u.key ++ chr '=' :: u.name) :: more := by
  have hand : chr '&' ∉ u.pair := by
    intro hc
    rcases u.mem_pair hc with hc | hc
    · exact absurd hc (by decide)
    · exact absurd hc (by decide)
  obtain ⟨t, more, ht, hsplit⟩ := splitOn_last hand (ends_cString u.after_ends)
  have hdrop : (u.path ++ chr '?' :: (u.query ++ cString u.after)).dropWhile
      (fun c => c ≠ chr '?' && c ≠ chr '#') = chr '?' :: (u.query ++ cString u.after) := by
    rw [List.dropWhile_append_of_pos, List.dropWhile_cons_of_neg (by simp)]
    intro c hc
    simpa using (u.path_plain c hc).2
  have hleft : maxKeyValuePairsCount - u.others.length = (255 - u.others.length) + 1 := by
    have hfew := u.others_few
    unfold maxKeyValuePairsCount at hfew ⊢
    omega
  have hpair : decodePair (u.pair ++ t) = u.key ++ chr '=' :: u.name := by
    unfold pair
    rw [List.append_assoc, List.cons_append]
    exact decodePair_eq u.key_isQsChr u.encodes_name ht
  refine ⟨(more.take (255 - u.others.length)).map decodePair, ?_⟩
  unfold qsParse
  rw [u.cString_bytes, hdrop]
  dsimp only
  rw [query, List.append_assoc, splitOn_others fun other ho => (u.others_plain other ho).1, hsplit,
    List.take_append, hleft, List.take_of_length_le u.others_few.le, List.take_succ_cons,
    List.map_append, List.map_cons, hpair]

theorem cString_pair : cString (u.key ++ chr '=' :: u.name) = u.key ++ chr '=' :: u.name := by
  unfold cString
  rw [List.takeWhile_eq_self_iff]
  intro c hc
  rw [decide_eq_true_iff]
  rintro rfl
  rcases List.mem_append.mp hc with hc | hc
  · exact absurd (u.key_isQsChr 0 hc) (by decide)
  · rcases List.mem_cons.mp hc with hc | hc
    · exact absurd hc (by decide)
    · exact u.name_plain hc

/-- What comes after the equals sign. -/
theorem value_pair : ((u.key ++ chr '=' :: u.name).dropWhile (· ≠ chr '=')).tail = u.name := by
  rw [List.dropWhile_append_of_pos, List.dropWhile_cons_of_neg (by simp), List.tail_cons]
  intro c hc
  rw [decide_eq_true_iff]
  rintro rfl
  exact absurd (u.key_isQsChr _ hc) (by decide)

end NamedUrl

/-- **Names arrive.** A client that writes its name into the query, in whatever encoding and among
whatever other pairs, is let in under this name. -/
theorem onaccept_bytes (u : NamedUrl) : onaccept u.bytes = some u.name := by
  obtain ⟨more, hparse⟩ := u.exists_qsParse
  have hkey : qsStrncmp (ascii "name") (u.key ++ chr '=' :: u.name) (ascii "name").length = 0 :=
    qsStrncmp_encodes u.encodes_key (by decide +kernel) (rfl : isQsChr (chr '=') = false)
  have hfind : (u.others.map decodePair ++ (u.key ++ chr '=' :: u.name) :: more).find?
        (fun pair => qsStrncmp (ascii "name") pair (ascii "name").length = 0) =
      some (u.key ++ chr '=' :: u.name) := by
    rw [List.find?_append, List.find?_eq_none.mpr, Option.none_or,
      List.find?_cons_of_pos (by simpa using hkey)]
    intro pair hpair
    obtain ⟨raw, hraw, rfl⟩ := List.mem_map.mp hpair
    rw [decide_eq_true_iff]
    exact u.others_else raw hraw
  unfold onaccept get
  rw [if_neg (by simp [NamedUrl.bytes]), hparse, qsK2v, hfind, Option.map_some, u.cString_pair,
    u.value_pair]
  exact if_neg u.name_ne_nil

/-- `/?x=1&n%61me=an+%61#top` -/
def escapedUrl : NamedUrl where
  path := ascii "/"
  others := [ascii "x=1"]
  key := ascii "n%61me"
  enc := ascii "an+%61"
  name := ascii "an a"
  after := ascii "#top"
  path_plain := by decide +kernel
  others_plain := by decide +kernel
  others_else := by decide +kernel
  others_few := by decide
  encodes_key := .literal rfl (by decide) (by decide) (@Encodes.escape (chr '6') (chr '1') _ _ rfl rfl
    (.literal rfl (by decide) (by decide) (.literal rfl (by decide) (by decide) .nil)))
  encodes_name := .literal rfl (by decide) (by decide) (.literal rfl (by decide) (by decide)
    (.plus (@Encodes.escape (chr '6') (chr '1') _ _ rfl rfl .nil)))
  name_ne_nil := by decide
  name_plain := by decide +kernel
  after_ends := rfl

theorem onaccept_bytes_escaped : onaccept (ascii "/?x=1&n%61me=an+%61#top") = some (ascii "an a") :=
  onaccept_bytes escapedUrl

end ChatServer.QueryString
