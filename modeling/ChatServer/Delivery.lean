import ChatServer.Lifetime
import ChatServer.WebsocketFrames

/-!
# Delivery of what the client sends

However the bytes of the client arrive, the application gets the messages that the client sent, in
the order in which it sent them.
-/

namespace ChatServer.Websocket

variable {host : ByteOrder} {maxPayloadBytes : Nat} {hello : Bytes} {opening : List Job}

/-! ## Putting frames together -/

/-- What has come out of the frames so far. -/
structure Assembly where
  message : Bytes
  isBinary : Bool
  delivered : List (Bytes × Bool)
  closed : Bool

namespace Assembly

def join (a : Assembly) (f : WireFrame) : Assembly :=
  if f.fin then
    { a with message := [], delivered := a.delivered ++ [(a.message ++ f.payload, a.isBinary)] }
  else { a with message := a.message ++ f.payload }

/-- A frame after the one that closes is not looked at. -/
def add (a : Assembly) (f : WireFrame) : Assembly :=
  if a.closed then a
  else
    match f.opcode with
    | 0 => a.join f
    | 1 => { a with isBinary := false }.join f
    | 2 => { a with isBinary := true }.join f
    | 8 => { a with closed := true }
    | _ => a

theorem delivered_join (a : Assembly) (f : WireFrame) : a.delivered <+: (a.join f).delivered := by
  unfold join
  split
  · exact List.prefix_append _ _
  · exact List.prefix_rfl

theorem delivered_add (a : Assembly) (f : WireFrame) : a.delivered <+: (a.add f).delivered := by
  unfold add
  split
  · exact List.prefix_rfl
  · split
    · exact a.delivered_join f
    · exact delivered_join { a with isBinary := false } f
    · exact delivered_join { a with isBinary := true } f
    · exact List.prefix_rfl
    · exact List.prefix_rfl

/-- What has been delivered stays so. -/
theorem delivered_foldl (a : Assembly) (fs : List WireFrame) :
    a.delivered <+: (fs.foldl add a).delivered := by
  induction fs generalizing a with
  | nil => exact List.prefix_rfl
  | cons f fs ih => exact (a.delivered_add f).trans (ih _)

theorem closed_add (a : Assembly) (f : WireFrame) :
    (a.add f).closed = (a.closed || decide (f.opcode = 8)) := by
  have hjoin (b : Bool) : ({ a with isBinary := b }.join f).closed = a.closed := by
    unfold join
    split <;> rfl
  unfold add
  split
  · rename_i hclosed
    simp [hclosed]
  · split
    · rename_i hop
      simpa [hop] using hjoin a.isBinary
    · rename_i hop
      simpa [hop] using hjoin false
    · rename_i hop
      simpa [hop] using hjoin true
    · rename_i hop
      simp [hop]
    · rename_i hop
      simp [show f.opcode ≠ 8 from hop]

theorem closed_foldl (a : Assembly) (fs : List WireFrame) :
    (fs.foldl add a).closed = true ↔ a.closed = true ∨ ∃ f ∈ fs, f.opcode = 8 := by
  induction fs generalizing a with
  | nil => simp
  | cons f fs ih => simp [ih, closed_add, or_assoc]

theorem foldl_of_closed {a : Assembly} (h : a.closed = true) (fs : List WireFrame) :
    fs.foldl add a = a := by
  have hadd (f : WireFrame) : a.add f = a := by
    unfold add
    rw [if_pos h]
  induction fs with
  | nil => rfl
  | cons f fs ih => rw [List.foldl_cons, hadd, ih]

end Assembly

/-! ## What a client sends -/

/-- A ping or a pong, which may come between the parts of a message. -/
def WireFrame.IsPing (f : WireFrame) : Prop := f.opcode = 9 ∨ f.opcode = 10

/-- The parts of a message after its first one. -/
inductive Continues : List WireFrame → Bytes → Prop
  | last {f : WireFrame} (hop : f.opcode = 0) (hfin : f.fin = true) : Continues [f] f.payload
  | more {f : WireFrame} {fs : List WireFrame} {data : Bytes} (hop : f.opcode = 0)
      (hfin : f.fin = false) (h : Continues fs data) : Continues (f :: fs) (f.payload ++ data)
  | ping {f : WireFrame} {fs : List WireFrame} {data : Bytes} (hop : f.IsPing)
      (h : Continues fs data) : Continues (f :: fs) data

/-- The frames carry the messages: each is a text or a binary, in one part or in several. -/
inductive Carries : List WireFrame → List (Bytes × Bool) → Prop
  | nil : Carries [] []
  | whole {f : WireFrame} {fs : List WireFrame} {ms : List (Bytes × Bool)} (isBinary : Bool)
      (hop : f.opcode = if isBinary then 2 else 1) (hfin : f.fin = true) (h : Carries fs ms) :
      Carries (f :: fs) ((f.payload, isBinary) :: ms)
  | parts {f : WireFrame} {fs gs : List WireFrame} {data : Bytes} {ms : List (Bytes × Bool)}
      (isBinary : Bool) (hop : f.opcode = if isBinary then 2 else 1) (hfin : f.fin = false)
      (hrest : Continues gs data) (h : Carries fs ms) :
      Carries (f :: (gs ++ fs)) ((f.payload ++ data, isBinary) :: ms)
  | ping {f : WireFrame} {fs : List WireFrame} {ms : List (Bytes × Bool)} (hop : f.IsPing)
      (h : Carries fs ms) : Carries (f :: fs) ms
  | close {f : WireFrame} (hop : f.opcode = 8) (fs : List WireFrame) : Carries (f :: fs) []

namespace Assembly

variable {f : WireFrame} {fs : List WireFrame} {data : Bytes} {ms : List (Bytes × Bool)}

theorem add_ping (a : Assembly) (hop : f.IsPing) : a.add f = a := by
  unfold add
  split
  · rfl
  · rcases hop with hop | hop
    · simp only [hop]
    · simp only [hop]

theorem add_first {a : Assembly} (hopen : a.closed = false) (isBinary : Bool)
    (hop : f.opcode = if isBinary then 2 else 1) : a.add f = { a with isBinary := isBinary }.join f := by
  unfold add
  rw [if_neg (by simp [hopen]), hop]
  cases isBinary <;> rfl

theorem add_next {a : Assembly} (hopen : a.closed = false) (hop : f.opcode = 0) :
    a.add f = a.join f := by
  unfold add
  simp only [hopen, hop, Bool.false_eq_true, if_false]

theorem add_close {a : Assembly} (hopen : a.closed = false) (hop : f.opcode = 8) :
    a.add f = { a with closed := true } := by
  unfold add
  simp only [hopen, hop, Bool.false_eq_true, if_false]

theorem foldl_continues {a : Assembly} (hopen : a.closed = false) (h : Continues fs data) :
    fs.foldl add a =
      { a with message := [], delivered := a.delivered ++ [(a.message ++ data, a.isBinary)] } := by
  induction h generalizing a with
  | @last f hop hfin => rw [List.foldl_cons, List.foldl_nil, add_next hopen hop, join, if_pos hfin]
  | @more f fs data hop hfin _ ih =>
    have hjoin : a.join f = { a with message := a.message ++ f.payload } := if_neg (by simp [hfin])
    rw [List.foldl_cons, add_next hopen hop, ih (a := a.join f) (by rw [hjoin, hopen]), hjoin]
    dsimp only
    rw [List.append_assoc]
  | ping hop _ ih => rw [List.foldl_cons, a.add_ping hop, ih hopen]

/-- The application gets the messages that the frames carry. -/
theorem foldl_carries {a : Assembly} (hopen : a.closed = false) (hmessage : a.message = [])
    (h : Carries fs ms) : (fs.foldl add a).delivered = a.delivered ++ ms := by
  induction h generalizing a with
  | nil => rw [List.foldl_nil, List.append_nil]
  | @whole f fs ms isBinary hop hfin _ ih =>
    have hadd : a.add f = { a with
        message := [], isBinary := isBinary, delivered := a.delivered ++ [(f.payload, isBinary)] } := by
      rw [add_first hopen isBinary hop, join, if_pos hfin, hmessage, List.nil_append]
    rw [List.foldl_cons, ih (a := a.add f) (by rw [hadd, hopen]) (by rw [hadd]), hadd,
      List.append_assoc, List.singleton_append]
  | @parts f fs gs data ms isBinary hop hfin hrest _ ih =>
    have hadd : a.add f = { a with message := f.payload, isBinary := isBinary } := by
      rw [add_first hopen isBinary hop, join, if_neg (by simp [hfin]), hmessage, List.nil_append]
    have hgs := foldl_continues (a := a.add f) (by rw [hadd, hopen]) hrest
    rw [List.foldl_cons, List.foldl_append, ih (a := gs.foldl add (a.add f)) (by rw [hgs, hadd, hopen])
      (by rw [hgs]), hgs, hadd, List.append_assoc, List.singleton_append]
  | ping hop _ ih => rw [List.foldl_cons, a.add_ping hop, ih hopen hmessage]
  | @close f hop fs => rw [List.foldl_cons, add_close hopen hop, foldl_of_closed rfl, List.append_nil]

end Assembly

/-! ## The frame that is being read -/

/-- The first two bytes of a frame have been read. -/
structure Inbox.Began (i : Inbox) (head second : UInt8) : Prop where
  miniHeader : i.miniHeader = ByteOrder.value [head, second]
  hasMask : i.hasMask = decide (Masked second)

/-- What has been read of a frame, in each state of reading. -/
inductive Begun (i : Inbox) : Bytes → Prop
  | nothing (hstate : i.state = .miniHeader) (hfragment : i.fragment = []) : Begun i []
  | header {head second : UInt8} (hbegan : i.Began head second) (hfragment : i.fragment = [])
      (hstate : i.state = .len16 ∧ extSize second = 2 ∨ i.state = .len64 ∧ extSize second = 8) :
      Begun i [head, second]
  | length {head second : UInt8} {ext : Bytes} (hbegan : i.Began head second)
      (hfragment : i.fragment = []) (hstate : i.state = .mask) (hmasked : Masked second)
      (hext : ext.length = extSize second) (hlength : i.remainingLength = announced second ext) :
      Begun i (head :: second :: ext)
  | key {head second : UInt8} {ext key : Bytes} (hbegan : i.Began head second)
      (hstate : i.state = .payload) (hext : ext.length = extSize second)
      (hkey : key.length = keySize second) (hmask : Masked second → i.mask = key)
      (hlength : i.fragment.length + i.remainingLength = announced second ext) :
      Begun i (head :: second :: (ext ++ key ++ i.fragment))

namespace Connection

/-- What the connection has put together. -/
def assembly (c : Connection) : Assembly where
  message := c.inbox.message
  isBinary := c.inbox.isBinary
  delivered := messages c.calls
  closed := c.hasRecvClose

/-- The frames `done` have been handled, and `rest` begins the next one. -/
structure Parsed (a : Assembly) (c : Connection) (done : List WireFrame) (rest : Bytes) : Prop where
  taken : c.taken = done.flatMap WireFrame.bytes ++ rest
  assembly : c.assembly = done.foldl Assembly.add a
  begun : c.reading ≠ none → Begun c.inbox rest

section Parsing

variable {a : Assembly} {c c' : Connection} {done : List WireFrame} {rest : Bytes}

theorem assembly_congr (h : SameInbox c c') : c'.assembly = c.assembly := by
  unfold Connection.assembly
  rw [h.inbox, h.messages, h.hasRecvClose]

theorem Parsed.congr (h : Parsed a c done rest) (hsame : SameInbox c c') : Parsed a c' done rest where
  taken := hsame.taken.trans h.taken
  assembly := (assembly_congr hsame).trans h.assembly
  begun hreading := by
    rw [hsame.inbox]
    exact h.begun fun hnone => hreading (hsame.reading hnone)

theorem assembly_doRead (c : Connection) : c.doRead.assembly = c.assembly := by
  have hsame := SameReading.doRead c
  have hprepare (i : Inbox) : (prepare i).message = i.message ∧ (prepare i).isBinary = i.isBinary := by
    unfold prepare
    split
    · exact ⟨rfl, rfl⟩
    · exact ⟨rfl, rfl⟩
    · split <;> exact ⟨rfl, rfl⟩
    · exact ⟨rfl, rfl⟩
  have hinbox : c.doRead.inbox.message = c.inbox.message ∧
      c.doRead.inbox.isBinary = c.inbox.isBinary := by
    rw [doRead_eq]
    split
    · rw [checkDestroy_eq]
      exact ⟨rfl, rfl⟩
    · split
      · rw [checkDestroy_eq]
        exact ⟨rfl, rfl⟩
      · exact hprepare c.inbox
  unfold Connection.assembly
  rw [hinbox.1, hinbox.2, hsame.messages, hsame.hasRecvClose]

theorem Parsed.doRead (htaken : c.taken = done.flatMap WireFrame.bytes ++ rest)
    (hassembly : c.assembly = done.foldl Assembly.add a) (hreading : c.reading = none)
    (hbegun : Begun (prepare c.inbox) rest) : Parsed a c.doRead done rest where
  taken := (SameReading.doRead c).taken.trans htaken
  assembly := (assembly_doRead c).trans hassembly
  begun := by
    rw [doRead_eq]
    split
    · rw [checkDestroy_eq]
      exact fun h => absurd hreading h
    · split
      · rw [checkDestroy_eq]
        exact fun h => absurd hreading h
      · exact fun _ => hbegun

theorem begun_prepare {i : Inbox} {head second : UInt8} {ext : Bytes}
    (hbegan : i.Began head second) (hfragment : i.fragment = []) (hstate : i.state = .mask)
    (hext : ext.length = extSize second) (hlength : i.remainingLength = announced second ext) :
    Begun (prepare i) (head :: second :: ext) := by
  unfold prepare
  rw [hstate]
  dsimp only
  split
  · rename_i hmask
    rw [hbegan.hasMask, decide_eq_true_iff] at hmask
    exact .length hbegan hfragment hstate hmask hext hlength
  · rename_i hmask
    rw [hbegan.hasMask, decide_eq_true_iff] at hmask
    have hkey : ([] : Bytes).length = keySize second := by
      unfold keySize
      rw [if_neg hmask, List.length_nil]
    have h := @Begun.key { i with state := .payload } _ _ _ [] ⟨hbegan.1, hbegan.2⟩ rfl hext hkey
      (fun hm => absurd hm hmask) (by simpa [hfragment] using hlength)
    simpa [hfragment] using h

/-- A complete frame has been handled, and the flag says whether to read on. -/
structure Handled (a : Assembly) (c : Connection) (r : Connection × Bool) : Prop where
  assembly : r.1.assembly = a
  reading : r.1.reading = c.reading
  fragment : r.2 = true → r.1.inbox.fragment = []

theorem Handled.join {f : WireFrame} (hfin : c.inbox.isFin ↔ f.fin = true)
    (hpayload : c.inbox.fragment = f.payload) :
    Handled (c.assembly.join f) c (c.joinFragment.clearFragment, true) := by
  unfold joinFragment Assembly.join
  dsimp only
  rw [← hpayload, if_congr hfin.symm rfl rfl]
  split
  · split
    · refine ⟨?_, rfl, fun _ => rfl⟩
      unfold Connection.assembly clearFragment
      simp [messages]
    · rename_i hlast hnot
      exact absurd hlast hnot
  · split
    · rename_i hnot hlast
      exact absurd hlast hnot
    · exact ⟨rfl, rfl, fun _ => rfl⟩

theorem Handled.checkDestroy (h : Handled a c (c', false)) (code : UInt16) :
    Handled a c (c'.checkDestroy code, false) := by
  have hassembly := assembly_congr ((SameInbox.refl c').checkDestroy code)
  refine ⟨hassembly.trans h.assembly, ?_, nofun⟩
  rw [checkDestroy_eq]
  exact h.reading

theorem Handled.close (c : Connection) :
    Handled { c.assembly with closed := true } c (handleClose host c) := by
  unfold handleClose
  dsimp only
  split
  · rw [closeImpl_eq]
    refine ⟨?_, rfl, fun _ => rfl⟩
    unfold Connection.assembly clearFragment
    dsimp only
    split
    · simp [messages]
    · rfl
  · apply Handled.checkDestroy
    split
    · exact ⟨rfl, rfl, by simp⟩
    · refine ⟨?_, rfl, by simp⟩
      simp [Connection.assembly, closeHandler, messages]

/-- What a complete frame does to the message, and that the next frame begins afresh. -/
theorem Handled.handleFragment {f : WireFrame} (hopcode : c.inbox.opcode = f.opcode)
    (hfin : c.inbox.isFin ↔ f.fin = true) (hpayload : c.unmaskFragment.inbox.fragment = f.payload)
    (hopen : c.hasRecvClose = false) : Handled (c.assembly.add f) c (handleFragment host c) := by
  have hsame : c.unmaskFragment.assembly = c.assembly ∧
      c.unmaskFragment.reading = c.reading ∧ c.unmaskFragment.inbox.opcode = c.inbox.opcode ∧
      (c.unmaskFragment.inbox.isFin ↔ c.inbox.isFin) ∧
      c.unmaskFragment.hasRecvClose = c.hasRecvClose := by
    unfold unmaskFragment
    split <;> exact ⟨rfl, rfl, rfl, Iff.rfl, rfl⟩
  obtain ⟨hassembly, hreading, hsameop, hsamefin, hsameopen⟩ := hsame
  suffices h : Handled (c.unmaskFragment.assembly.add f) c.unmaskFragment
      (Connection.handleFragment host c) by
    rw [hassembly] at h
    exact ⟨h.assembly, h.reading.trans hreading, h.fragment⟩
  replace hopcode := hsameop.trans hopcode
  replace hfin := hsamefin.trans hfin
  replace hopen := hsameopen.trans hopen
  unfold Connection.handleFragment Assembly.add
  dsimp only
  generalize c.unmaskFragment = d at *
  rw [← hopcode, if_neg (show ¬ d.assembly.closed = true by simp [Connection.assembly, hopen])]
  have hjoin (b : Bool) := Handled.join (c := { d with inbox.isBinary := b }) hfin hpayload
  generalize d.inbox.opcode = opcode
  split
  · exact .join hfin hpayload
  · exact ⟨(hjoin false).1, (hjoin false).2, (hjoin false).3⟩
  · exact ⟨(hjoin true).1, (hjoin true).2, (hjoin true).3⟩
  · exact .close d
  · split <;> first | exact ⟨rfl, rfl, fun _ => rfl⟩ | contradiction

/-! ### One read -/

theorem inMiniHeader_eq {bytes : Bytes} (h : bytes.length ≤ 2) :
    ∃ head second, inMiniHeader bytes = [head, second] := by
  apply List.length_eq_two.mp
  unfold inMiniHeader
  rw [List.length_append, List.length_replicate]
  omega

theorem Parsed.onMiniHeader {bytes : Bytes} {head second : UInt8}
    (hbytes : inMiniHeader bytes = [head, second])
    (htaken : c.taken = done.flatMap WireFrame.bytes ++ [head, second])
    (hassembly : c.assembly = done.foldl Assembly.add a) (hreading : c.reading = none)
    (hfragment : c.inbox.fragment = []) : Parsed a (onMiniHeader host c bytes) done [head, second] := by
  have hm : host.ntoh 2 (host.load (inMiniHeader bytes)) = ByteOrder.value [head, second] := by
    rw [hbytes]
    exact host.ntoh_load rfl
  unfold Connection.onMiniHeader
  dsimp only
  generalize host.ntoh 2 (host.load (inMiniHeader bytes)) = m at hm
  rw [header_length hm]
  have hmask : decide (m &&& 0x80 = 0x80) = decide (Masked second) := decide_eq_decide.mpr (header_masked hm)
  rw [hmask]
  split
  · rename_i hlen
    refine .doRead htaken hassembly hreading (.header ⟨hm, rfl⟩ hfragment (.inr ⟨rfl, ?_⟩))
    unfold extSize
    rw [if_pos hlen]
  · split
    · rename_i hlen
      refine .doRead htaken hassembly hreading (.header ⟨hm, rfl⟩ hfragment (.inl ⟨rfl, ?_⟩))
      unfold extSize
      rw [if_neg (by omega), if_pos hlen]
    · rename_i hlong hlen
      have hlt : second.toNat % 128 < 128 := Nat.mod_lt _ (by decide)
      refine .doRead htaken hassembly hreading (begun_prepare ⟨hm, rfl⟩ hfragment rfl ?_ ?_)
      · unfold extSize
        rw [if_neg hlong, if_neg hlen, List.length_nil]
      · unfold announced
        rw [if_pos (by omega)]

/-- The length is known. -/
theorem Parsed.onLength {head second : UInt8} {ext : Bytes} (hbegan : c.inbox.Began head second)
    (htaken : c.taken = done.flatMap WireFrame.bytes ++ head :: second :: ext)
    (hassembly : c.assembly = done.foldl Assembly.add a) (hreading : c.reading = none)
    (hfragment : c.inbox.fragment = []) (hstate : c.inbox.state = .mask)
    (hext : ext.length = extSize second) (hlong : ext ≠ [])
    (hlength : c.inbox.remainingLength = ByteOrder.value ext) :
    Parsed a c.doRead done (head :: second :: ext) := by
  refine .doRead htaken hassembly hreading (begun_prepare hbegan hfragment hstate hext ?_)
  unfold announced
  rw [if_neg, hlength]
  intro hlt
  unfold extSize at hext
  rw [if_neg (by omega), if_neg (by omega)] at hext
  exact hlong (List.eq_nil_of_length_eq_zero hext)

theorem unmaskFragment_fragment (c : Connection) : c.unmaskFragment.inbox.fragment =
    if c.inbox.hasMask then unmask c.inbox.mask c.inbox.fragment else c.inbox.fragment := by
  unfold unmaskFragment
  split
  · rfl
  · rfl

theorem Parsed.onPayload {bytes : Bytes} {head second : UInt8} {ext key : Bytes}
    (hbegan : c.inbox.Began head second) (hstate : c.inbox.state = .payload)
    (hext : ext.length = extSize second) (hkey : key.length = keySize second)
    (hmask : Masked second → c.inbox.mask = key)
    (hlength : c.inbox.fragment.length + c.inbox.remainingLength = announced second ext)
    (htaken : c.taken = done.flatMap WireFrame.bytes ++
      head :: second :: (ext ++ key ++ (c.inbox.fragment ++ bytes)))
    (hassembly : c.assembly = done.foldl Assembly.add a) (hreading : c.reading = none)
    (hopen : c.hasRecvClose = false) (hbytes : bytes.length ≤ c.inbox.remainingLength) :
    ∃ done' rest', Parsed a (onPayload host c bytes) done' rest' := by
  unfold Connection.onPayload
  dsimp only
  split
  · rename_i hall
    have hdata : (c.inbox.fragment ++ bytes).length = announced second ext := by
      rw [List.length_append]
      omega
    let f : WireFrame := ⟨head, second, ext, key, _, hext, hkey, hdata⟩
    have htaken' : c.taken = (done ++ [f]).flatMap WireFrame.bytes ++ [] := by
      rw [htaken, List.flatMap_append, List.flatMap_singleton, List.append_nil]
      rfl
    have hassembly' : c.assembly.add f = (done ++ [f]).foldl Assembly.add a := by
      rw [hassembly, List.foldl_append, List.foldl_cons, List.foldl_nil]
    have hhandled := @Handled.handleFragment host { c with inbox := { c.inbox with
        fragment := c.inbox.fragment ++ bytes
        remainingLength := c.inbox.remainingLength - bytes.length } } f
      (header_opcode hbegan.miniHeader)
      ((header_fin hbegan.miniHeader).trans decide_eq_true_iff.symm) ?_ hopen
    · split
      · rename_i hon
        refine ⟨done ++ [f], [], .doRead ((SameSizes.handleFragment _).taken.trans htaken') ?_
          (hhandled.reading.trans hreading) (.nothing rfl (hhandled.fragment hon))⟩
        exact hhandled.assembly.trans hassembly'
      · refine ⟨done ++ [f], [], (SameSizes.handleFragment _).taken.trans htaken',
          hhandled.assembly.trans hassembly', ?_⟩
        exact fun hnone => absurd (hhandled.reading.trans hreading) hnone
    · rw [unmaskFragment_fragment]
      unfold WireFrame.payload
      dsimp only
      by_cases hmasked : Masked second
      · rw [if_pos (hbegan.hasMask.trans (decide_eq_true hmasked)), if_pos hmasked, hmask hmasked]
      · rw [if_neg (by simp [hbegan.hasMask, hmasked]), if_neg hmasked]
  · refine ⟨done, _, .doRead htaken hassembly hreading ?_⟩
    unfold prepare
    dsimp only
    rw [hstate]
    refine .key ⟨hbegan.1, hbegan.2⟩ rfl hext hkey hmask ?_
    dsimp only
    rw [List.length_append]
    omega

/-- What a read does to the frame that is being read. -/
theorem Parsed.onRead {bytes : Bytes} (h : Parsed a c done rest) (hreading : c.reading ≠ none)
    (hopen : c.hasRecvClose = false) (hbytes : (demand c.inbox).admits bytes) :
    ∃ done' rest', Parsed a (onRead host c bytes) done' rest' := by
  unfold Connection.onRead
  dsimp only
  cases h.begun hreading with
  | nothing hstate hfragment =>
    unfold demand at hbytes
    rw [hstate] at hbytes ⊢
    dsimp only
    obtain ⟨head, second, hheader⟩ := inMiniHeader_eq hbytes.1
    refine ⟨done, _, .onMiniHeader hheader ?_ h.assembly rfl hfragment⟩
    rw [h.taken, hheader, List.append_nil]
  | @header head second hbegan hfragment hstate =>
    have htaken : c.taken ++ bytes = done.flatMap WireFrame.bytes ++ head :: second :: bytes := by
      rw [h.taken, List.append_assoc]
      rfl
    unfold demand at hbytes
    rcases hstate with ⟨hstate, hsize⟩ | ⟨hstate, hsize⟩
    · rw [hstate] at hbytes ⊢
      have hlen : bytes.length = 2 := hbytes
      refine ⟨done, _, .onLength ⟨hbegan.1, hbegan.2⟩ htaken h.assembly rfl hfragment rfl
        (hlen.trans hsize.symm) ?_ (host.ntoh_load hlen)⟩
      exact List.ne_nil_of_length_pos (by omega)
    · rw [hstate] at hbytes ⊢
      have hlen : bytes.length = 8 := hbytes
      refine ⟨done, _, .onLength ⟨hbegan.1, hbegan.2⟩ htaken h.assembly rfl hfragment rfl
        (hlen.trans hsize.symm) ?_ (ntoh64_load host hlen)⟩
      exact List.ne_nil_of_length_pos (by omega)
  | @length head second ext hbegan hfragment hstate hmasked hext hlength =>
    unfold demand at hbytes
    rw [hstate] at hbytes ⊢
    dsimp only
    refine ⟨done, head :: second :: (ext ++ bytes ++ c.inbox.fragment), .doRead ?_ h.assembly rfl ?_⟩
    · rw [h.taken, hfragment]
      simp
    · refine .key ⟨hbegan.1, hbegan.2⟩ rfl hext ?_ (fun _ => rfl) ?_
      · unfold keySize
        rw [if_pos hmasked]
        exact hbytes
      · change c.inbox.fragment.length + c.inbox.remainingLength = _
        rw [hfragment, List.length_nil, Nat.zero_add]
        exact hlength
  | @key head second ext key hbegan hstate hext hkey hmask hlength =>
    unfold demand at hbytes
    rw [hstate] at hbytes ⊢
    dsimp only
    refine Parsed.onPayload ⟨hbegan.1, hbegan.2⟩ hstate hext hkey hmask hlength ?_ h.assembly rfl hopen ?_
    · dsimp only
      rw [h.taken]
      simp
    · exact hbytes.1.trans (Nat.min_le_right _ _)

end Parsing

end Connection

/-! ## Runs -/

section Runs

open Connection

variable {ok : Connection → Event → Prop} {es : List Event} {c : Connection}

def Assembly.empty (isBinary : Bool) : Assembly where
  message := []
  isBinary := isBinary
  delivered := []
  closed := false

/-- In every run, the frames that have come are what has been put together. -/
theorem ReachedBy.parsed (h : ReachedBy ok host maxPayloadBytes hello opening es c) :
    ∃ isBinary done rest, Parsed (.empty isBinary) c done rest := by
  induction h with
  | start isBinary =>
    obtain ⟨c, hsame, hstart⟩ := opened_start host maxPayloadBytes hello opening isBinary
    refine ⟨isBinary, [], [], ?_⟩
    rw [hstart]
    refine .doRead hsame.taken (assembly_congr hsame) (hsame.reading rfl) ?_
    rw [hsame.inbox]
    exact .nothing rfl rfl
  | @step es c e h hen _ ih =>
    obtain ⟨isBinary, done, rest, hparsed⟩ := ih
    refine ⟨isBinary, ?_⟩
    by_cases he : ∃ bytes, e = .read bytes
    · obtain ⟨bytes, rfl⟩ := he
      obtain ⟨d, hd, hadmits⟩ := hen
      have hs := h.settled
      obtain ⟨hread, rfl⟩ := hs.asked d hd
      refine hparsed.onRead (by simp [hd]) ?_ hadmits
      by_contra hrecv
      rw [Bool.not_eq_false] at hrecv
      simp [hs.ended hrecv] at hread
    · exact ⟨done, rest, hparsed.congr (.step c (not_exists.mp he))⟩

/-- What the client has sent and the socket has handed over. -/
def received (es : List Event) : Bytes :=
  es.flatMap fun
    | .read bytes => bytes
    | _ => []

/-- No read comes between the two bytes that begin a frame. The source relies on it. -/
def WholeHeaders (c : Connection) : Event → Prop
  | .read bytes => c.inbox.state = .miniHeader → bytes.length = 2
  | _ => True

instance (c : Connection) : (e : Event) → Decidable (WholeHeaders c e)
  | .read bytes => inferInstanceAs (Decidable (c.inbox.state = .miniHeader → bytes.length = 2))
  | .post _ | .close .. | .run | .readError | .written _ => .isTrue trivial

theorem Connection.taken_onRead {c : Connection} {bytes : Bytes}
    (h : c.inbox.state = .miniHeader → bytes.length = 2) :
    (onRead host c bytes).taken = c.taken ++ bytes := by
  unfold onRead
  dsimp only
  split
  · rename_i hstate
    have hwhole : inMiniHeader bytes = bytes := by
      unfold inMiniHeader
      rw [h hstate, List.replicate_zero, List.append_nil]
    rw [hwhole]
    unfold onMiniHeader
    dsimp only
    split
    · exact (SameReading.doRead _).taken
    · split
      · exact (SameReading.doRead _).taken
      · exact (SameReading.doRead _).taken
  · exact (SameReading.doRead _).taken
  · exact (SameReading.doRead _).taken
  · exact (SameReading.doRead _).taken
  · unfold onPayload
    dsimp only
    split
    · split
      · exact (SameReading.doRead _).taken.trans (SameSizes.handleFragment _).taken
      · exact (SameSizes.handleFragment _).taken
    · exact (SameReading.doRead _).taken

theorem ReachedBy.taken (h : ReachedBy WholeHeaders host maxPayloadBytes hello opening es c) :
    c.taken = received es := by
  induction h with
  | start isBinary =>
    obtain ⟨c, hsame, hstart⟩ := opened_start host maxPayloadBytes hello opening isBinary
    rw [hstart]
    exact (SameReading.doRead c).taken.trans hsame.taken
  | @step es c e h hen hok ih =>
    unfold received at ih ⊢
    rw [List.flatMap_append, List.flatMap_singleton, ← ih]
    by_cases he : ∃ bytes, e = .read bytes
    · obtain ⟨bytes, rfl⟩ := he
      exact taken_onRead hok
    · have hnew := not_exists.mp he
      rw [(SameInbox.step c hnew).taken]
      split
      · rename_i bytes
        exact absurd rfl (hnew bytes)
      · rw [List.append_nil]

/-- The connection waits for bytes that have not come. -/
def Connection.Waits (c : Connection) : Prop := c.reading ≠ none ∧ c.reading ≠ some (.upTo 0)

instance (c : Connection) : Decidable c.Waits := inferInstanceAs (Decidable (_ ∧ _))

/-- What has been read is not a whole frame yet. -/
theorem Begun.ne_bytes {i : Inbox} {rest : Bytes} (h : Begun i rest) (hwaits : demand i ≠ .upTo 0)
    (g : WireFrame) (s : Bytes) : rest ≠ g.bytes ++ s := by
  obtain ⟨head', second', ext', key', data', hext', hkey', hdata'⟩ := g
  unfold WireFrame.bytes
  intro heq
  simp only [List.cons_append, List.append_assoc] at heq
  cases h with
  | nothing hstate hfragment => cases heq
  | @header head second hbegan hfragment hstate =>
    obtain ⟨-, htail⟩ := List.cons.inj heq
    obtain ⟨rfl, hrest⟩ := List.cons.inj htail
    have hlen := congrArg List.length hrest
    simp only [List.length_nil, List.length_append] at hlen
    rcases hstate with ⟨-, hsize⟩ | ⟨-, hsize⟩ <;> omega
  | @length head second ext hbegan hfragment hstate hmasked hext hlength =>
    obtain ⟨-, htail⟩ := List.cons.inj heq
    obtain ⟨rfl, hrest⟩ := List.cons.inj htail
    have hlen := congrArg List.length hrest
    simp only [List.length_append] at hlen
    unfold keySize at hkey'
    rw [if_pos hmasked] at hkey'
    omega
  | @key head second ext key hbegan hstate hext hkey hmask hlength =>
    obtain ⟨-, htail⟩ := List.cons.inj heq
    obtain ⟨rfl, hrest⟩ := List.cons.inj htail
    rw [List.append_assoc] at hrest
    obtain ⟨rfl, hafter⟩ := List.append_inj hrest (hext.trans hext'.symm)
    have hlen := congrArg List.length hafter
    simp only [List.length_append] at hlen
    have hzero : i.remainingLength = 0 := by omega
    refine hwaits ?_
    unfold demand
    rw [hstate, hzero, Nat.min_zero]

section Parsed

variable {isBinary : Bool} {done fs : List WireFrame} {rest : Bytes} {ms : List (Bytes × Bool)}

/-- Only the frames that are complete have been looked at. -/
theorem Connection.Parsed.isPrefix (h : Parsed (.empty isBinary) c done rest)
    (htaken : c.taken <+: fs.flatMap WireFrame.bytes) : done <+: fs := by
  apply WireFrame.selfDelimiting.isPrefix_of_flatMap
  exact (List.prefix_append _ rest).trans (h.taken ▸ htaken)

/-- While the connection waits for more, no frame is left half read. -/
theorem Connection.Parsed.unfinished (h : Parsed (.empty isBinary) c done rest) (hs : c.Settled)
    (hwaits : c.Waits) (g : WireFrame) (s : Bytes) : rest ≠ g.bytes ++ s := by
  apply (h.begun hwaits.1).ne_bytes
  obtain ⟨d, hd⟩ := Option.ne_none_iff_exists'.mp hwaits.1
  obtain ⟨-, rfl⟩ := hs.asked d hd
  exact fun hzero => hwaits.2 (hzero ▸ hd)

/-- What the frames carry has been delivered. -/
theorem Connection.Parsed.delivered (h : Parsed (.empty isBinary) c done rest)
    (hcarries : Carries fs ms) (htaken : c.taken <+: fs.flatMap WireFrame.bytes) :
    done <+: fs ∧ messages c.calls <+: ms := by
  have hdelivered : messages c.calls = (done.foldl Assembly.add (.empty isBinary)).delivered := by
    rw [← h.assembly]
    rfl
  have hall : (fs.foldl Assembly.add (.empty isBinary)).delivered = ms :=
    Assembly.foldl_carries rfl rfl hcarries
  have hle := h.isPrefix htaken
  refine ⟨hle, ?_⟩
  obtain ⟨gs, rfl⟩ := hle
  rw [hdelivered, ← hall, List.foldl_append]
  exact Assembly.delivered_foldl _ gs

/-- When all has come and the connection waits for more, all has been delivered. -/
theorem Connection.Parsed.all (h : Parsed (.empty isBinary) c done rest) (hs : c.Settled)
    (hcarries : Carries fs ms) (htaken : c.taken = fs.flatMap WireFrame.bytes) (hwaits : c.Waits) :
    messages c.calls = ms := by
  obtain ⟨⟨gs, rfl⟩, -⟩ := h.delivered hcarries (htaken ▸ List.prefix_refl _)
  have hrest : rest = gs.flatMap WireFrame.bytes := by
    have hboth := h.taken.symm.trans htaken
    rw [List.flatMap_append] at hboth
    exact List.append_cancel_left hboth
  cases gs with
  | nil =>
    have hall : ((done ++ []).foldl Assembly.add (.empty isBinary)).delivered = ms :=
      Assembly.foldl_carries rfl rfl hcarries
    rw [← hall, List.append_nil, ← h.assembly]
    rfl
  | cons g gs => exact absurd hrest (h.unfinished hs hwaits g _)

end Parsed

/-- **Delivery.** The client sends frames that carry messages: each a text or a binary, in one
frame or in several, masked or not, with pings between. Whatever has arrived of them, and in
whatever pieces, the application has got the first of the messages, whole and in order. When
all has arrived and the connection waits for more, it has got them all. -/
theorem delivers (h : ReachedBy WholeHeaders host maxPayloadBytes hello opening es c)
    {fs : List WireFrame} {ms : List (Bytes × Bool)} (hcarries : Carries fs ms)
    (hreceived : received es <+: fs.flatMap WireFrame.bytes) :
    messages c.calls <+: ms ∧
      (received es = fs.flatMap WireFrame.bytes → c.Waits → messages c.calls = ms) := by
  obtain ⟨isBinary, done, rest, hparsed⟩ := h.parsed
  rw [← h.taken] at hreceived ⊢
  exact ⟨(hparsed.delivered hcarries hreceived).2,
    fun heq hwaits => hparsed.all h.settled hcarries heq hwaits⟩

/-- The first frame of `sendsAndCloses`. -/
def binaryFrame : WireFrame := .make true 2 (some #v[1, 2, 3, 4]) [5, 6] (by decide)

theorem delivers_binary : ∃ es c, ReachedBy WholeHeaders .little (256 ^ 8 - 1) (ascii "x") [] es c ∧
    received es = [binaryFrame].flatMap WireFrame.bytes ∧ messages c.calls = [([5, 6], true)] := by
  have h : ReachedBy WholeHeaders .little (256 ^ 8 - 1) (ascii "x") [] (sendsAndCloses.take 4)
      (.played (sendsAndCloses.take 4)) := reachedBy_played (by decide +kernel)
  have hcarries : Carries [binaryFrame] [([5, 6], true)] := .whole true rfl rfl .nil
  have hreceived : received (sendsAndCloses.take 4) = [binaryFrame].flatMap WireFrame.bytes := by
    decide +kernel
  have hwaits : (Connection.played (sendsAndCloses.take 4)).Waits := by decide +kernel
  obtain ⟨-, hall⟩ := delivers h hcarries (hreceived ▸ List.prefix_refl _)
  exact ⟨_, _, h, hreceived, hall hreceived hwaits⟩

end Runs

end ChatServer.Websocket
