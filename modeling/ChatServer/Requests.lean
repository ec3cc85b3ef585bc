import ChatServer.Sending

/-!
# Requests

What the readers of the opcodes 2 to 5 accept, against the grammar of requests, and what becomes
of a frame that they do not accept.
-/

open Program

namespace ChatServer

/-! ## The grammar -/

/-- The opcode and the fields, one after another. -/
def Request.encode : Request → Bytes
  | .listUsers => [1]
  | .userInfo requestedName => 2 :: pushString8 requestedName
  | .changeStatus username rawStatus => 3 :: (pushString8 username ++ [rawStatus])
  | .sendMessage destino mensaje => 4 :: (pushString8 destino ++ pushString8 mensaje)
  | .history target => 5 :: pushString8 target
  | .unknown => []

/-- The size of each string fits its length byte. -/
def Request.Sized : Request → Prop
  | .userInfo name | .changeStatus name _ | .history name => name.length < 256
  | .sendMessage destino mensaje => destino.length < 256 ∧ mensaje.length < 256
  | .listUsers | .unknown => True

theorem readRequest_eq_encode {op : UInt8} (hop : HasFields op) {r : Request}
    (hr : r.opcode = some op) (data : Bytes) :
    readRequest data = .ok r ↔ r.Sized ∧ r.encode <+: data := by
  unfold Request.Sized Request.encode
  cases r with
  | userInfo name =>
    rw [readRequest_eq_userInfo]
    exact and_congr_right fun _ => exists_congr fun rest => eq_comm
  | changeStatus username rawStatus =>
    rw [readRequest_eq_changeStatus]
    apply and_congr_right
    intro
    apply exists_congr
    intro rest
    rw [eq_comm, List.cons_append, List.append_assoc, List.singleton_append]
  | sendMessage destino mensaje =>
    rw [readRequest_eq_sendMessage, and_assoc]
    apply and_congr_right
    intro
    apply and_congr_right
    intro
    apply exists_congr
    intro rest
    rw [eq_comm, List.cons_append, List.append_assoc]
  | history target =>
    rw [readRequest_eq_history]
    exact and_congr_right fun _ => exists_congr fun rest => eq_comm
  | listUsers | unknown => rcases hop with rfl | rfl | rfl | rfl <;> simp [Request.opcode] at hr

theorem readRequest_ok_iff {op : UInt8} (hop : HasFields op) (body : Bytes) (r : Request) :
    readRequest (op :: body) = .ok r ↔
      r.opcode = some op ∧ r.Sized ∧ r.encode <+: op :: body := by
  constructor
  · intro h
    have hr : r.opcode = some op := (readRequest_opcode h).resolve_right fun hno => hno.2 hop
    exact ⟨hr, (readRequest_eq_encode hop hr _).mp h⟩
  · rintro ⟨hr, henc⟩
    exact (readRequest_eq_encode hop hr _).mpr henc

/-- A frame is read in one way at most, whatever follows the fields. -/
theorem Request.encode_unique {op : UInt8} (hop : HasFields op) {r r' : Request} {rest rest' : Bytes}
    (hr : r.opcode = some op) (hr' : r'.opcode = some op) (hs : r.Sized) (hs' : r'.Sized)
    (h : r.encode ++ rest = r'.encode ++ rest') : r = r' ∧ rest = rest' := by
  have hread := (readRequest_eq_encode hop hr (r.encode ++ rest)).mpr ⟨hs, rest, rfl⟩
  have hread' := (readRequest_eq_encode hop hr' (r.encode ++ rest)).mpr ⟨hs', rest', h.symm⟩
  rw [hread, Except.ok.injEq] at hread'
  subst hread'
  exact ⟨rfl, List.append_cancel_left h⟩

/-! ## The readers -/

theorem readUint8_within {data : Bytes} {offset : Nat} {b : UInt8} {next : Nat}
    (h : readUint8 data offset = .ok (b, next)) :
    next ≤ data.length ∧ (data.take next).drop offset = [b] := by
  obtain ⟨rfl, rest, hrest⟩ := (readUint8_ok_iff _ _ _ _).mp h
  have hlen := congrArg List.length hrest
  simp only [List.length_drop, List.length_cons] at hlen
  refine ⟨by omega, ?_⟩
  rw [List.drop_take, hrest]
  simp

theorem readString8_within {data : Bytes} {offset : Nat} {s : Bytes} {next : Nat}
    (h : readString8 data offset = .ok (s, next)) :
    next ≤ data.length ∧ (data.take next).drop offset = pushString8 s := by
  obtain ⟨rfl, -, rest, hrest⟩ := (readString8_ok_iff _ _ _ _).mp h
  have hlen := congrArg List.length hrest
  simp only [List.length_drop, List.length_append, pushString8, List.length_cons] at hlen
  refine ⟨by omega, ?_⟩
  rw [List.drop_take, hrest, show offset + 1 + s.length - offset = (pushString8 s).length by
    simp only [pushString8, List.length_cons]
    omega]
  exact List.take_left

/-! ## Frames that are not requests -/

/-- The announcement that a frame of `conn` makes on its way in, if it makes one. -/
def reactivation (w : World) (conn : Conn) (op : UInt8) : List Event :=
  match w.findConn conn with
  | some e => if op = 4 then wakeFrames w e.1 else []
  | none => []

/-- Nothing comes of the frame: no reply, and no change but to the entry of its sender. -/
structure Unheard (conn : Conn) (op : UInt8) (w w' : World) : Prop where
  chatHistory : w'.chatHistory = w.chatHistory
  generalChatHistory : w'.generalChatHistory = w.generalChatHistory
  lastUserStatus : w'.lastUserStatus = w.lastUserStatus
  keys : w'.connections.keys = w.connections.keys
  others : ∀ n, w.connOf n ≠ some conn → w'.connections.lookup n = w.connections.lookup n
  own : ∀ n cd, w.connections.lookup n = some cd → cd.conn = some conn → ∃ now,
    w'.connections.lookup n = some { cd with
      status := if cd.status = .inactivo ∧ op = 4 then .activo else cd.status
      lastActive := now }
  sent : outputs w w' = reactivation w conn op

theorem unheard_enter {w : World} (hw : Sound w) (conn : Conn) (op : UInt8) :
    Unheard conn op w (w.enter conn op).2 := by
  cases hfind : w.findConn conn with
  | none =>
    have hnone := World.findConn_eq_none.mp hfind
    rw [enter_nameless hfind]
    refine ⟨rfl, rfl, rfl, rfl, fun _ _ => rfl, fun n cd hcd hconn => ?_, ?_⟩
    · exact absurd (World.connOf_eq_some.mpr ⟨cd, hcd, hconn⟩) (hnone n)
    · simp [outputs, reactivation, hfind]
  | some e =>
    obtain ⟨n, cd⟩ := e
    obtain ⟨hcd, hconn⟩ := World.findConn_eq_some hfind
    have hacts := actsFor_enter (hw.name_of_findConn hfind).length_lt hfind op
    refine ⟨by simp, by simp, hacts.last, hacts.keys, fun m hm => ?_, fun m cd' hcd' hconn' => ?_, ?_⟩
    · refine hacts.others m ?_
      rintro rfl
      exact hm hconn
    · obtain rfl := hw.owned.unique (World.connOf_eq_some.mpr ⟨cd', hcd', hconn'⟩) hconn
      obtain rfl := Option.some.inj (hcd.symm.trans hcd')
      rw [enter_owner hfind]
      by_cases hre : cd.status = .inactivo ∧ op = 4
      · refine ⟨(w.touch m).steadyClock 0, ?_⟩
        simp [if_pos hre, World.updateStatus_lookup, hcd]
      · refine ⟨w.steadyClock 0, ?_⟩
        simp [if_neg hre, hcd]
    · unfold reactivation
      rw [hfind]
      dsimp only
      by_cases hop : op = 4
      · subst hop
        rw [if_pos rfl, outputs_enter hfind [] (by simp)]
        simp
      · rw [if_neg hop, enter_owner hfind, if_neg fun h => hop h.2, @outputs_eq _ _ [] (by simp)]
        rfl

/-! ## The law -/

/-- The frame begins with the encoding of the request. -/
def Encodes (data : Bytes) (r : Request) : Prop := r.Sized ∧ r.encode <+: data

theorem readRequest_throws {op : UInt8} (hop : HasFields op) {body : Bytes}
    (h : ∀ r : Request, r.opcode = some op → ¬ Encodes (op :: body) r) :
    ∃ e, readRequest (op :: body) = .error e := by
  cases hreq : readRequest (op :: body) with
  | error e => exact ⟨e, rfl⟩
  | ok r =>
    obtain ⟨hr, henc⟩ := (readRequest_ok_iff hop body r).mp hreq
    exact absurd henc (h r hr)

/-- A frame that ends before its fields do. -/
theorem readRequest_cut {op : UInt8} (hop : HasFields op) {body : Bytes} {r : Request}
    (hr : r.opcode = some op) (hs : r.Sized) (hpre : op :: body <+: r.encode)
    (hne : op :: body ≠ r.encode) : ∃ e, readRequest (op :: body) = .error e := by
  refine readRequest_throws hop ?_
  rintro r' hr' ⟨hs', rest', hrest'⟩
  obtain ⟨rest, hrest⟩ := hpre
  have hunique := @Request.encode_unique op hop r' r (rest' ++ rest) [] hr' hr hs' hs
    (by rw [← List.append_assoc, hrest', hrest, List.append_nil])
  obtain ⟨-, hnil⟩ := List.append_eq_nil_iff.mp hunique.2
  rw [hnil, List.append_nil] at hrest
  exact hne hrest

theorem readString8_long {data : Bytes} {offset : Nat} {n : UInt8} {rest : Bytes}
    (h : data.drop offset = n :: rest) (hlong : rest.length < n.toNat) :
    ∃ e, readString8 data offset = .error e := by
  cases hread : readString8 data offset with
  | error e => exact ⟨e, rfl⟩
  | ok r =>
    obtain ⟨-, hlt, rest', hrest'⟩ := (readString8_ok_iff _ _ _ _).mp hread
    rw [h, pushString8, List.cons_append, List.cons.injEq] at hrest'
    rw [hrest'.1, hrest'.2, Codec.toNat_ofNat_of_lt hlt, List.length_append] at hlong
    omega

/-- **The grammar of requests.** The reads of a frame succeed if and only if it is the encoding of
a request and anything after it. The request is the only one, and the handler acts on its fields.
Of any other frame nothing comes. No read goes past the end of the frame. -/
theorem requests_grammar {cfg : Config} (h : Reachable cfg) (conn : Conn) {op : UInt8}
    (hop : HasFields op) (body : Bytes) :
    let data := op :: body
    (∀ r, readRequest data = .ok r ↔ r.opcode = some op ∧ Encodes data r) ∧
    (∀ (r r' : Request) rest rest', r.opcode = some op → r'.opcode = some op → r.Sized → r'.Sized →
      r.encode ++ rest = r'.encode ++ rest' → r = r' ∧ rest = rest') ∧
    (∀ r sender, readRequest data = .ok r → (dispatch conn sender data).run =
      log.bind fun _ => (perform conn sender r).bind fun _ => .ret (.ok ())) ∧
    ((∀ r : Request, r.opcode = some op → ¬ Encodes data r) →
      (∃ e, ∀ sender, (dispatch conn sender data).run = log.bind fun _ => .ret (.error e)) ∧
      Unheard conn op cfg.world ((onMessage conn data true).run cfg.world).2) ∧
    (∀ r : Request, r.opcode = some op → r.Sized → data <+: r.encode → data ≠ r.encode →
      ∃ e, readRequest data = .error e) ∧
    (∀ offset n rest, data.drop offset = n :: rest → rest.length < n.toNat →
      ∃ e, readString8 data offset = .error e) ∧
    (∀ offset b next, readUint8 data offset = .ok (b, next) →
      next ≤ data.length ∧ (data.take next).drop offset = [b]) ∧
    ∀ offset s next, readString8 data offset = .ok (s, next) →
      next ≤ data.length ∧ (data.take next).drop offset = pushString8 s := by
  intro data
  refine ⟨readRequest_ok_iff hop body, fun r r' rest rest' => Request.encode_unique hop, ?_, ?_,
    fun r => readRequest_cut hop, fun _ _ _ => readString8_long, fun _ _ _ => readUint8_within,
    fun _ _ _ => readString8_within⟩
  · intro r sender hr
    rw [dispatch_run, hr]
  · intro hother
    obtain ⟨e, he⟩ := readRequest_throws hop hother
    refine ⟨⟨e, fun sender => by rw [dispatch_run, he]⟩, ?_⟩
    rw [onMessage_eq h.sound, he]
    exact unheard_enter h.sound conn op

/-- The text is cut short by one byte. -/
theorem requests_grammar_cut : ∃ cfg, Reachable cfg ∧
    Unheard 1 4 cfg.world ((onMessage 1 [4, 1, 126, 2, 120] true).run cfg.world).2 := by
  have hreach := Reachable.start.serve (c := .onOpen 1 (ascii "a")) rfl rfl
  have hlaw := @requests_grammar _ hreach 1 4 (.inr (.inr (.inl rfl))) [1, 126, 2, 120]
  refine ⟨_, hreach, (hlaw.2.2.2.1 fun r hr henc => ?_).2⟩
  have hread := (hlaw.1 r).mpr ⟨hr, henc⟩
  cases hread

end ChatServer
