import ChatServer.Lib.Codec
import ChatServer.WebsocketHandler

/-!
# The wire protocol

What a frame of the server means, after the tables of `docs/protocolo.md`, and the requests
that the readers of the handlers accept.
-/

open Program

namespace ChatServer

/-! ## Frames of the server -/

/-- A frame with the values that it carries. A status stays a byte here. -/
inductive Frame
  | error (code : UInt8)
  | userList (users : List (Bytes × UInt8))
  | userInfo (username : Bytes) (status : UInt8)
  | userJoined (username : Bytes) (status : UInt8)
  | statusChanged (username : Bytes) (status : UInt8)
  | newMessage (sender text : Bytes)
  | history (messages : List Message)
  deriving DecidableEq

def namedStatus : Codec (Bytes × UInt8) := .prod .string8 .byte

def message : Codec Message := .prod .string8 .string8

/-- Reads a whole payload: nothing may follow the last field. -/
def decodeFrame : Bytes → Option Frame
  | [] => none
  | code :: body =>
    match code.toNat with
    | 50 => (Codec.byte.decodeAll body).map .error
    | 51 => (namedStatus.list8.decodeAll body).map .userList
    | 52 => (namedStatus.decodeAll body).map fun (name, st) => .userInfo name st
    | 53 => (namedStatus.decodeAll body).map fun (name, st) => .userJoined name st
    | 54 => (namedStatus.decodeAll body).map fun (name, st) => .statusChanged name st
    | 55 => (message.decodeAll body).map fun (sender, text) => .newMessage sender text
    | 56 => (message.list8.decodeAll body).map .history
    | _ => none

def Frame.code : Frame → Nat
  | .error _ => 50
  | .userList _ => 51
  | .userInfo .. => 52
  | .userJoined .. => 53
  | .statusChanged .. => 54
  | .newMessage .. => 55
  | .history _ => 56

theorem decodeFrame_code {code : UInt8} {body : Bytes} {frame : Frame}
    (h : decodeFrame (code :: body) = some frame) : code.toNat = frame.code := by
  unfold decodeFrame at h
  dsimp only at h
  split at h
  all_goals first
    | cases h
    | (rename_i hcode
       obtain ⟨_, -, rfl⟩ := Option.map_eq_some_iff.mp h
       exact hcode)

theorem namedStatus_decodeAll {name : Bytes} (h : name.length < 256) (st : UInt8) :
    namedStatus.decodeAll (pushString8 name ++ [st]) = some (name, st) :=
  (namedStatus.decodeAll_eq_some _ _).mpr ⟨⟨h, trivial⟩, rfl⟩

theorem decodeFrame_userInfo {name : Bytes} (h : name.length < 256) (st : UInt8) :
    decodeFrame (52 :: pushString8 name ++ [st]) = some (.userInfo name st) := by
  simp [decodeFrame, namedStatus_decodeAll h st]

theorem decodeFrame_userJoined {name : Bytes} (h : name.length < 256) (st : UInt8) :
    decodeFrame (53 :: pushString8 name ++ [st]) = some (.userJoined name st) := by
  simp [decodeFrame, namedStatus_decodeAll h st]

theorem decodeFrame_statusChanged {name : Bytes} (h : name.length < 256) (st : UInt8) :
    decodeFrame (54 :: pushString8 name ++ [st]) = some (.statusChanged name st) := by
  simp [decodeFrame, namedStatus_decodeAll h st]

theorem decodeFrame_newMessage {sender text : Bytes} (hs : sender.length < 256)
    (ht : text.length < 256) :
    decodeFrame (55 :: pushString8 sender ++ pushString8 text) = some (.newMessage sender text) := by
  have h : message.decodeAll (pushString8 sender ++ pushString8 text) = some (sender, text) :=
    (message.decodeAll_eq_some _ _).mpr ⟨⟨hs, ht⟩, rfl⟩
  simp [decodeFrame, h]

theorem decodeFrame_historyPayload {messages : List Message}
    (h : ∀ m ∈ messages, m.1.length < 256 ∧ m.2.length < 256) :
    decodeFrame (historyPayload messages) = some (.history (messages.take 255)) := by
  have hcount : (if messages.length > 255 then (255 : UInt8) else UInt8.ofNat messages.length) =
      UInt8.ofNat (messages.take 255).length := by
    rw [List.length_take]
    split
    · rw [min_eq_left (by omega)]
      rfl
    · rw [min_eq_right (by omega)]
  have hlt : (messages.take 255).length < 256 := by
    simp only [List.length_take]
    omega
  have htake : messages.take (messages.take 255).length = messages.take 255 := by
    simp [List.length_take]
  have hall : message.list8.decodeAll (UInt8.ofNat (messages.take 255).length ::
      (messages.take 255).flatMap message.encode) = some (messages.take 255) :=
    (message.list8.decodeAll_eq_some _ _).mpr
      ⟨⟨hlt, fun m hm => h m (List.mem_of_mem_take hm)⟩, rfl⟩
  simp only [historyPayload, hcount, Codec.toNat_ofNat_of_lt hlt, htake]
  simp only [decodeFrame, show (56 : UInt8).toNat = 56 from rfl]
  change (message.list8.decodeAll (UInt8.ofNat (messages.take 255).length ::
      (messages.take 255).flatMap message.encode)).map Frame.history = _
  rw [hall]
  rfl

/-! ## Reading requests -/

theorem readUint8_ok_iff (data : Bytes) (offset : Nat) (b : UInt8) (next : Nat) :
    readUint8 data offset = .ok (b, next) ↔
      next = offset + 1 ∧ ∃ rest, data.drop offset = b :: rest := by
  unfold readUint8
  split
  · rename_i h
    rw [List.drop_eq_nil_of_le h]
    simp [throw, throwThe, MonadExceptOf.throw]
  · rename_i h
    rw [List.drop_eq_getElem_cons (by omega)]
    simp only [pure, Except.pure, Except.ok.injEq, Prod.mk.injEq, List.cons.injEq,
      List.getD_eq_getElem?_getD, List.getElem?_eq_getElem (by omega : offset < data.length),
      Option.getD_some]
    constructor
    · rintro ⟨rfl, rfl⟩
      exact ⟨rfl, _, rfl, rfl⟩
    · rintro ⟨rfl, _, rfl, -⟩
      exact ⟨rfl, rfl⟩

/-- The reader of strings accepts what the codec accepts, at the offset it is given. -/
theorem readString8_ok_iff (data : Bytes) (offset : Nat) (s : Bytes) (next : Nat) :
    readString8 data offset = .ok (s, next) ↔
      next = offset + 1 + s.length ∧ s.length < 256 ∧
        ∃ rest, data.drop offset = pushString8 s ++ rest := by
  unfold readString8
  cases hlen : readUint8 data offset with
  | error e =>
    simp only [bind, Except.bind, reduceCtorEq, false_iff]
    rintro ⟨-, -, rest, hdrop⟩
    have hok := (readUint8_ok_iff data offset _ _).mpr ⟨rfl, _, hdrop⟩
    rw [hlen] at hok
    cases hok
  | ok r =>
    obtain ⟨n, o⟩ := r
    obtain ⟨rfl, rest, hdrop⟩ := (readUint8_ok_iff data offset n o).mp hlen
    have hrest : data.drop (offset + 1) = rest := by
      rw [← List.drop_drop, hdrop]
      rfl
    have hsize : data.length = offset + 1 + rest.length := by
      have := congrArg List.length hdrop
      simp only [List.length_drop, List.length_cons] at this
      omega
    have hlaw := Codec.string8.law (n :: rest) s
    simp only [Codec.string8, Option.ite_none_right_eq_some, Option.some.injEq,
      Prod.mk.injEq] at hlaw
    simp only [bind, Except.bind, hdrop, hrest, pushString8]
    constructor
    · intro h
      split at h
      · cases h
      · rename_i hle
        simp only [pure, Except.pure, Except.ok.injEq, Prod.mk.injEq] at h
        obtain ⟨hs, rfl⟩ := h
        have htake : s.length = n.toNat := by
          rw [← hs, List.length_take]
          omega
        exact ⟨by omega, by rw [htake]; exact n.toNat_lt,
          _, ((hlaw _).mp ⟨by omega, hs, rfl⟩).2⟩
    · rintro ⟨rfl, hlt, rest', heq⟩
      obtain ⟨hle, hs, -⟩ := (hlaw rest').mpr ⟨hlt, heq⟩
      have htake : s.length = n.toNat := by
        rw [← hs, List.length_take]
        omega
      rw [if_neg (by omega)]
      simp [pure, Except.pure, hs, htake]

/-- A request with its fields, as the reads of its handler return them. -/
inductive Request
  | listUsers
  | userInfo (requestedName : Bytes)
  | changeStatus (username : Bytes) (rawStatus : UInt8)
  | sendMessage (destino mensaje : Bytes)
  | history (target : Bytes)
  | unknown
  deriving DecidableEq

/-- All the reads that a frame goes through, without what its handler does in between. -/
def readRequest (data : Bytes) : Except String Request := do
  let (opcode, offset) ← readUint8 data 0
  match opcode.toNat with
  | 1 => pure .listUsers
  | 2 =>
    let (requestedName, _) ← readString8 data offset
    pure (.userInfo requestedName)
  | 3 =>
    let (username, offset) ← readString8 data offset
    let (rawStatus, _) ← readUint8 data offset
    pure (.changeStatus username rawStatus)
  | 4 =>
    let (destino, offset) ← readString8 data offset
    let (mensaje, _) ← readString8 data offset
    pure (.sendMessage destino mensaje)
  | 5 =>
    let (target, _) ← readString8 data offset
    pure (.history target)
  | _ => pure .unknown

def perform (conn : Conn) (sender : Bytes) : Request → Prog Unit
  | .listUsers => handleListUsers conn
  | .userInfo requestedName => answerUserInfo conn requestedName
  | .changeStatus username rawStatus => changeStatus conn sender username rawStatus
  | .sendMessage destino mensaje => sendMessage conn sender destino mensaje
  | .history target => answerHistory conn sender target
  | .unknown => log

def serve (conn : Conn) (sender data : Bytes) : Prog Unit :=
  match readRequest data with
  | .error _ => log
  | .ok r => perform conn sender r

theorem dispatch_run (conn : Conn) (sender : Bytes) (b : UInt8) (rest : Bytes) :
    (dispatch conn sender (b :: rest)).run = log.bind fun _ =>
      match readRequest (b :: rest) with
      | .error e => .ret (.error e)
      | .ok r => (perform conn sender r).bind fun _ => .ret (.ok ()) := by
  have hread : readUint8 (b :: rest) 0 = .ok (b, 1) := rfl
  unfold dispatch readRequest
  simp only [hread, exceptT_ok_bind, exceptT_lift_bind]
  refine congrArg log.bind (funext fun _ => ?_)
  simp only [bind, Except.bind]
  generalize b.toNat = opcode
  rcases opcode with _ | _ | _ | _ | _ | _ | n
  · rfl
  · rfl
  · unfold handleGetUserInfo
    cases readString8 (b :: rest) 1 <;> rfl
  · unfold handleChangeStatus
    cases readString8 (b :: rest) 1 with
    | error e => rfl
    | ok r =>
      simp only [exceptT_ok_bind]
      cases readUint8 (b :: rest) r.2 <;> rfl
  · unfold handleSendMessage
    cases readString8 (b :: rest) 1 with
    | error e => rfl
    | ok r =>
      simp only [exceptT_ok_bind]
      cases readString8 (b :: rest) r.2 <;> rfl
  · unfold handleGetHistory
    cases readString8 (b :: rest) 1 <;> rfl
  · rfl

/-- A non-empty binary frame: find the sender, reactivate it if need be, then serve the request. -/
theorem onMessage_binary (conn : Conn) (b : UInt8) (rest : Bytes) :
    onMessage conn (b :: rest) true = log.bind fun _ =>
      (withLock .connectionsMutex (identifySender conn b)).bind fun r =>
        (if r.2 ≠ [] then updateStatus r.2 .activo true else .ret ()).bind fun _ =>
          log.bind fun _ => serve conn r.1 (b :: rest) := by
  unfold onMessage serve
  refine congrArg log.bind (funext fun _ => ?_)
  simp only [Bool.not_true, Bool.false_eq_true, if_false, List.length_cons,
    show ¬ rest.length + 1 < 1 by omega, List.getD_cons_zero, bind_eq, dispatch_run, Program.bind_assoc]
  refine congrArg _ (funext fun r => ?_)
  cases readRequest (b :: rest) with
  | error e => split <;> rfl
  | ok req =>
    have hend : (perform conn r.1 req).bind (fun _ => .ret ()) = perform conn r.1 req := bind_ret _
    simp only [Program.bind_assoc, ret_bind, pure_eq, hend]
    split <;> rfl

/-! ## The grammar of requests -/

theorem readRequest_cons (op : UInt8) (body : Bytes) :
    readRequest (op :: body) = match op.toNat with
      | 1 => pure .listUsers
      | 2 => do
        let (requestedName, _) ← readString8 (op :: body) 1
        pure (.userInfo requestedName)
      | 3 => do
        let (username, offset) ← readString8 (op :: body) 1
        let (rawStatus, _) ← readUint8 (op :: body) offset
        pure (.changeStatus username rawStatus)
      | 4 => do
        let (destino, offset) ← readString8 (op :: body) 1
        let (mensaje, _) ← readString8 (op :: body) offset
        pure (.sendMessage destino mensaje)
      | 5 => do
        let (target, _) ← readString8 (op :: body) 1
        pure (.history target)
      | _ => pure .unknown := rfl

theorem drop_body (op : UInt8) (s rest : Bytes) :
    (op :: (pushString8 s ++ rest)).drop (1 + 1 + s.length) = rest := by
  have : 1 + 1 + s.length = (s.length + 1) + 1 := by omega
  rw [this, List.drop_succ_cons]
  simp [pushString8]

theorem readRequest_nil (r : Request) : readRequest [] ≠ .ok r := nofun

theorem except_bind_ok_iff {ε α β : Type} (x : Except ε α) (f : α → Except ε β) (b : β) :
    x.bind f = .ok b ↔ ∃ a, x = .ok a ∧ f a = .ok b := by
  cases x with
  | error e => simp [Except.bind]
  | ok a => simp [Except.bind]

theorem toNat_eq_iff (op : UInt8) (n : Nat) (h : n < 256) : op.toNat = n ↔ op = UInt8.ofNat n := by
  rw [← UInt8.toNat_inj, Codec.toNat_ofNat_of_lt h]

def Request.opcode : Request → Option UInt8
  | .listUsers => some 1
  | .userInfo _ => some 2
  | .changeStatus _ _ => some 3
  | .sendMessage _ _ => some 4
  | .history _ => some 5
  | .unknown => none

/-- The opcodes whose handlers read fields. -/
def HasFields (op : UInt8) : Prop := op = 2 ∨ op = 3 ∨ op = 4 ∨ op = 5

theorem readRequest_opcode {op : UInt8} {body : Bytes} {r : Request}
    (h : readRequest (op :: body) = .ok r) : r.opcode = some op ∨ r = .unknown ∧ ¬ HasFields op := by
  rw [readRequest_cons] at h
  split at h
  all_goals
    rename_i hop
    simp only [bind, except_bind_ok_iff, pure, Except.pure, Except.ok.injEq, Prod.exists] at h
  · subst h
    exact .inl (congrArg some ((toNat_eq_iff op 1 (by omega)).mp hop).symm)
  · obtain ⟨_, _, -, rfl⟩ := h
    exact .inl (congrArg some ((toNat_eq_iff op 2 (by omega)).mp hop).symm)
  · obtain ⟨_, _, -, _, _, -, rfl⟩ := h
    exact .inl (congrArg some ((toNat_eq_iff op 3 (by omega)).mp hop).symm)
  · obtain ⟨_, _, -, _, _, -, rfl⟩ := h
    exact .inl (congrArg some ((toNat_eq_iff op 4 (by omega)).mp hop).symm)
  · obtain ⟨_, _, -, rfl⟩ := h
    exact .inl (congrArg some ((toNat_eq_iff op 5 (by omega)).mp hop).symm)
  · refine .inr ⟨h.symm, ?_⟩
    rintro (rfl | rfl | rfl | rfl) <;> simp at *

theorem readRequest_iff_of_opcode {op : UInt8} {r : Request} (hr : r.opcode = some op)
    (data : Bytes) : readRequest data = .ok r ↔ ∃ body, data = op :: body ∧
      readRequest (op :: body) = .ok r := by
  constructor
  · intro h
    cases data with
    | nil => exact absurd h (readRequest_nil r)
    | cons b body =>
      rcases readRequest_opcode h with hb | ⟨rfl, -⟩
      · obtain rfl : op = b := Option.some.inj (hr.symm.trans hb)
        exact ⟨body, rfl, h⟩
      · cases hr
  · rintro ⟨body, rfl, h⟩
    exact h

theorem readString8_field (op : UInt8) (body s : Bytes) (next : Nat) :
    readString8 (op :: body) 1 = .ok (s, next) ↔
      next = 1 + 1 + s.length ∧ s.length < 256 ∧ ∃ rest, body = pushString8 s ++ rest :=
  readString8_ok_iff (op :: body) 1 s next

/-- A request with one string. -/
theorem readRequest_oneString {op : UInt8} {f : Bytes → Request} (hf : Function.Injective f)
    (hop : ∀ s, (f s).opcode = some op)
    (hread : ∀ body, readRequest (op :: body) = do
      let (s, _) ← readString8 (op :: body) 1
      pure (f s)) (data s : Bytes) :
    readRequest data = .ok (f s) ↔ s.length < 256 ∧ ∃ rest, data = op :: (pushString8 s ++ rest) := by
  rw [readRequest_iff_of_opcode (hop s)]
  constructor
  · rintro ⟨body, rfl, h⟩
    rw [hread] at h
    simp only [bind, except_bind_ok_iff, pure, Except.pure, Except.ok.injEq, Prod.exists] at h
    obtain ⟨s', next, hs, heq⟩ := h
    obtain rfl := hf heq
    obtain ⟨-, hlt, rest, rfl⟩ := (readString8_field _ _ _ _).mp hs
    exact ⟨hlt, rest, rfl⟩
  · rintro ⟨hlt, rest, rfl⟩
    have hs := (readString8_field op (pushString8 s ++ rest) s _).mpr ⟨rfl, hlt, rest, rfl⟩
    refine ⟨_, rfl, ?_⟩
    rw [hread, hs]
    rfl

theorem readRequest_eq_userInfo (data requestedName : Bytes) :
    readRequest data = .ok (.userInfo requestedName) ↔
      requestedName.length < 256 ∧ ∃ rest, data = 2 :: (pushString8 requestedName ++ rest) :=
  readRequest_oneString (fun _ _ => Request.userInfo.inj) (fun _ => rfl) (fun _ => rfl) data _

theorem readRequest_eq_history (data target : Bytes) :
    readRequest data = .ok (.history target) ↔
      target.length < 256 ∧ ∃ rest, data = 5 :: (pushString8 target ++ rest) :=
  readRequest_oneString (fun _ _ => Request.history.inj) (fun _ => rfl) (fun _ => rfl) data _

theorem readRequest_eq_changeStatus (data username : Bytes) (rawStatus : UInt8) :
    readRequest data = .ok (.changeStatus username rawStatus) ↔
      username.length < 256 ∧ ∃ rest, data = 3 :: (pushString8 username ++ rawStatus :: rest) := by
  rw [readRequest_iff_of_opcode rfl]
  constructor
  · rintro ⟨body, rfl, h⟩
    simp only [readRequest_cons, UInt8.reduceToNat, bind, except_bind_ok_iff, pure, Except.pure,
      Except.ok.injEq, Request.changeStatus.injEq, Prod.exists] at h
    obtain ⟨s, o, hread, st, o', hread', rfl, rfl⟩ := h
    obtain ⟨rfl, hlt, rest, rfl⟩ := (readString8_field _ _ _ _).mp hread
    obtain ⟨-, rest', hrest'⟩ := (readUint8_ok_iff _ _ _ _).mp hread'
    rw [drop_body] at hrest'
    exact ⟨hlt, rest', by rw [hrest']⟩
  · rintro ⟨hlt, rest, rfl⟩
    have hread := (readString8_field 3 (pushString8 username ++ rawStatus :: rest) _ _).mpr
      ⟨rfl, hlt, _, rfl⟩
    have hread' := (readUint8_ok_iff (3 :: (pushString8 username ++ rawStatus :: rest)) _ _ _).mpr
      ⟨rfl, rest, drop_body _ _ _⟩
    refine ⟨_, rfl, ?_⟩
    simp [readRequest_cons, hread, hread', bind, Except.bind, pure, Except.pure]

theorem readRequest_eq_sendMessage (data destino mensaje : Bytes) :
    readRequest data = .ok (.sendMessage destino mensaje) ↔
      destino.length < 256 ∧ mensaje.length < 256 ∧
        ∃ rest, data = 4 :: (pushString8 destino ++ (pushString8 mensaje ++ rest)) := by
  rw [readRequest_iff_of_opcode rfl]
  constructor
  · rintro ⟨body, rfl, h⟩
    simp only [readRequest_cons, UInt8.reduceToNat, bind, except_bind_ok_iff, pure, Except.pure,
      Except.ok.injEq, Request.sendMessage.injEq, Prod.exists] at h
    obtain ⟨s, o, hread, t, o', hread', rfl, rfl⟩ := h
    obtain ⟨rfl, hlt, rest, rfl⟩ := (readString8_field _ _ _ _).mp hread
    obtain ⟨-, hlt', rest', hrest'⟩ := (readString8_ok_iff _ _ _ _).mp hread'
    rw [drop_body] at hrest'
    exact ⟨hlt, hlt', rest', by rw [hrest']⟩
  · rintro ⟨hlt, hlt', rest, rfl⟩
    have hread := (readString8_field 4 (pushString8 destino ++ (pushString8 mensaje ++ rest)) _ _).mpr
      ⟨rfl, hlt, _, rfl⟩
    have hread' := (readString8_ok_iff
      (4 :: (pushString8 destino ++ (pushString8 mensaje ++ rest))) _ _ _).mpr
      ⟨rfl, hlt', rest, drop_body _ _ _⟩
    refine ⟨_, rfl, ?_⟩
    simp [readRequest_cons, hread, hread', bind, Except.bind, pure, Except.pure]

/-- The frame is a message: opcode 4, a destination and a text. -/
def IsMessage (data destino mensaje : Bytes) : Prop :=
  destino.length < 256 ∧ mensaje.length < 256 ∧
    ∃ rest, data = 4 :: (pushString8 destino ++ (pushString8 mensaje ++ rest))

/-- The frame asks for a status: opcode 3, a name and a status byte. -/
def IsStatusChange (data username : Bytes) (rawStatus : UInt8) : Prop :=
  username.length < 256 ∧ ∃ rest, data = 3 :: (pushString8 username ++ rawStatus :: rest)

theorem statusOfByte_eq_some (rawStatus : UInt8) (st : UserStatus) :
    statusOfByte rawStatus = some st ↔ rawStatus = userStatusToByte st := by
  unfold statusOfByte
  constructor
  · intro h
    split at h <;> cases h
    all_goals
      rename_i hnat
      exact UInt8.toNat_inj.mp hnat
  · rintro rfl
    cases st <;> rfl

def Request.Fits : Request → Prop
  | .userInfo requestedName => requestedName.length < 256
  | .sendMessage _ mensaje => mensaje.length < 256
  | _ => True

theorem readRequest_fits {data : Bytes} {r : Request} (h : readRequest data = .ok r) : r.Fits := by
  cases r with
  | userInfo requestedName => exact ((readRequest_eq_userInfo _ _).mp h).1
  | sendMessage destino mensaje => exact ((readRequest_eq_sendMessage _ _ _).mp h).2.1
  | _ => trivial

end ChatServer
