import ChatServer.Calls
import ChatServer.Invariants

/-!
# What the frames say

Each frame with code 52 to 56 decodes to what the server meant by it.
-/

open Program

namespace ChatServer

/-- `st` is the byte of the status that `username` has in the world `w`. -/
def Stored (w : World) (username : Bytes) (st : UInt8) : Prop :=
  ∃ cd, w.connections.lookup username = some cd ∧ st = userStatusToByte cd.status

/-- Run from the world `w`, the call `c` gives `username` the status `status`, if it has an entry. -/
def Call.sets (c : Call) (w : World) (username : Bytes) (status : UserStatus) : Prop :=
  match c with
  | .onMessage conn (b :: rest) true => username = (w.enter conn b).1 ∧
      ((∃ cd, w.findConn conn = some ⟨username, cd⟩ ∧ cd.status = .inactivo) ∧ b = 4 ∧
          status = .activo ∨
        ∃ rawStatus, readRequest (b :: rest) = .ok (.changeStatus username rawStatus) ∧
          statusOfByte rawStatus = some status)
  | .onClose conn => w.connOf username = some conn ∧ status = .disconnected
  | .monitorPass _ => username ∈ w.idleUsers (w.steadyClock 0) ∧ status = .inactivo
  | _ => False

/-- What the call `c`, which took the world from `w` to `w'`, means by a frame. -/
def Meant (c : Call) (w w' : World) : Frame → Prop
  | .userInfo username st => ∃ conn b rest,
    c = .onMessage conn (b :: rest) true ∧ readRequest (b :: rest) = .ok (.userInfo username) ∧
      Stored w' username st
  | .userJoined username st => ∃ conn, c = .onOpen conn username ∧ Stored w' username st
  | .statusChanged username st => ∃ status,
    c.sets w username status ∧ st = userStatusToByte status ∧ Stored w' username st
  | .newMessage sender text => ∃ conn b rest destino,
    c = .onMessage conn (b :: rest) true ∧ sender = (w.enter conn b).1 ∧
      readRequest (b :: rest) = .ok (.sendMessage destino text) ∧
      (w'.generalChatHistory = w.generalChatHistory ++ [(sender, text)] ∨
        w'.chat (chatId sender destino) = w.chat (chatId sender destino) ++ [(sender, text)])
  | .history messages => ∃ conn b rest target,
    c = .onMessage conn (b :: rest) true ∧ readRequest (b :: rest) = .ok (.history target) ∧
      messages = (w'.history (w.enter conn b).1 target).take 255
  | _ => False

def Coded (payload : Bytes) : Prop := ∃ code body, payload = code :: body ∧ 52 ≤ code ∧ code ≤ 56

/-- What is new in the trace, as far as it is coded, decodes to a frame that `M` holds of. -/
def Says (M : Frame → Prop) (w w' : World) : Prop :=
  ∃ es, w'.trace = w.trace ++ es ∧ ∀ conn payload, .sendBinary conn payload ∈ es → Coded payload →
    ∃ frame, decodeFrame payload = some frame ∧ M frame

namespace Says

variable {M : Frame → Prop} {w w' w'' : World}

theorem silent (h : w'.trace = w.trace) : Says M w w' :=
  ⟨[], by rw [h, List.append_nil], fun _ _ hmem => absurd hmem List.not_mem_nil⟩

protected theorem trans (h : Says M w w') (h' : Says M w' w'') : Says M w w'' := by
  obtain ⟨es, htrace, hes⟩ := h
  obtain ⟨es', htrace', hes'⟩ := h'
  refine ⟨es ++ es', by rw [htrace', htrace, List.append_assoc], fun conn payload hmem => ?_⟩
  rcases List.mem_append.mp hmem with hmem | hmem
  · exact hes conn payload hmem
  · exact hes' conn payload hmem

theorem emits {es : List Event} (h : ∀ conn payload, .sendBinary conn payload ∈ es →
    Coded payload → ∃ frame, decodeFrame payload = some frame ∧ M frame) : Says M w (w.emits es) :=
  ⟨es, rfl, h⟩

theorem sends {payload : Bytes} {frame : Frame} (hdecode : decodeFrame payload = some frame)
    (hM : M frame) (conns : List Conn) : Says M w (w.sends conns payload) := by
  apply emits
  intro conn payload' hmem _
  obtain ⟨_, -, heq⟩ := List.mem_map.mp hmem
  cases heq
  exact ⟨frame, hdecode, hM⟩

theorem uncoded {code : UInt8} {body : Bytes} (h : code < 52) (conns : List Conn) :
    Says M w (w.sends conns (code :: body)) := by
  apply emits
  intro conn payload hmem hcoded
  obtain ⟨_, -, heq⟩ := List.mem_map.mp hmem
  cases heq
  obtain ⟨_, _, heq, hlo, -⟩ := hcoded
  cases heq
  exact absurd h (UInt8.not_lt.mpr hlo)

end Says

/-! ## The calls -/

theorem Sound.history_fits {w : World} (hw : Sound w) (sender target : Bytes) :
    ∀ m ∈ w.history sender target, m.1.length < 256 ∧ m.2.length < 256 := by
  intro m hm
  have hvalid : ValidName m.1 ∧ ValidText m.2 := by
    unfold World.history at hm
    split at hm
    · exact hw.general m hm
    · exact hw.chats _ m hm
  exact ⟨hvalid.1.length_lt, hvalid.2.length_lt⟩

theorem says_updateStatus {w : World} {username : Bytes} {status : UserStatus} {M : Frame → Prop}
    (hname : username.length < 256)
    (hM : ∀ cd, w.connections.lookup username = some cd →
      M (.statusChanged username (userStatusToByte status))) :
    Says M w (w.updateStatus username status) := by
  unfold World.updateStatus
  split
  · rename_i hsome
    obtain ⟨cd, hcd⟩ := Option.isSome_iff_exists.mp hsome
    exact (Says.silent rfl).trans (.sends (decodeFrame_statusChanged hname _) (hM cd hcd) _)
  · exact .silent rfl

theorem Sound.updateStatus {w : World} (hw : Sound w) (username : Bytes) (status : UserStatus) :
    Sound (w.updateStatus username status) := by
  unfold World.updateStatus
  split
  · rename_i hsome
    refine (Effect.send fun e he => ?_).sound ((Effect.setStatus username status).sound hw)
    obtain ⟨_, -, rfl⟩ := List.mem_map.mp he
    exact wellFormed_statusPayload (hw.names username hsome) status
  · exact hw

theorem Sound.enter {w : World} (hw : Sound w) (conn : Conn) (opcode : UInt8) :
    Sound (w.enter conn opcode).2 ∧ ValidName (w.enter conn opcode).1 := by
  unfold World.enter
  cases hfind : w.findConn conn with
  | none => exact ⟨hw, validName_desconocido⟩
  | some e =>
    have htouch := (Effect.touch e.1).sound hw
    refine ⟨?_, hw.name_of_findConn hfind⟩
    dsimp only
    split
    · exact htouch.updateStatus _ _
    · exact htouch

theorem Stored.of_updateStatus {w : World} {username : Bytes} {cd : ConnectionData}
    (h : w.connections.lookup username = some cd) (status : UserStatus) :
    Stored (w.updateStatus username status) username (userStatusToByte status) := by
  refine ⟨{ cd with status := status, lastActive := w.steadyClock 0 }, ?_, rfl⟩
  rw [World.updateStatus_lookup, if_pos rfl, h]
  rfl

theorem says_changeStatus {v : World} (hv : Sound v) (conn : Conn) (sender username : Bytes)
    (rawStatus : UInt8) {M : Frame → Prop}
    (hM : ∀ status, username = sender → statusOfByte rawStatus = some status →
      Stored (v.changeStatus conn sender username rawStatus) sender (userStatusToByte status) →
      M (.statusChanged sender (userStatusToByte status))) :
    Says M v (v.changeStatus conn sender username rawStatus) := by
  unfold World.changeStatus at hM ⊢
  split at hM
  · rename_i hne
    rw [if_pos hne]
    exact .uncoded (by decide) [conn]
  · rename_i hne
    rw [if_neg hne]
    cases hst : statusOfByte rawStatus with
    | none => exact .uncoded (by decide) [conn]
    | some status =>
      rw [hst] at hM
      cases hcd : v.connections.lookup sender with
      | none =>
        refine .silent ?_
        simp [World.updateStatus, hcd]
      | some cd =>
        apply says_updateStatus (hv.name_of_lookup hcd).length_lt
        intro _ _
        exact hM status (not_not.mp hne) rfl (.of_updateStatus hcd status)

theorem says_sendMessage {v : World} (conn : Conn) {sender mensaje : Bytes} (destino : Bytes)
    (hs : sender.length < 256) (hm : mensaje.length < 256) {M : Frame → Prop}
    (hM : (v.sendMessage conn sender destino mensaje).generalChatHistory =
          v.generalChatHistory ++ [(sender, mensaje)] ∨
        (v.sendMessage conn sender destino mensaje).chat (chatId sender destino) =
          v.chat (chatId sender destino) ++ [(sender, mensaje)] → M (.newMessage sender mensaje)) :
    Says M v (v.sendMessage conn sender destino mensaje) := by
  have hstore : ∀ {e : Event} {u : World}, u.trace = v.trace ++ [e] →
      (∀ conn payload, e ≠ .sendBinary conn payload) → Says M v u := by
    intro e u htrace hne
    refine ⟨[e], htrace, fun conn payload hmem => ?_⟩
    exact absurd (List.mem_singleton.mp hmem).symm (hne conn payload)
  unfold World.sendMessage at hM ⊢
  split_ifs at hM ⊢ with hempty hgeneral hreach
  · exact .uncoded (by decide) [conn]
  · exact (hstore (e := .storedGeneral sender mensaje) rfl nofun).trans
      (.sends (decodeFrame_newMessage hs hm) (hM (.inl rfl)) _)
  · refine (hstore (e := .storedPrivate sender destino mensaje) rfl nofun).trans
      (.sends (decodeFrame_newMessage hs hm) (hM (.inr ?_)) _)
    simp [World.chat, World.storePrivate, World.emits, World.sends]
  · exact .uncoded (by decide) _

theorem says_perform {v : World} (hv : Sound v) (conn : Conn) {sender : Bytes}
    (hs : ValidName sender) {r : Request} (hr : r.Fits) {M : Frame → Prop}
    (hinfo : ∀ name st, r = .userInfo name → Stored (v.perform conn sender r) name st →
      M (.userInfo name st))
    (hstatus : ∀ rawStatus status, r = .changeStatus sender rawStatus →
      statusOfByte rawStatus = some status →
      Stored (v.perform conn sender r) sender (userStatusToByte status) →
      M (.statusChanged sender (userStatusToByte status)))
    (hmessage : ∀ destino text, r = .sendMessage destino text →
      ((v.perform conn sender r).generalChatHistory = v.generalChatHistory ++ [(sender, text)] ∨
        (v.perform conn sender r).chat (chatId sender destino) =
          v.chat (chatId sender destino) ++ [(sender, text)]) → M (.newMessage sender text))
    (hhistory : ∀ target, r = .history target →
      M (.history (((v.perform conn sender r).history sender target).take 255))) :
    Says M v (v.perform conn sender r) := by
  cases r with
  | listUsers => exact .uncoded (by decide) [conn]
  | userInfo requestedName =>
    cases hcd : v.connections.lookup requestedName with
    | none =>
      simp only [World.perform, hcd]
      exact .uncoded (by decide) [conn]
    | some cd =>
      have hM := hinfo requestedName (userStatusToByte cd.status) rfl ⟨cd, hcd, rfl⟩
      simp only [World.perform, hcd]
      exact .sends (decodeFrame_userInfo hr _) hM [conn]
  | changeStatus username rawStatus =>
    refine says_changeStatus hv conn sender username rawStatus fun status hself hst hstored => ?_
    exact hstatus rawStatus status (by rw [hself]) hst hstored
  | sendMessage destino mensaje =>
    exact says_sendMessage conn destino hs.length_lt hr (hmessage destino mensaje rfl)
  | history target =>
    exact .sends (decodeFrame_historyPayload (hv.history_fits sender target)) (hhistory target rfl)
      [conn]
  | unknown => exact .silent rfl

/-- An idle sender of a message is announced as ACTIVO. -/
theorem says_enter {w : World} (hw : Sound w) (conn : Conn) (opcode : UInt8) {M : Frame → Prop}
    (hM : ∀ cd, w.findConn conn = some ⟨(w.enter conn opcode).1, cd⟩ → cd.status = .inactivo →
      opcode = 4 → Stored (w.enter conn opcode).2 (w.enter conn opcode).1 (userStatusToByte .activo) →
      M (.statusChanged (w.enter conn opcode).1 (userStatusToByte .activo))) :
    Says M w (w.enter conn opcode).2 := by
  unfold World.enter at hM ⊢
  cases hfind : w.findConn conn with
  | none => exact .silent rfl
  | some e =>
    simp only [hfind] at hM ⊢
    by_cases hre : e.2.status = .inactivo ∧ opcode = 4
    · rw [if_pos hre] at hM ⊢
      refine (Says.silent (World.touch_trace w e.1)).trans ?_
      apply says_updateStatus (hw.name_of_findConn hfind).length_lt
      intro cd hcd
      exact hM e.2 rfl hre.1 hre.2 (.of_updateStatus hcd .activo)
    · rw [if_neg hre]
      exact .silent rfl

theorem says_onMessage {w : World} (hw : Sound w) (conn : Conn) (data : Bytes) (isBinary : Bool) :
    Says (Meant (.onMessage conn data isBinary) w ((onMessage conn data isBinary).run w).2) w
      ((onMessage conn data isBinary).run w).2 := by
  cases data with
  | nil => cases isBinary <;> exact .silent rfl
  | cons b rest =>
    cases isBinary with
    | false => exact .silent rfl
    | true =>
      obtain ⟨hv, hs⟩ := hw.enter conn b
      rw [onMessage_eq hw]
      cases hreq : readRequest (b :: rest) with
      | error e =>
        refine says_enter hw conn b fun cd hfind hidle hb hstored => ?_
        exact ⟨.activo, ⟨rfl, .inl ⟨⟨cd, hfind, hidle⟩, hb, rfl⟩⟩, rfl, hstored⟩
      | ok r =>
        refine (says_enter hw conn b ?_).trans
          (says_perform hv conn hs (readRequest_fits hreq) ?_ ?_ ?_ ?_)
        · rintro cd hfind hidle rfl ⟨cd', hcd', hst⟩
          refine ⟨.activo, ⟨rfl, .inl ⟨⟨cd, hfind, hidle⟩, rfl, rfl⟩⟩, rfl, cd', ?_, hst⟩
          -- the message that follows changes no entry
          obtain ⟨destino, mensaje, rfl⟩ := readRequest_four hreq
          simpa [World.perform] using hcd'
        · rintro name st rfl hstored
          exact ⟨conn, b, rest, rfl, hreq, hstored⟩
        · rintro rawStatus status rfl hst hstored
          exact ⟨status, ⟨rfl, .inr ⟨rawStatus, hreq, hst⟩⟩, rfl, hstored⟩
        · rintro destino text rfl hstored
          refine ⟨conn, b, rest, destino, rfl, rfl, hreq, ?_⟩
          simpa [World.chat] using hstored
        · rintro target rfl
          exact ⟨conn, b, rest, target, rfl, hreq, rfl⟩

theorem says_onOpen {w : World} (hw : Sound w) (conn : Conn) (username : Bytes) :
    Says (Meant (.onOpen conn username) w ((onOpen conn username).run w).2) w
      ((onOpen conn username).run w).2 := by
  rw [onOpen_eq hw]
  have hquiet : ∀ {es : List Event}, (∀ conn payload, .sendBinary conn payload ∉ es) →
      ∀ {M : Frame → Prop} {u : World}, u.trace = w.trace ++ es → Says M w u :=
    fun hes _ _ htrace => ⟨_, htrace, fun conn payload hmem => absurd hmem (hes conn payload)⟩
  unfold World.onOpen
  split
  · exact hquiet (by simp) rfl
  · rename_i hvalid
    have hname : ValidName username := by_contra fun hbad => hvalid (not_validName_iff.mp hbad)
    have hjoined : ∀ st, decodeFrame (joinedPayload username st) =
        some (.userJoined username (userStatusToByte st)) :=
      fun st => decodeFrame_userJoined hname.length_lt _
    cases hcd : w.connections.lookup username with
    | none =>
      have hregister : ∀ M, Says M w (w.register conn username (w.remoteIp conn)) :=
        fun _ => hquiet (by simp) rfl
      refine (hregister _).trans
        (.sends (hjoined _) ⟨conn, rfl, w.freshEntry conn username (w.remoteIp conn), ?_, rfl⟩ _)
      exact AList.lookup_insert _
    | some cd =>
      dsimp only
      split
      · exact hquiet (by simp) rfl
      · have hentry : (w.reconnect conn username (w.remoteIp conn)
            (World.backStatus cd)).connections.lookup username = some
              { cd with
                conn := some conn
                lastActive := w.steadyClock 0
                ipAddress := w.remoteIp conn
                status := World.backStatus cd } := by
          rw [World.reconnect_connections, Table.lookup_modify_self, hcd]
          rfl
        have hreconnect : ∀ M, Says M w
            (w.reconnect conn username (w.remoteIp conn) (World.backStatus cd)) :=
          fun _ => hquiet (by simp) rfl
        exact (hreconnect _).trans (.sends (hjoined _) ⟨conn, rfl, _, hentry, rfl⟩ _)

theorem says_onClose {w : World} (hw : Sound w) (conn : Conn) :
    Says (Meant (.onClose conn) w ((onClose conn).run w).2) w ((onClose conn).run w).2 := by
  rw [onClose_eq hw]
  unfold World.onClose
  cases hfind : w.findConn conn with
  | none => exact .emits (by simp)
  | some e =>
    have hentry : (w.disconnect conn e.1 e.2.status).connections.lookup e.1 =
        some { e.2 with status := .disconnected, conn := none } := by
      rw [World.disconnect_connections, Table.lookup_modify_self, (World.findConn_eq_some hfind).1]
      rfl
    have hquiet : ∀ M, Says M w (w.disconnect conn e.1 e.2.status) :=
      fun M => ⟨_, World.disconnect_trace _ _ _ _, by simp⟩
    refine (hquiet _).trans (.sends
      (decodeFrame_statusChanged (hw.name_of_findConn hfind).length_lt _) ?_ _)
    exact ⟨.disconnected, ⟨(World.findConn_eq_some hfind).2, rfl⟩, rfl, _, hentry, rfl⟩

theorem says_monitorPass {w : World} (hw : Sound w) (k : Nat) :
    Says (Meant (.monitorPass k) w (monitorPass.run w).2) w (monitorPass.run w).2 := by
  rw [monitorPass_eq]
  refine ⟨_, rfl, fun conn payload hmem _ => ?_⟩
  obtain ⟨u, hu, hsent⟩ := List.mem_flatMap.mp hmem
  obtain ⟨_, -, heq⟩ := List.mem_map.mp hsent
  cases heq
  obtain ⟨cd, hcd, -⟩ := World.mem_idleUsers.mp hu
  refine ⟨_, decodeFrame_statusChanged (hw.name_of_lookup hcd).length_lt _,
    .inactivo, ⟨hu, rfl⟩, rfl, { cd with status := .inactivo }, ?_, rfl⟩
  change w.markIdle.connections.lookup u = _
  rw [World.markIdle_connections, Table.lookup_mapVal, hcd, Option.map_some, if_pos hu]

theorem says_call {w : World} (hw : Sound w) (c : Call) :
    Says (Meant c w (c.code.run w).2) w (c.code.run w).2 := by
  cases c with
  | onOpen conn username => exact says_onOpen hw conn username
  | onMessage conn data isBinary => exact says_onMessage hw conn data isBinary
  | onClose conn => exact says_onClose hw conn
  | monitorPass k => exact says_monitorPass hw k
  | cleanupPass k =>
    refine .silent ?_
    change (cleanupPass.run w).2.trace = _
    rw [cleanupPass_run, World.eraseExpired_trace]

/-! ## Fidelity -/

/-- **Frames.** In every interleaving, each frame with code 52 to 56 decodes, to its last byte.
Of a call that runs from any reachable world, each such frame carries what the server meant.
The text of a request is never truncated. -/
theorem frames_faithful {cfg : Config} (h : Reachable cfg) :
    (∀ conn payload, .sendBinary conn payload ∈ cfg.world.trace → Coded payload →
      ∃ frame, decodeFrame payload = some frame) ∧
    (∀ (c : Call) conn payload,
      .sendBinary conn payload ∈ (c.code.run cfg.world).2.trace.drop cfg.world.trace.length →
      Coded payload →
        ∃ frame, decodeFrame payload = some frame ∧ Meant c cfg.world (c.code.run cfg.world).2 frame) ∧
    ∀ data destino mensaje, readRequest data = .ok (.sendMessage destino mensaje) →
      ¬ mensaje.length > maxMessageLength := by
  refine ⟨fun conn payload hmem hcoded => ?_, fun c conn payload hmem hcoded => ?_, ?_⟩
  · rcases h.sound.frames conn payload hmem with ⟨users, -, rfl⟩ | hdecode
    · obtain ⟨code, body', heq, hlo, -⟩ := hcoded
      cases heq
      exact absurd hlo (by decide)
    · exact Option.isSome_iff_exists.mp hdecode
  · obtain ⟨es, htrace, hes⟩ := says_call h.sound c
    rw [htrace, List.drop_left] at hmem
    exact hes conn payload hmem hcoded
  · intro data destino mensaje hread
    have hlen := ((readRequest_eq_sendMessage _ _ _).mp hread).2.1
    unfold maxMessageLength
    omega

theorem frames_faithful_hello : ∃ cfg, Reachable cfg ∧ ∃ frame,
    decodeFrame (messagePayload (ascii "a") (ascii "x")) = some frame ∧
      Meant (.onMessage 1 [4, 1, 126, 1, 120] true) cfg.world
        ((onMessage 1 [4, 1, 126, 1, 120] true).run cfg.world).2 frame := by
  have hreach := Reachable.start.serve (c := .onOpen 1 (ascii "a")) rfl rfl
  refine ⟨_, hreach, (frames_faithful hreach).2.1 (.onMessage 1 [4, 1, 126, 1, 120] true) 1 _ ?_ ?_⟩
  · decide
  · exact ⟨55, _, rfl, by decide, by decide⟩

end ChatServer
