import ChatServer.Effects

/-!
# What a call does alone

Each call that runs from start to end with nothing in between, as one change of the `World`.
-/

open Program

namespace ChatServer

/-! ## Whole calls -/

namespace World

variable (w : World)

def updateStatus (username : Bytes) (status : UserStatus) : World :=
  if (w.connections.lookup username).isSome then
    (w.setStatus username status).sends w.live (statusPayload username status)
  else w

def history (sender target : Bytes) : List Message :=
  if target = generalChat then w.generalChatHistory else w.chat (chatId sender target)

def sendMessage (conn : Conn) (sender destino mensaje : Bytes) : World :=
  if mensaje = [] then w.emits [.sendBinary conn [50, 3]]
  else if destino = generalChat then
    (w.storeGeneral sender mensaje).sends w.live (messagePayload sender mensaje)
  else if isReachable w.connections destino then
    (w.storePrivate sender destino mensaje).sends (w.recipients sender true destino)
      (messagePayload sender mensaje)
  else w.refusePrivate sender

def changeStatus (conn : Conn) (sender username : Bytes) (rawStatus : UInt8) : World :=
  if username ≠ sender then w.emits [.sendBinary conn [50, 2]]
  else match statusOfByte rawStatus with
    | none => w.emits [.sendBinary conn [50, 2]]
    | some status => w.updateStatus sender status

def perform (conn : Conn) (sender : Bytes) : Request → World
  | .listUsers => w.emits [.sendBinary conn (userListPayload w.connections.entries)]
  | .userInfo requestedName => w.emits
      [.sendBinary conn (userInfoPayload requestedName (w.connections.lookup requestedName))]
  | .changeStatus username rawStatus => w.changeStatus conn sender username rawStatus
  | .sendMessage destino mensaje => w.sendMessage conn sender destino mensaje
  | .history target => w.emits [.sendBinary conn (historyPayload (w.history sender target))]
  | .unknown => w

/-- The sender of a binary frame, and the world once it is found and reactivated. -/
def enter (conn : Conn) (opcode : UInt8) : Bytes × World :=
  match w.findConn conn with
  | none => (desconocido, w)
  | some e =>
    (e.1, if e.2.status = .inactivo ∧ opcode = 4 then (w.touch e.1).updateStatus e.1 .activo
      else w.touch e.1)

/-- The end of `on_open`: the loops run, and the others hear of `username`. -/
def welcome (username : Bytes) (st : UserStatus) : World :=
  { w with monitorStarted := true }.sends (w.others username) (joinedPayload username st)

def onOpen (conn : Conn) (username : Bytes) : World :=
  if username = [] ∨ username.length > 20 ∨ username = generalChat then
    w.emits [.sendText conn "Error: Nombre de usuario inválido o reservado.",
      .close conn "Nombre inválido."]
  else match w.connections.lookup username with
    | none => (w.register conn username (w.remoteIp conn)).welcome username (w.freshStatus username)
    | some cd =>
      if cd.conn.isSome then w.rejectDuplicate conn
      else (w.reconnect conn username (w.remoteIp conn) (backStatus cd)).welcome username
        (backStatus cd)

def onClose (conn : Conn) : World :=
  match w.findConn conn with
  | none => w.emits [.left conn]
  | some e =>
    let v := w.disconnect conn e.1 e.2.status
    v.sends v.live (statusPayload e.1 .disconnected)

def announceIdle (users : List Bytes) : World :=
  { w with userMarkedInactive := w.userMarkedInactive && users = [] }.emits
    (users.flatMap fun u => w.live.map (Event.sendBinary · (statusPayload u .inactivo)))

end World

/-! ## Live connections -/

namespace World

theorem live_of_conns {w w' : World}
    (h : w'.connections.entries.map (·.2.conn) = w.connections.entries.map (·.2.conn)) :
    w'.live = w.live := by
  have hlive : ∀ v : World, v.live = (v.connections.entries.map (·.2.conn)).filterMap id := by
    intro v
    unfold live
    rw [List.filterMap_map]
    rfl
  rw [hlive, hlive, h]

theorem live_modify {w w' : World} {username : Bytes} {f : ConnectionData → ConnectionData}
    (h : w'.connections = w.connections.modify username f) (hf : ∀ cd, (f cd).conn = cd.conn) :
    w'.live = w.live := by
  refine live_of_conns ?_
  rw [h, Table.modify, Table.mapVal, List.map_map]
  apply List.map_congr_left
  intro e _
  simp only [Function.comp_apply, Sigma.map]
  split
  · exact hf _
  · rfl

@[simp] theorem live_emits (w : World) (es : List Event) : (w.emits es).live = w.live := rfl
@[simp] theorem live_sends (w : World) (conns : List Conn) (payload : Bytes) :
    (w.sends conns payload).live = w.live := rfl
@[simp] theorem live_touch (w : World) (username : Bytes) : (w.touch username).live = w.live :=
  live_modify rfl fun _ => rfl
@[simp] theorem live_setStatus (w : World) (username : Bytes) (status : UserStatus) :
    (w.setStatus username status).live = w.live :=
  live_modify rfl fun _ => rfl
@[simp] theorem live_storeGeneral (w : World) (sender msg : Bytes) :
    (w.storeGeneral sender msg).live = w.live := rfl
@[simp] theorem live_updateStatus (w : World) (username : Bytes) (status : UserStatus) :
    (w.updateStatus username status).live = w.live := by
  unfold updateStatus
  split <;> simp

@[simp] theorem connOf_updateStatus (w : World) (username : Bytes) (status : UserStatus) (n : Bytes) :
    (w.updateStatus username status).connOf n = w.connOf n := by
  unfold updateStatus
  split
  · exact connOf_setStatus w username status n
  · rfl

@[simp] theorem live_enter (w : World) (conn : Conn) (opcode : UInt8) :
    (w.enter conn opcode).2.live = w.live := by
  unfold enter
  split
  · rfl
  · dsimp only
    split <;> simp

@[simp] theorem connOf_enter (w : World) (conn : Conn) (opcode : UInt8) (n : Bytes) :
    (w.enter conn opcode).2.connOf n = w.connOf n := by
  unfold enter
  split
  · rfl
  · dsimp only
    split <;> simp

end World

@[simp] theorem World.welcome_connections (w : World) (username : Bytes) (st : UserStatus) :
    (w.welcome username st).connections = w.connections := rfl

@[simp] theorem World.welcome_trace (w : World) (username : Bytes) (st : UserStatus) :
    (w.welcome username st).trace = w.trace ++
      (w.others username).map (Event.sendBinary · (joinedPayload username st)) := rfl

/-! ## What calls leave alone -/

namespace World

variable (w : World) (username : Bytes) (status : UserStatus) (conn : Conn) (opcode : UInt8)

@[simp] theorem updateStatus_chatHistory :
    (w.updateStatus username status).chatHistory = w.chatHistory := by
  unfold updateStatus
  split <;> rfl

@[simp] theorem updateStatus_general :
    (w.updateStatus username status).generalChatHistory = w.generalChatHistory := by
  unfold updateStatus
  split <;> rfl

@[simp] theorem updateStatus_lastUserStatus :
    (w.updateStatus username status).lastUserStatus = w.lastUserStatus := by
  unfold updateStatus
  split <;> rfl

@[simp] theorem enter_chatHistory : (w.enter conn opcode).2.chatHistory = w.chatHistory := by
  unfold enter
  split
  · rfl
  · dsimp only
    split <;> simp

@[simp] theorem enter_general :
    (w.enter conn opcode).2.generalChatHistory = w.generalChatHistory := by
  unfold enter
  split
  · rfl
  · dsimp only
    split <;> simp

@[simp] theorem enter_lastUserStatus :
    (w.enter conn opcode).2.lastUserStatus = w.lastUserStatus := by
  unfold enter
  split
  · rfl
  · dsimp only
    split <;> simp

@[simp] theorem sendMessage_connections (sender destino mensaje : Bytes) :
    (w.sendMessage conn sender destino mensaje).connections = w.connections := by
  unfold sendMessage
  split_ifs <;> rfl

theorem updateStatus_lookup (n : Bytes) :
    (w.updateStatus username status).connections.lookup n =
      if n = username then (w.connections.lookup n).map fun cd =>
        { cd with status := status, lastActive := w.steadyClock 0 }
      else w.connections.lookup n := by
  unfold updateStatus
  split
  · rw [sends_connections, setStatus_connections, Table.lookup_modify]
  · rename_i hnone
    split
    · rename_i hn
      rw [Option.not_isSome_iff_eq_none] at hnone
      rw [hn, hnone]
      rfl
    · rfl

end World

theorem readRequest_four {rest : Bytes} {r : Request} (h : readRequest (4 :: rest) = .ok r) :
    ∃ destino mensaje, r = .sendMessage destino mensaje := by
  rw [readRequest_cons] at h
  simp only [show (4 : UInt8).toNat = 4 from rfl, bind, except_bind_ok_iff, pure, Except.pure,
    Except.ok.injEq] at h
  obtain ⟨x, -, y, -, heq⟩ := h
  exact ⟨x.1, y.1, heq.symm⟩

/-! ## The equations -/

theorem updateStatus_eq (username : Bytes) (status : UserStatus) (w : World) :
    (updateStatus username status true).run w = ((), w.updateStatus username status) := by
  rw [updateStatus_run, World.live_setStatus]
  rfl

theorem changeStatus_eq (conn : Conn) (sender username : Bytes) (rawStatus : UInt8) (w : World) :
    (changeStatus conn sender username rawStatus).run w =
      ((), w.changeStatus conn sender username rawStatus) := by
  unfold changeStatus World.changeStatus
  split
  · rfl
  · simp only [bind_eq, run_bind, run_log, run_withLock, run_load, pure_eq, run_pure]
    cases statusOfByte rawStatus with
    | none => rfl
    | some status => simp only [run_bind, run_log, updateStatus_eq]

/-- A text that the readers can return is never truncated. -/
theorem sendMessage_eq (conn : Conn) (sender destino : Bytes) {mensaje : Bytes}
    (hm : mensaje.length < 256) (w : World) :
    (sendMessage conn sender destino mensaje).run w =
      ((), w.sendMessage conn sender destino mensaje) := by
  have hlen : ¬ mensaje.length > maxMessageLength := by
    unfold maxMessageLength
    omega
  unfold sendMessage World.sendMessage
  simp only [bind_eq, run_bind, run_log]
  by_cases hempty : mensaje = []
  · rw [if_pos hempty, if_pos hempty]
    rfl
  · rw [if_neg hempty, if_neg hempty, if_neg hlen]
    change (if destino = generalChat then _ else _ : Prog Unit).run w = _
    split
    · rw [sendBroadcast_run]
    · rw [sendPrivateMessage_run]

theorem selectHistory_eq (sender target : Bytes) (w : World) :
    (selectHistory sender target).run w = (w.history sender target, w) := by
  unfold selectHistory World.history
  split <;> rfl

theorem perform_eq (conn : Conn) (sender : Bytes) {r : Request} (hr : r.Fits) (w : World) :
    (perform conn sender r).run w = ((), w.perform conn sender r) := by
  cases r with
  | listUsers => exact sendUserList_run conn w
  | userInfo requestedName => exact answerUserInfo_run conn requestedName w
  | changeStatus username rawStatus => exact changeStatus_eq conn sender username rawStatus w
  | sendMessage destino mensaje => exact sendMessage_eq conn sender destino hr w
  | history target =>
    simp only [perform, answerHistory, bind_eq, run_bind, selectHistory_eq, run_log,
      run_sendBinary]
    rfl
  | unknown => rfl

/-! ## The calls -/

theorem onMessage_empty (conn : Conn) (w : World) : (onMessage conn [] true).run w = ((), w) := rfl

theorem onMessage_eq {w : World} (hw : Sound w) (conn : Conn) (b : UInt8) (rest : Bytes) :
    (onMessage conn (b :: rest) true).run w = ((), match readRequest (b :: rest) with
      | .error _ => (w.enter conn b).2
      | .ok r => (w.enter conn b).2.perform conn (w.enter conn b).1 r) := by
  rw [onMessage_binary]
  simp only [run_bind, run_log, run_withLock, identifySender_run]
  have hserve : ∀ (sender : Bytes) (v : World),
      (serve conn sender (b :: rest)).run v = ((), match readRequest (b :: rest) with
        | .error _ => v
        | .ok r => v.perform conn sender r) := by
    intro sender v
    unfold serve
    cases hreq : readRequest (b :: rest) with
    | error e => rfl
    | ok req => exact perform_eq conn sender (readRequest_fits hreq) v
  unfold World.enter
  cases hfind : w.findConn conn with
  | none => exact hserve desconocido w
  | some e =>
    have hname := (hw.name_of_findConn hfind).1
    by_cases hre : e.2.status = .inactivo ∧ b = 4
    · simp only [reactivated, if_pos hre, ne_eq, hname, not_false_eq_true, if_true,
        updateStatus_eq]
      exact hserve e.1 _
    · simp only [reactivated, if_neg hre, ne_eq, not_true_eq_false, if_false]
      exact hserve e.1 _

theorem logOpened_run (isReconnection : Bool) (w : World) :
    (logOpened isReconnection).run w = ((), w) := by
  unfold logOpened
  cases isReconnection with
  | true => rfl
  | false =>
    simp only [Bool.false_eq_true, if_false, bind_eq, run_bind, run_log, run_withLock, run_load,
      run_forEach]
    rw [List.foldl_fixed]

theorem startMonitor_run (w : World) :
    startMonitor.run w = ((), { w with monitorStarted := true }) := by
  unfold startMonitor
  simp only [bind_eq, run_load_bind]
  cases h : w.monitorStarted with
  | false => rfl
  | true =>
    simp only [if_true, pure_eq, run_pure, Prod.mk.injEq, true_and]
    cases w
    simp_all

theorem onOpen_eq {w : World} (hw : Sound w) (conn : Conn) (username : Bytes) :
    (onOpen conn username).run w = ((), w.onOpen conn username) := by
  have hwelcome : ∀ (isReconnection : Bool) (st : UserStatus) (v : World),
      v.testingMode = false → ((logOpened isReconnection).bind fun _ => startMonitor.bind fun _ =>
        notifyUserJoined username st).run v = ((), v.welcome username st) := by
    intro isReconnection st v hv
    simp only [run_bind, logOpened_run, startMonitor_run, notifyUserJoined_run]
    rw [if_neg (by simp [hv])]
    rfl
  unfold onOpen World.onOpen
  simp only [bind_eq, run_load_bind]
  split
  · simp only [run_bind, run_log, run_emit, World.emits_emits]
    rfl
  · rw [run_bind, run_withLock, admitUser_run]
    cases hcd : w.connections.lookup username with
    | none => exact hwelcome false _ _ hw.testing
    | some cd =>
      by_cases hconn : cd.conn.isSome
      · simp only [hconn, if_true]
        rfl
      · simp only [hconn, Bool.false_eq_true, if_false]
        exact hwelcome true _ _ hw.testing

theorem onClose_eq {w : World} (hw : Sound w) (conn : Conn) :
    (onClose conn).run w = ((), w.onClose conn) := by
  unfold onClose World.onClose
  rw [bind_eq, run_bind, run_withLock, disconnect_run]
  cases hfind : w.findConn conn with
  | none => rfl
  | some e =>
    have hname := (hw.name_of_findConn hfind).1
    dsimp only
    rw [if_pos hname, notifyUserStatusChange_run]

theorem monitorPass_eq (w : World) :
    monitorPass.run w = ((), w.markIdle.announceIdle (w.idleUsers (w.steadyClock 0))) := by
  have hloop : ∀ (users : List Bytes) (v : World),
      (forEach users fun u => notifyUserStatusChange u .inactivo).run v = ((), v.emits
        (users.flatMap fun u => v.live.map (Event.sendBinary · (statusPayload u .inactivo)))) := by
    intro users
    induction users with
    | nil => simp [forEach]
    | cons u users ih =>
      intro v
      simp only [forEach, run_bind, notifyUserStatusChange_run, ih, World.live_sends,
        List.flatMap_cons]
      rw [World.sends, World.emits_emits]
  unfold monitorPass
  simp only [bind_eq, run_bind, run_withLock, findIdle_run, hloop]
  generalize w.idleUsers (w.steadyClock 0) = users
  cases users with
  | nil => simp [World.announceIdle, World.emits]
  | cons u users => simp [World.announceIdle, World.emits]

end ChatServer
