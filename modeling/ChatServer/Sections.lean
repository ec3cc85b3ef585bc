import ChatServer.Protocol

/-!
# What the critical sections do

Each scope of `connections_mutex` as a change of the `World`: one equation for each, which
later proofs use in place of the code.
-/

open Program

namespace ChatServer

/-! ## Changes of the world -/

namespace World

variable (w : World)

def emits (es : List Event) : World := { w with trace := w.trace ++ es }

def tick : World := { w with steadyClock := fun i => w.steadyClock (i + 1) }

def modifyEntry (username : Bytes) (f : ConnectionData → ConnectionData) : World :=
  { w with connections := w.connections.modify username f }

def live : List Conn := w.connections.entries.filterMap (·.2.conn)

def others (username : Bytes) : List Conn :=
  w.connections.entries.filterMap fun e => if e.1 ≠ username then e.2.conn else none

def connOf (username : Bytes) : Option Conn := (w.connections.lookup username).bind (·.conn)

def sends (conns : List Conn) (payload : Bytes) : World :=
  w.emits (conns.map (Event.sendBinary · payload))

/-- The entry in which a loop over `connections` first finds `conn`. -/
def findConn (conn : Conn) : Option (Sigma fun _ : Bytes => ConnectionData) :=
  w.connections.entries.find? fun e => e.2.conn = some conn

def setStatus (username : Bytes) (status : UserStatus) : World :=
  w.tick.modifyEntry username fun cd => { cd with status := status, lastActive := w.steadyClock 0 }

def touch (username : Bytes) : World :=
  w.tick.modifyEntry username fun cd => { cd with lastActive := w.steadyClock 0 }

def storeGeneral (sender msg : Bytes) : World :=
  { w with generalChatHistory := w.generalChatHistory ++ [(sender, msg)] }.emits
    [.storedGeneral sender msg]

def chat (key : Bytes) : List Message := (w.chatHistory.lookup key).getD []

def storePrivate (sender recipient msg : Bytes) : World :=
  { w with
    chatHistory := w.chatHistory.insert (chatId sender recipient)
      (w.chat (chatId sender recipient) ++ [(sender, msg)]) }.emits
    [.storedPrivate sender recipient msg]

def backStatus (cd : ConnectionData) : UserStatus :=
  if cd.status = .disconnected then .activo else cd.status

def freshStatus (username : Bytes) : UserStatus :=
  match w.lastUserStatus.lookup username with
  | none => .activo
  | some .disconnected => .activo
  | some st => st

def freshEntry (conn : Conn) (username clientIp : Bytes) : ConnectionData where
  username := username
  uuid := hexBytes (w.time 0).toUInt64.toNat ++ hexBytes w.counter.toUInt32.toNat
  conn := some conn
  status := w.freshStatus username
  lastActive := w.steadyClock 0
  ipAddress := clientIp

def register (conn : Conn) (username clientIp : Bytes) : World :=
  { w.tick with
    time := fun i => w.time (i + 1)
    counter := w.counter + 1
    connections := w.connections.insert username (w.freshEntry conn username clientIp) }.emits
    [.accepted conn username]

def reconnect (conn : Conn) (username clientIp : Bytes) (status : UserStatus) : World :=
  (w.tick.modifyEntry username fun cd =>
    { cd with
      conn := some conn
      lastActive := w.steadyClock 0
      ipAddress := clientIp
      status := status }).emits [.accepted conn username]

def rejectDuplicate (conn : Conn) : World :=
  w.emits [.sendText conn "Error: Nombre duplicado.", .close conn "Duplicado."]

def disconnect (conn : Conn) (username : Bytes) (status : UserStatus) : World :=
  { w.emits [.left conn] with
    lastUserStatus := w.lastUserStatus.insert username status
    connections := w.connections.modify username fun cd =>
      { cd with status := .disconnected, conn := none } }

def idleUsers (now : TimePoint) : List Bytes :=
  (w.connections.entries.filter fun e => isIdle now e.2).map (·.1)

def mark (users : List Bytes) : World :=
  { w with
    connections := w.connections.mapVal fun username cd =>
      if username ∈ users then { cd with status := .inactivo } else cd
    userMarkedInactive := w.userMarkedInactive || users ≠ [] }

def markIdle : World := w.tick.mark (w.idleUsers (w.steadyClock 0))

def expiredUsers (now : TimePoint) : List Bytes :=
  (w.connections.entries.filter fun e => isExpired now e.2).map (·.1)

def eraseExpired : World :=
  { w.tick with
    connections := w.connections.filter fun username _ => username ∉ w.expiredUsers (w.steadyClock 0) }

end World

/-! ## Small programs -/

@[simp] theorem run_log (w : World) : log.run w = ((), w) := rfl

theorem logEntries_run (w : World) : (withLock .connectionsMutex
    (load.bind fun w => forEach w.connections.entries fun _ => log)).run w = ((), w) := by
  rw [run_withLock, run_load_bind, run_forEach]
  simp only [run_log]
  rw [List.foldl_fixed]

@[simp] theorem run_emit (e : Event) (w : World) : (emit e).run w = ((), w.emits [e]) := rfl

@[simp] theorem run_sendBinary (conn : Conn) (payload : Bytes) (w : World) :
    (sendBinary conn payload).run w = ((), w.emits [.sendBinary conn payload]) := rfl

@[simp] theorem run_steadyNow (w : World) : steadyNow.run w = (w.steadyClock 0, w.tick) := rfl

@[simp] theorem run_steadyNow_bind {α : Type} (f : TimePoint → Prog α) (w : World) :
    (steadyNow.bind f).run w = (f (w.steadyClock 0)).run w.tick := rfl

@[simp] theorem run_modifyEntry (username : Bytes) (f : ConnectionData → ConnectionData)
    (w : World) : (modifyEntry username f).run w = ((), w.modifyEntry username f) := rfl

@[simp] theorem run_sendError (conn : Conn) (code : UInt8) (w : World) :
    (sendError conn code).run w = ((), w.emits [.sendBinary conn [50, code]]) := rfl

namespace World

@[simp] theorem emits_nil (w : World) : w.emits [] = w := by simp [emits]

@[simp] theorem emits_emits (w : World) (es fs : List Event) :
    (w.emits es).emits fs = w.emits (es ++ fs) := by simp [emits]

section Fields

variable (w : World) (es : List Event) (conns : List Conn) (payload username clientIp : Bytes)
  (conn : Conn) (status : UserStatus) (sender recipient msg : Bytes)

@[simp] theorem emits_connections : (w.emits es).connections = w.connections := rfl
@[simp] theorem emits_trace : (w.emits es).trace = w.trace ++ es := rfl
@[simp] theorem emits_chatHistory : (w.emits es).chatHistory = w.chatHistory := rfl
@[simp] theorem emits_general : (w.emits es).generalChatHistory = w.generalChatHistory := rfl
@[simp] theorem emits_lastUserStatus : (w.emits es).lastUserStatus = w.lastUserStatus := rfl

@[simp] theorem sends_connections : (w.sends conns payload).connections = w.connections := rfl
@[simp] theorem sends_trace : (w.sends conns payload).trace =
    w.trace ++ conns.map (Event.sendBinary · payload) := rfl
@[simp] theorem sends_chatHistory : (w.sends conns payload).chatHistory = w.chatHistory := rfl
@[simp] theorem sends_general :
    (w.sends conns payload).generalChatHistory = w.generalChatHistory := rfl
@[simp] theorem sends_lastUserStatus :
    (w.sends conns payload).lastUserStatus = w.lastUserStatus := rfl

@[simp] theorem touch_connections : (w.touch username).connections =
    w.connections.modify username fun cd => { cd with lastActive := w.steadyClock 0 } := rfl
@[simp] theorem touch_trace : (w.touch username).trace = w.trace := rfl
@[simp] theorem touch_chatHistory : (w.touch username).chatHistory = w.chatHistory := rfl
@[simp] theorem touch_general :
    (w.touch username).generalChatHistory = w.generalChatHistory := rfl
@[simp] theorem touch_lastUserStatus :
    (w.touch username).lastUserStatus = w.lastUserStatus := rfl

@[simp] theorem setStatus_connections : (w.setStatus username status).connections =
    w.connections.modify username fun cd =>
      { cd with status := status, lastActive := w.steadyClock 0 } := rfl
@[simp] theorem setStatus_trace : (w.setStatus username status).trace = w.trace := rfl
@[simp] theorem setStatus_chatHistory :
    (w.setStatus username status).chatHistory = w.chatHistory := rfl
@[simp] theorem setStatus_general :
    (w.setStatus username status).generalChatHistory = w.generalChatHistory := rfl
@[simp] theorem setStatus_lastUserStatus :
    (w.setStatus username status).lastUserStatus = w.lastUserStatus := rfl

@[simp] theorem storeGeneral_connections :
    (w.storeGeneral sender msg).connections = w.connections := rfl
@[simp] theorem storeGeneral_trace : (w.storeGeneral sender msg).trace =
    w.trace ++ [.storedGeneral sender msg] := rfl
@[simp] theorem storeGeneral_chatHistory :
    (w.storeGeneral sender msg).chatHistory = w.chatHistory := rfl
@[simp] theorem storeGeneral_general : (w.storeGeneral sender msg).generalChatHistory =
    w.generalChatHistory ++ [(sender, msg)] := rfl
@[simp] theorem storeGeneral_lastUserStatus :
    (w.storeGeneral sender msg).lastUserStatus = w.lastUserStatus := rfl

@[simp] theorem storePrivate_connections :
    (w.storePrivate sender recipient msg).connections = w.connections := rfl
@[simp] theorem storePrivate_trace : (w.storePrivate sender recipient msg).trace =
    w.trace ++ [.storedPrivate sender recipient msg] := rfl
@[simp] theorem storePrivate_general :
    (w.storePrivate sender recipient msg).generalChatHistory = w.generalChatHistory := rfl
@[simp] theorem storePrivate_lastUserStatus :
    (w.storePrivate sender recipient msg).lastUserStatus = w.lastUserStatus := rfl

@[simp] theorem register_connections : (w.register conn username clientIp).connections =
    w.connections.insert username (w.freshEntry conn username clientIp) := rfl
@[simp] theorem register_trace : (w.register conn username clientIp).trace =
    w.trace ++ [.accepted conn username] := rfl
@[simp] theorem register_chatHistory :
    (w.register conn username clientIp).chatHistory = w.chatHistory := rfl
@[simp] theorem register_general :
    (w.register conn username clientIp).generalChatHistory = w.generalChatHistory := rfl

@[simp] theorem reconnect_connections :
    (w.reconnect conn username clientIp status).connections =
      w.connections.modify username fun cd =>
        { cd with
          conn := some conn
          lastActive := w.steadyClock 0
          ipAddress := clientIp
          status := status } := rfl
@[simp] theorem reconnect_trace : (w.reconnect conn username clientIp status).trace =
    w.trace ++ [.accepted conn username] := rfl
@[simp] theorem reconnect_chatHistory :
    (w.reconnect conn username clientIp status).chatHistory = w.chatHistory := rfl
@[simp] theorem reconnect_general :
    (w.reconnect conn username clientIp status).generalChatHistory = w.generalChatHistory := rfl

@[simp] theorem disconnect_connections : (w.disconnect conn username status).connections =
    w.connections.modify username fun cd => { cd with status := .disconnected, conn := none } := rfl
@[simp] theorem disconnect_trace :
    (w.disconnect conn username status).trace = w.trace ++ [.left conn] := rfl
@[simp] theorem disconnect_chatHistory :
    (w.disconnect conn username status).chatHistory = w.chatHistory := rfl
@[simp] theorem disconnect_general :
    (w.disconnect conn username status).generalChatHistory = w.generalChatHistory := rfl

@[simp] theorem markIdle_connections : w.markIdle.connections =
    w.connections.mapVal fun username cd =>
      if username ∈ w.idleUsers (w.steadyClock 0) then { cd with status := .inactivo } else cd := rfl
@[simp] theorem markIdle_trace : w.markIdle.trace = w.trace := rfl
@[simp] theorem markIdle_chatHistory : w.markIdle.chatHistory = w.chatHistory := rfl
@[simp] theorem markIdle_general : w.markIdle.generalChatHistory = w.generalChatHistory := rfl

@[simp] theorem eraseExpired_connections : w.eraseExpired.connections =
    w.connections.filter fun username _ => username ∉ w.expiredUsers (w.steadyClock 0) := rfl
@[simp] theorem eraseExpired_trace : w.eraseExpired.trace = w.trace := rfl
@[simp] theorem eraseExpired_chatHistory : w.eraseExpired.chatHistory = w.chatHistory := rfl
@[simp] theorem eraseExpired_general :
    w.eraseExpired.generalChatHistory = w.generalChatHistory := rfl

end Fields

/-- Where the entries come from that the passes of the loops leave. -/
theorem of_lookup_markIdle {w : World} {n : Bytes} {cd' : ConnectionData}
    (h : w.markIdle.connections.lookup n = some cd') : ∃ cd, w.connections.lookup n = some cd ∧
      (n ∈ w.idleUsers (w.steadyClock 0) ∧ cd' = { cd with status := .inactivo } ∨ cd' = cd) := by
  rw [markIdle_connections, Table.lookup_mapVal] at h
  obtain ⟨cd, hcd, rfl⟩ := Option.map_eq_some_iff.mp h
  refine ⟨cd, hcd, ?_⟩
  split
  · rename_i hn
    exact .inl ⟨hn, rfl⟩
  · exact .inr rfl

theorem of_lookup_eraseExpired {w : World} {n : Bytes} {cd : ConnectionData}
    (h : w.eraseExpired.connections.lookup n = some cd) : w.connections.lookup n = some cd := by
  rw [eraseExpired_connections, Table.lookup_filter] at h
  exact (Option.filter_eq_some_iff.mp h).1

theorem foldl_emits {ι : Type} (g : ι → List Event) (is : List ι) (w : World) :
    is.foldl (fun w i => w.emits (g i)) w = w.emits (is.flatMap g) := by
  induction is generalizing w with
  | nil => simp
  | cons i is ih => simp [ih]

theorem foldl_sends {ι : Type} (target : ι → Option Conn) (payload : Bytes) (is : List ι)
    (w : World) :
    is.foldl (fun w i => w.emits ((target i).toList.map (Event.sendBinary · payload))) w =
      w.sends (is.filterMap target) payload := by
  rw [foldl_emits, sends]
  congr 1
  induction is with
  | nil => rfl
  | cons i is ih => cases h : target i <;> simp [h, ih]

end World

/-! ## Notifications -/

def joinedPayload (username : Bytes) (st : UserStatus) : Bytes :=
  53 :: pushString8 username ++ [userStatusToByte st]

def statusPayload (username : Bytes) (st : UserStatus) : Bytes :=
  54 :: pushString8 username ++ [userStatusToByte st]

def messagePayload (sender msg : Bytes) : Bytes := 55 :: pushString8 sender ++ pushString8 msg

theorem notifyUserStatusChange_run (username : Bytes) (st : UserStatus) (w : World) :
    (notifyUserStatusChange username st).run w =
      ((), w.sends w.live (statusPayload username st)) := by
  unfold notifyUserStatusChange
  simp only [run_withLock, bind_eq, run_bind, run_log, run_load, run_forEach]
  rw [World.live, ← World.foldl_sends]
  congr 2
  funext w e
  cases e.2.conn <;> simp [statusPayload]

theorem sendJoined_run (username : Bytes) (st : UserStatus) (w : World) :
    (sendJoined username st).run w =
      ((), w.sends (w.others username) (joinedPayload username st)) := by
  unfold sendJoined
  simp only [run_withLock, bind_eq, run_bind, run_log, run_load, run_forEach]
  rw [World.others, ← World.foldl_sends]
  congr 2
  funext w e
  cases e.2.conn with
  | none => simp
  | some conn => by_cases h : e.1 = username <;> simp [joinedPayload, h]

theorem notifyUserJoined_run (username : Bytes) (st : UserStatus) (w : World) :
    (notifyUserJoined username st).run w = ((),
      if w.testingMode then w else w.sends (w.others username) (joinedPayload username st)) := by
  unfold notifyUserJoined
  simp only [bind_eq, run_load_bind]
  split
  · rfl
  · rw [run_bind, sendJoined_run]
    rfl

theorem sendToUser_run (username payload : Bytes) (w : World) :
    (sendToUser username payload).run w = ((), w.sends (w.connOf username).toList payload) := by
  unfold sendToUser World.connOf World.sends
  simp only [bind_eq, run_load_bind]
  cases w.connections.lookup username with
  | none => simp
  | some cd => cases h : cd.conn <;> simp [h]

/-- The connections that a 55 frame goes to, one frame for each element. -/
def World.recipients (w : World) (sender : Bytes) (isPrivate : Bool) (recipient : Bytes) :
    List Conn :=
  if isPrivate then (w.connOf sender).toList ++ (w.connOf recipient).toList else w.live

theorem sendNewMessage_run (sender payload : Bytes) (isPrivate : Bool) (recipient : Bytes)
    (w : World) :
    (sendNewMessage sender payload isPrivate recipient).run w =
      ((), w.sends (w.recipients sender isPrivate recipient) payload) := by
  unfold sendNewMessage World.recipients
  cases isPrivate with
  | true => simp [sendToUser_run, World.sends, World.connOf]
  | false =>
    simp only [Bool.false_eq_true, if_false, run_withLock, bind_eq, run_load_bind, run_forEach]
    rw [World.live, ← World.foldl_sends]
    congr 2
    funext w e
    cases e.2.conn <;> simp

theorem notifyNewMessage_run (sender msg : Bytes) (isPrivate : Bool) (recipient : Bytes)
    (w : World) :
    (notifyNewMessage sender msg isPrivate recipient).run w =
      ((), w.sends (w.recipients sender isPrivate recipient) (messagePayload sender msg)) := by
  unfold notifyNewMessage
  simp only [run_async, bind_eq, run_bind, run_log, sendNewMessage_run]
  rfl

/-! ## Status and messages -/

theorem applyStatus_run (username : Bytes) (status : UserStatus) (notify : Bool) (w : World) :
    (applyStatus username status notify).run w = match w.connections.lookup username with
      | some cd => (notify || cd.conn.isSome, w.setStatus username status)
      | none => (false, w) := by
  unfold applyStatus
  simp only [bind_eq, run_load_bind]
  cases w.connections.lookup username <;> rfl

theorem updateStatus_run (username : Bytes) (status : UserStatus) (w : World) :
    (updateStatus username status true).run w = ((),
      if (w.connections.lookup username).isSome then
        (w.setStatus username status).sends (w.setStatus username status).live
          (statusPayload username status)
      else w) := by
  unfold updateStatus
  simp only [bind_eq, run_bind, run_withLock, applyStatus_run]
  cases w.connections.lookup username with
  | none => rfl
  | some cd => simp [notifyUserStatusChange_run]

/-- `send_private_message` tells the sender that the recipient is not there. -/
def World.refusePrivate (w : World) (sender : Bytes) : World :=
  w.sends (w.connOf sender).toList [50, 4]

theorem storePrivate_run (sender recipient msg : Bytes) (w : World) :
    (storePrivate sender recipient msg).run w =
      if isReachable w.connections recipient then (true, w.storePrivate sender recipient msg)
      else (false, w.refusePrivate sender) := by
  unfold storePrivate
  simp only [bind_eq, run_load_bind, run_ite]
  split
  · rfl
  · unfold World.refusePrivate World.connOf World.sends
    cases w.connections.lookup sender with
    | none => simp
    | some cd => cases h : cd.conn <;> simp [h]

theorem sendPrivateMessage_run (sender recipient msg : Bytes) (w : World) :
    (sendPrivateMessage sender recipient msg).run w = ((),
      if isReachable w.connections recipient then
        (w.storePrivate sender recipient msg).sends (w.recipients sender true recipient)
          (messagePayload sender msg)
      else w.refusePrivate sender) := by
  unfold sendPrivateMessage
  simp only [bind_eq, run_bind, run_withLock, storePrivate_run]
  by_cases h : isReachable w.connections recipient
  · simp only [h, if_true, notifyNewMessage_run]
    rfl
  · simp [h]

@[simp] theorem storeGeneral_run (sender msg : Bytes) (w : World) :
    (storeGeneral sender msg).run w = ((), w.storeGeneral sender msg) := rfl

theorem sendBroadcast_run (sender msg : Bytes) (w : World) :
    (sendBroadcast sender msg).run w = ((),
      (w.storeGeneral sender msg).sends w.live (messagePayload sender msg)) := by
  unfold sendBroadcast
  simp only [bind_eq, run_bind, run_withLock, storeGeneral_run, notifyNewMessage_run]
  rfl

/-! ## Lists of users, and one user -/

def userListPayload (entries : List (Sigma fun _ : Bytes => ConnectionData)) : Bytes :=
  51 :: UInt8.ofNat entries.length ::
    entries.flatMap fun e => pushString8 e.1 ++ [userStatusToByte e.2.status]

theorem sendUserList_run (conn : Conn) (w : World) :
    (sendUserList conn).run w =
      ((), w.emits [.sendBinary conn (userListPayload w.connections.entries)]) := by
  unfold sendUserList
  simp only [run_withLock, bind_eq, run_bind, run_log, run_sendBinary]
  rfl

def userInfoPayload (requestedName : Bytes) : Option ConnectionData → Bytes
  | none => [50, 1]
  | some cd => 52 :: pushString8 requestedName ++ [userStatusToByte cd.status]

theorem answerUserInfo_run (conn : Conn) (requestedName : Bytes) (w : World) :
    (answerUserInfo conn requestedName).run w = ((), w.emits
      [.sendBinary conn (userInfoPayload requestedName (w.connections.lookup requestedName))]) := by
  unfold answerUserInfo
  simp only [run_withLock, bind_eq, run_load_bind]
  cases w.connections.lookup requestedName <;> rfl

/-! ## Opening and closing -/

theorem admitUser_run (conn : Conn) (username clientIp : Bytes) (w : World) :
    (admitUser conn username clientIp).run w = match w.connections.lookup username with
      | some cd =>
        if cd.conn.isSome then (none, w.rejectDuplicate conn)
        else (some (true, World.backStatus cd),
          w.reconnect conn username clientIp (World.backStatus cd))
      | none => (some (false, w.freshStatus username), w.register conn username clientIp) := by
  unfold admitUser
  simp only [bind_eq, run_load_bind]
  cases w.connections.lookup username with
  | none => rfl
  | some cd =>
    simp only [run_ite]
    split
    · simp [World.rejectDuplicate]
    · rfl

/-- The user that `on_message` reactivates, or the empty name. -/
def reactivated (username : Bytes) (cd : ConnectionData) (opcode : UInt8) : Bytes :=
  if cd.status = .inactivo ∧ opcode = 4 then username else []

theorem identifySender_run (conn : Conn) (opcode : UInt8) (w : World) :
    (identifySender conn opcode).run w = match w.findConn conn with
      | none => ((desconocido, []), w)
      | some e => ((e.1, reactivated e.1 e.2 opcode), w.touch e.1) := by
  unfold identifySender World.findConn reactivated
  simp only [bind_eq, run_load_bind]
  cases w.connections.entries.find? fun e => e.2.conn = some conn with
  | none => rfl
  | some e =>
    by_cases h4 : e.2.status = .inactivo ∧ opcode = 4
    · simp [h4, World.touch]
    · by_cases h : e.2.status = .inactivo
      · have : opcode ≠ 4 := fun he => h4 ⟨h, he⟩
        simp [h, this, World.touch]
      · simp [h, World.touch]

theorem disconnect_run (conn : Conn) (w : World) :
    (disconnect conn).run w = match w.findConn conn with
      | none => ([], w.emits [.left conn])
      | some e => (e.1, w.disconnect conn e.1 e.2.status) := by
  unfold disconnect World.findConn
  simp only [bind_eq, run_bind, run_emit, run_load, World.emits_connections]
  cases w.connections.entries.find? fun e => e.2.conn = some conn <;> rfl

/-! ## The background passes -/

theorem World.mem_idleUsers {w : World} {now : TimePoint} {username : Bytes} :
    username ∈ w.idleUsers now ↔
      ∃ cd, w.connections.lookup username = some cd ∧ isIdle now cd := by
  simp [idleUsers, Table.lookup_eq_some]

theorem World.mem_expiredUsers {w : World} {now : TimePoint} {username : Bytes} :
    username ∈ w.expiredUsers now ↔
      ∃ cd, w.connections.lookup username = some cd ∧ isExpired now cd := by
  simp [expiredUsers, Table.lookup_eq_some]

theorem World.mark_modifyEntry (w : World) (username : Bytes) (users : List Bytes) :
    ({ w.modifyEntry username (fun cd => { cd with status := .inactivo }) with
      userMarkedInactive := true } : World).mark users = w.mark (username :: users) := by
  have hflag : (true || decide (users ≠ [])) =
      (w.userMarkedInactive || decide (username :: users ≠ [])) := by simp
  simp only [mark, modifyEntry, Table.modify, Table.mapVal_mapVal, hflag]
  congr 2
  funext a cd
  by_cases ha : a = username <;> by_cases hu : a ∈ users <;> simp [ha, hu]

theorem markInactive_run (now : TimePoint) (es : List (Sigma fun _ : Bytes => ConnectionData))
    (w : World) :
    (markInactive now es).run w =
      ((es.filter fun e => isIdle now e.2).map (·.1),
        w.mark ((es.filter fun e => isIdle now e.2).map (·.1))) := by
  induction es generalizing w with
  | nil =>
    have hid : w.connections.mapVal (fun _ cd => cd) = w.connections :=
      AList.ext (List.map_id _)
    simp [markInactive, World.mark, hid]
  | cons e es ih =>
    obtain ⟨username, cd⟩ := e
    by_cases h : isIdle now cd
    · simp only [markInactive, h, if_true, bind_eq, run_bind, run_modifyEntry, run_log,
        run_withLock, run_update, ih, pure_eq, run_pure]
      simp [h, World.mark_modifyEntry]
    · simp [markInactive, h, ih]

theorem findIdle_run (w : World) :
    findIdle.run w = (w.idleUsers (w.steadyClock 0), w.markIdle) := by
  unfold findIdle
  simp only [bind_eq, run_steadyNow_bind, run_load_bind, markInactive_run]
  rfl

theorem World.foldl_connections {ι : Type}
    (g : Table Bytes ConnectionData → ι → Table Bytes ConnectionData) (is : List ι) (w : World) :
    is.foldl (fun w i => { w with connections := g w.connections i }) w =
      { w with connections := is.foldl g w.connections } := by
  induction is generalizing w with
  | nil => rfl
  | cons i is ih => simp only [List.foldl_cons, ih]

theorem cleanupPass_run (w : World) : cleanupPass.run w = ((), w.eraseExpired) := by
  unfold cleanupPass
  simp only [run_withLock, bind_eq, run_steadyNow_bind, run_load_bind, run_forEach]
  congr 1
  have hround : ∀ (v : World) (e : Sigma fun _ : Bytes => ConnectionData),
      ((if isExpired (w.steadyClock 0) e.2 then
        log.bind fun _ => update fun w => { w with connections := w.connections.erase e.1 }
        else pure () : Prog Unit).run v).2 =
      { v with connections := if decide (isExpired (w.steadyClock 0) e.2) = true then
        v.connections.erase e.1 else v.connections } := by
    intro v e
    by_cases h : isExpired (w.steadyClock 0) e.2 <;> simp [h]
  simp only [hround]
  rw [World.foldl_connections fun t (e : Sigma fun _ : Bytes => ConnectionData) =>
    if decide (isExpired (w.steadyClock 0) e.2) = true then t.erase e.1 else t,
    Table.foldl_erase fun e => decide (isExpired (w.steadyClock 0) e.2)]
  unfold World.eraseExpired
  congr 1
  exact Table.filter_congr fun _ _ => decide_eq_decide.mpr .rfl

end ChatServer
