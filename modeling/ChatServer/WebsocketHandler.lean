import ChatServer.State

/-!
# The handlers

`websocket_handler.cpp`, function by function, as programs over the shared `World`. What a
log line says is left out, and its lock is kept. A loop over `connections` goes through the
entries in the order of the table: `std::unordered_map` promises none.
-/

open Program

namespace ChatServer

/-! ## The calls that leave the server -/

def emit (e : Event) : Prog Unit := update fun w => { w with trace := w.trace ++ [e] }

def sendBinary (conn : Conn) (payload : Bytes) : Prog Unit := emit (.sendBinary conn payload)

/-- `Logger::log`: one scope of `queueMutex`. -/
def log : Prog Unit := withLock .queueMutex (pure ())

def steadyNow : Prog TimePoint := do
  let w ← load
  update fun w => { w with steadyClock := fun i => w.steadyClock (i + 1) }
  pure (w.steadyClock 0)

def modifyEntry (username : Bytes) (f : ConnectionData → ConnectionData) : Prog Unit :=
  update fun w => { w with connections := w.connections.modify username f }

def hexBytes (n : Nat) : Bytes := (Nat.toDigits 16 n).map fun c => UInt8.ofNat c.toNat

/-- The hexadecimal time, then the hexadecimal counter. `std::hex` prints the unsigned value. -/
def generateUuid : Prog Bytes := do
  let w ← load
  update fun w => { w with time := fun i => w.time (i + 1), counter := w.counter + 1 }
  pure (hexBytes (w.time 0).toUInt64.toNat ++ hexBytes w.counter.toUInt32.toNat)

def sendError (conn : Conn) (errorCode : UInt8) : Prog Unit := do
  sendBinary conn [50, errorCode]
  log

def userStatusToByte : UserStatus → UInt8
  | .disconnected => 0
  | .activo => 1
  | .ocupado => 2
  | .inactivo => 3

/-! ## Reading a request -/

def readUint8 (data : Bytes) (offset : Nat) : Except String (UInt8 × Nat) :=
  if offset ≥ data.length then throw "read_uint8 out of range"
  else pure (data.getD offset 0, offset + 1)

def readString8 (data : Bytes) (offset : Nat) : Except String (Bytes × Nat) := do
  let (length, offset) ← readUint8 data offset
  if offset + length.toNat > data.length then throw "read_string_8 out of range"
  else pure ((data.drop offset).take length.toNat, offset + length.toNat)

/-! ## Notifications -/

/-- A string as the wire has it: its size narrowed to a byte, then its bytes. -/
def pushString8 (s : Bytes) : Bytes := UInt8.ofNat s.length :: s

/-- The critical section of `notify_user_joined`. -/
def sendJoined (username : Bytes) (st : UserStatus) : Prog Unit :=
  withLock .connectionsMutex do
    log
    let payload := 53 :: pushString8 username ++ [userStatusToByte st]
    forEach (← load).connections.entries fun ⟨uname, connData⟩ => do
      log
      match connData.conn with
      | some conn =>
        if uname ≠ username then do
          log
          sendBinary conn payload
        else pure ()
      | none => pure ()

def notifyUserJoined (username : Bytes) (st : UserStatus) : Prog Unit := do
  if (← load).testingMode then pure ()
  else do
    log
    sendJoined username st

def notifyUserStatusChange (username : Bytes) (st : UserStatus) : Prog Unit :=
  withLock .connectionsMutex do
    let payload := 54 :: pushString8 username ++ [userStatusToByte st]
    log
    forEach (← load).connections.entries fun ⟨_, connData⟩ =>
      match connData.conn with
      | some conn => do
        log
        sendBinary conn payload
      | none => pure ()

def sendToUser (username payload : Bytes) : Prog Unit := do
  match (← load).connections.lookup username with
  | some connData =>
    match connData.conn with
    | some conn => do
      log
      sendBinary conn payload
    | none => pure ()
  | none => pure ()

/-- The critical section of the task of `notify_new_message`. -/
def sendNewMessage (sender payload : Bytes) (isPrivate : Bool) (recipient : Bytes) : Prog Unit :=
  if isPrivate then
    withLock .connectionsMutex do
      sendToUser sender payload
      sendToUser recipient payload
  else
    withLock .connectionsMutex do
      forEach (← load).connections.entries fun ⟨_, connData⟩ =>
        match connData.conn with
        | some conn => do
          log
          sendBinary conn payload
        | none => pure ()

def notifyNewMessage (sender msg : Bytes) (isPrivate : Bool) (recipient : Bytes) : Prog Unit :=
  let payload := 55 :: pushString8 sender ++ pushString8 msg
  async do
    log
    sendNewMessage sender payload isPrivate recipient
    log

/-! ## Status and messages -/

/-- The critical section of `update_status`: whether to notify. -/
def applyStatus (username : Bytes) (status : UserStatus) (notify : Bool) : Prog Bool := do
  match (← load).connections.lookup username with
  | some connData => do
    let now ← steadyNow
    modifyEntry username fun cd => { cd with status := status, lastActive := now }
    log
    pure (notify || connData.conn.isSome)
  | none => pure false

def updateStatus (username : Bytes) (status : UserStatus) (notify : Bool) : Prog Unit := do
  let shouldNotify ← withLock .connectionsMutex (applyStatus username status notify)
  if shouldNotify then notifyUserStatusChange username status else pure ()

def chatId (sender target : Bytes) : Bytes :=
  if sender < target then sender ++ ascii "|" ++ target else target ++ ascii "|" ++ sender

def pushMessage (chat : Bytes) (m : Message) : Prog Unit :=
  update fun w =>
    { w with chatHistory := w.chatHistory.insert chat ((w.chatHistory.lookup chat).getD [] ++ [m]) }

/-- The recipient test of `send_private_message`. -/
def isReachable (connections : Table Bytes ConnectionData) (recipient : Bytes) : Bool :=
  match connections.lookup recipient with
  | some connData => connData.conn.isSome && connData.status ≠ .disconnected
  | none => false

/-- The critical section of `send_private_message`: whether to notify. -/
def storePrivate (sender recipient msg : Bytes) : Prog Bool := do
  let w ← load
  if isReachable w.connections recipient then do
    pushMessage (chatId sender recipient) (sender, msg)
    emit (.storedPrivate sender recipient msg)
    pure true
  else do
    match w.connections.lookup sender with
    | some connData =>
      match connData.conn with
      | some conn => sendError conn 4
      | none => pure ()
    | none => pure ()
    pure false

def sendPrivateMessage (sender recipient msg : Bytes) : Prog Unit := do
  let canNotify ← withLock .connectionsMutex (storePrivate sender recipient msg)
  if canNotify then notifyNewMessage sender msg true recipient else pure ()

def storeGeneral (sender msg : Bytes) : Prog Unit := do
  update fun w => { w with generalChatHistory := w.generalChatHistory ++ [(sender, msg)] }
  emit (.storedGeneral sender msg)

def sendBroadcast (sender msg : Bytes) : Prog Unit := do
  withLock .connectionsMutex (storeGeneral sender msg)
  notifyNewMessage sender msg false []

/-! ## The requests -/

def sendUserList (conn : Conn) : Prog Unit :=
  withLock .connectionsMutex do
    let entries := (← load).connections.entries
    let users := entries.flatMap fun ⟨username, connData⟩ =>
      pushString8 username ++ [userStatusToByte connData.status]
    log
    log
    sendBinary conn (51 :: UInt8.ofNat entries.length :: users)

def handleListUsers (conn : Conn) : Prog Unit := do
  log
  sendUserList conn

/-- `handle_get_user_info` after its read. -/
def answerUserInfo (conn : Conn) (requestedName : Bytes) : Prog Unit :=
  withLock .connectionsMutex do
    match (← load).connections.lookup requestedName with
    | none => sendError conn 1
    | some connData => do
      log
      sendBinary conn (52 :: pushString8 requestedName ++ [userStatusToByte connData.status])

def handleGetUserInfo (conn : Conn) (data : Bytes) (offset : Nat) :
    ExceptT String Prog Unit := do
  let (requestedName, _) ← readString8 data offset
  answerUserInfo conn requestedName

def statusOfByte (rawStatus : UInt8) : Option UserStatus :=
  match rawStatus.toNat with
  | 0 => some .disconnected
  | 1 => some .activo
  | 2 => some .ocupado
  | 3 => some .inactivo
  | _ => none

/-- `handle_change_status` after its reads. The old status is only logged. -/
def changeStatus (conn : Conn) (sender username : Bytes) (rawStatus : UInt8) : Prog Unit := do
  if username ≠ sender then do
    log
    sendError conn 2
  else do
    log
    let _oldStatus ← withLock .connectionsMutex do
      pure (((← load).connections.lookup username).map (·.status))
    match statusOfByte rawStatus with
    | none => sendError conn 2
    | some newStatus => do
      log
      updateStatus sender newStatus true

def handleChangeStatus (conn : Conn) (sender data : Bytes) (offset : Nat) :
    ExceptT String Prog Unit := do
  let (username, offset) ← readString8 data offset
  let (rawStatus, _) ← readUint8 data offset
  changeStatus conn sender username rawStatus

/-- `handle_send_message` after its reads. -/
def sendMessage (conn : Conn) (sender destino mensaje : Bytes) : Prog Unit := do
  log
  if mensaje = [] then sendError conn 3
  else do
    let mensaje ←
      if mensaje.length > maxMessageLength then do
        log
        pure (mensaje.take maxMessageLength)
      else pure mensaje
    if destino = generalChat then sendBroadcast sender mensaje
    else sendPrivateMessage sender destino mensaje

def handleSendMessage (conn : Conn) (sender data : Bytes) (offset : Nat) :
    ExceptT String Prog Unit := do
  let (destino, offset) ← readString8 data offset
  let (mensaje, _) ← readString8 data offset
  sendMessage conn sender destino mensaje

/-- The list that `handle_get_history` answers from. The private chats are read without a lock. -/
def selectHistory (sender target : Bytes) : Prog (List Message) := do
  if target = generalChat then
    withLock .connectionsMutex do
      pure (← load).generalChatHistory
  else
    pure (((← load).chatHistory.lookup (chatId sender target)).getD [])

def historyPayload (messages : List Message) : Bytes :=
  let numMsgs : UInt8 := if messages.length > 255 then 255 else UInt8.ofNat messages.length
  56 :: numMsgs :: (messages.take numMsgs.toNat).flatMap fun (author, text) =>
    pushString8 author ++ pushString8 text

/-- `handle_get_history` after its read. -/
def answerHistory (conn : Conn) (sender target : Bytes) : Prog Unit := do
  let messages ← selectHistory sender target
  log
  sendBinary conn (historyPayload messages)

def handleGetHistory (conn : Conn) (sender data : Bytes) (offset : Nat) :
    ExceptT String Prog Unit := do
  let (target, _) ← readString8 data offset
  answerHistory conn sender target

/-! ## The events of Crow -/

/-- The critical section of `on_open`: nothing for a duplicate, else whether this is a
reconnection, and the status to announce. -/
def admitUser (conn : Conn) (username clientIp : Bytes) : Prog (Option (Bool × UserStatus)) := do
  match (← load).connections.lookup username with
  | some connData =>
    if connData.conn.isSome then do
      log
      emit (.sendText conn "Error: Nombre duplicado.")
      emit (.close conn "Duplicado.")
      pure none
    else do
      let now ← steadyNow
      let status := if connData.status = .disconnected then .activo else connData.status
      modifyEntry username fun cd =>
        { cd with conn := some conn, lastActive := now, ipAddress := clientIp, status := status }
      emit (.accepted conn username)
      pure (some (true, status))
  | none => do
    let userUuid ← generateUuid
    let status := match (← load).lastUserStatus.lookup username with
      | none => .activo
      | some .disconnected => .activo
      | some st => st
    let now ← steadyNow
    let entry : ConnectionData :=
      { username := username, uuid := userUuid, conn := some conn, status := status,
        lastActive := now, ipAddress := clientIp }
    update fun w => { w with connections := w.connections.insert username entry }
    emit (.accepted conn username)
    pure (some (false, status))

def logOpened (isReconnection : Bool) : Prog Unit :=
  if isReconnection then log
  else do
    log
    log
    withLock .connectionsMutex do
      forEach (← load).connections.entries fun _ => log

/-- The threads that start here run `monitorPass` and `cleanupPass` again and again. -/
def startMonitor : Prog Unit := do
  if (← load).monitorStarted then pure ()
  else update fun w => { w with monitorStarted := true }

def onOpen (conn : Conn) (username : Bytes) : Prog Unit := do
  let clientIp := (← load).remoteIp conn
  if username = [] ∨ username.length > 20 ∨ username = generalChat then do
    log
    emit (.sendText conn "Error: Nombre de usuario inválido o reservado.")
    emit (.close conn "Nombre inválido.")
  else
    match ← withLock .connectionsMutex (admitUser conn username clientIp) with
    | none => pure ()
    | some (isReconnection, statusToNotify) => do
      logOpened isReconnection
      startMonitor
      notifyUserJoined username statusToNotify

/-- The first critical section of `on_message`: the sender, and the user to reactivate. -/
def identifySender (conn : Conn) (opcode : UInt8) : Prog (Bytes × Bytes) := do
  match (← load).connections.entries.find? (fun e => e.2.conn = some conn) with
  | none => pure (desconocido, [])
  | some ⟨uname, connData⟩ => do
    let now ← steadyNow
    modifyEntry uname fun cd => { cd with lastActive := now }
    let usuarioAReactivar ←
      if connData.status = .inactivo ∧ opcode = 4 then do
        log
        pure uname
      else if connData.status = .inactivo then do
        log
        pure []
      else pure []
    log
    pure (uname, usuarioAReactivar)

def dispatch (conn : Conn) (sender data : Bytes) : ExceptT String Prog Unit := do
  let (opcode, offset) ← readUint8 data 0
  log
  match opcode.toNat with
  | 1 => handleListUsers conn
  | 2 => handleGetUserInfo conn data offset
  | 3 => handleChangeStatus conn sender data offset
  | 4 => handleSendMessage conn sender data offset
  | 5 => handleGetHistory conn sender data offset
  | _ => log

def onMessage (conn : Conn) (data : Bytes) (isBinary : Bool) : Prog Unit := do
  log
  if !isBinary then log
  else if data.length < 1 then log
  else do
    let opcode := data.getD 0 0
    let (sender, usuarioAReactivar) ← withLock .connectionsMutex (identifySender conn opcode)
    if usuarioAReactivar ≠ [] then updateStatus usuarioAReactivar .activo true else pure ()
    match ← (dispatch conn sender data).run with
    | .ok () => pure ()
    | .error _ => log

/-- The critical section of `on_close`: the user that is gone, if there is one. -/
def disconnect (conn : Conn) : Prog Bytes := do
  emit (.left conn)
  match (← load).connections.entries.find? (fun e => e.2.conn = some conn) with
  | none => pure []
  | some ⟨username, connData⟩ => do
    update fun w =>
      { w with lastUserStatus := w.lastUserStatus.insert username connData.status }
    modifyEntry username fun cd => { cd with status := .disconnected, conn := none }
    log
    pure username

def onClose (conn : Conn) : Prog Unit := do
  let disconnectedUser ← withLock .connectionsMutex (disconnect conn)
  if disconnectedUser ≠ [] then notifyUserStatusChange disconnectedUser .disconnected else pure ()

/-! ## The two background threads -/

/-- `duration_cast` to a unit of `unit` nanoseconds, which drops the fraction. -/
def elapsed (unit : Int) (now since : TimePoint) : Int := (now - since).tdiv unit

def nanosPerSecond : Int := 1000000000

def nanosPerMinute : Int := 60 * nanosPerSecond

def isIdle (now : TimePoint) (cd : ConnectionData) : Prop :=
  cd.conn.isSome ∧ cd.status ≠ .inactivo ∧ cd.status ≠ .disconnected ∧
    elapsed nanosPerSecond now cd.lastActive ≥ 60

instance (now : TimePoint) (cd : ConnectionData) : Decidable (isIdle now cd) :=
  inferInstanceAs (Decidable (_ ∧ _))

/-- The loop of a monitor pass over the entries: the users that it marked. -/
def markInactive (now : TimePoint) : List (Sigma fun _ : Bytes => ConnectionData) →
    Prog (List Bytes)
  | [] => pure []
  | ⟨username, connData⟩ :: rest =>
    if isIdle now connData then do
      modifyEntry username fun cd => { cd with status := .inactivo }
      log
      withLock .inactivityMutex (update fun w => { w with userMarkedInactive := true })
      let users ← markInactive now rest
      pure (username :: users)
    else markInactive now rest

def findIdle : Prog (List Bytes) := do
  let now ← steadyNow
  markInactive now (← load).connections.entries

/-- One round of the loop of `start_inactivity_monitor`. -/
def monitorPass : Prog Unit := do
  let usersToNotify ← withLock .connectionsMutex findIdle
  forEach usersToNotify fun username => notifyUserStatusChange username .inactivo
  if usersToNotify ≠ [] then
    withLock .inactivityMutex (update fun w => { w with userMarkedInactive := false })
  else pure ()

def isExpired (now : TimePoint) (cd : ConnectionData) : Prop :=
  cd.conn = none ∧ elapsed nanosPerMinute now cd.lastActive ≥ 5

instance (now : TimePoint) (cd : ConnectionData) : Decidable (isExpired now cd) :=
  inferInstanceAs (Decidable (_ ∧ _))

/-- One round of the loop of `start_disconnection_cleanup`. -/
def cleanupPass : Prog Unit :=
  withLock .connectionsMutex do
    let now ← steadyNow
    forEach (← load).connections.entries fun ⟨username, connData⟩ =>
      if isExpired now connData then do
        log
        update fun w => { w with connections := w.connections.erase username }
      else pure ()

end ChatServer
