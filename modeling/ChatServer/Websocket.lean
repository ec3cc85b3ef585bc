import ChatServer.Lib.ByteOrder
import ChatServer.State

/-!
# The websocket connection

`crow/websocket.h`: one `Connection`, from the answer to the handshake to its deletion. All its
code runs on the one thread of its `io_context`, which completes what the socket was asked for and
runs what was posted to it, in the order of the posts. `setup_routes` sets no error handler and
no subprotocol.
-/

namespace ChatServer.Websocket

/-! ## The object -/

inductive WebSocketReadState
  | miniHeader
  | len16
  | len64
  | mask
  | payload
  deriving DecidableEq

namespace CloseStatusCode

def normalClosure : UInt16 := 1000
def noStatusCodePresent : UInt16 := 1005
def closedAbnormally : UInt16 := 1006
def messageTooBig : UInt16 := 1009

end CloseStatusCode

/-- What an asynchronous read asks of the socket. -/
inductive Demand
  /-- `async_read_some`: what there is, and no more than fits. -/
  | upTo (size : Nat)
  /-- `async_read`: the whole buffer. -/
  | exactly (size : Nat)
  deriving DecidableEq

/-- An empty buffer is filled at once. -/
def Demand.admits : Demand → Bytes → Prop
  | .upTo size, bytes => bytes.length ≤ size ∧ (bytes = [] → size = 0)
  | .exactly size, bytes => bytes.length = size

instance (d : Demand) (bytes : Bytes) : Decidable (d.admits bytes) := by
  cases d <;> unfold Demand.admits <;> infer_instance

/-- What `send_data` and `close` hand to the `io_context`. -/
inductive Job
  | send (opcode : Nat) (payload : Bytes)
  | close (msg : Bytes) (statusCode : UInt16)
  deriving DecidableEq

/-- A call of `open_handler_`, `message_handler_` or `close_handler_`. -/
inductive HandlerCall
  | opened
  | message (data : Bytes) (isBinary : Bool)
  | closed (reason : Bytes) (code : UInt16)
  deriving DecidableEq

/-- The members that writing uses. -/
structure Outbox where
  sendingBuffers : List Bytes
  writeBuffers : List Bytes
  /-- Whether a write of the socket has not completed yet. -/
  writing : Bool
  /-- Record: what the socket was told to write. -/
  wire : Bytes
  /-- Record: the frames that went into the write buffers. -/
  frames : List (Nat × Bytes)

/-- The members that reading uses. -/
structure Inbox where
  /-- The source does not initialise it. -/
  isBinary : Bool
  message : Bytes
  fragment : Bytes
  state : WebSocketReadState
  remainingLength : Nat
  hasMask : Bool
  mask : Bytes
  miniHeader : Nat

structure Connection where
  outbox : Outbox
  inbox : Inbox
  maxPayloadBytes : Nat
  closeConnection : Bool
  isReading : Bool
  hasSentClose : Bool
  hasRecvClose : Bool
  pongReceived : Bool
  isCloseHandlerCalled : Bool
  /-- The read of the socket that has not completed yet. -/
  reading : Option Demand
  /-- What the `io_context` has still to run for the object. -/
  posted : List Job
  deleted : Bool
  /-- Record: the bytes that the reads have put where the object looks for them. -/
  taken : Bytes
  /-- Record: the calls of the handlers. -/
  calls : List HandlerCall

def Outbox.empty : Outbox where
  sendingBuffers := []
  writeBuffers := []
  writing := false
  wire := []
  frames := []

def Inbox.empty (isBinary : Bool) : Inbox where
  isBinary := isBinary
  message := []
  fragment := []
  state := .miniHeader
  remainingLength := 0
  hasMask := false
  mask := []
  miniHeader := 0

/-- A new object. -/
def Connection.fresh (maxPayloadBytes : Nat) (isBinary : Bool) : Connection where
  outbox := .empty
  inbox := .empty isBinary
  maxPayloadBytes := maxPayloadBytes
  closeConnection := false
  isReading := false
  hasSentClose := false
  hasRecvClose := false
  pongReceived := false
  isCloseHandlerCalled := false
  reading := none
  posted := []
  deleted := false
  taken := []
  calls := []

/-! ## Writing -/

namespace Outbox

variable (host : ByteOrder)

/-- The integer of 64 bits that `build_header` stores, from two of 32 bits. -/
def hton64 (size : Nat) : Nat :=
  if host.hton 4 1 = 1 then size
  else (host.hton 4 (size &&& 0xFFFFFFFF) <<< 32) ||| host.hton 4 (size >>> 32)

def buildHeader (opcode size : Nat) : Bytes :=
  let first := UInt8.ofNat (0x80 + opcode)
  if size < 126 then [first, UInt8.ofNat size]
  else if size < 0x10000 then first :: 126 :: host.store 2 (host.hton 2 size)
  else first :: 127 :: host.store 8 (hton64 host size)

def doWrite (o : Outbox) : Outbox :=
  if o.sendingBuffers = [] then
    { o with
      sendingBuffers := o.writeBuffers
      writeBuffers := []
      writing := true
      wire := o.wire ++ o.writeBuffers.flatten }
  else o

def sendDataImpl (o : Outbox) (opcode : Nat) (payload : Bytes) : Outbox :=
  doWrite { o with
    writeBuffers := o.writeBuffers ++ [buildHeader host opcode payload.length, payload]
    frames := o.frames ++ [(opcode, payload)] }

/-- The two bytes in which a close frame gives its status. -/
def statusBytes (statusCode : UInt16) : Bytes := host.store 2 (host.hton 2 statusCode.toNat)

def sendClose (o : Outbox) (msg : Bytes) (statusCode : UInt16) : Outbox :=
  let status := statusBytes host statusCode
  doWrite { o with
    writeBuffers := o.writeBuffers ++ [buildHeader host 8 (msg.length + 2), status, msg]
    frames := o.frames ++ [(8, status ++ msg)] }

end Outbox

namespace Connection

def post (c : Connection) (job : Job) : Connection := { c with posted := c.posted ++ [job] }

def sendPong (c : Connection) (msg : Bytes) : Connection := c.post (.send 0xA msg)

def closeHandler (c : Connection) (reason : Bytes) (code : UInt16) : Connection :=
  { c with calls := c.calls ++ [.closed reason code] }

/-- What `close` dispatches. On the thread of the connection it runs at once. -/
def closeImpl (host : ByteOrder) (c : Connection) (msg : Bytes) (statusCode : UInt16) : Connection :=
  let c := { c with hasSentClose := true }
  let c := if c.hasRecvClose ∧ ¬ c.isCloseHandlerCalled then
      { c with isCloseHandlerCalled := true }.closeHandler msg statusCode
    else c
  { c with outbox := c.outbox.sendClose host msg statusCode }

def runJob (host : ByteOrder) (c : Connection) : Job → Connection
  | .send opcode payload => { c with outbox := c.outbox.sendDataImpl host opcode payload }
  | .close msg statusCode => closeImpl host c msg statusCode

def checkDestroy (c : Connection) (code : UInt16) : Connection :=
  let c := if c.isCloseHandlerCalled then c else c.closeHandler (ascii "uncleanly") code
  if c.outbox.sendingBuffers = [] ∧ ¬ c.isReading then { c with deleted := true } else c

def onWritten (c : Connection) (ok : Bool) : Connection :=
  let c := { c with outbox.writing := false }
  if ok ∧ ¬ c.closeConnection then
    let c := { c with outbox.sendingBuffers := [] }
    let c := if c.outbox.writeBuffers ≠ [] then { c with outbox := c.outbox.doWrite } else c
    if c.hasSentClose then { c with closeConnection := true } else c
  else if c.deleted then
    -- `watch` finds no anchor.
    c
  else
    checkDestroy { c with outbox.sendingBuffers := [], closeConnection := true }
      CloseStatusCode.closedAbnormally

/-! ## Reading -/

/-- The size of `buffer_`. -/
def bufferSize : Nat := 4096

def ask (c : Connection) (d : Demand) : Connection := { c with isReading := true, reading := some d }

def readPayload (c : Connection) : Connection := c.ask (.upTo (min bufferSize c.inbox.remainingLength))

def doRead (c : Connection) : Connection :=
  if c.hasSentClose ∧ c.hasRecvClose then
    checkDestroy { c with closeConnection := true } CloseStatusCode.closedAbnormally
  else
    match c.inbox.state with
    | .miniHeader => { c with inbox.miniHeader := 0 }.ask (.upTo 2)
    | .len16 => { c with inbox.remainingLength := 0 }.ask (.exactly 2)
    | .len64 => c.ask (.exactly 8)
    | .mask =>
      if c.inbox.remainingLength > c.maxPayloadBytes then
        -- `is_reading` stays set, although nothing is being read.
        checkDestroy { c with isReading := true, closeConnection := true } CloseStatusCode.messageTooBig
      else if c.inbox.hasMask then c.ask (.exactly 4)
      else { c with inbox.state := .payload }.readPayload
    | .payload => c.readPayload

end Connection

namespace Inbox

def isFin (i : Inbox) : Prop := i.miniHeader &&& 0x8000 ≠ 0

instance (i : Inbox) : Decidable i.isFin := inferInstanceAs (Decidable (_ ≠ _))

def opcode (i : Inbox) : Nat := (i.miniHeader &&& 0x0f00) >>> 8

end Inbox

/-- The four bytes of the mask, over and over. -/
def unmask (mask fragment : Bytes) : Bytes := fragment.mapIdx fun k b => b ^^^ mask.getD (k % 4) 0

namespace Connection

/-- The fragment joins the message, and the last one delivers it. -/
def joinFragment (c : Connection) : Connection :=
  let c := { c with inbox.message := c.inbox.message ++ c.inbox.fragment }
  if c.inbox.isFin then
    { c with calls := c.calls ++ [.message c.inbox.message c.inbox.isBinary], inbox.message := [] }
  else c

def clearFragment (c : Connection) : Connection := { c with inbox.fragment := [] }

section Reading

variable (host : ByteOrder)

def closeStatus (fragment : Bytes) : UInt16 :=
  if 2 ≤ fragment.length then UInt16.ofNat (host.ntoh 2 (host.load (fragment.take 2)))
  else CloseStatusCode.noStatusCodePresent

def closeReason (fragment : Bytes) : Bytes :=
  if 2 ≤ fragment.length then fragment.drop 2 else fragment

def unmaskFragment (c : Connection) : Connection :=
  if c.inbox.hasMask then { c with inbox.fragment := unmask c.inbox.mask c.inbox.fragment } else c

/-- A close frame has come. The flag says whether to read on. -/
def handleClose (c : Connection) : Connection × Bool :=
  let reason := closeReason c.inbox.fragment
  let statusCode := closeStatus host c.inbox.fragment
  let c := { c with hasRecvClose := true }
  if ¬ c.hasSentClose then ((closeImpl host c reason statusCode).clearFragment, true)
  else
    let c := { c with closeConnection := true }
    let c := if c.isCloseHandlerCalled then c
      else { c.closeHandler reason statusCode with isCloseHandlerCalled := true }
    (checkDestroy c CloseStatusCode.closedAbnormally, false)

def handleFragment (c : Connection) : Connection × Bool :=
  let c := c.unmaskFragment
  match c.inbox.opcode with
  | 0 => (c.joinFragment.clearFragment, true)
  | 1 => ({ c with inbox.isBinary := false }.joinFragment.clearFragment, true)
  | 2 => ({ c with inbox.isBinary := true }.joinFragment.clearFragment, true)
  | 8 => handleClose host c
  | 9 => ((c.sendPong c.inbox.fragment).clearFragment, true)
  | 10 => ({ c with pongReceived := true }.clearFragment, true)
  | _ => (c.clearFragment, true)

/-- `mini_header_` was zero, and a short read leaves its second byte so. -/
def inMiniHeader (bytes : Bytes) : Bytes := bytes ++ List.replicate (2 - bytes.length) 0

def onMiniHeader (c : Connection) (bytes : Bytes) : Connection :=
  let c := { c with inbox.miniHeader := host.ntoh 2 (host.load (inMiniHeader bytes)) }
  let c := { c with inbox.hasMask := c.inbox.miniHeader &&& 0x80 = 0x80 }
  let length := c.inbox.miniHeader &&& 0x7f
  if length = 127 then { c with inbox.state := .len64 }.doRead
  else if length = 126 then { c with inbox.state := .len16 }.doRead
  else { c with inbox.remainingLength := length, inbox.state := .mask }.doRead

def onLen16 (c : Connection) (bytes : Bytes) : Connection :=
  { c with inbox.remainingLength := host.ntoh 2 (host.load bytes), inbox.state := .mask }.doRead

def ntoh64 (n : Nat) : Nat :=
  if host.ntoh 4 1 = 1 then n
  else (host.ntoh 4 (n &&& 0xFFFFFFFF) <<< 32) ||| host.ntoh 4 (n >>> 32)

def onLen64 (c : Connection) (bytes : Bytes) : Connection :=
  { c with inbox.remainingLength := ntoh64 host (host.load bytes), inbox.state := .mask }.doRead

def onMask (c : Connection) (bytes : Bytes) : Connection :=
  { c with inbox.mask := bytes, inbox.state := .payload }.doRead

def onPayload (c : Connection) (bytes : Bytes) : Connection :=
  let c := { c with
    inbox.fragment := c.inbox.fragment ++ bytes
    inbox.remainingLength := c.inbox.remainingLength - bytes.length }
  if c.inbox.remainingLength = 0 then
    let (c, readOn) := handleFragment host c
    if readOn then { c with inbox.state := .miniHeader }.doRead else c
  else c.doRead

def onRead (c : Connection) (bytes : Bytes) : Connection :=
  let c := { c with isReading := false, reading := none }
  match c.inbox.state with
  | .miniHeader => onMiniHeader host { c with taken := c.taken ++ inMiniHeader bytes } bytes
  | .len16 => onLen16 host { c with taken := c.taken ++ bytes } bytes
  | .len64 => onLen64 host { c with taken := c.taken ++ bytes } bytes
  | .mask => onMask { c with taken := c.taken ++ bytes } bytes
  | .payload => onPayload host { c with taken := c.taken ++ bytes } bytes

def onReadError (c : Connection) : Connection :=
  checkDestroy { c with isReading := false, reading := none, closeConnection := true }
    CloseStatusCode.closedAbnormally

/-! ## Running -/

def crlf : Bytes := ascii "\r\n"

def switchingProtocols : Bytes := ascii "HTTP/1.1 101 Switching Protocols\r\n" ++
  ascii "Upgrade: websocket\r\n" ++ ascii "Connection: Upgrade\r\n" ++ ascii "Sec-WebSocket-Accept: "

/-- What `open_handler_` does with the connection. -/
def perform (c : Connection) : Job → Connection
  | .send opcode payload => c.post (.send opcode payload)
  | .close msg statusCode => closeImpl host c msg statusCode

/-- What `start` does before it reads. -/
def opened (c : Connection) (hello : Bytes) (opening : List Job) : Connection :=
  let buffers := c.outbox.writeBuffers ++ [switchingProtocols, hello, crlf, crlf]
  let c := { c with outbox := { c.outbox with writeBuffers := buffers }.doWrite }
  let c := { c with calls := c.calls ++ [.opened] }
  opening.foldl (perform host) c

def start (c : Connection) (hello : Bytes) (opening : List Job) : Connection :=
  (opened host c hello opening).doRead

/-- `open_handler_` throws. The exception leaves `start` and the constructor, and `new` frees the
object, for which no destructor runs. -/
def startThrows (c : Connection) (hello : Bytes) (opening : List Job) : Connection :=
  { opened host c hello opening with deleted := true }

end Reading

end Connection

/-- What happens to a connection. -/
inductive Event
  /-- Any thread calls a `send_*` function, or a thread other than its own calls `close`. -/
  | post (job : Job)
  /-- A handler of the connection calls `close`. -/
  | close (msg : Bytes) (statusCode : UInt16)
  | run
  | read (bytes : Bytes)
  | readError
  | written (ok : Bool)

/-- The sizes of strings are of type `size_t`, and the opcodes are those of the class. -/
def Job.Fits : Job → Prop
  | .send opcode payload => opcode < 16 ∧ payload.length < 256 ^ 8
  | .close msg _ => msg.length + 2 < 256 ^ 8

namespace Connection

/-- What can happen: to a deleted object, only the end of an operation that it has begun. -/
def Enabled (c : Connection) : Event → Prop
  | .post job => c.deleted = false ∧ job.Fits
  | .close msg _ => c.deleted = false ∧ msg.length + 2 < 256 ^ 8
  | .run => c.deleted = false ∧ c.posted ≠ []
  | .read bytes => ∃ d, c.reading = some d ∧ d.admits bytes
  | .readError => c.reading ≠ none
  | .written _ => c.outbox.writing = true

def step (host : ByteOrder) (c : Connection) : Event → Connection
  | .post job => c.post job
  | .close msg statusCode => closeImpl host c msg statusCode
  | .run =>
    match c.posted with
    | [] => c
    | job :: rest => runJob host { c with posted := rest } job
  | .read bytes => onRead host c bytes
  | .readError => c.onReadError
  | .written ok => c.onWritten ok

end Connection

end ChatServer.Websocket
