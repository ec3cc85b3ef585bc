import ChatServer.Lib.Program
import ChatServer.Lib.Table

/-!
# The data of the server

The globals of `websocket_handler.cpp`, what the environment will answer, and the trace of
what the handlers have done.
-/

namespace ChatServer

abbrev Bytes := List UInt8

def ascii (s : String) : Bytes := s.toList.map fun c => UInt8.ofNat c.toNat

inductive Mutex
  | connectionsMutex
  | inactivityMutex
  | queueMutex
  deriving DecidableEq

inductive UserStatus
  | disconnected
  | activo
  | ocupado
  | inactivo
  deriving DecidableEq

/-- A `crow::websocket::connection` object, by its identity. -/
abbrev Conn := Nat

abbrev TimePoint := Int

structure ConnectionData where
  username : Bytes
  uuid : Bytes
  conn : Option Conn
  status : UserStatus
  lastActive : TimePoint
  ipAddress : Bytes
  deriving DecidableEq

/-- What the server did: calls on a connection object, and marks that only proofs read. -/
inductive Event
  | sendBinary (conn : Conn) (payload : Bytes)
  | sendText (conn : Conn) (text : String)
  | close (conn : Conn) (reason : String)
  /-- Mark: `on_open` put `conn` into the entry of `username`. -/
  | accepted (conn : Conn) (username : Bytes)
  /-- Mark: the critical section of `on_close` has run for `conn`. -/
  | left (conn : Conn)
  /-- Mark: `send_private_message` accepted the message. -/
  | storedPrivate (sender recipient msg : Bytes)
  /-- Mark: `send_broadcast` accepted the message. -/
  | storedGeneral (sender msg : Bytes)
  deriving DecidableEq

abbrev Message := Bytes × Bytes

structure World where
  connections : Table Bytes ConnectionData
  chatHistory : Table Bytes (List Message)
  lastUserStatus : Table Bytes UserStatus
  generalChatHistory : List Message
  userMarkedInactive : Bool
  testingMode : Bool
  monitorStarted : Bool
  counter : Int32
  /-- The readings of `steady_clock::now` still to come. -/
  steadyClock : Nat → TimePoint
  /-- The results of `std::time` still to come. -/
  time : Nat → Int64
  /-- What `get_remote_ip` returns, when it does not throw. -/
  remoteIp : Conn → Bytes
  trace : List Event

/-- The world before the first connection, in a given environment. -/
def World.init (steadyClock : Nat → TimePoint) (time : Nat → Int64) (remoteIp : Conn → Bytes) :
    World where
  connections := ∅
  chatHistory := ∅
  lastUserStatus := ∅
  generalChatHistory := []
  userMarkedInactive := false
  testingMode := false
  monitorStarted := false
  counter := 0
  steadyClock := steadyClock
  time := time
  remoteIp := remoteIp
  trace := []

abbrev Prog := Program Mutex World

def maxMessageLength : Nat := 255

def generalChat : Bytes := ascii "~"

def desconocido : Bytes := ascii "Desconocido"

end ChatServer
