import ChatServer.Closing
import ChatServer.Outgoing
import ChatServer.QueryString
import ChatServer.Targets
import ChatServer.Timeline

/-!
# The application

The whole server: the connection objects of Crow, the routes of `setup_routes`, and the handlers
and loops of the chat, in any interleaving. Crow completes what a connection has begun and calls
its handlers on one thread, so that nothing completes while a handler of the connection runs.
-/

open Program

namespace ChatServer

open Websocket (Connection HandlerCall)

/-! ## The routes -/

/-- A connection object, and what the routes keep for it. -/
structure Peer where
  connection : Connection
  /-- The string that `onaccept` made, until `onclose` deletes it. -/
  userdata : Option Bytes
  /-- The calls of handlers that have still to begin. -/
  waiting : List HandlerCall
  /-- Record: the calls that have begun. -/
  begun : List HandlerCall
  /-- Record: what the answer to the upgrade says. -/
  hello : Bytes
  /-- Record: the name that the client gave. -/
  name : Bytes
  /-- Record: how much the server had done when the client came. -/
  since : Nat
  /-- Record: what has happened to the object. -/
  events : List Websocket.Event

namespace Peer

variable (host : ByteOrder)

/-- The client is accepted. The open handler does its part after `start` has asked for a read. -/
def accept (maxPayloadBytes : Nat) (hello name : Bytes) (isBinary : Bool) (since : Nat) : Peer where
  connection := .start host (.fresh maxPayloadBytes isBinary) hello []
  userdata := some name
  waiting := [.opened]
  begun := []
  hello := hello
  name := name
  since := since
  events := []

/-- The calls that an event makes wait until the event is over. -/
def step (p : Peer) (e : Websocket.Event) : Peer :=
  let connection := p.connection.step host e
  { p with
    connection := connection
    waiting := p.waiting ++ connection.calls.drop p.connection.calls.length
    events := p.events ++ [e] }

/-- A handler uses the object. What is posted to an object that goes is never run. -/
def use (e : Websocket.Event) (p : Peer) : Peer := if p.connection.deleted then p else p.step host e

/-- A handler begins. `onclose` deletes the name, which nobody else reads any more. -/
def begin (p : Peer) (call : HandlerCall) (rest : List HandlerCall) : Peer :=
  { p with
    userdata := if call.isClosed then none else p.userdata
    waiting := rest
    begun := p.begun ++ [call] }

/-- How an object goes: by `delete this`, or because its open handler throws. `on_open` begins with
`get_remote_ip`, which throws when the other end has gone, and no `onclose` follows. The write of
the answer is taken to leave alone whatever is at the address later. -/
inductive Goes (p : Peer) : (opens : Bool) → Prop
  | deleted (hwaiting : p.waiting = []) (hdeleted : p.connection.deleted = true) : Goes p true
  | throws {rest : List HandlerCall} (hwaiting : p.waiting = .opened :: rest) : Goes p false

end Peer

/-- What a handler of `setup_routes` runs. That of `onopen` reads the name, if there is one. -/
def route (conn : Conn) (userdata : Option Bytes) : HandlerCall → Option Call
  | .opened => userdata.map (.onOpen conn)
  | .message data isBinary => some (.onMessage conn data isBinary)
  | .closed _ _ => some (.onClose conn)

/-- What the chat does to a connection object. `close` runs at once on the thread of its own
connection, and nobody else calls it. -/
def Event.act : Event → Option (Conn × Websocket.Event)
  | .sendBinary conn payload => some (conn, .post (.send 2 payload))
  | .sendText conn text => some (conn, .post (.send 1 text.toUTF8.toList))
  | .close conn reason =>
    some (conn, .close reason.toUTF8.toList Websocket.CloseStatusCode.normalClosure)
  | _ => none

namespace Websocket

/-- What comes from the socket and from the `io_context`. -/
def Event.isSocket : Event → Bool
  | .run | .read _ | .readError | .written _ => true
  | .post _ | .close .. => false

/-- Sizes of strings are of type `size_t`. -/
def Event.Fits : Event → Prop
  | .post job => job.Fits
  | .close msg _ => msg.length + 2 < 256 ^ 8
  | _ => True

instance : (e : Event) → Decidable e.Fits
  | .post job => inferInstanceAs (Decidable job.Fits)
  | .close msg _ => inferInstanceAs (Decidable (msg.length + 2 < 256 ^ 8))
  | .run | .read _ | .readError | .written _ => .isTrue trivial

end Websocket

/-- A thread that runs one of the two loops. -/
def Thread.isLoop : Thread → Bool
  | .handlers _ => false
  | .monitor _ | .cleanup _ => true

/-! ## Runs -/

structure App where
  cfg : Config
  /-- The connection objects that exist, by their addresses. -/
  peers : Conn → Option Peer

namespace App

def put (app : App) (conn : Conn) (peer : Option Peer) : App :=
  { app with peers := Function.update app.peers conn peer }

def deliver (host : ByteOrder) (peers : Conn → Option Peer) (e : Event) : Conn → Option Peer :=
  match e.act with
  | none => peers
  | some (conn, a) => Function.update peers conn ((peers conn).map (Peer.use host a))

def call (app : App) (c : Call) : App := { app with cfg := app.cfg.call c }

/-- What the threads of the chat do next, to the objects too. -/
def move (host : ByteOrder) (app : App) (t : Thread) (p : Prog Unit) (w : World) : App where
  cfg := app.cfg.move t p w
  peers := (w.trace.drop app.cfg.world.trace.length).foldl (deliver host) app.peers

/-- The handlers of the connection are not running. -/
def Idle (app : App) (conn : Conn) : Prop := app.cfg.code (.handlers conn) = .ret ()

/-- The reachable states of the server, when the sockets behave as `ok` allows them. -/
inductive ReachableBy (ok : Connection → Websocket.Event → Prop) (host : ByteOrder)
    (maxPayloadBytes : Nat) : App → Prop
  | init (steadyClock : Nat → TimePoint) (time : Nat → Int64) (remoteIp : Conn → Bytes) :
      ReachableBy ok host maxPayloadBytes ⟨.init (.init steadyClock time remoteIp), fun _ => none⟩
  /-- A client connects. Its object is where no other is. -/
  | accept {app : App} {conn : Conn} {url name : Bytes} (hello : Bytes) (isBinary : Bool)
      (h : ReachableBy ok host maxPayloadBytes app) (hfree : app.peers conn = none)
      (haccept : QueryString.onaccept url = some name) :
      ReachableBy ok host maxPayloadBytes (app.put conn
        (some (.accept host maxPayloadBytes hello name isBinary app.cfg.world.trace.length)))
  | socket {app : App} {conn : Conn} {p : Peer} {e : Websocket.Event}
      (h : ReachableBy ok host maxPayloadBytes app) (hp : app.peers conn = some p)
      (hidle : app.Idle conn) (hwaiting : p.waiting = []) (he : e.isSocket)
      (hen : p.connection.Enabled e) (hok : ok p.connection e) :
      ReachableBy ok host maxPayloadBytes (app.put conn (some (p.step host e)))
  | handle {app : App} {conn : Conn} {p : Peer} {call : HandlerCall} {rest : List HandlerCall}
      {c : Call} (h : ReachableBy ok host maxPayloadBytes app) (hp : app.peers conn = some p)
      (hidle : app.Idle conn) (hwaiting : p.waiting = call :: rest)
      (hroute : route conn p.userdata call = some c) :
      ReachableBy ok host maxPayloadBytes ((app.put conn (some (p.begin call rest))).call c)
  /-- A pass of one of the two loops begins. -/
  | pass {app : App} {c : Call} (h : ReachableBy ok host maxPayloadBytes app)
      (hloop : ∀ conn, c.thread ≠ .handlers conn) (hidle : app.cfg.code c.thread = .ret ())
      (hallowed : app.cfg.allows c) : ReachableBy ok host maxPayloadBytes (app.call c)
  | move {app : App} {t : Thread} {p : Prog Unit} {w : World}
      (h : ReachableBy ok host maxPayloadBytes app)
      (hadv : advance .connectionsMutex (app.cfg.code t) app.cfg.world = some (p, w))
      (hfits : ∀ e ∈ w.trace.drop app.cfg.world.trace.length, ∀ conn a, e.act = some (conn, a) → a.Fits) :
      ReachableBy ok host maxPayloadBytes (app.move host t p w)
  | free {app : App} {conn : Conn} {p : Peer} {opens : Bool}
      (h : ReachableBy ok host maxPayloadBytes app) (hp : app.peers conn = some p)
      (hidle : app.Idle conn) (hgoes : p.Goes opens) :
      ReachableBy ok host maxPayloadBytes (app.put conn none)

/-! ## Schedules -/

/-- What happens next in a schedule. -/
inductive Turn
  | accept (conn : Conn) (url hello : Bytes)
  | socket (conn : Conn) (e : Websocket.Event)
  | handle (conn : Conn)
  | pass (c : Call)
  | steps (t : Thread) (steps : Nat)
  | free (conn : Conn)

def isIdle (app : App) (conn : Conn) : Bool := isDone (app.cfg.code (.handlers conn))

def fits (es : List Event) : Bool := es.all fun e => e.act.all fun r => decide r.2.Fits

theorem fits_iff {es : List Event} :
    fits es ↔ ∀ e ∈ es, ∀ conn a, e.act = some (conn, a) → a.Fits := by
  simp [fits, Option.all_eq_true]

theorem ret_of_isDone {p : Prog Unit} (h : isDone p) : p = .ret () := by
  cases p with
  | ret a => rfl
  | _ => simp [isDone] at h

section Play

variable (host : ByteOrder) (maxPayloadBytes : Nat)

def stepOf (t : Thread) (app : App) : App :=
  match advance .connectionsMutex (app.cfg.code t) app.cfg.world with
  | some (p, w) => if fits (w.trace.drop app.cfg.world.trace.length) then app.move host t p w else app
  | none => app

/-- The next turn, where it is possible. No read comes between the two bytes that begin a frame. -/
def play (app : App) : Turn → App
  | .accept conn url hello =>
    match app.peers conn, QueryString.onaccept url with
    | none, some name => app.put conn
        (some (.accept host maxPayloadBytes hello name false app.cfg.world.trace.length))
    | _, _ => app
  | .socket conn e =>
    match app.peers conn with
    | some p =>
      if app.isIdle conn ∧ p.waiting = [] ∧ e.isSocket ∧ p.connection.Enabled e ∧
          Websocket.WholeHeaders p.connection e then app.put conn (some (p.step host e)) else app
    | none => app
  | .handle conn =>
    match app.peers conn with
    | some p =>
      match p.waiting with
      | call :: rest =>
        match route conn p.userdata call with
        | some c => if app.isIdle conn then (app.put conn (some (p.begin call rest))).call c else app
        | none => app
      | [] => app
    | none => app
  | .pass c =>
    if c.thread.isLoop ∧ isDone (app.cfg.code c.thread) ∧ app.cfg.allows c then app.call c else app
  | .steps t steps => (stepOf host t)^[steps] app
  | .free conn =>
    match app.peers conn with
    | some p =>
      if app.isIdle conn ∧ p.waiting = [] ∧ p.connection.deleted then app.put conn none else app
    | none => app

variable {host maxPayloadBytes} {app : App}

theorem ReachableBy.stepOf (h : ReachableBy Websocket.WholeHeaders host maxPayloadBytes app)
    (t : Thread) : ReachableBy Websocket.WholeHeaders host maxPayloadBytes (stepOf host t app) := by
  unfold App.stepOf
  split
  · rename_i p w hadv
    split
    · rename_i hfits
      exact .move h hadv (fits_iff.mp hfits)
    · exact h
  · exact h

theorem ReachableBy.play (h : ReachableBy Websocket.WholeHeaders host maxPayloadBytes app)
    (turn : Turn) :
    ReachableBy Websocket.WholeHeaders host maxPayloadBytes (play host maxPayloadBytes app turn) := by
  cases turn with
  | accept conn url hello =>
    simp only [App.play]
    split
    · rename_i name hfree haccept
      exact .accept hello false h hfree haccept
    · exact h
  | socket conn e =>
    simp only [App.play]
    split
    · rename_i p hp
      split
      · rename_i hok
        obtain ⟨hidle, hwaiting, he, hen, hwhole⟩ := hok
        exact .socket h hp (ret_of_isDone hidle) hwaiting he hen hwhole
      · exact h
    · exact h
  | handle conn =>
    simp only [App.play]
    split
    · rename_i p hp
      split
      · rename_i call rest hwaiting
        split
        · rename_i c hroute
          split
          · rename_i hidle
            exact .handle h hp (ret_of_isDone hidle) hwaiting hroute
          · exact h
        · exact h
      · exact h
    · exact h
  | pass c =>
    simp only [App.play]
    split
    · rename_i hok
      obtain ⟨hloop, hidle, hallows⟩ := hok
      refine .pass h (fun conn hc => ?_) (ret_of_isDone hidle) hallows
      rw [hc] at hloop
      cases hloop
    · exact h
  | steps t steps =>
    simp only [App.play]
    induction steps with
    | zero => exact h
    | succ k ih =>
      rw [Function.iterate_succ_apply']
      exact ih.stepOf t
  | free conn =>
    simp only [App.play]
    split
    · rename_i p hp
      split
      · rename_i hok
        obtain ⟨hidle, hwaiting, hdeleted⟩ := hok
        exact .free h hp (ret_of_isDone hidle) (.deleted hwaiting hdeleted)
      · exact h
    · exact h

end Play

/-- The server after a schedule, with the limit that Crow has by default. -/
def playAll (turns : List Turn) : App :=
  turns.foldl (play .little (256 ^ 8 - 1))
    ⟨.init (.init (fun _ => 0) (fun _ => 0) fun _ => []), fun _ => none⟩

theorem reachable_playAll (turns : List Turn) :
    ReachableBy Websocket.WholeHeaders .little (256 ^ 8 - 1) (playAll turns) := by
  suffices ∀ app, ReachableBy Websocket.WholeHeaders .little (256 ^ 8 - 1) app →
      ReachableBy Websocket.WholeHeaders .little (256 ^ 8 - 1)
        (turns.foldl (play .little (256 ^ 8 - 1)) app) from this _ (.init _ _ _)
  induction turns with
  | nil => exact fun _ h => h
  | cons turn turns ih => exact fun app h => ih _ (h.play turn)

end App

end ChatServer
