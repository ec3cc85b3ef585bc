import ChatServer.Lib.Interleave
import ChatServer.WebsocketHandler

/-!
# Runs of the server

The handlers and the two background loops, in any interleaving of the critical sections of
`connections_mutex`. Crow runs the handlers of one connection one after another, and opens a
connection again only after its `on_close`.
-/

open Program

namespace ChatServer

/-- One thread for each connection. The loops may run in any number of threads. -/
inductive Thread
  | handlers (conn : Conn)
  | monitor (k : Nat)
  | cleanup (k : Nat)
  deriving DecidableEq

inductive Call
  | onOpen (conn : Conn) (username : Bytes)
  | onMessage (conn : Conn) (data : Bytes) (isBinary : Bool)
  | onClose (conn : Conn)
  | monitorPass (k : Nat)
  | cleanupPass (k : Nat)

namespace Call

def thread : Call → Thread
  | .onOpen conn _ | .onMessage conn _ _ | .onClose conn => .handlers conn
  | .monitorPass k => .monitor k
  | .cleanupPass k => .cleanup k

def code : Call → Prog Unit
  | .onOpen conn username => ChatServer.onOpen conn username
  | .onMessage conn data isBinary => ChatServer.onMessage conn data isBinary
  | .onClose conn => ChatServer.onClose conn
  | .monitorPass _ => ChatServer.monitorPass
  | .cleanupPass _ => ChatServer.cleanupPass

/-- The connections that Crow has opened and not closed, once the call has begun. -/
def opened (opened : Conn → Bool) : Call → Conn → Bool
  | .onOpen conn _ => Function.update opened conn true
  | .onClose conn => Function.update opened conn false
  | _ => opened

end Call

structure Config where
  world : World
  /-- What each thread has still to run. An idle thread has `ret ()`. -/
  code : Thread → Prog Unit
  opened : Conn → Bool
  /-- The last call of each thread, until it comes to its first critical section. -/
  pending : Thread → Option Call

namespace Config

def init (w : World) : Config where
  world := w
  code := fun _ => .ret ()
  opened := fun _ => false
  pending := fun _ => none

/-- What Crow promises of `on_open`. The loops begin once `on_open` has started them. -/
def allows (cfg : Config) : Call → Bool
  | .onOpen conn _ => !cfg.opened conn
  | .onMessage .. | .onClose _ => true
  | .monitorPass _ | .cleanupPass _ => cfg.world.monitorStarted

def call (cfg : Config) (c : Call) : Config where
  world := cfg.world
  code := Function.update cfg.code c.thread c.code
  opened := c.opened cfg.opened
  pending := Function.update cfg.pending c.thread (some c)

def move (cfg : Config) (t : Thread) (p : Prog Unit) (w : World) : Config where
  world := w
  code := Function.update cfg.code t p
  opened := cfg.opened
  pending := if (cfg.code t).takes .connectionsMutex then Function.update cfg.pending t none
    else cfg.pending

end Config

/-- The reachable configurations when a thread moves only where `ok` allows it. -/
inductive ReachableBy (ok : Config → Thread → Prop) : Config → Prop
  | init (steadyClock : Nat → TimePoint) (time : Nat → Int64) (remoteIp : Conn → Bytes) :
      ReachableBy ok (.init (.init steadyClock time remoteIp))
  | call {cfg : Config} (c : Call) (h : ReachableBy ok cfg) (hidle : cfg.code c.thread = .ret ())
      (hallowed : cfg.allows c) : ReachableBy ok (cfg.call c)
  | move {cfg : Config} (t : Thread) {p : Prog Unit} {w : World} (h : ReachableBy ok cfg)
      (hadv : advance .connectionsMutex (cfg.code t) cfg.world = some (p, w)) (hok : ok cfg t) :
      ReachableBy ok (cfg.move t p w)

abbrev Reachable : Config → Prop := ReachableBy fun _ _ => True

theorem ReachableBy.reachable {ok : Config → Thread → Prop} {cfg : Config}
    (h : ReachableBy ok cfg) : Reachable cfg := by
  induction h with
  | init clock time ip => exact .init clock time ip
  | call c _ hidle hallowed ih => exact .call c ih hidle hallowed
  | move t _ hadv _ ih => exact .move t ih hadv trivial

/-- A server whose clocks stand still. -/
theorem Reachable.start : Reachable (.init (.init (fun _ => 0) (fun _ => 0) fun _ => [])) :=
  .init _ _ _

/-! ## A call that nothing interrupts -/

def Config.finish (cfg : Config) (t : Thread) : Config where
  world := ((cfg.code t).run cfg.world).2
  code := Function.update cfg.code t (.ret ())
  opened := cfg.opened
  pending := if (cfg.code t).comesTo .connectionsMutex cfg.world then
    Function.update cfg.pending t none else cfg.pending

theorem Config.finish_move {cfg : Config} {t : Thread} {p : Prog Unit} {w : World}
    (hadv : advance .connectionsMutex (cfg.code t) cfg.world = some (p, w)) :
    (cfg.move t p w).finish t = cfg.finish t := by
  simp only [finish, move, Function.update_self, Function.update_idem, run_advance hadv,
    comesTo_advance hadv]
  cases (cfg.code t).takes .connectionsMutex <;> simp

theorem Config.finish_idle {cfg : Config} {t : Thread} (h : cfg.code t = .ret ()) :
    cfg.finish t = cfg := by
  have hself : Function.update cfg.code t (.ret ()) = cfg.code := by
    rw [← h, Function.update_eq_self]
  rw [finish, hself, h]
  rfl

/-- What each step of the thread keeps holds when it has run to its end. -/
theorem Config.finish_induction {P : Config → Prop} {t : Thread}
    (hmove : ∀ {cfg : Config} {p : Prog Unit} {w : World}, P cfg →
      advance .connectionsMutex (cfg.code t) cfg.world = some (p, w) → P (cfg.move t p w))
    {cfg : Config} (h : P cfg) : P (cfg.finish t) := by
  generalize hcode : cfg.code t = p
  induction p using advance_induction (m := Mutex.connectionsMutex) generalizing cfg with
  | h p ih =>
    cases hadv : advance .connectionsMutex p cfg.world with
    | none =>
      obtain ⟨a, rfl⟩ := advance_eq_none hadv
      rwa [Config.finish_idle hcode]
    | some r =>
      have hadv' : advance .connectionsMutex (cfg.code t) cfg.world = some (r.1, r.2) := by
        rw [hcode, hadv]
      rw [← Config.finish_move hadv']
      exact ih _ _ _ hadv (hmove h hadv') (Function.update_self ..)

theorem Reachable.finish {cfg : Config} (h : Reachable cfg) (t : Thread) :
    Reachable (cfg.finish t) :=
  Config.finish_induction (fun h hadv => .move t h hadv trivial) h

/-- An idle thread takes a call and runs it to its end. -/
def Config.serve (cfg : Config) (c : Call) : Config := (cfg.call c).finish c.thread

theorem Reachable.serve {cfg : Config} (h : Reachable cfg) {c : Call}
    (hidle : cfg.code c.thread = .ret ()) (hallowed : cfg.allows c) : Reachable (cfg.serve c) :=
  Reachable.finish (.call c h hidle hallowed) _

@[simp] theorem Config.serve_world (cfg : Config) (c : Call) :
    (cfg.serve c).world = (c.code.run cfg.world).2 := by
  simp [serve, finish, call]

/-- No call is under way. -/
def Config.AtRest (cfg : Config) : Prop := ∀ t, cfg.code t = .ret ()

theorem Config.AtRest.serve {cfg : Config} (h : cfg.AtRest) (c : Call) : (cfg.serve c).AtRest := by
  intro t
  by_cases ht : t = c.thread
  · rw [ht]
    exact Function.update_self ..
  · exact (Function.update_of_ne ht ..).trans ((Function.update_of_ne ht ..).trans (h t))

/-! ## Schedules -/

def Config.step (cfg : Config) (t : Thread) : Config :=
  match advance .connectionsMutex (cfg.code t) cfg.world with
  | none => cfg
  | some (p, w) => cfg.move t p w

theorem ReachableBy.step {ok : Config → Thread → Prop} {cfg : Config} (h : ReachableBy ok cfg)
    {t : Thread} (hok : ok cfg t) : ReachableBy ok (cfg.step t) := by
  unfold Config.step
  split
  · exact h
  · rename_i p w hadv
    exact .move t h hadv hok

def Config.steps (cfg : Config) (t : Thread) : Nat → Config
  | 0 => cfg
  | k + 1 => (cfg.steps t k).step t

theorem ReachableBy.steps {ok : Config → Thread → Prop} {cfg : Config} (h : ReachableBy ok cfg)
    {t : Thread} {k : Nat} (hok : ∀ i < k, ok (cfg.steps t i) t) :
    ReachableBy ok (cfg.steps t k) := by
  induction k with
  | zero => exact h
  | succ k ih => exact (ih fun i hi => hok i (by omega)).step (hok k (by omega))

section Code

variable (cfg : Config) {t u : Thread}

theorem Config.step_code_of_ne (h : u ≠ t) : (cfg.step t).code u = cfg.code u := by
  unfold step
  split
  · rfl
  · exact Function.update_of_ne h _ _

theorem Config.steps_code_of_ne (h : u ≠ t) (k : Nat) : (cfg.steps t k).code u = cfg.code u := by
  induction k with
  | zero => rfl
  | succ k ih => rw [steps, step_code_of_ne _ h, ih]

theorem Config.call_code_of_ne {c : Call} (h : u ≠ c.thread) : (cfg.call c).code u = cfg.code u :=
  Function.update_of_ne h _ _

theorem Config.finish_code : (cfg.finish t).code u = if u = t then .ret () else cfg.code u :=
  Function.update_apply _ _ _ _

theorem Config.serve_code {c : Call} :
    (cfg.serve c).code u = if u = c.thread then .ret () else cfg.code u := by
  unfold serve
  rw [finish_code]
  split
  · rfl
  · rename_i h
    exact cfg.call_code_of_ne h

end Code

end ChatServer
