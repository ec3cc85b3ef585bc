import ChatServer.Authority
import ChatServer.Deeds

/-!
# Whom a step addresses

The handlers use two kinds of pointers to connection objects: the one that Crow hands them, and
those in the table. Only `on_open` closes, and only its own connection, and it accepts nobody
but the user that it is called for.
-/

open Program

namespace ChatServer

def Event.isClose : Event → Bool
  | .close .. => true
  | _ => false

/-- `t` has the pointer from Crow, or from the table. -/
def MayUse (t : Thread) (w : World) (conn : Conn) : Prop :=
  t = .handlers conn ∨ ∃ n, w.connOf n = some conn

/-- `t` has the pointer. If it opens a connection for `user`, it may close it, or accept `user`. -/
structure Aimed (t : Thread) (user : Option Bytes) (w : World) (e : Event) : Prop where
  use : ∀ conn, e.target = some conn → MayUse t w conn
  close : e.isClose → ∀ conn, e.target = some conn → t = .handlers conn ∧ user.isSome
  accept : ∀ conn n, e = .accepted conn n → t = .handlers conn ∧ user = some n

/-- What a step of `t` adds to the trace. -/
def Addresses (t : Thread) (user : Option Bytes) (w w' : World) : Prop :=
  ∃ es, w'.trace = w.trace ++ es ∧ ∀ e ∈ es, Aimed t user w e

section Addresses

variable {t : Thread} {user : Option Bytes} {w w' : World}

theorem Aimed.own {conn : Conn} {e : Event} (he : e.target = some conn)
    (hclose : e.isClose → user.isSome) : Aimed (.handlers conn) user w e := by
  refine ⟨fun c hc => .inl ?_, fun hc c hconn => ⟨?_, hclose hc⟩, ?_⟩
  · rw [Option.some.inj (he.symm.trans hc)]
  · rw [Option.some.inj (he.symm.trans hconn)]
  · rintro c n rfl
    cases he

/-- A mark that somebody has left, or that a message has been stored. -/
theorem Aimed.mark {e : Event} (he : e.target = none) (hno : ∀ conn n, e ≠ .accepted conn n) :
    Aimed t user w e := by
  refine ⟨fun c hc => ?_, fun _ c hc => ?_, fun c n heq => absurd heq (hno c n)⟩
  · rw [he] at hc
    cases hc
  · rw [he] at hc
    cases hc

theorem Aimed.accepted (conn : Conn) (n : Bytes) :
    Aimed (.handlers conn) (some n) w (.accepted conn n) := by
  refine ⟨fun c hc => ?_, fun hclose => ?_, ?_⟩
  · cases hc
  · cases hclose
  · rintro c m ⟨⟩
    exact ⟨rfl, rfl⟩

theorem addresses_same (h : w'.trace = w.trace) : Addresses t user w w' :=
  ⟨[], by rw [h, List.append_nil], nofun⟩

theorem addresses_emits {es : List Event} (h : ∀ e ∈ es, Aimed t user w e) :
    Addresses t user w (w.emits es) :=
  ⟨es, rfl, h⟩

theorem addresses_one {e : Event} (h : Aimed t user w e) (htrace : w'.trace = w.trace ++ [e]) :
    Addresses t user w w' :=
  ⟨[e], htrace, fun _ he' => List.mem_singleton.mp he' ▸ h⟩

theorem addresses_sends {conns : List Conn} (payload : Bytes)
    (h : ∀ conn ∈ conns, ∃ n, w.connOf n = some conn) : Addresses t user w (w.sends conns payload) := by
  apply addresses_emits
  intro e he
  obtain ⟨conn, hconn, rfl⟩ := List.mem_map.mp he
  refine ⟨fun c hc => ?_, fun hclose => ?_, fun _ _ heq => ?_⟩
  · rw [← Option.some.inj hc]
    exact .inr (h conn hconn)
  · cases hclose
  · cases heq

theorem addresses_live (payload : Bytes) : Addresses t user w (w.sends w.live payload) :=
  addresses_sends payload fun _ hconn => World.mem_live.mp hconn

end Addresses

/-- The code of `t` addresses as it may, whatever the other threads do in between. -/
def aims (t : Thread) (user : Option Bytes) : Script Mutex.connectionsMutex World Unit where
  know _ _ := True
  step _ _ w _ w' := Addresses t user w w'
  step_bind _ _ h := h
  idle _ _ _ _ := addresses_same rfl

abbrev Aims (t : Thread) (user : Option Bytes) {α : Type} (p : Prog α) : Prop :=
  Follows (aims t user) (fun _ _ => True) p ()

section Rules

variable {t : Thread} {user : Option Bytes} {α β : Type}

theorem aims_bind {p : Prog α} {f : α → Prog β} (hbal : Balanced .connectionsMutex false p)
    (hp : Aims t user p) (hf : ∀ a, Aims t user (f a)) : Aims t user (p.bind f) :=
  .bind hbal hp fun a _ _ => hf a

theorem aims_section {p : Prog α} {f : α → Prog β} (hp : IsSection .connectionsMutex p)
    (h : ∀ w, Addresses t user w (p.run w).2) (hf : ∀ w, Aims t user (f (p.run w).1)) :
    Aims t user (p.bind f) :=
  .section_bind hp fun w _ => ⟨(), h w, hf w⟩

theorem aims_of_section {p : Prog α} (hp : IsSection .connectionsMutex p)
    (h : ∀ w, Addresses t user w (p.run w).2) : Aims t user p :=
  .of_section hp fun w _ => ⟨(), h w, trivial⟩

theorem aims_access {f : World → World} {k : World → Prog α} (h : ∀ w, Addresses t user w (f w))
    (hk : ∀ w, Aims t user (k w)) : Aims t user (.access f k) :=
  .access fun w _ => ⟨(), h w, hk w⟩

theorem aims_ret (a : α) : Aims t user (.ret a) := .ret trivial

theorem aims_log_bind {f : Unit → Prog α} (h : Aims t user (f ())) : Aims t user (log.bind f) :=
  .skip nofun (fun _ => rfl) rfl (.skip nofun (fun _ => rfl) rfl h)

theorem aims_log : Aims t user log :=
  .skip nofun (fun _ => rfl) rfl (.skip nofun (fun _ => rfl) rfl (aims_ret _))

theorem aims_emit_bind {conn : Conn} {e : Event} {f : Unit → Prog α}
    (he : e.target = some conn) (hclose : e.isClose → user.isSome)
    (h : Aims (.handlers conn) user (f ())) : Aims (.handlers conn) user ((emit e).bind f) :=
  aims_access (fun _ => addresses_one (.own he hclose) rfl) fun _ => h

theorem aims_emit {conn : Conn} {e : Event} (he : e.target = some conn)
    (hclose : e.isClose → user.isSome) : Aims (.handlers conn) user (emit e) :=
  aims_access (fun _ => addresses_one (.own he hclose) rfl) fun _ => aims_ret _

end Rules

/-! ## Notifications -/

section Notifications

variable {t : Thread} {user : Option Bytes}

theorem aims_notifyUserStatusChange (username : Bytes) (st : UserStatus) :
    Aims t user (notifyUserStatusChange username st) := by
  apply aims_of_section (section_notifyUserStatusChange _ _)
  intro w
  rw [notifyUserStatusChange_run]
  exact addresses_live _

theorem aims_notifyUserJoined (username : Bytes) (st : UserStatus) :
    Aims t user (notifyUserJoined username st) := by
  apply aims_access fun _ => addresses_same rfl
  intro w
  change Aims t user (if w.testingMode then pure () else log.bind fun _ => sendJoined username st)
  split
  · exact aims_ret _
  · apply aims_log_bind
    apply aims_of_section (section_sendJoined _ _)
    intro v
    rw [sendJoined_run]
    apply addresses_sends
    intro conn hconn
    obtain ⟨n, -, hn⟩ := World.mem_others.mp hconn
    exact ⟨n, hn⟩

theorem aims_notifyNewMessage (sender msg : Bytes) (isPrivate : Bool) (recipient : Bytes) :
    Aims t user (notifyNewMessage sender msg isPrivate recipient) := by
  have hsection := section_sendNewMessage sender (messagePayload sender msg) isPrivate recipient
  refine .async ?_ (aims_log_bind ?_)
  · exact balanced_bind balanced_log fun _ => balanced_bind hsection.balanced fun _ => balanced_log
  · refine aims_section hsection (fun w => ?_) fun w => aims_log
    rw [sendNewMessage_run]
    exact addresses_sends _ fun _ hconn => World.mem_recipients hconn

theorem aims_updateStatus (username : Bytes) (status : UserStatus) (notify : Bool) :
    Aims t user (updateStatus username status notify) := by
  refine aims_section (.withLock (avoids_applyStatus _ _ _)) (fun w => ?_) fun w => ?_
  · rw [run_withLock, applyStatus_run]
    cases w.connections.lookup username with
    | none => exact addresses_same rfl
    | some cd => exact addresses_same rfl
  · split
    · exact aims_notifyUserStatusChange _ _
    · exact aims_ret _

end Notifications

/-! ## Requests -/

section Requests

variable {conn : Conn} {user : Option Bytes}

theorem aims_sendError (code : UInt8) : Aims (.handlers conn) user (sendError conn code) := by
  exact aims_emit_bind rfl (by simp [Event.isClose]) aims_log

theorem aims_sendBroadcast {t : Thread} (sender msg : Bytes) : Aims t user (sendBroadcast sender msg) := by
  refine aims_section (section_storeGeneral sender msg) (fun w => ?_) fun w => ?_
  · exact addresses_one (.mark rfl (by simp)) rfl
  · exact aims_notifyNewMessage _ _ _ _

theorem aims_sendPrivateMessage {t : Thread} (sender recipient msg : Bytes) :
    Aims t user (sendPrivateMessage sender recipient msg) := by
  refine aims_section (.withLock (avoids_storePrivate _ _ _)) (fun w => ?_) fun w => ?_
  · rw [run_withLock, storePrivate_run]
    split
    · exact addresses_one (.mark rfl (by simp)) rfl
    · apply addresses_sends
      intro c hc
      exact ⟨sender, Option.mem_toList.mp hc⟩
  · split
    · exact aims_notifyNewMessage _ _ _ _
    · exact aims_ret _

theorem aims_perform (sender : Bytes) (r : Request) :
    Aims (.handlers conn) user (perform conn sender r) := by
  cases r with
  | listUsers =>
    apply aims_log_bind
    apply aims_of_section (section_sendUserList conn)
    intro w
    rw [sendUserList_run]
    exact addresses_one (.own rfl (by simp [Event.isClose])) rfl
  | userInfo requestedName =>
    apply aims_of_section (section_answerUserInfo _ _)
    intro w
    rw [answerUserInfo_run]
    exact addresses_one (.own rfl (by simp [Event.isClose])) rfl
  | changeStatus username rawStatus =>
    change Aims _ _ (changeStatus conn sender username rawStatus)
    unfold changeStatus
    split
    · exact aims_log_bind (aims_sendError _)
    · refine aims_log_bind (aims_section (.withLock (avoids_bind avoids_load fun _ => trivial))
        (fun w => addresses_same rfl) fun w => ?_)
      cases statusOfByte rawStatus with
      | none => exact aims_sendError _
      | some newStatus => exact aims_log_bind (aims_updateStatus _ _ _)
  | sendMessage destino mensaje =>
    have hsend (m : Bytes) : Aims (.handlers conn) user
        (if destino = generalChat then sendBroadcast sender m else sendPrivateMessage sender destino m) := by
      split
      · exact aims_sendBroadcast _ _
      · exact aims_sendPrivateMessage _ _ _
    apply aims_log_bind
    by_cases hempty : mensaje = []
    · rw [if_pos hempty]
      exact aims_sendError _
    · rw [if_neg hempty]
      by_cases hlen : mensaje.length > maxMessageLength
      · rw [if_pos hlen]
        exact aims_log_bind (hsend _)
      · rw [if_neg hlen]
        exact hsend _
  | history target =>
    refine aims_bind (balanced_selectHistory _ _) ?_ fun messages => ?_
    · unfold selectHistory
      split
      · exact aims_of_section (.withLock (avoids_bind avoids_load fun _ => trivial))
          fun w => addresses_same rfl
      · exact aims_access (fun w => addresses_same rfl) fun w => aims_ret _
    · exact aims_log_bind (aims_emit rfl (by simp [Event.isClose]))
  | unknown => exact aims_log

end Requests

/-! ## Calls -/

theorem aims_onMessage (conn : Conn) (data : Bytes) (isBinary : Bool) :
    Aims (.handlers conn) user (onMessage conn data isBinary) := by
  cases data with
  | nil => cases isBinary <;> exact aims_log_bind aims_log
  | cons b rest =>
    cases isBinary with
    | false => exact aims_log_bind aims_log
    | true =>
      have hserve (sender : Bytes) :
          Aims (.handlers conn) user (log.bind fun _ => serve conn sender (b :: rest)) := by
        apply aims_log_bind
        unfold serve
        cases readRequest (b :: rest) with
        | error e => exact aims_log
        | ok r => exact aims_perform sender r
      rw [onMessage_binary]
      refine aims_log_bind (aims_section (.withLock (avoids_identifySender _ _)) (fun w => ?_)
        fun w => ?_)
      · rw [run_withLock, identifySender_run]
        cases w.findConn conn with
        | none => exact addresses_same rfl
        | some e => exact addresses_same rfl
      · split
        · exact aims_bind (balanced_updateStatus _ _ _) (aims_updateStatus _ _ _) fun _ => hserve _
        · exact hserve _

theorem aims_welcome {t : Thread} (isReconnection : Bool) (username : Bytes) (st : UserStatus) :
    Aims t user ((logOpened isReconnection).bind fun _ =>
      startMonitor.bind fun _ => notifyUserJoined username st) := by
  refine aims_bind (balanced_logOpened _) ?_ fun _ => aims_bind balanced_startMonitor ?_ fun _ =>
    aims_notifyUserJoined _ _
  · unfold logOpened
    split
    · exact aims_log
    · refine aims_log_bind (aims_log_bind (aims_of_section section_logEntries fun w => ?_))
      rw [bind_eq, logEntries_run]
      exact addresses_same rfl
  · refine aims_access (fun w => addresses_same rfl) fun w => ?_
    change Aims t user (if w.monitorStarted then pure () else update _)
    split
    · exact aims_ret _
    · exact aims_access (fun w => addresses_same rfl) fun w => aims_ret _

theorem aims_onOpen (conn : Conn) (username : Bytes) :
    Aims (.handlers conn) (some username) (onOpen conn username) := by
  refine aims_access (fun w => addresses_same rfl) fun w => ?_
  change Aims _ _ (if username = [] ∨ username.length > 20 ∨ username = generalChat then _ else _)
  split
  · exact aims_log_bind (aims_emit_bind rfl (fun _ => rfl) (aims_emit rfl (by simp [Event.isClose])))
  · refine aims_section (.withLock (avoids_admitUser _ _ _)) (fun v => ?_) fun v => ?_
    · rw [run_withLock, admitUser_run]
      cases v.connections.lookup username with
      | none => exact addresses_one (.accepted conn username) rfl
      | some cd =>
        dsimp only
        split
        · apply addresses_emits
          intro e he
          rcases List.mem_cons.mp he with rfl | he
          · exact .own rfl fun _ => rfl
          · rw [List.mem_singleton.mp he]
            exact .own rfl fun _ => rfl
        · exact addresses_one (.accepted conn username) rfl
    · split
      · exact aims_ret _
      · exact aims_welcome _ _ _

theorem aims_onClose (conn : Conn) : Aims (.handlers conn) user (onClose conn) := by
  refine aims_section (.withLock (avoids_disconnect conn)) (fun w => ?_) fun w => ?_
  · rw [run_withLock, disconnect_run]
    cases w.findConn conn with
    | none => exact addresses_one (.mark rfl (by simp)) rfl
    | some e => exact addresses_one (.mark rfl (by simp)) rfl
  · split
    · exact aims_notifyUserStatusChange _ _
    · exact aims_ret _

theorem aims_monitorPass (t : Thread) : Aims t user monitorPass := by
  have hbal : ∀ u, Balanced .connectionsMutex false (notifyUserStatusChange u .inactivo) :=
    fun u => (section_notifyUserStatusChange u _).balanced
  refine aims_section (.withLock avoids_findIdle) (fun w => ?_) fun w => ?_
  · rw [run_withLock, findIdle_run]
    exact addresses_same rfl
  · refine aims_bind (balanced_forEach _ hbal) ?_ fun _ => ?_
    · refine (Follows.forEach _ hbal fun u _ => ?_).mono fun _ _ _ => trivial
      exact (aims_notifyUserStatusChange u _).mono fun _ _ _ => rfl
    · split
      · refine .skip nofun (fun _ => rfl) rfl (aims_access (fun v => addresses_same rfl) fun v => ?_)
        exact .skip nofun (fun _ => rfl) rfl (aims_ret _)
      · exact aims_ret _

theorem aims_cleanupPass (t : Thread) : Aims t user cleanupPass := by
  apply aims_of_section section_cleanupPass
  intro w
  rw [cleanupPass_run]
  exact addresses_same rfl

/-! ## Runs -/

/-- The user that `on_open` is called for. -/
def Call.user : Call → Option Bytes
  | .onOpen _ username => some username
  | _ => none

theorem aims_call {user : Option Bytes} (c : Call) (h : ∀ n, c.user = some n → user = some n) :
    Aims c.thread user c.code := by
  cases c with
  | onOpen conn username =>
    rw [h username rfl]
    exact aims_onOpen conn username
  | onMessage conn data isBinary => exact aims_onMessage conn data isBinary
  | onClose conn => exact aims_onClose conn
  | monitorPass k => exact aims_monitorPass _
  | cleanupPass k => exact aims_cleanupPass _

/-- Every thread addresses as it may from where it is, and accepts nobody but its user. -/
def Aiming (users : Thread → Option Bytes) (cfg : Config) : Prop :=
  ∀ t, Aims t (users t) (cfg.code t)

section Aiming

variable {users : Thread → Option Bytes} {cfg : Config}

theorem Aiming.init (w : World) : Aiming users (.init w) := fun _ => aims_ret _

theorem Aiming.call (h : Aiming users cfg) {c : Call}
    (huser : ∀ n, c.user = some n → users c.thread = some n) : Aiming users (cfg.call c) := by
  intro t
  by_cases ht : t = c.thread
  · subst ht
    simpa only [Config.call, Function.update_self] using aims_call c huser
  · simpa only [Config.call, Function.update_of_ne ht] using h t

theorem Aiming.move (h : Aiming users cfg) {t : Thread} {p : Prog Unit} {w : World}
    (hadv : advance .connectionsMutex (cfg.code t) cfg.world = some (p, w)) :
    Aiming users (cfg.move t p w) ∧ Addresses t (users t) cfg.world w := by
  obtain ⟨_, hstep, hnext⟩ := (h t).advance trivial hadv
  refine ⟨fun u => ?_, hstep⟩
  by_cases hu : u = t
  · subst hu
    simpa only [Config.move, Function.update_self] using hnext
  · simpa only [Config.move, Function.update_of_ne hu] using h u

/-- An idle thread may get another user. -/
theorem Aiming.update (h : Aiming users cfg) {t : Thread} (hidle : cfg.code t = .ret ())
    (user : Option Bytes) : Aiming (Function.update users t user) cfg := by
  intro u
  by_cases hu : u = t
  · subst hu
    rw [hidle]
    exact aims_ret _
  · rw [Function.update_of_ne hu]
    exact h u

end Aiming

end ChatServer
