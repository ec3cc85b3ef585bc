import ChatServer.Lib.Crew
import ChatServer.Lib.Script
import ChatServer.Locking
import ChatServer.Protocol
import ChatServer.Runs

/-!
# What the code takes and says

All code of the server takes its mutexes in the order of one rank, and sends 53, 54 and 55 frames
only in a critical section of a notification.
-/

open Program

namespace ChatServer

/-! ## Notifications -/

def Mutex.rank : Mutex → Nat
  | .connectionsMutex => 0
  | .inactivityMutex => 1
  | .queueMutex => 2

/-- A 53, 54 or 55 frame. -/
def Event.notifies : Event → Bool
  | .sendBinary _ (code :: _) => code = 53 || code = 54 || code = 55
  | _ => false

/-- The code begins with the critical section of `notify_user_joined`, of
`notify_user_status_change`, or of the task of `notify_new_message`. -/
inductive StartsNotification {α : Type} (p : Prog α) : Prop
  | joined {username : Bytes} {st : UserStatus} (h : Begins (sendJoined username st) p)
  | statusChange {username : Bytes} {st : UserStatus}
      (h : Begins (notifyUserStatusChange username st) p)
  | newMessage {sender payload : Bytes} {isPrivate : Bool} {recipient : Bytes}
      (h : Begins (sendNewMessage sender payload isPrivate recipient) p)

theorem StartsNotification.bind {α β : Type} {p : Prog α} (h : StartsNotification p)
    (f : α → Prog β) : StartsNotification (p.bind f) := by
  cases h with
  | joined h => exact .joined (h.bind f)
  | statusChange h => exact .statusChange (h.bind f)
  | newMessage h => exact .newMessage (h.bind f)

/-- The code sends 53, 54 and 55 frames only between taking `connections_mutex` for a notification
and giving it back. `inside` says whether it is there already. -/
def Speaks {α : Type} : Bool → Prog α → Prop
  | _, .ret _ => True
  | inside, .lock m p =>
    if m = .connectionsMutex then
      Speaks false p ∨ StartsNotification (Program.lock m p) ∧ Speaks true p
    else Speaks inside p
  | inside, .unlock m p => Speaks (inside && m ≠ .connectionsMutex) p
  | inside, .access f k => ∀ w, (∀ e ∈ (f w).trace.drop w.trace.length, e.notifies → inside) ∧
      Speaks inside (k w)
  | inside, .spawn p | inside, .join p => Speaks inside p

namespace Speaks

variable {α β : Type} {inside : Bool}

theorem mono {p : Prog α} (h : Speaks false p) (inside : Bool) : Speaks inside p := by
  induction p generalizing inside with
  | ret a => trivial
  | lock m p ih =>
    unfold Speaks at h ⊢
    split
    · rename_i hm
      rwa [if_pos hm] at h
    · rename_i hm
      rw [if_neg hm] at h
      exact ih h inside
  | unlock m p ih => exact ih h _
  | access f k ih => exact fun w => ⟨fun e he hn => absurd ((h w).1 e he hn) nofun, ih w (h w).2 inside⟩
  | spawn p ih | join p ih => exact ih h inside

theorem bind {p : Prog α} {f : α → Prog β} (hp : Speaks inside p) (hf : ∀ a, Speaks false (f a)) :
    Speaks inside (p.bind f) := by
  induction p generalizing inside with
  | ret a => exact (hf a).mono inside
  | lock m p ih =>
    simp only [Program.bind]
    unfold Speaks at hp ⊢
    split
    · rename_i hm
      rw [if_pos hm] at hp
      exact hp.imp ih fun h => ⟨h.1.bind f, ih h.2⟩
    · rename_i hm
      rw [if_neg hm] at hp
      exact ih hp
  | unlock m p ih => exact ih hp
  | access g k ih => exact fun w => ⟨(hp w).1, ih w (hp w).2⟩
  | spawn p ih | join p ih => exact ih hp

theorem of_avoids {p : Prog α} (h : Avoids .connectionsMutex p) : Speaks true p := by
  induction p with
  | ret a => trivial
  | lock m p ih =>
    unfold Speaks
    rw [if_neg h.1]
    exact ih h.2
  | unlock m p ih =>
    have hm : (true && decide (m ≠ Mutex.connectionsMutex)) = true := decide_eq_true h.1
    unfold Speaks
    rw [hm]
    exact ih h.2
  | access f k ih => exact fun w => ⟨fun _ _ _ => rfl, ih w (h w)⟩
  | spawn p ih | join p ih => exact ih h

/-- The critical section of a notification may send what it likes. -/
theorem notification {p : Prog α} (hp : IsSection .connectionsMutex p)
    (hstart : StartsNotification p) : Speaks inside p := by
  obtain ⟨body, rfl, hb⟩ := hp
  unfold withLock at hstart ⊢
  unfold Speaks
  rw [if_pos rfl]
  exact .inr ⟨hstart, (of_avoids hb).bind fun a => trivial⟩

end Speaks

/-! ## Tame code -/

/-- Code that takes only mutexes of rank `n` and above, in order, and sends 53, 54 and 55 frames
only in a critical section of a notification. -/
structure Tame (n : Nat) {α : Type} (p : Prog α) : Prop where
  locks : LocksFrom Mutex.rank n p
  speaks : Speaks false p

namespace Tame

variable {n : Nat} {α β : Type}

theorem ret (a : α) : Tame n (.ret a) := ⟨.ret a, trivial⟩

theorem access {f : World → World} {k : World → Prog α}
    (hf : ∀ w, ∃ es, (f w).trace = w.trace ++ es ∧ ∀ e ∈ es, e.notifies = false)
    (hk : ∀ w, Tame n (k w)) : Tame n (.access f k) where
  locks := .access fun w => (hk w).locks
  speaks w := by
    obtain ⟨es, htrace, hes⟩ := hf w
    refine ⟨fun e he hn => ?_, (hk w).speaks⟩
    rw [htrace, List.drop_left] at he
    rw [hes e he] at hn
    cases hn

theorem load_bind {f : World → Prog α} (hf : ∀ w, Tame n (f w)) : Tame n (load.bind f) :=
  access (fun w => ⟨[], by simp⟩) hf

/-- A change that the trace does not show. -/
theorem update {f : World → World} (hf : ∀ w, (f w).trace = w.trace) : Tame n (update f) :=
  access (fun w => ⟨[], by simp [hf]⟩) fun _ => ret ()

theorem emit {e : Event} (he : e.notifies = false) : Tame n (emit e) :=
  access (fun _ => ⟨[e], rfl, fun _ he' => List.mem_singleton.mp he' ▸ he⟩) fun _ => ret ()

theorem bind {p : Prog α} {f : α → Prog β} (hp : Tame n p) (hf : ∀ a, Tame n (f a)) :
    Tame n (p.bind f) := ⟨hp.locks.bind fun a => (hf a).locks, hp.speaks.bind fun a => (hf a).speaks⟩

theorem withLock {m : Mutex} {body : Prog α} (hm : n ≤ m.rank) (hb : Tame (m.rank + 1) body) :
    Tame n (withLock m body) where
  locks := .withLock hm hb.locks
  speaks := by
    unfold Program.withLock Speaks
    have hbody : Speaks false (body.bind fun a => .unlock m (.ret a)) := hb.speaks.bind fun _ => trivial
    split
    · exact .inl hbody
    · exact hbody

theorem critical {body : Prog α} (hb : Tame 1 body) :
    Tame 0 (Program.withLock .connectionsMutex body) := withLock le_rfl hb

theorem async {task : Prog α} (h : Tame n task) : Tame n (async task) :=
  ⟨.async h.locks, h.speaks.bind fun _ => trivial⟩

theorem forEach {ι : Type} {f : ι → Prog Unit} (is : List ι) (hf : ∀ i, Tame n (f i)) :
    Tame n (forEach is f) := by
  induction is with
  | nil => exact ret ()
  | cons i is ih => exact (hf i).bind fun _ => ih

theorem ite {c : Prop} [Decidable c] {p q : Prog α} (hp : Tame n p) (hq : Tame n q) :
    Tame n (if c then p else q) := by
  split <;> assumption

end Tame

/-! ## Code that notifies nobody -/

section Quiet

variable {n : Nat}

theorem tame_log (hn : n ≤ 2) : Tame n log := .withLock hn (.ret ())

theorem tame_steadyNow : Tame n steadyNow :=
  .load_bind fun _ => .access (fun w => ⟨[], by simp⟩) fun _ => .ret _

theorem tame_modifyEntry (username : Bytes) (f : ConnectionData → ConnectionData) :
    Tame n (modifyEntry username f) := .update fun _ => rfl

theorem tame_generateUuid : Tame n generateUuid :=
  .load_bind fun _ => .access (fun w => ⟨[], by simp⟩) fun _ => .ret _

theorem tame_sendError (hn : n ≤ 2) (conn : Conn) (code : UInt8) : Tame n (sendError conn code) :=
  .bind (.emit rfl) fun _ => tame_log hn

theorem tame_log_sendBinary (hn : n ≤ 2) {conn : Conn} {payload : Bytes}
    (h : (Event.sendBinary conn payload).notifies = false) :
    Tame n (log.bind fun _ => sendBinary conn payload) :=
  .bind (tame_log hn) fun _ => .emit h

theorem tame_applyStatus (username : Bytes) (status : UserStatus) (notify : Bool) :
    Tame 1 (applyStatus username status notify) := by
  apply Tame.load_bind
  intro w
  split
  · refine .bind tame_steadyNow fun now => .bind (tame_modifyEntry _ _) fun _ => ?_
    exact .bind (tame_log (by decide)) fun _ => .ret _
  · exact .ret _

theorem tame_storePrivate (sender recipient msg : Bytes) :
    Tame 1 (storePrivate sender recipient msg) := by
  apply Tame.load_bind
  intro w
  split
  · exact .bind (.update fun _ => rfl) fun _ => .bind (.emit rfl) fun _ => .ret _
  · split
    · split
      · exact .bind (tame_sendError (by decide) _ _) fun _ => .ret _
      · exact .ret _
    · exact .ret _

theorem tame_admitUser (conn : Conn) (username clientIp : Bytes) :
    Tame 1 (admitUser conn username clientIp) := by
  apply Tame.load_bind
  intro w
  split
  · split
    · apply Tame.bind (tame_log (by decide))
      intro _
      exact .bind (.emit rfl) fun _ => .bind (.emit rfl) fun _ => .ret _
    · apply Tame.bind tame_steadyNow
      intro _
      exact .bind (tame_modifyEntry _ _) fun _ => .bind (.emit rfl) fun _ => .ret _
  · apply Tame.bind tame_generateUuid
    intro _
    refine .load_bind fun _ => .bind tame_steadyNow fun _ => ?_
    exact .bind (.update fun _ => rfl) fun _ => .bind (.emit rfl) fun _ => .ret _

theorem tame_identifySender (conn : Conn) (opcode : UInt8) : Tame 1 (identifySender conn opcode) := by
  have hlog : ∀ {α : Type} (a : α), Tame 1 (log.bind fun _ => .ret a) :=
    fun a => .bind (tame_log (by decide)) fun _ => .ret a
  apply Tame.load_bind
  intro w
  split
  · exact .ret _
  · refine .bind tame_steadyNow fun _ => .bind (tame_modifyEntry _ _) fun _ => ?_
    split
    · exact .bind (tame_log (by decide)) fun _ => hlog _
    · split
      · exact .bind (tame_log (by decide)) fun _ => hlog _
      · exact hlog _

theorem tame_disconnect (conn : Conn) : Tame 1 (disconnect conn) := by
  refine .bind (.emit rfl) fun _ => .load_bind fun w => ?_
  split
  · exact .ret _
  · refine .bind (.update fun _ => rfl) fun _ => .bind (tame_modifyEntry _ _) fun _ => ?_
    exact .bind (tame_log (by decide)) fun _ => .ret _

theorem tame_markInactive (now : TimePoint) (es : List (Sigma fun _ : Bytes => ConnectionData)) :
    Tame 1 (markInactive now es) := by
  induction es with
  | nil => exact .ret _
  | cons e es ih =>
    unfold markInactive
    split
    · refine .bind (tame_modifyEntry _ _) fun _ => .bind (tame_log (by decide)) fun _ => ?_
      refine .bind (.withLock (m := .inactivityMutex) (by decide) (.update fun _ => rfl)) fun _ => ?_
      exact .bind ih fun _ => .ret _
    · exact ih

theorem tame_cleanupPass : Tame 0 cleanupPass := by
  refine .critical (.bind tame_steadyNow fun now => .load_bind fun w => ?_)
  refine .forEach _ fun e => .ite ?_ (.ret _)
  exact .bind (tame_log (by decide)) fun _ => .update fun _ => rfl

theorem tame_sendUserList (conn : Conn) : Tame 0 (sendUserList conn) := by
  refine .critical (.load_bind fun w => ?_)
  exact .bind (tame_log (by decide)) fun _ => tame_log_sendBinary (by decide) rfl

theorem tame_answerUserInfo (conn : Conn) (requestedName : Bytes) :
    Tame 0 (answerUserInfo conn requestedName) := by
  refine .critical (.load_bind fun w => ?_)
  split
  · exact tame_sendError (by decide) _ _
  · exact tame_log_sendBinary (by decide) rfl

theorem tame_selectHistory (sender target : Bytes) : Tame 0 (selectHistory sender target) := by
  unfold selectHistory
  split
  · exact .critical (.load_bind fun _ => .ret _)
  · exact .load_bind fun _ => .ret _

end Quiet

/-! ## The notifications -/

theorem locks_log : LocksFrom Mutex.rank 1 log := (tame_log (by decide)).locks

theorem locks_send (conn : Conn) (payload : Bytes) :
    LocksFrom Mutex.rank 1 (sendBinary conn payload) := .update _

theorem locks_sendAll (payload : Bytes) (es : List (Sigma fun _ : Bytes => ConnectionData)) :
    LocksFrom Mutex.rank 1 (forEach es fun e => match e with
      | ⟨_, connData⟩ => match connData.conn with
        | some conn => do
          log
          sendBinary conn payload
        | none => pure () : Prog Unit) := by
  apply LocksFrom.forEach
  intro e
  cases h : e.2.conn with
  | none =>
    simp only [h]
    exact .ret _
  | some conn =>
    simp only [h]
    exact .bind locks_log fun _ => locks_send _ _

theorem tame_sendJoined (username : Bytes) (st : UserStatus) : Tame 0 (sendJoined username st) where
  locks := by
    refine .withLock le_rfl (.bind locks_log fun _ => .load_bind fun w => .forEach _ fun e => ?_)
    refine .bind locks_log fun _ => ?_
    split
    · split
      · exact .bind locks_log fun _ => locks_send _ _
      · exact .ret _
    · exact .ret _
  speaks := .notification (section_sendJoined _ _) (.joined (.refl _))

theorem tame_notifyUserStatusChange (username : Bytes) (st : UserStatus) :
    Tame 0 (notifyUserStatusChange username st) where
  locks := .withLock le_rfl (.bind locks_log fun _ => .load_bind fun _ => locks_sendAll _ _)
  speaks := .notification (section_notifyUserStatusChange _ _) (.statusChange (.refl _))

theorem locks_sendToUser (username payload : Bytes) :
    LocksFrom Mutex.rank 1 (sendToUser username payload) := by
  apply LocksFrom.load_bind
  intro w
  split
  · split
    · exact .bind locks_log fun _ => locks_send _ _
    · exact .ret _
  · exact .ret _

theorem tame_sendNewMessage (sender payload : Bytes) (isPrivate : Bool) (recipient : Bytes) :
    Tame 0 (sendNewMessage sender payload isPrivate recipient) where
  locks := by
    unfold sendNewMessage
    split
    · exact .withLock le_rfl (.bind (locks_sendToUser _ _) fun _ => locks_sendToUser _ _)
    · exact .withLock le_rfl (.load_bind fun _ => locks_sendAll _ _)
  speaks := .notification (section_sendNewMessage _ _ _ _) (.newMessage (.refl _))

theorem tame_notifyUserJoined (username : Bytes) (st : UserStatus) :
    Tame 0 (notifyUserJoined username st) := by
  apply Tame.load_bind
  intro w
  exact .ite (.ret _) (.bind (tame_log (by decide)) fun _ => tame_sendJoined _ _)

theorem tame_notifyNewMessage (sender msg : Bytes) (isPrivate : Bool) (recipient : Bytes) :
    Tame 0 (notifyNewMessage sender msg isPrivate recipient) := by
  refine .async (.bind (tame_log (by decide)) fun _ => ?_)
  exact .bind (tame_sendNewMessage _ _ _ _) fun _ => tame_log (by decide)

/-! ## The calls -/

theorem tame_updateStatus (username : Bytes) (status : UserStatus) (notify : Bool) :
    Tame 0 (updateStatus username status notify) :=
  .bind (.critical (tame_applyStatus _ _ _)) fun _ =>
    .ite (tame_notifyUserStatusChange _ _) (.ret _)

theorem tame_changeStatus (conn : Conn) (sender username : Bytes) (rawStatus : UInt8) :
    Tame 0 (changeStatus conn sender username rawStatus) := by
  refine .ite (.bind (tame_log (by decide)) fun _ => tame_sendError (by decide) _ _) ?_
  refine .bind (tame_log (by decide)) fun _ => ?_
  refine .bind (.critical (.load_bind fun _ => .ret _)) fun _ => ?_
  split
  · exact tame_sendError (by decide) _ _
  · exact .bind (tame_log (by decide)) fun _ => tame_updateStatus _ _ _

theorem tame_sendBroadcast (sender msg : Bytes) : Tame 0 (sendBroadcast sender msg) :=
  .bind (.critical (.bind (.update fun _ => rfl) fun _ => .emit rfl)) fun _ =>
    tame_notifyNewMessage _ _ _ _

theorem tame_sendPrivateMessage (sender recipient msg : Bytes) :
    Tame 0 (sendPrivateMessage sender recipient msg) :=
  .bind (.critical (tame_storePrivate _ _ _)) fun _ => .ite (tame_notifyNewMessage _ _ _ _) (.ret _)

theorem tame_sendMessage (conn : Conn) (sender destino mensaje : Bytes) :
    Tame 0 (sendMessage conn sender destino mensaje) := by
  have hlog : Tame 0 log := tame_log (by decide)
  have hsend : ∀ m, Tame 0 (if destino = generalChat then sendBroadcast sender m
      else sendPrivateMessage sender destino m) :=
    fun m => .ite (tame_sendBroadcast _ _) (tame_sendPrivateMessage _ _ _)
  refine .bind hlog fun _ => .ite (tame_sendError (by decide) _ _) ?_
  exact .ite (.bind hlog fun _ => hsend _) (hsend _)

theorem tame_serve (conn : Conn) (sender data : Bytes) : Tame 0 (serve conn sender data) := by
  unfold serve
  split
  · exact tame_log (by decide)
  · rename_i r _
    cases r with
    | listUsers => exact .bind (tame_log (by decide)) fun _ => tame_sendUserList conn
    | userInfo requestedName => exact tame_answerUserInfo conn requestedName
    | changeStatus username rawStatus => exact tame_changeStatus conn sender username rawStatus
    | sendMessage destino mensaje => exact tame_sendMessage conn sender destino mensaje
    | history target =>
      refine .bind (tame_selectHistory _ _) fun _ => ?_
      exact tame_log_sendBinary (by decide) rfl
    | unknown => exact tame_log (by decide)

theorem tame_onMessage (conn : Conn) (data : Bytes) (isBinary : Bool) :
    Tame 0 (onMessage conn data isBinary) := by
  have hlog : Tame 0 log := tame_log (by decide)
  cases data with
  | nil => cases isBinary <;> exact .bind hlog fun _ => hlog
  | cons b rest =>
    cases isBinary with
    | false => exact .bind hlog fun _ => hlog
    | true =>
      rw [onMessage_binary]
      refine .bind hlog fun _ => .bind (.critical (tame_identifySender _ _)) fun r => ?_
      exact .bind (.ite (tame_updateStatus _ _ _) (.ret _)) fun _ => .bind hlog fun _ => tame_serve _ _ _

theorem tame_onOpen (conn : Conn) (username : Bytes) : Tame 0 (onOpen conn username) := by
  have hlog : Tame 0 log := tame_log (by decide)
  apply Tame.load_bind
  intro w
  refine .ite (.bind hlog fun _ => .bind (.emit rfl) fun _ => .emit rfl) ?_
  refine .bind (.critical (tame_admitUser _ _ _)) fun r => ?_
  split
  · exact .ret _
  · refine .bind ?_ fun _ => .bind ?_ fun _ => tame_notifyUserJoined _ _
    · refine .ite hlog (.bind hlog fun _ => .bind hlog fun _ => ?_)
      exact .critical (.load_bind fun _ => .forEach _ fun _ => tame_log (by decide))
    · exact .load_bind fun _ => .ite (.ret _) (.update fun _ => rfl)

theorem tame_onClose (conn : Conn) : Tame 0 (onClose conn) :=
  .bind (.critical (tame_disconnect conn)) fun _ =>
    .ite (tame_notifyUserStatusChange _ _) (.ret _)

theorem tame_monitorPass : Tame 0 monitorPass := by
  refine .bind (.critical (.bind tame_steadyNow fun _ => .load_bind fun _ =>
    tame_markInactive _ _)) fun users => ?_
  refine .bind (.forEach _ fun _ => tame_notifyUserStatusChange _ _) fun _ => ?_
  exact .ite (.withLock (by decide) (.update fun _ => rfl)) (.ret _)

theorem tame_call (c : Call) : Tame 0 c.code := by
  cases c with
  | onOpen conn username => exact tame_onOpen conn username
  | onMessage conn data isBinary => exact tame_onMessage conn data isBinary
  | onClose conn => exact tame_onClose conn
  | monitorPass k => exact tame_monitorPass
  | cleanupPass k => exact tame_cleanupPass

end ChatServer
