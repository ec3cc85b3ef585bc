import ChatServer.Lib.Interleave
import ChatServer.WebsocketHandler

/-!
# Where the handlers hold `connections_mutex`

The body of each critical section takes no second `connections_mutex`, and each function
that other code goes on after gives back what it takes.
-/

open Program

namespace ChatServer

/-! ## Bodies of critical sections -/

@[simp] theorem avoids_emit (e : Event) : Avoids .connectionsMutex (emit e) := avoids_update _

@[simp] theorem avoids_sendBinary (conn : Conn) (payload : Bytes) :
    Avoids .connectionsMutex (sendBinary conn payload) := avoids_emit _

@[simp] theorem avoids_log : Avoids .connectionsMutex log :=
  avoids_withLock (by decide) (avoids_pure _)

@[simp] theorem avoids_steadyNow : Avoids .connectionsMutex steadyNow :=
  fun _ _ => trivial

@[simp] theorem avoids_modifyEntry (username : Bytes) (f : ConnectionData → ConnectionData) :
    Avoids .connectionsMutex (modifyEntry username f) := avoids_update _

@[simp] theorem avoids_sendError (conn : Conn) (errorCode : UInt8) :
    Avoids .connectionsMutex (sendError conn errorCode) :=
  avoids_bind (avoids_sendBinary _ _) fun _ => avoids_log

theorem avoids_log_sendBinary (conn : Conn) (payload : Bytes) :
    Avoids .connectionsMutex (log.bind fun _ => sendBinary conn payload) :=
  avoids_bind avoids_log fun _ => avoids_sendBinary _ _

theorem avoids_sendToUser (username payload : Bytes) :
    Avoids .connectionsMutex (sendToUser username payload) := by
  apply avoids_bind avoids_load
  intro w
  split
  · split
    · exact avoids_log_sendBinary _ _
    · trivial
  · trivial

theorem avoids_applyStatus (username : Bytes) (status : UserStatus) (notify : Bool) :
    Avoids .connectionsMutex (applyStatus username status notify) := by
  apply avoids_bind avoids_load
  intro w
  split
  · refine avoids_bind avoids_steadyNow fun now => avoids_bind (avoids_modifyEntry _ _) fun _ => ?_
    exact avoids_bind avoids_log fun _ => trivial
  · trivial

theorem avoids_storePrivate (sender recipient msg : Bytes) :
    Avoids .connectionsMutex (storePrivate sender recipient msg) := by
  apply avoids_bind avoids_load
  intro w
  split
  · exact avoids_bind (avoids_update _) fun _ => avoids_bind (avoids_emit _) fun _ => trivial
  · split
    · split
      · exact avoids_bind (avoids_sendError _ _) fun _ => trivial
      · trivial
    · trivial

theorem avoids_admitUser (conn : Conn) (username clientIp : Bytes) :
    Avoids .connectionsMutex (admitUser conn username clientIp) := by
  apply avoids_bind avoids_load
  intro w
  split
  · split
    · apply avoids_bind avoids_log
      intro _
      exact avoids_bind (avoids_emit _) fun _ => avoids_bind (avoids_emit _) fun _ => trivial
    · apply avoids_bind avoids_steadyNow
      intro _
      exact avoids_bind (avoids_modifyEntry _ _) fun _ => avoids_bind (avoids_emit _) fun _ => trivial
  · apply avoids_bind (p := generateUuid) (fun _ _ => trivial)
    intro _
    refine avoids_bind avoids_load fun _ => avoids_bind avoids_steadyNow fun _ => ?_
    exact avoids_bind (avoids_update _) fun _ => avoids_bind (avoids_emit _) fun _ => trivial

theorem avoids_identifySender (conn : Conn) (opcode : UInt8) :
    Avoids .connectionsMutex (identifySender conn opcode) := by
  apply avoids_bind avoids_load
  intro w
  split
  · trivial
  · refine avoids_bind avoids_steadyNow fun _ => avoids_bind (avoids_modifyEntry _ _) fun _ => ?_
    have hend : ∀ r : Bytes × Bytes, Avoids .connectionsMutex (log.bind fun _ => .ret r : Prog _) :=
      fun r => avoids_bind avoids_log fun _ => trivial
    split
    · exact avoids_bind avoids_log fun _ => hend _
    · split
      · exact avoids_bind avoids_log fun _ => hend _
      · exact hend _

theorem avoids_disconnect (conn : Conn) : Avoids .connectionsMutex (disconnect conn) := by
  refine avoids_bind (avoids_emit _) fun _ => avoids_bind avoids_load fun w => ?_
  split
  · trivial
  · refine avoids_bind (avoids_update _) fun _ => avoids_bind (avoids_modifyEntry _ _) fun _ => ?_
    exact avoids_bind avoids_log fun _ => trivial

theorem avoids_markInactive (now : TimePoint)
    (es : List (Sigma fun _ : Bytes => ConnectionData)) :
    Avoids .connectionsMutex (markInactive now es) := by
  induction es with
  | nil => trivial
  | cons e es ih =>
    unfold markInactive
    split
    · refine avoids_bind (avoids_modifyEntry _ _) fun _ => avoids_bind avoids_log fun _ => ?_
      apply avoids_bind (avoids_withLock (by decide) (avoids_update _))
      intro _
      exact avoids_bind ih fun _ => trivial
    · exact ih

theorem avoids_findIdle : Avoids .connectionsMutex findIdle :=
  avoids_bind avoids_steadyNow fun _ => avoids_bind avoids_load fun _ => avoids_markInactive _ _

/-! ## Functions that are one critical section -/

theorem balanced_log : Balanced .connectionsMutex false log := avoids_log.balanced

theorem section_sendJoined (username : Bytes) (st : UserStatus) :
    IsSection .connectionsMutex (sendJoined username st) := by
  refine .withLock (avoids_bind avoids_log fun _ => avoids_bind avoids_load fun w => ?_)
  refine avoids_forEach _ fun e => avoids_bind avoids_log fun _ => ?_
  split
  · split
    · exact avoids_log_sendBinary _ _
    · trivial
  · trivial

theorem avoids_sendAll (payload : Bytes) (es : List (Sigma fun _ : Bytes => ConnectionData)) :
    Avoids .connectionsMutex (forEach es fun e => match e with
      | ⟨_, connData⟩ => match connData.conn with
        | some conn => do
          log
          sendBinary conn payload
        | none => pure () : Prog Unit) := by
  apply avoids_forEach _
  intro e
  cases h : e.2.conn with
  | none => simp [h]
  | some conn => simpa [h] using avoids_log_sendBinary conn payload

theorem section_notifyUserStatusChange (username : Bytes) (st : UserStatus) :
    IsSection .connectionsMutex (notifyUserStatusChange username st) :=
  .withLock (avoids_bind avoids_log fun _ => avoids_bind avoids_load fun _ => avoids_sendAll _ _)

theorem section_sendNewMessage (sender payload : Bytes) (isPrivate : Bool) (recipient : Bytes) :
    IsSection .connectionsMutex (sendNewMessage sender payload isPrivate recipient) := by
  unfold sendNewMessage
  split
  · exact .withLock (avoids_bind (avoids_sendToUser _ _) fun _ => avoids_sendToUser _ _)
  · exact .withLock (avoids_bind avoids_load fun _ => avoids_sendAll _ _)

theorem section_storeGeneral (sender msg : Bytes) :
    IsSection .connectionsMutex (withLock .connectionsMutex (storeGeneral sender msg)) :=
  .withLock (avoids_bind (avoids_update _) fun _ => avoids_emit _)

theorem section_sendUserList (conn : Conn) : IsSection .connectionsMutex (sendUserList conn) := by
  refine .withLock (avoids_bind avoids_load fun w => ?_)
  exact avoids_bind avoids_log fun _ => avoids_log_sendBinary _ _

theorem section_answerUserInfo (conn : Conn) (requestedName : Bytes) :
    IsSection .connectionsMutex (answerUserInfo conn requestedName) := by
  refine .withLock (avoids_bind avoids_load fun w => ?_)
  split
  · exact avoids_sendError _ _
  · exact avoids_log_sendBinary _ _

theorem section_cleanupPass : IsSection .connectionsMutex cleanupPass := by
  refine .withLock (avoids_bind avoids_steadyNow fun now => avoids_bind avoids_load fun w => ?_)
  refine avoids_forEach _ fun e => avoids_ite ?_ trivial
  exact avoids_bind avoids_log fun _ => avoids_update _

/-! ## Functions with several critical sections -/

theorem balanced_updateStatus (username : Bytes) (status : UserStatus) (notify : Bool) :
    Balanced .connectionsMutex false (updateStatus username status notify) := by
  apply balanced_bind (balanced_withLock (avoids_applyStatus _ _ _))
  intro _
  split
  · exact (section_notifyUserStatusChange _ _).balanced
  · rfl

theorem section_logEntries : IsSection .connectionsMutex (withLock .connectionsMutex
    (load.bind fun w => forEach w.connections.entries fun _ => log)) :=
  .withLock (avoids_bind avoids_load fun _ => avoids_forEach _ fun _ => avoids_log)

theorem balanced_logOpened (isReconnection : Bool) :
    Balanced .connectionsMutex false (logOpened isReconnection) := by
  unfold logOpened
  split
  · exact balanced_log
  · refine balanced_bind balanced_log fun _ => balanced_bind balanced_log fun _ => ?_
    exact section_logEntries.balanced

theorem balanced_startMonitor : Balanced .connectionsMutex false startMonitor := by
  refine (avoids_bind avoids_load fun w => ?_).balanced
  split
  · trivial
  · exact avoids_update _

theorem balanced_selectHistory (sender target : Bytes) :
    Balanced .connectionsMutex false (selectHistory sender target) := by
  unfold selectHistory
  split
  · exact balanced_withLock (avoids_bind avoids_load fun _ => trivial)
  · exact balanced_bind avoids_load.balanced fun _ => rfl

end ChatServer
