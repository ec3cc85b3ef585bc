import ChatServer.Deeds

/-!
# Who gets what

Every frame with a message in it, and every history, goes to a connection for which it is meant,
whatever the threads do between the acceptance of the message and its delivery.
-/

open Program

namespace ChatServer

/-! ## What is meant for whom -/

/-- The handlers of `conn` run under the name `s`. -/
def RunsUnder (trace : List Event) (conn : Conn) (s : Bytes) : Prop :=
  session trace conn = .accepted s ∨ s = desconocido ∧ ∀ n, session trace conn ≠ .accepted n

/-- What `conn` may be sent once `trace` has happened. -/
inductive MeantFor (trace : List Event) (conn : Conn) : Bytes → Prop
  | general {s msg : Bytes} (h : .storedGeneral s msg ∈ trace) :
      MeantFor trace conn (messagePayload s msg)
  | confidential {s r msg : Bytes} (h : .storedPrivate s r msg ∈ trace)
      (hconn : session trace conn = .accepted s ∨ session trace conn = .accepted r) :
      MeantFor trace conn (messagePayload s msg)
  | history {s target : Bytes} {ms : List Message} (hconn : RunsUnder trace conn s)
      (hms : ms <+: trace.filterMap (Event.said (chatOf s target))) :
      MeantFor trace conn (historyPayload ms)

/-- The sender, the target and the text of a message that has been accepted. -/
def Event.accepts : Event → Option (Bytes × Bytes × Bytes)
  | .storedGeneral s msg => some (s, generalChat, msg)
  | .storedPrivate s r msg => some (s, r, msg)
  | _ => none

/-- A message has been accepted, or the frame has the code of a message or of a history. -/
def Event.hasMessages : Event → Bool
  | .sendBinary _ payload => payload.head? = some 55 ∨ payload.head? = some 56
  | e => e.accepts.isSome

/-- The binary that a call of `on_message` brings. -/
def Call.heard : Call → Option Bytes
  | .onMessage _ data true => some data
  | _ => none

/-- `t` runs under the name of the sender, and serves a frame that has the message in it. -/
def Wrote (t : Thread) (heard : Option Bytes) (trace : List Event) (e : Event) : Prop :=
  ∃ conn s data destino mensaje, t = .handlers conn ∧ RunsUnder trace conn s ∧ heard = some data ∧
    readRequest data = .ok (.sendMessage destino mensaje) ∧
      e.accepts = some (s, destino, mensaje.take maxMessageLength)

/-- What a step of `t` adds to the trace: nothing with a message in it, what is meant so, or the
message that the thread has heard. -/
def Discreet (t : Thread) (heard : Option Bytes) (trace trace' : List Event) : Prop :=
  ∃ es, trace' = trace ++ es ∧ ((∀ e ∈ es, e.hasMessages = false) ∨
    (∀ e ∈ es, ∃ conn payload, e = .sendBinary conn payload ∧ MeantFor trace conn payload) ∨
    ∃ e, es = [e] ∧ Wrote t heard trace e)

/-- A frame that has no message in it. -/
def IsPlain : Event → Prop
  | .sendBinary _ payload => payload.head? ≠ some 55 ∧ payload.head? ≠ some 56
  | _ => False

section Discreet

variable {t : Thread} {heard : Option Bytes} {trace es : List Event}

theorem discreet_same : Discreet t heard trace trace := ⟨[], (List.append_nil _).symm, .inl nofun⟩

theorem IsPlain.hasMessages {e : Event} (h : IsPlain e) : e.hasMessages = false := by
  cases e with
  | sendBinary conn payload => simpa [IsPlain, Event.hasMessages] using h
  | _ => cases h

theorem discreet_plain (h : ∀ e ∈ es, IsPlain e) : Discreet t heard trace (trace ++ es) :=
  ⟨es, rfl, .inl fun e he => (h e he).hasMessages⟩

theorem IsPlain.isBinary {e : Event} (h : IsPlain e) : ∃ conn payload, e = .sendBinary conn payload := by
  cases e with
  | sendBinary conn payload => exact ⟨conn, payload, rfl⟩
  | _ => cases h

/-- Frames leave the sessions as they are. -/
theorem session_binaries (h : ∀ e ∈ es, ∃ conn payload, e = .sendBinary conn payload) (conn : Conn) :
    session (trace ++ es) conn = session trace conn := by
  rw [World.session_concat]
  induction es with
  | nil => rfl
  | cons e es ih =>
    obtain ⟨⟨c, payload, rfl⟩, hes⟩ := List.forall_mem_cons.mp h
    exact ih hes

theorem RunsUnder.mono {trace' : List Event} {conn : Conn} {s : Bytes} (h : RunsUnder trace conn s)
    (hsession : session trace' conn = session trace conn) : RunsUnder trace' conn s := by
  unfold RunsUnder
  rwa [hsession]

theorem MeantFor.mono {trace' : List Event} {conn : Conn} {payload : Bytes}
    (h : MeantFor trace conn payload) (hsession : session trace' conn = session trace conn)
    (hle : trace <+: trace') : MeantFor trace' conn payload := by
  cases h with
  | general hmem => exact .general (hle.subset hmem)
  | confidential hmem hconn => exact .confidential (hle.subset hmem) (by rwa [hsession])
  | history hconn hms => exact .history (hconn.mono hsession) (hms.trans (hle.filterMap _))

end Discreet

/-! ## What a thread has in hand -/

inductive Errand
  | rest
  /-- `on_message` has found the sender. -/
  | acting (sender : Bytes)
  /-- The message has been accepted, for all or for `recipient`. -/
  | spread (recipient : Option Bytes) (sender msg : Bytes)
  /-- The history has been read. -/
  | answer (sender target : Bytes) (messages : List Message)

/-- What the thread knows of its errand. -/
def Holds (t : Thread) (trace : List Event) : Errand → Prop
  | .rest => True
  | .acting sender => ∃ conn, t = .handlers conn ∧ RunsUnder trace conn sender
  | .spread none sender msg => .storedGeneral sender msg ∈ trace
  | .spread (some recipient) sender msg => .storedPrivate sender recipient msg ∈ trace
  | .answer sender target messages => ∃ conn, t = .handlers conn ∧ RunsUnder trace conn sender ∧
      messages <+: trace.filterMap (Event.said (chatOf sender target))

theorem Holds.mono {t : Thread} {trace trace' : List Event} {i : Errand} (h : Holds t trace i)
    (hsession : ∀ conn, t = .handlers conn → session trace' conn = session trace conn)
    (hle : trace <+: trace') : Holds t trace' i := by
  cases i with
  | rest => trivial
  | acting sender =>
    obtain ⟨conn, ht, hconn⟩ := h
    exact ⟨conn, ht, hconn.mono (hsession conn ht)⟩
  | spread recipient sender msg => cases recipient <;> exact hle.subset h
  | answer sender target messages =>
    obtain ⟨conn, ht, hconn, hms⟩ := h
    exact ⟨conn, ht, hconn.mono (hsession conn ht), hms.trans (hle.filterMap _)⟩

/-- The chats are what the trace says. -/
def Recorded (w : World) : Prop := ∀ chat, w.entries chat = w.trace.filterMap (Event.said chat)

/-- The script of a thread that gives messages to nobody else, and makes none up. -/
def discretion (t : Thread) (heard : Option Bytes) : Script Mutex.connectionsMutex World Errand where
  know i w := Sound w ∧ Recorded w ∧ Holds t w.trace i
  step i _ w j w' := Discreet t heard w.trace w'.trace ∧ (Holds t w.trace i → Holds t w'.trace j)
  step_bind _ _ h := h
  idle _ _ _ _ := ⟨discreet_same, id⟩

abbrev Minds (t : Thread) (heard : Option Bytes) {α : Type} (E : α → Errand → Prop) (p : Prog α)
    (i : Errand) : Prop :=
  Follows (discretion t heard) E p i

/-- The code ends with the errand with which it begins. -/
abbrev MindsOwn (t : Thread) (heard : Option Bytes) {α : Type} (p : Prog α) (i : Errand) : Prop :=
  Minds t heard (fun _ j => j = i) p i

/-! ## Code without messages -/

section Plain

variable {t : Thread} {heard : Option Bytes} {i : Errand} {α β : Type} {E : β → Errand → Prop}

theorem minds_log_bind {f : Unit → Prog β} (h : Minds t heard E (f ()) i) : Minds t heard E (log.bind f) i :=
  .skip nofun (fun _ => rfl) rfl (.skip nofun (fun _ => rfl) rfl h)

theorem minds_log : MindsOwn t heard log i :=
  .skip nofun (fun _ => rfl) rfl (.skip nofun (fun _ => rfl) rfl (.ret rfl))

theorem minds_plain {w : World} {es : List Event} (hes : ∀ e ∈ es, IsPlain e) {w' : World}
    (hw' : w'.trace = w.trace ++ es) :
    Discreet t heard w.trace w'.trace ∧ (Holds t w.trace i → Holds t w'.trace i) := by
  rw [hw']
  refine ⟨discreet_plain hes, fun h => h.mono (fun conn _ => ?_) (List.prefix_append _ _)⟩
  exact session_binaries (fun e he => (hes e he).isBinary) conn

/-- A critical section that sends no messages. -/
theorem minds_section {p : Prog α} {f : α → Prog β} (hp : IsSection .connectionsMutex p)
    (h : ∀ w, ∃ es, (∀ e ∈ es, IsPlain e) ∧ (p.run w).2.trace = w.trace ++ es)
    (hf : ∀ a, Minds t heard E (f a) i) : Minds t heard E (p.bind f) i := by
  refine .section_bind hp fun w _ => ⟨i, ?_, hf _⟩
  obtain ⟨es, hes, htrace⟩ := h w
  exact minds_plain hes htrace

theorem minds_of_section {p : Prog α} (hp : IsSection .connectionsMutex p)
    (h : ∀ w, ∃ es, (∀ e ∈ es, IsPlain e) ∧ (p.run w).2.trace = w.trace ++ es) : MindsOwn t heard p i := by
  refine .of_section hp fun w _ => ⟨i, ?_, rfl⟩
  obtain ⟨es, hes, htrace⟩ := h w
  exact minds_plain hes htrace

theorem minds_read {p : Prog α} {f : α → Prog β} (hp : IsSection .connectionsMutex p)
    (h : ∀ w, (p.run w).2.trace = w.trace) (hf : ∀ a, Minds t heard E (f a) i) :
    Minds t heard E (p.bind f) i :=
  minds_section hp (fun w => ⟨[], nofun, by rw [h, List.append_nil]⟩) hf

theorem minds_emit {e : Event} {f : Unit → Prog β} (he : IsPlain e) (hf : Minds t heard E (f ()) i) :
    Minds t heard E ((emit e).bind f) i := by
  have hplain : ∀ e' ∈ [e], IsPlain e' := by simpa using he
  exact .access fun w _ => ⟨i, minds_plain hplain rfl, hf⟩

/-- One access that says nothing. -/
theorem minds_access {f : World → World} {k : World → Prog β} (hf : ∀ w, (f w).trace = w.trace)
    (hk : ∀ w, Minds t heard E (k w) i) : Minds t heard E (.access f k) i := by
  have hplain : ∀ e ∈ ([] : List Event), IsPlain e := by simp
  exact .access fun w _ => ⟨i, minds_plain hplain (by rw [hf, List.append_nil]), hk w⟩

theorem minds_sendError (conn : Conn) (code : UInt8) : MindsOwn t heard (sendError conn code) i :=
  minds_emit (by simp [IsPlain]) minds_log

theorem plain_sends {conns : List Conn} {payload : Bytes} (h : IsPlain (.sendBinary 0 payload)) :
    ∀ e ∈ conns.map (Event.sendBinary · payload), IsPlain e := by
  intro e he
  obtain ⟨conn, -, rfl⟩ := List.mem_map.mp he
  exact h

theorem minds_notifyUserStatusChange (username : Bytes) (st : UserStatus) :
    MindsOwn t heard (notifyUserStatusChange username st) i := by
  apply minds_of_section (section_notifyUserStatusChange _ _)
  intro w
  rw [notifyUserStatusChange_run]
  exact ⟨_, plain_sends (by simp [IsPlain, statusPayload]), rfl⟩

theorem minds_notifyUserJoined (username : Bytes) (st : UserStatus) :
    MindsOwn t heard (notifyUserJoined username st) i := by
  apply minds_access fun _ => rfl
  intro w
  change MindsOwn t heard (if w.testingMode then pure () else log.bind fun _ => sendJoined username st) i
  split
  · exact .ret rfl
  · apply minds_log_bind
    apply minds_of_section (section_sendJoined _ _)
    intro v
    rw [sendJoined_run]
    exact ⟨_, plain_sends (by simp [IsPlain, joinedPayload]), rfl⟩

theorem minds_updateStatus (username : Bytes) (status : UserStatus) (notify : Bool) :
    MindsOwn t heard (updateStatus username status notify) i := by
  refine minds_read (.withLock (avoids_applyStatus _ _ _)) (fun w => ?_) fun b => ?_
  · rw [run_withLock, applyStatus_run]
    cases w.connections.lookup username <;> rfl
  · split
    · exact minds_notifyUserStatusChange _ _
    · exact .ret rfl

end Plain

/-! ## Messages -/

section Messages

variable {t : Thread} {heard : Option Bytes}

/-- Whoever gets the message, it is meant for them. -/
theorem minds_notifyNewMessage {recipient : Option Bytes} {sender msg : Bytes} {isPrivate : Bool}
    {other : Bytes} (hother : recipient = if isPrivate then some other else none) :
    Minds t heard (fun _ _ => True) (notifyNewMessage sender msg isPrivate other)
      (.spread recipient sender msg) := by
  have hsection := section_sendNewMessage sender (messagePayload sender msg) isPrivate other
  refine .async ?_ (minds_log_bind ?_)
  · exact balanced_bind balanced_log fun _ => balanced_bind hsection.balanced fun _ => balanced_log
  · refine .section_bind hsection fun w hw => ⟨.rest, ?_, minds_log.mono fun _ _ _ => trivial⟩
    obtain ⟨hsound, -, hstored⟩ := hw
    rw [sendNewMessage_run]
    refine ⟨⟨_, rfl, .inr (.inl fun e he => ?_)⟩, fun _ => trivial⟩
    obtain ⟨conn, hconn, rfl⟩ := List.mem_map.mp he
    refine ⟨conn, _, rfl, ?_⟩
    subst hother
    cases isPrivate with
    | false => exact .general hstored
    | true =>
      refine .confidential hstored ?_
      simp only [World.recipients, if_true, List.mem_append, Option.mem_toList] at hconn
      exact hconn.imp (hsound.owned _ _).mp (hsound.owned _ _).mp

variable {sender data destino mensaje : Bytes}

theorem minds_sendBroadcast (hread : readRequest data = .ok (.sendMessage generalChat mensaje)) :
    Minds t (some data) (fun _ _ => True) (sendBroadcast sender (mensaje.take maxMessageLength))
      (.acting sender) := by
  refine .section_bind (section_storeGeneral _ _) fun w hw =>
    ⟨.spread none sender _, ?_, minds_notifyNewMessage rfl⟩
  obtain ⟨-, -, conn, ht, hconn⟩ := hw
  refine ⟨⟨_, rfl, .inr (.inr ⟨_, rfl, ?_⟩)⟩, fun _ => ?_⟩
  · exact ⟨conn, sender, data, _, mensaje, ht, hconn, rfl, hread, rfl⟩
  · exact List.mem_append_right _ (List.mem_singleton_self _)

theorem minds_sendPrivateMessage (hread : readRequest data = .ok (.sendMessage destino mensaje)) :
    Minds t (some data) (fun _ _ => True)
      (sendPrivateMessage sender destino (mensaje.take maxMessageLength)) (.acting sender) := by
  refine .section_bind (.withLock (avoids_storePrivate _ _ _)) fun w hw => ?_
  rw [run_withLock, storePrivate_run]
  split
  · refine ⟨.spread (some destino) sender _, ?_, minds_notifyNewMessage rfl⟩
    obtain ⟨-, -, conn, ht, hconn⟩ := hw
    refine ⟨⟨_, rfl, .inr (.inr ⟨_, rfl, ?_⟩)⟩, fun _ => ?_⟩
    · exact ⟨conn, sender, data, destino, mensaje, ht, hconn, rfl, hread, rfl⟩
    · exact List.mem_append_right _ (List.mem_singleton_self _)
  · exact ⟨.acting sender, minds_plain (plain_sends (by simp [IsPlain])) rfl, .ret trivial⟩

theorem minds_sendMessage (conn : Conn) (hread : readRequest data = .ok (.sendMessage destino mensaje)) :
    Minds t (some data) (fun _ _ => True) (sendMessage conn sender destino mensaje) (.acting sender) := by
  have hsend : Minds t (some data) (fun _ _ => True)
      (if destino = generalChat then sendBroadcast sender (mensaje.take maxMessageLength)
        else sendPrivateMessage sender destino (mensaje.take maxMessageLength)) (.acting sender) := by
    split
    · rename_i hgeneral
      exact minds_sendBroadcast (hgeneral ▸ hread)
    · exact minds_sendPrivateMessage hread
  apply minds_log_bind
  by_cases hempty : mensaje = []
  · rw [if_pos hempty]
    exact (minds_sendError _ _).mono fun _ _ _ => trivial
  · rw [if_neg hempty]
    by_cases hlen : mensaje.length > maxMessageLength
    · rw [if_pos hlen]
      exact minds_log_bind hsend
    · rw [if_neg hlen]
      rwa [List.take_of_length_le (by omega)] at hsend

end Messages

/-! ## Requests -/

section Requests

variable {conn : Conn} {heard : Option Bytes}

theorem minds_selectHistory (sender target : Bytes) :
    Minds (.handlers conn) heard (fun ms j => j = .answer sender target ms) (selectHistory sender target)
      (.acting sender) := by
  have hread : ∀ w, (discretion (.handlers conn) heard).know (.acting sender) w →
      Holds (.handlers conn) w.trace (.answer sender target (w.entries (chatOf sender target))) := by
    rintro w ⟨-, hrecorded, c, hc, hconn⟩
    exact ⟨c, hc, hconn, hrecorded _ ▸ List.prefix_refl _⟩
  unfold selectHistory
  split
  · rename_i htarget
    refine .of_section (.withLock (avoids_bind avoids_load fun _ => trivial)) fun w hw => ?_
    refine ⟨.answer sender target (w.entries (chatOf sender target)), ?_, ?_⟩
    · exact ⟨discreet_same, fun _ => hread w hw⟩
    · rw [chatOf, if_pos htarget]
      rfl
  · rename_i htarget
    refine .access fun w hw => ⟨.answer sender target (w.entries (chatOf sender target)), ?_, ?_⟩
    · exact ⟨discreet_same, fun _ => hread w hw⟩
    · rw [chatOf, if_neg htarget]
      exact .ret rfl

theorem minds_answerHistory (sender target : Bytes) :
    Minds (.handlers conn) heard (fun _ _ => True) (answerHistory conn sender target) (.acting sender) := by
  refine .bind (balanced_selectHistory _ _) (minds_selectHistory sender target) ?_
  rintro ms j rfl
  refine minds_log_bind (.access fun w hw =>
    ⟨.rest, ⟨⟨_, rfl, .inr (.inl ?_)⟩, fun _ => trivial⟩, .ret trivial⟩)
  obtain ⟨-, -, c, hc, hconn, hms⟩ := hw
  intro e he
  obtain rfl := Thread.handlers.inj hc
  exact ⟨_, _, List.mem_singleton.mp he, .history hconn hms⟩

theorem minds_perform (sender : Bytes) {data : Bytes} {r : Request} (hread : readRequest data = .ok r) :
    Minds (.handlers conn) (some data) (fun _ _ => True) (perform conn sender r) (.acting sender) := by
  have hown : ∀ {p : Prog Unit}, MindsOwn (.handlers conn) (some data) p (.acting sender) →
      Minds (.handlers conn) (some data) (fun _ _ => True) p (.acting sender) :=
    fun h => h.mono fun _ _ _ => trivial
  cases r with
  | listUsers =>
    apply hown
    apply minds_log_bind
    apply minds_of_section (section_sendUserList conn)
    intro w
    rw [sendUserList_run]
    exact ⟨_, by simp [IsPlain, userListPayload], rfl⟩
  | userInfo requestedName =>
    apply hown
    apply minds_of_section (section_answerUserInfo _ _)
    intro w
    rw [answerUserInfo_run]
    refine ⟨_, fun e he => ?_, rfl⟩
    rw [List.mem_singleton.mp he]
    cases w.connections.lookup requestedName <;> simp [IsPlain, userInfoPayload]
  | changeStatus username rawStatus =>
    apply hown
    change MindsOwn _ (some data) (changeStatus conn sender username rawStatus) _
    unfold changeStatus
    split
    · exact minds_log_bind (minds_sendError _ _)
    · refine minds_log_bind (minds_read (.withLock (avoids_bind avoids_load fun _ => trivial))
        (fun w => rfl) fun old => ?_)
      cases statusOfByte rawStatus with
      | none => exact minds_sendError _ _
      | some newStatus => exact minds_log_bind (minds_updateStatus _ _ _)
  | sendMessage destino mensaje => exact minds_sendMessage conn hread
  | history target => exact minds_answerHistory sender target
  | unknown => exact hown minds_log

/-! ## Calls -/

theorem minds_onMessage (data : Bytes) (isBinary : Bool) :
    Minds (.handlers conn) (Call.onMessage conn data isBinary).heard (fun _ _ => True)
      (onMessage conn data isBinary) .rest := by
  have hlog {heard : Option Bytes} {i : Errand} : Minds (.handlers conn) heard (fun _ _ => True) log i :=
    minds_log.mono fun _ _ _ => trivial
  cases data with
  | nil => cases isBinary <;> exact minds_log_bind hlog
  | cons b rest =>
    cases isBinary with
    | false => exact minds_log_bind hlog
    | true =>
      have hserve (sender : Bytes) : Minds (.handlers conn) (some (b :: rest)) (fun _ _ => True)
          (log.bind fun _ => serve conn sender (b :: rest)) (.acting sender) := by
        apply minds_log_bind
        unfold serve
        cases hread : readRequest (b :: rest) with
        | error e => exact hlog
        | ok r => exact minds_perform sender hread
      rw [onMessage_binary]
      refine minds_log_bind (.section_bind (.withLock (avoids_identifySender _ _)) fun w hw => ?_)
      obtain ⟨hsound, -, -⟩ := hw
      rw [run_withLock, identifySender_run]
      have hrest {sender : Bytes} (username : Bytes) :
          Minds (.handlers conn) (some (b :: rest)) (fun _ _ => True)
          ((if username ≠ [] then updateStatus username .activo true else .ret ()).bind fun _ =>
            log.bind fun _ => serve conn sender (b :: rest)) (.acting sender) := by
        split
        · refine .bind (balanced_updateStatus _ _ _) (minds_updateStatus _ _ _) ?_
          rintro - j rfl
          exact hserve sender
        · exact hserve sender
      cases hfind : w.findConn conn with
      | none =>
        refine ⟨.acting desconocido,
          ⟨discreet_same, fun _ => ⟨conn, rfl, .inr ⟨rfl, fun n hn => ?_⟩⟩⟩, hrest _⟩
        exact World.findConn_eq_none.mp hfind n ((hsound.owned n conn).mpr hn)
      | some e =>
        refine ⟨.acting e.1, ⟨discreet_same, fun _ => ⟨conn, rfl, .inl ?_⟩⟩, hrest _⟩
        exact (hsound.owned _ _).mp (World.findConn_eq_some hfind).2

/-- Code that has no errand. -/
theorem minds_rest {t : Thread} {heard : Option Bytes} {w w' : World} {es : List Event}
    (hes : ∀ e ∈ es, e.hasMessages = false)
    (hw' : w'.trace = w.trace ++ es) :
    Discreet t heard w.trace w'.trace ∧ (Holds t w.trace .rest → Holds t w'.trace .rest) :=
  ⟨⟨es, hw', .inl hes⟩, fun _ => trivial⟩

theorem minds_welcome {t : Thread} {heard : Option Bytes} (isReconnection : Bool) (username : Bytes)
    (st : UserStatus) :
    MindsOwn t heard ((logOpened isReconnection).bind fun _ =>
      startMonitor.bind fun _ => notifyUserJoined username st) .rest := by
  have hlogs : MindsOwn t heard (logOpened isReconnection) .rest := by
    unfold logOpened
    split
    · exact minds_log
    · refine minds_log_bind (minds_log_bind (minds_of_section section_logEntries fun w => ?_))
      rw [bind_eq, logEntries_run]
      exact ⟨[], nofun, (List.append_nil _).symm⟩
  have hstart : MindsOwn t heard startMonitor .rest := by
    refine minds_access (fun _ => rfl) fun w => ?_
    change MindsOwn t heard (if w.monitorStarted then pure () else update _) .rest
    split
    · exact .ret rfl
    · exact minds_access (fun _ => rfl) fun _ => .ret rfl
  refine .bind (balanced_logOpened _) hlogs ?_
  rintro - j rfl
  refine .bind balanced_startMonitor hstart ?_
  rintro - j rfl
  exact minds_notifyUserJoined _ _

theorem minds_onOpen (username : Bytes) :
    Minds (.handlers conn) heard (fun _ _ => True) (onOpen conn username) .rest := by
  refine minds_access (fun _ => rfl) fun w => ?_
  change Minds _ heard _ (if username = [] ∨ username.length > 20 ∨ username = generalChat then _ else _) _
  have hrefuse {e : Event} {p : Prog Unit} (he : e.hasMessages = false)
      (hp : Minds (.handlers conn) heard (fun _ _ => True) p .rest) :
      Minds (.handlers conn) heard (fun _ _ => True) ((emit e).bind fun _ => p) .rest := by
    have hnone : ∀ e' ∈ [e], e'.hasMessages = false := by simpa using he
    exact .access fun v _ => ⟨.rest, minds_rest hnone rfl, hp⟩
  split
  · exact minds_log_bind (hrefuse rfl (hrefuse rfl (.ret trivial)))
  · refine .section_bind (.withLock (avoids_admitUser _ _ _)) fun v _ => ?_
    have hwelcome (isReconnection : Bool) (st : UserStatus) :
        Minds (.handlers conn) heard (fun _ _ => True) ((logOpened isReconnection).bind fun _ =>
          startMonitor.bind fun _ => notifyUserJoined username st) .rest :=
      (minds_welcome isReconnection username st).mono fun _ _ _ => trivial
    rw [run_withLock, admitUser_run]
    cases v.connections.lookup username with
    | none =>
      exact ⟨.rest, minds_rest (by simp [Event.hasMessages, Event.accepts])
        (World.register_trace _ _ _ _), hwelcome _ _⟩
    | some cd =>
      dsimp only
      split
      · exact ⟨.rest, minds_rest (by simp [Event.hasMessages, Event.accepts]) rfl, .ret trivial⟩
      · exact ⟨.rest, minds_rest (by simp [Event.hasMessages, Event.accepts])
          (World.reconnect_trace _ _ _ _ _), hwelcome _ _⟩

theorem minds_onClose : Minds (.handlers conn) heard (fun _ _ => True) (onClose conn) .rest := by
  refine .section_bind (.withLock (avoids_disconnect conn)) fun w _ => ⟨.rest, ?_, ?_⟩
  · rw [run_withLock, disconnect_run]
    have hleft : ∀ e ∈ [Event.left conn], e.hasMessages = false := by simp [Event.hasMessages, Event.accepts]
    cases w.findConn conn with
    | none => exact minds_rest hleft rfl
    | some e => exact minds_rest hleft rfl
  · split
    · exact (minds_notifyUserStatusChange _ _).mono fun _ _ _ => trivial
    · exact .ret trivial

theorem minds_monitorPass (t : Thread) : Minds t heard (fun _ _ => True) monitorPass .rest := by
  have hbal : ∀ u, Balanced .connectionsMutex false (notifyUserStatusChange u .inactivo) :=
    fun u => (section_notifyUserStatusChange u _).balanced
  refine minds_read (.withLock avoids_findIdle) (fun w => ?_) fun users => ?_
  · rw [run_withLock, findIdle_run]
    rfl
  · refine .bind (balanced_forEach _ hbal) (.forEach _ hbal fun u _ => minds_notifyUserStatusChange u _) ?_
    rintro - j rfl
    split
    · refine .skip nofun (fun _ => rfl) rfl (minds_access (fun _ => rfl) fun v => ?_)
      exact .skip nofun (fun _ => rfl) rfl (.ret trivial)
    · exact .ret trivial

theorem minds_cleanupPass (t : Thread) : Minds t heard (fun _ _ => True) cleanupPass .rest := by
  have hnone : ∀ e ∈ ([] : List Event), e.hasMessages = false := by simp
  refine .of_section section_cleanupPass fun w _ => ⟨.rest, ?_, trivial⟩
  rw [cleanupPass_run]
  exact minds_rest hnone (by simp)

theorem minds_call (c : Call) : Minds c.thread c.heard (fun _ _ => True) c.code .rest := by
  cases c with
  | onOpen conn username => exact minds_onOpen username
  | onMessage conn data isBinary => exact minds_onMessage data isBinary
  | onClose conn => exact minds_onClose
  | monitorPass k => exact minds_monitorPass _
  | cleanupPass k => exact minds_cleanupPass _

end Requests

/-! ## Runs -/

/-- Every frame with a message was meant for its connection when it was sent. -/
def Rightful (trace : List Event) : Prop :=
  ∀ pre conn payload post, trace = pre ++ .sendBinary conn payload :: post →
    payload.head? = some 55 ∨ payload.head? = some 56 → MeantFor pre conn payload

/-- The event is one of the first part, or one of the second. -/
theorem append_split {trace es pre post : List Event} {e : Event}
    (h : trace ++ es = pre ++ e :: post) :
    (∃ rest, trace = pre ++ e :: rest) ∨ ∃ before, pre = trace ++ before ∧ es = before ++ e :: post := by
  rcases List.append_eq_append_iff.mp h with ⟨before, hpre, hes⟩ | ⟨rest, htrace, hrest⟩
  · exact .inr ⟨before, hpre, hes⟩
  · cases rest with
    | nil => exact .inr ⟨[], by simpa using htrace.symm, by simpa using hrest.symm⟩
    | cons e' rest =>
      obtain ⟨rfl, -⟩ := List.cons.inj hrest
      exact .inl ⟨rest, htrace⟩

theorem Rightful.append {t : Thread} {heard : Option Bytes} {trace trace' : List Event} (h : Rightful trace)
    (hd : Discreet t heard trace trace') : Rightful trace' := by
  obtain ⟨es, rfl, hes⟩ := hd
  intro pre conn payload post htrace hcode
  rcases append_split htrace with ⟨rest, hrest⟩ | ⟨before, rfl, hsplit⟩
  · exact h pre conn payload rest hrest hcode
  · have hmem : .sendBinary conn payload ∈ es := by simp [hsplit]
    rcases hes with hnone | hmeant | ⟨e, rfl, hwrote⟩
    · have hno := hnone _ hmem
      simp only [Event.hasMessages, decide_eq_false_iff_not] at hno
      exact absurd hcode hno
    · obtain ⟨c, m, heq, hframe⟩ := hmeant _ hmem
      obtain ⟨rfl, rfl⟩ := Event.sendBinary.inj heq
      refine hframe.mono (session_binaries (fun e he => ?_) conn) (List.prefix_append _ _)
      obtain ⟨c, m, he', -⟩ := hmeant e (hsplit ▸ List.mem_append_left _ he)
      exact ⟨c, m, he'⟩
    · obtain ⟨c, s, data, destino, mensaje, -, -, -, -, haccepts⟩ := hwrote
      rw [← List.mem_singleton.mp hmem] at haccepts
      cases haccepts

/-- Every thread minds its errand. -/
structure Minding (cfg : Config) (heard : Thread → Option Bytes) (errand : Thread → Errand) : Prop where
  minds : ∀ t, Minds t (heard t) (fun _ _ => True) (cfg.code t) (errand t)
  holds : ∀ t, Holds t cfg.world.trace (errand t)
  rightful : Rightful cfg.world.trace

namespace Minding

variable {cfg : Config} {heard : Thread → Option Bytes} {errand : Thread → Errand}

theorem init (w : World) (hw : w.trace = []) : Minding (.init w) heard fun _ => .rest := by
  refine ⟨fun _ => .ret trivial, fun _ => trivial, ?_⟩
  intro pre conn payload post htrace
  simp [Config.init, hw] at htrace

/-- A thread with nothing to do may hear whatever. -/
theorem update (h : Minding cfg heard errand) {t : Thread} (hidle : cfg.code t = .ret ())
    (data : Option Bytes) : Minding cfg (Function.update heard t data) (Function.update errand t .rest) where
  minds u := by
    by_cases hu : u = t
    · subst hu
      rw [hidle]
      exact .ret trivial
    · simpa only [Function.update_of_ne hu] using h.minds u
  holds u := by
    by_cases hu : u = t
    · subst hu
      rw [Function.update_self]
      trivial
    · rw [Function.update_of_ne hu]
      exact h.holds u
  rightful := h.rightful

theorem call (h : Minding cfg heard errand) (c : Call) :
    Minding (cfg.call c) (Function.update heard c.thread c.heard)
      (Function.update errand c.thread .rest) where
  minds t := by
    by_cases ht : t = c.thread
    · subst ht
      simpa only [Config.call, Function.update_self] using minds_call c
    · simpa only [Config.call, Function.update_of_ne ht] using h.minds t
  holds t := by
    by_cases ht : t = c.thread
    · subst ht
      rw [Function.update_self]
      trivial
    · rw [Function.update_of_ne ht]
      exact h.holds t
  rightful := h.rightful

theorem move (h : Minding cfg heard errand) (hreach : Reachable cfg) {t : Thread} {p : Prog Unit}
    {w : World} (hadv : advance .connectionsMutex (cfg.code t) cfg.world = some (p, w)) :
    Discreet t (heard t) cfg.world.trace w.trace ∧ ∃ errand', Minding (cfg.move t p w) heard errand' := by
  have hknow : (discretion t (heard t)).know (errand t) cfg.world :=
    ⟨hreach.sound, entries_eq hreach, h.holds t⟩
  obtain ⟨j, ⟨hdiscreet, hholds⟩, hnext⟩ := (h.minds t).advance hknow hadv
  obtain ⟨-, -, hrely, -⟩ := hreach.orderly.move hadv
  refine ⟨hdiscreet, Function.update errand t j, ?_, ?_, h.rightful.append hdiscreet⟩
  · intro u
    by_cases hu : u = t
    · subst hu
      simpa only [Config.move, Function.update_self] using hnext
    · simpa only [Config.move, Function.update_of_ne hu] using h.minds u
  · intro u
    by_cases hu : u = t
    · subst hu
      rw [Function.update_self]
      exact hholds (h.holds u)
    · rw [Function.update_of_ne hu]
      obtain ⟨es, htrace, -⟩ := hdiscreet
      refine (h.holds u).mono ?_ (htrace ▸ List.prefix_append _ _)
      rintro conn rfl
      apply hrely conn
      intro hmem
      cases t with
      | handlers c => exact hu (congrArg Thread.handlers hmem)
      | monitor | cleanup => exact hmem

end Minding

theorem Reachable.minding {cfg : Config} (h : Reachable cfg) :
    ∃ heard errand, Minding cfg heard errand := by
  induction h with
  | init clock time ip => exact ⟨fun _ => none, _, .init _ rfl⟩
  | call c _ _ _ ih =>
    obtain ⟨heard, errand, hminding⟩ := ih
    exact ⟨_, _, hminding.call c⟩
  | move t hreach hadv _ ih =>
    obtain ⟨heard, errand, hminding⟩ := ih
    exact ⟨heard, (hminding.move hreach hadv).2⟩

theorem Reachable.rightful {cfg : Config} (h : Reachable cfg) : Rightful cfg.world.trace := by
  obtain ⟨heard, errand, hminding⟩ := h.minding
  exact hminding.rightful

/-- **Only for them.** Whatever the threads do in between, a message goes to nobody before it has been
accepted, and a private one only to the connections that its two users have at that moment. A
history goes to nobody but the user who may ask for it, and is the beginning of what was said. -/
theorem only_for_them {cfg : Config} (h : Reachable cfg) {pre post : List Event} {conn : Conn}
    {payload : Bytes} (htrace : cfg.world.trace = pre ++ .sendBinary conn payload :: post)
    (hcode : payload.head? = some 55 ∨ payload.head? = some 56) : MeantFor pre conn payload :=
  h.rightful pre conn payload post htrace hcode

/-- What has happened when `b` gets what `a` has written to it. -/
def whispered : List Event :=
  [.accepted 1 (ascii "a"), .accepted 2 (ascii "b"), .sendBinary 1 (joinedPayload (ascii "b") .activo),
    .storedPrivate (ascii "a") (ascii "b") (ascii "x"),
    .sendBinary 1 (messagePayload (ascii "a") (ascii "x"))]

theorem only_for_them_two : ∃ cfg, Reachable cfg ∧
    cfg.world.trace = whispered ++ [.sendBinary 2 (messagePayload (ascii "a") (ascii "x"))] ∧
      MeantFor whispered 2 (messagePayload (ascii "a") (ascii "x")) := by
  have hreach := ((Reachable.start.serve (c := .onOpen 1 (ascii "a")) rfl rfl).serve
    (c := .onOpen 2 (ascii "b")) rfl rfl).serve
    (c := .onMessage 1 (4 :: pushString8 (ascii "b") ++ pushString8 (ascii "x")) true) rfl rfl
  obtain ⟨cfg, h, htrace⟩ : ∃ cfg, Reachable cfg ∧
      cfg.world.trace = whispered ++ [.sendBinary 2 (messagePayload (ascii "a") (ascii "x"))] :=
    ⟨_, hreach, by decide +kernel⟩
  exact ⟨cfg, h, htrace, only_for_them h htrace (.inl rfl)⟩

end ChatServer
