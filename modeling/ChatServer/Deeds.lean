import ChatServer.Chats
import ChatServer.Lib.Script

/-!
# The script of each thread

What each step of a handler or of a loop is, by the function that it runs, and where it stands
in its call: which name `on_message` has found, which message is stored and not delivered,
which user is accepted and not announced.
-/

open Program

namespace ChatServer

/-! ## Stages -/

inductive Stage
  | calm
  /-- A binary frame has come, and `on_message` has not looked for the sender yet. -/
  | heard (conn : Conn) (opcode : UInt8) (rest : Bytes)
  /-- `on_message` has found the sender. -/
  | acting (sender : Bytes)
  /-- The message is the one at `index` of its chat, and nobody has got it yet. -/
  | stored (chat : Chat) (index : Nat) (sender msg : Bytes)
  /-- `on_open` has accepted the user, and the others have not heard of it yet. -/
  | welcome (username : Bytes) (st : UserStatus)

/-- The next critical section does more than to read or to send. -/
def Stage.isDue : Stage → Bool
  | .heard .. | .stored .. => true
  | _ => false

def Stage.isHeard : Stage → Bool
  | .heard .. => true
  | _ => false

/-- The stage at which the call begins. -/
def Call.stage : Call → Stage
  | .onMessage conn (opcode :: rest) true => .heard conn opcode rest
  | _ => .calm

/-- What a thread knows at a stage, whatever the other threads do. -/
def Knows (t : Thread) (w : World) : Stage → Prop
  | .calm | .heard .. => True
  | .acting sender => ∃ conn, t = .handlers conn ∧
      (w.session conn = .accepted sender ∨ sender = desconocido ∧ Free w conn)
  | .stored chat index sender msg => (w.entries chat)[index]? = some (sender, msg)
  | .welcome username _ => ValidName username

/-- A frame or a text that is no 53 and no 55 frame. -/
def IsQuiet : Event → Prop
  | .sendBinary _ payload => ∃ code body, payload = code :: body ∧ code ≠ 53 ∧ code ≠ 55
  | .sendText _ _ => True
  | _ => False

/-! ## Deeds -/

/-- What a step of `t` does, the stage and the code before it, and the stage after it. -/
inductive Deed (t : Thread) (w : World) : {α : Type} → Stage → Prog α → Stage → World → Prop
  | quiet {α : Type} {i : Stage} {p : Prog α} {es : List Event}
      (userMarkedInactive monitorStarted : Bool) (hes : ∀ e ∈ es, IsQuiet e)
      (hp : p.takes .connectionsMutex → i.isDue = false) :
      Deed t w i p i ({ w with
        userMarkedInactive := userMarkedInactive, monitorStarted := monitorStarted }.emits es)
  | refuse {α : Type} {p : Prog α} {conn : Conn} {es : List Event} (ht : t = .handlers conn)
      (hes : ∀ e ∈ es, IsRefusal conn e) : Deed t w .calm p .calm (w.emits es)
  | nameless {α : Type} {p : Prog α} {conn : Conn} {opcode : UInt8} {rest : Bytes}
      (ht : t = .handlers conn) (hp : p.takes .connectionsMutex) (hfind : w.findConn conn = none) :
      Deed t w (.heard conn opcode rest) p (.acting desconocido) w
  | touch {α : Type} {p : Prog α} {conn : Conn} {opcode : UInt8} {rest : Bytes}
      {e : Sigma fun _ : Bytes => ConnectionData} (ht : t = .handlers conn)
      (hp : p.takes .connectionsMutex) (hfind : w.findConn conn = some e) :
      Deed t w (.heard conn opcode rest) p (.acting e.1) (w.touch e.1)
  | setStatus {α : Type} {p : Prog α} {sender : Bytes} {status : UserStatus}
      (hp : Begins (withLock .connectionsMutex (applyStatus sender status true)) p) :
      Deed t w (.acting sender) p (.acting sender) (w.setStatus sender status)
  | storeGeneral {α : Type} {p : Prog α} {sender msg : Bytes} (hp : p.takes .connectionsMutex) :
      Deed t w (.acting sender) p (.stored .general w.generalChatHistory.length sender msg)
        (w.storeGeneral sender msg)
  | storePrivate {α : Type} {p : Prog α} {sender recipient msg : Bytes}
      (hp : p.takes .connectionsMutex) :
      Deed t w (.acting sender) p
        (.stored (.keyed (chatId sender recipient)) (w.chat (chatId sender recipient)).length
          sender msg)
        (w.storePrivate sender recipient msg)
  | deliver {α : Type} {p : Prog α} {chat : Chat} {index : Nat} {sender msg : Bytes}
      (hp : p.takes .connectionsMutex) (conns : List Conn) :
      Deed t w (.stored chat index sender msg) p .calm (w.sends conns (messagePayload sender msg))
  | register {α : Type} {p : Prog α} {conn : Conn} {username : Bytes} (clientIp : Bytes)
      (ht : t = .handlers conn) (hname : ValidName username)
      (hnew : w.connections.lookup username = none) :
      Deed t w .calm p (.welcome username (w.freshStatus username))
        (w.register conn username clientIp)
  | reconnect {α : Type} {p : Prog α} {conn : Conn} {username : Bytes} {cd : ConnectionData}
      (clientIp : Bytes) (ht : t = .handlers conn) (hname : ValidName username)
      (hcd : w.connections.lookup username = some cd) (hconn : cd.conn = none) :
      Deed t w .calm p (.welcome username (World.backStatus cd))
        (w.reconnect conn username clientIp (World.backStatus cd))
  | joined {α : Type} {p : Prog α} {username : Bytes} {st : UserStatus} (conns : List Conn) :
      Deed t w (.welcome username st) p .calm (w.sends conns (joinedPayload username st))
  | leave {α : Type} {p : Prog α} {conn : Conn} (ht : t = .handlers conn)
      (hfind : w.findConn conn = none) : Deed t w .calm p .calm (w.emits [.left conn])
  | disconnect {α : Type} {p : Prog α} {conn : Conn} {e : Sigma fun _ : Bytes => ConnectionData}
      (ht : t = .handlers conn) (hfind : w.findConn conn = some e) :
      Deed t w .calm p .calm (w.disconnect conn e.1 e.2.status)
  | markIdle {α : Type} {p : Prog α} : Deed t w .calm p .calm w.markIdle
  | eraseExpired {α : Type} {p : Prog α} (hp : Begins cleanupPass p) :
      Deed t w .calm p .calm w.eraseExpired

theorem Deed.bind {t : Thread} {w w' : World} {α β : Type} {i j : Stage} {p : Prog α}
    (f : α → Prog β) (hgo : ∀ a, p ≠ .ret a) (h : Deed t w i p j w') :
    Deed t w i (p.bind f) j w' := by
  have htakes := takes_bind (m := .connectionsMutex) hgo f
  cases h with
  | quiet um ms hes hp => exact .quiet um ms hes (htakes ▸ hp)
  | refuse ht hes => exact .refuse ht hes
  | nameless ht hp hfind => exact .nameless ht (htakes ▸ hp) hfind
  | touch ht hp hfind => exact .touch ht (htakes ▸ hp) hfind
  | setStatus hp => exact .setStatus (hp.bind f)
  | storeGeneral hp => exact .storeGeneral (htakes ▸ hp)
  | storePrivate hp => exact .storePrivate (htakes ▸ hp)
  | deliver hp conns => exact .deliver (htakes ▸ hp) conns
  | register clientIp ht hname hnew => exact .register clientIp ht hname hnew
  | reconnect clientIp ht hname hcd hconn => exact .reconnect clientIp ht hname hcd hconn
  | joined conns => exact .joined conns
  | leave ht hfind => exact .leave ht hfind
  | disconnect ht hfind => exact .disconnect ht hfind
  | markIdle => exact .markIdle
  | eraseExpired hp => exact .eraseExpired (hp.bind f)

theorem Deed.flag {t : Thread} {w : World} {α : Type} {i : Stage} {p : Prog α}
    (userMarkedInactive monitorStarted : Bool)
    (hp : p.takes .connectionsMutex → i.isDue = false) : Deed t w i p i { w with
      userMarkedInactive := userMarkedInactive, monitorStarted := monitorStarted } := by
  have h := @Deed.quiet t w _ i p [] userMarkedInactive monitorStarted (by simp) hp
  rwa [World.emits_nil] at h

theorem Deed.still {t : Thread} {w : World} {α : Type} {i : Stage} {p : Prog α}
    (hp : p.takes .connectionsMutex → i.isDue = false) : Deed t w i p i w :=
  .flag w.userMarkedInactive w.monitorStarted hp

/-- A frame is `heard` until the first critical section of its call. -/
theorem Deed.heard_iff {t : Thread} {w w' : World} {α : Type} {i j : Stage} {p : Prog α}
    (h : Deed t w i p j w') (conn : Conn) (opcode : UInt8) (rest : Bytes) :
    j = .heard conn opcode rest ↔
      i = .heard conn opcode rest ∧ p.takes .connectionsMutex = false := by
  cases h with
  | quiet um ms hes hp =>
    refine ⟨?_, And.left⟩
    rintro rfl
    exact ⟨rfl, Bool.eq_false_iff.mpr fun htakes => Bool.noConfusion (hp htakes)⟩
  | nameless ht hp | touch ht hp => simp [hp]
  | _ => simp

theorem Deed.isHeard {t : Thread} {w w' : World} {α : Type} {i j : Stage} {p : Prog α}
    (h : Deed t w i p j w') (hi : i.isHeard = false) : j.isHeard = false := by
  cases h <;> first | exact hi | rfl

/-- The script of the thread `t`. -/
def script (t : Thread) : Script Mutex.connectionsMutex World Stage where
  know i w := Sound w ∧ Knows t w i
  step i p w j w' := Deed t w i p j w'
  step_bind f hgo h := h.bind f hgo
  idle _ _ _ hp := .still (by simp [hp])

/-- The code of `t` keeps to its script from the stage `i` on, and ends where `E` holds. -/
abbrev Acts (t : Thread) {α : Type} (E : α → Stage → Prop) (p : Prog α) (i : Stage) : Prop :=
  Follows (script t) E p i

/-- The code ends at the stage where it begins. -/
abbrev Stays (t : Thread) {α : Type} (p : Prog α) (i : Stage) : Prop :=
  Acts t (fun _ j => j = i) p i

/-- No step brings another frame. -/
theorem acts_settled {t : Thread} {α : Type} {E : α → Stage → Prop} {p : Prog α} {i : Stage}
    (h : Acts t E p i) (hi : i.isHeard = false) : Acts t (fun _ j => j.isHeard = false) p i :=
  (h.keep (P := fun j => j.isHeard = false) (fun hdeed hi => Deed.isHeard hdeed hi) hi).mono
    fun _ _ hend => hend.2

/-! ## Code that only sends -/

section Sending

variable {t : Thread} {i : Stage} {α : Type} {E : α → Stage → Prop}

theorem Deed.quiet_emits {w : World} {p : Prog α} {es : List Event} (hes : ∀ e ∈ es, IsQuiet e)
    (hp : p.takes .connectionsMutex → i.isDue = false) : Deed t w i p i (w.emits es) :=
  .quiet w.userMarkedInactive w.monitorStarted hes hp

theorem acts_log_bind {f : Unit → Prog α} (h : Acts t E (f ()) i) : Acts t E (log.bind f) i :=
  .skip nofun (fun _ => rfl) rfl (.skip nofun (fun _ => rfl) rfl h)

theorem stays_log : Stays t log i :=
  .skip nofun (fun _ => rfl) rfl (.skip nofun (fun _ => rfl) rfl (.ret rfl))

theorem stays_section {p : Prog Unit} (hp : IsSection .connectionsMutex p)
    (hi : i.isDue = false)
    (h : ∀ w, Sound w → ∃ es, (∀ e ∈ es, IsQuiet e) ∧ (p.run w).2 = w.emits es) : Stays t p i := by
  refine .of_section hp fun w hw => ⟨i, ?_, rfl⟩
  obtain ⟨es, hes, heq⟩ := h w hw.1
  change Deed t w i p i (p.run w).2
  rw [heq]
  exact .quiet_emits hes fun _ => hi

theorem stays_emit {e : Event} (h : IsQuiet e) : Stays t (emit e) i := by
  refine .access fun w _ => ⟨i, ?_, .ret rfl⟩
  exact Deed.quiet_emits (fun e' he' => List.mem_singleton.mp he' ▸ h) nofun

theorem stays_sendError (conn : Conn) (code : UInt8) : Stays t (sendError conn code) i := by
  refine .bind (balanced_emit _) (stays_emit ⟨50, [code], rfl, by decide, by decide⟩) ?_
  rintro - j rfl
  exact stays_log

theorem quiet_statusPayload (username : Bytes) (st : UserStatus) (conns : List Conn) :
    ∀ e ∈ conns.map (Event.sendBinary · (statusPayload username st)), IsQuiet e := by
  intro e he
  obtain ⟨conn, -, rfl⟩ := List.mem_map.mp he
  exact ⟨54, _, rfl, by decide, by decide⟩

theorem stays_notifyUserStatusChange (username : Bytes) (st : UserStatus)
    (hi : i.isDue = false) : Stays t (notifyUserStatusChange username st) i := by
  apply stays_section (section_notifyUserStatusChange _ _) hi
  intro w _
  exact ⟨_, quiet_statusPayload username st w.live, by rw [notifyUserStatusChange_run]; rfl⟩

theorem acts_notifyUserJoined (username : Bytes) (st : UserStatus) :
    Acts t (fun _ j => j = .calm) (notifyUserJoined username st) (.welcome username st) := by
  refine .access fun w hw => ⟨_, .still nofun, ?_⟩
  change Acts t _ (if w.testingMode then pure () else log.bind fun _ => sendJoined username st) _
  rw [if_neg (by simp [hw.1.testing])]
  refine acts_log_bind (.of_section (section_sendJoined _ _) fun v _ => ⟨.calm, ?_, rfl⟩)
  change Deed t v _ _ _ ((sendJoined username st).run v).2
  rw [sendJoined_run]
  exact .joined _

theorem takes_section {p : Prog α} (hp : IsSection Mutex.connectionsMutex p) :
    p.takes .connectionsMutex := by
  obtain ⟨body, rfl, -⟩ := hp
  rfl

theorem acts_notifyNewMessage (chat : Chat) (index : Nat) (sender msg : Bytes) (isPrivate : Bool)
    (recipient : Bytes) :
    Acts t (fun _ j => j = .calm) (notifyNewMessage sender msg isPrivate recipient)
      (.stored chat index sender msg) := by
  have hsection := section_sendNewMessage sender (messagePayload sender msg) isPrivate recipient
  refine .async ?_ (acts_log_bind ?_)
  · exact balanced_bind balanced_log fun _ => balanced_bind hsection.balanced fun _ => balanced_log
  · refine .section_bind hsection fun w _ => ⟨.calm, ?_, stays_log⟩
    change Deed t w _ _ _ ((sendNewMessage sender _ isPrivate recipient).run w).2
    rw [sendNewMessage_run]
    exact .deliver (takes_section hsection) _

theorem stays_handleListUsers (conn : Conn) (hi : i.isDue = false) :
    Stays t (handleListUsers conn) i := by
  refine acts_log_bind (stays_section (section_sendUserList conn) hi fun w _ => ?_)
  refine ⟨[.sendBinary conn (userListPayload w.connections.entries)], ?_, ?_⟩
  · intro e he
    exact List.mem_singleton.mp he ▸ ⟨51, _, rfl, by decide, by decide⟩
  · rw [sendUserList_run]

theorem quiet_userInfo (requestedName : Bytes) (entry : Option ConnectionData) (conn : Conn) :
    IsQuiet (.sendBinary conn (userInfoPayload requestedName entry)) := by
  cases entry with
  | none => exact ⟨50, _, rfl, by decide, by decide⟩
  | some cd => exact ⟨52, _, rfl, by decide, by decide⟩

theorem stays_answerUserInfo (conn : Conn) (requestedName : Bytes) (hi : i.isDue = false) :
    Stays t (answerUserInfo conn requestedName) i := by
  refine stays_section (section_answerUserInfo _ _) hi fun w _ => ⟨_, ?_, by rw [answerUserInfo_run]⟩
  intro e he
  exact List.mem_singleton.mp he ▸ quiet_userInfo _ _ _

end Sending

/-! ## The requests -/

section Requests

variable {t : Thread} {sender : Bytes}

theorem stays_updateStatus (status : UserStatus) :
    Stays t (updateStatus sender status true) (.acting sender) := by
  have hsection : IsSection .connectionsMutex
      (withLock .connectionsMutex (applyStatus sender status true)) :=
    .withLock (avoids_applyStatus _ _ _)
  refine .section_bind hsection fun w _ => ⟨.acting sender, ?_⟩
  rw [run_withLock, applyStatus_run]
  cases hcd : w.connections.lookup sender with
  | none => exact ⟨.still fun _ => rfl, .ret rfl⟩
  | some cd => exact ⟨.setStatus (.refl _), stays_notifyUserStatusChange _ _ rfl⟩

theorem stays_read {β : Type} {body : Prog β} {f : β → Prog Unit} {i : Stage}
    (hbody : Avoids .connectionsMutex body) (hread : ∀ w, (body.run w).2 = w)
    (hi : i.isDue = false) (h : ∀ b, Stays t (f b) i) :
    Stays t ((withLock .connectionsMutex body).bind f) i := by
  refine .section_bind (.withLock hbody) fun w _ => ⟨i, ?_, h _⟩
  rw [run_withLock, hread]
  exact .still fun _ => hi

theorem stays_changeStatus (conn : Conn) (username : Bytes) (rawStatus : UInt8) :
    Stays t (changeStatus conn sender username rawStatus) (.acting sender) := by
  unfold changeStatus
  split
  · exact acts_log_bind (stays_sendError _ _)
  · refine acts_log_bind (stays_read (avoids_bind avoids_load fun _ => trivial) (fun _ => rfl) rfl
      fun _ => ?_)
    cases statusOfByte rawStatus with
    | none => exact stays_sendError _ _
    | some newStatus => exact acts_log_bind (stays_updateStatus _)

theorem acts_sendBroadcast (msg : Bytes) :
    Acts t (fun _ j => j = .calm) (sendBroadcast sender msg) (.acting sender) := by
  refine .section_bind (section_storeGeneral sender msg) fun w _ => ?_
  refine ⟨.stored .general w.generalChatHistory.length sender msg, ?_, ?_⟩
  · exact .storeGeneral rfl
  · exact acts_notifyNewMessage _ _ _ _ _ _

theorem acts_sendPrivateMessage (recipient msg : Bytes) :
    Acts t (fun _ _ => True) (sendPrivateMessage sender recipient msg) (.acting sender) := by
  refine .section_bind (.withLock (avoids_storePrivate _ _ _)) fun w _ => ?_
  rw [run_withLock, storePrivate_run]
  by_cases hr : isReachable w.connections recipient
  · rw [if_pos hr]
    exact ⟨_, .storePrivate rfl, (acts_notifyNewMessage _ _ _ _ _ _).mono fun _ _ _ => trivial⟩
  · rw [if_neg hr]
    refine ⟨.acting sender, Deed.quiet_emits ?_ fun _ => rfl, .ret trivial⟩
    intro e he
    obtain ⟨conn, -, rfl⟩ := List.mem_map.mp he
    exact ⟨50, _, rfl, by decide, by decide⟩

theorem acts_sendMessage (conn : Conn) {mensaje : Bytes} (destino : Bytes)
    (hm : mensaje.length < 256) :
    Acts t (fun _ _ => True) (sendMessage conn sender destino mensaje) (.acting sender) := by
  apply acts_log_bind
  by_cases hempty : mensaje = []
  · rw [if_pos hempty]
    exact (stays_sendError _ _).mono fun _ _ _ => trivial
  · have hlen : ¬ mensaje.length > maxMessageLength := by
      unfold maxMessageLength
      omega
    rw [if_neg hempty, if_neg hlen]
    change Acts t _ (if destino = generalChat then _ else _) _
    split
    · exact (acts_sendBroadcast _).mono fun _ _ _ => trivial
    · exact acts_sendPrivateMessage destino _

theorem stays_selectHistory (sender target : Bytes) {i : Stage} (hi : i.isDue = false) :
    Stays t (selectHistory sender target) i := by
  unfold selectHistory
  split
  · exact .of_section (.withLock (avoids_bind avoids_load fun _ => trivial)) fun w _ =>
      ⟨i, .still fun _ => hi, rfl⟩
  · exact .access fun w _ => ⟨i, .still nofun, .ret rfl⟩

theorem stays_answerHistory (conn : Conn) (sender target : Bytes) {i : Stage}
    (hi : i.isDue = false) : Stays t (answerHistory conn sender target) i := by
  refine .bind (balanced_selectHistory _ _) (stays_selectHistory sender target hi) ?_
  rintro messages j rfl
  exact acts_log_bind (stays_emit ⟨56, _, rfl, by decide, by decide⟩)

theorem acts_perform (conn : Conn) {r : Request} (hr : r.Fits) :
    Acts t (fun _ _ => True) (perform conn sender r) (.acting sender) := by
  have htrivial : ∀ {p : Prog Unit}, Stays t p (.acting sender) →
      Acts t (fun _ _ => True) p (.acting sender) := fun h => h.mono fun _ _ _ => trivial
  cases r with
  | listUsers => exact htrivial (stays_handleListUsers conn rfl)
  | userInfo requestedName => exact htrivial (stays_answerUserInfo conn requestedName rfl)
  | changeStatus username rawStatus => exact htrivial (stays_changeStatus conn username rawStatus)
  | sendMessage destino mensaje => exact acts_sendMessage conn destino hr
  | history target => exact htrivial (stays_answerHistory conn sender target rfl)
  | unknown => exact htrivial stays_log

end Requests

/-! ## The calls -/

theorem acts_onMessage (conn : Conn) (data : Bytes) (isBinary : Bool) :
    Acts (.handlers conn) (fun _ j => j.isHeard = false) (onMessage conn data isBinary)
      (Call.onMessage conn data isBinary).stage := by
  have hlog : Acts (.handlers conn) (fun _ j => j.isHeard = false) log .calm :=
    acts_settled stays_log rfl
  cases data with
  | nil => cases isBinary <;> exact acts_log_bind hlog
  | cons b rest =>
    cases isBinary with
    | false => exact acts_log_bind hlog
    | true =>
      rw [onMessage_binary]
      have hsection : IsSection .connectionsMutex
          (withLock .connectionsMutex (identifySender conn b)) :=
        .withLock (avoids_identifySender _ _)
      refine acts_log_bind (.section_bind hsection fun w hw => ?_)
      rw [run_withLock, identifySender_run]
      have hserve : ∀ sender, Acts (.handlers conn) (fun _ j => j.isHeard = false)
          (log.bind fun _ => serve conn sender (b :: rest)) (.acting sender) := by
        intro sender
        apply acts_log_bind
        unfold serve
        cases hreq : readRequest (b :: rest) with
        | error e => exact acts_settled stays_log rfl
        | ok req => exact acts_settled (acts_perform conn (readRequest_fits hreq)) rfl
      cases hfind : w.findConn conn with
      | none => exact ⟨_, .nameless rfl rfl hfind, hserve _⟩
      | some e =>
        refine ⟨_, .touch rfl rfl hfind, ?_⟩
        dsimp only
        have hname := hw.1.name_of_findConn hfind
        unfold reactivated
        split
        · rw [if_pos hname.1]
          refine .bind (balanced_updateStatus _ _ _) (stays_updateStatus _) ?_
          rintro - j rfl
          exact hserve e.1
        · exact hserve e.1

theorem acts_welcome {t : Thread} (isReconnection : Bool) (username : Bytes) (st : UserStatus) :
    Acts t (fun _ _ => True) ((logOpened isReconnection).bind fun _ =>
      startMonitor.bind fun _ => notifyUserJoined username st) (.welcome username st) := by
  refine .bind (E := fun _ j => j = .welcome username st) (balanced_logOpened _) ?_ ?_
  · unfold logOpened
    split
    · exact stays_log
    · refine acts_log_bind (acts_log_bind (stays_section section_logEntries rfl fun w _ => ?_))
      refine ⟨[], by simp, ?_⟩
      rw [bind_eq, logEntries_run, World.emits_nil]
  · rintro - j rfl
    refine .bind (E := fun _ j => j = .welcome username st) balanced_startMonitor ?_ ?_
    · refine .access fun v _ => ⟨_, .still nofun, ?_⟩
      change Stays t (if v.monitorStarted then pure () else update _) _
      split
      · exact .ret rfl
      · exact .access fun v' _ => ⟨_, Deed.flag v'.userMarkedInactive true nofun, .ret rfl⟩
    · rintro - j rfl
      exact (acts_notifyUserJoined username st).mono fun _ _ _ => trivial

theorem acts_onOpen (conn : Conn) (username : Bytes) :
    Acts (.handlers conn) (fun _ _ => True) (onOpen conn username) .calm := by
  refine .access fun w _ => ⟨.calm, .still nofun, ?_⟩
  change Acts _ _ (if username = [] ∨ username.length > 20 ∨ username = generalChat then _
    else _) _
  have hrefuse : ∀ {e : Event} {p : Prog Unit}, IsRefusal conn e →
      Acts (.handlers conn) (fun _ _ => True) p .calm →
      Acts (.handlers conn) (fun _ _ => True) ((emit e).bind fun _ => p) .calm := by
    intro e p he hp
    refine .access fun v _ => ⟨.calm, ?_, hp⟩
    exact Deed.refuse rfl fun e' he' => List.mem_singleton.mp he' ▸ he
  split
  · exact acts_log_bind (hrefuse (.inl ⟨_, rfl⟩) (hrefuse (.inr ⟨_, rfl⟩) (.ret trivial)))
  · rename_i hvalid
    have hname : ValidName username := by_contra fun hbad => hvalid (not_validName_iff.mp hbad)
    have hsection : IsSection .connectionsMutex
        (withLock .connectionsMutex (admitUser conn username (w.remoteIp conn))) :=
      .withLock (avoids_admitUser _ _ _)
    refine .section_bind hsection fun v _ => ?_
    rw [run_withLock, admitUser_run]
    cases hcd : v.connections.lookup username with
    | none => exact ⟨_, .register _ rfl hname hcd, acts_welcome _ _ _⟩
    | some cd =>
      dsimp only
      split
      · refine ⟨.calm, .refuse rfl ?_, .ret trivial⟩
        simp [IsRefusal]
      · rename_i hconn
        rw [Option.not_isSome_iff_eq_none] at hconn
        exact ⟨_, .reconnect _ rfl hname hcd hconn, acts_welcome _ _ _⟩

theorem acts_onClose (conn : Conn) :
    Acts (.handlers conn) (fun _ _ => True) (onClose conn) .calm := by
  refine .section_bind (.withLock (avoids_disconnect conn)) fun w _ => ?_
  rw [run_withLock, disconnect_run]
  cases hfind : w.findConn conn with
  | none => exact ⟨_, .leave rfl hfind, .ret trivial⟩
  | some e =>
    refine ⟨_, .disconnect rfl hfind, ?_⟩
    dsimp only
    split
    · exact (stays_notifyUserStatusChange _ _ rfl).mono fun _ _ _ => trivial
    · exact .ret trivial

theorem acts_monitorPass (t : Thread) : Acts t (fun _ _ => True) monitorPass .calm := by
  refine .section_bind (.withLock avoids_findIdle) fun w _ => ?_
  rw [run_withLock, findIdle_run]
  refine ⟨_, .markIdle, ?_⟩
  have hbal : ∀ u, Balanced .connectionsMutex false (notifyUserStatusChange u .inactivo) :=
    fun u => (section_notifyUserStatusChange u _).balanced
  refine .bind (E := fun _ j => j = .calm) (balanced_forEach _ hbal)
    (.forEach _ hbal fun u _ => stays_notifyUserStatusChange u _ rfl) ?_
  rintro - j rfl
  split
  · refine .skip nofun (fun _ => rfl) rfl (.access fun v _ => ⟨.calm, ?_, ?_⟩)
    · exact Deed.flag false v.monitorStarted nofun
    · exact .skip nofun (fun _ => rfl) rfl (.ret trivial)
  · exact .ret trivial

theorem acts_cleanupPass (t : Thread) : Acts t (fun _ _ => True) cleanupPass .calm := by
  refine .of_section section_cleanupPass fun w _ => ⟨.calm, ?_, trivial⟩
  change Deed t w _ _ _ (cleanupPass.run w).2
  rw [cleanupPass_run]
  exact .eraseExpired (.refl _)

theorem acts_call (c : Call) :
    Acts c.thread (fun _ j => j.isHeard = false) c.code c.stage := by
  cases c with
  | onOpen conn username => exact acts_settled (acts_onOpen conn username) rfl
  | onMessage conn data isBinary => exact acts_onMessage conn data isBinary
  | onClose conn => exact acts_settled (acts_onClose conn) rfl
  | monitorPass k => exact acts_settled (acts_monitorPass _) rfl
  | cleanupPass k => exact acts_settled (acts_cleanupPass _) rfl

end ChatServer
