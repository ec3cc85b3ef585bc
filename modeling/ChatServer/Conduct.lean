import ChatServer.Effects
import ChatServer.Lib.Contract
import ChatServer.Locking
import ChatServer.Runs
import Mathlib.Data.Set.Basic

/-!
# The contract of each thread

Whatever the other threads do, each step of a handler or of a loop is one of the `Effect`s.
It leaves the sessions of other connections alone, and a status that it changes it has still
to announce.
-/

open Program

namespace ChatServer

/-! ## Contracts -/

def toldAll (username : Bytes) (st : UserStatus) (w w' : World) : Prop :=
  w' = w.sends w.live (statusPayload username st)

/-- Every client but `username` itself is told that it is here. -/
def toldOthers (username : Bytes) (st : UserStatus) (w w' : World) : Prop :=
  w' = w.sends (w.others username) (joinedPayload username st)

/-- The threads that change and announce statuses. -/
def Thread.notifies : Thread → Bool
  | .handlers _ | .monitor _ => true
  | .cleanup _ => false

/-- A status that the step of `t` has changed is one that its code has still to announce. -/
def Announces (t : Thread) (w w' : World) (owed : (World → World → Prop) → Prop) : Prop :=
  ∀ u cd', w'.connections.lookup u = some cd' →
    (∃ cd, w.connections.lookup u = some cd ∧ cd.status = cd'.status) ∨
    (t.notifies ∧ owed (toldAll u cd'.status)) ∨
    (∃ conn, t = .handlers conn ∧ w'.trace = w.trace ++ [.accepted conn u] ∧
      owed (toldOthers u cd'.status))

/-- The contract of the thread `t` when it may change the sessions of `moves`. -/
def contract (t : Thread) (moves : Set Conn) : Contract World where
  rely w w' := ∀ conn, t = .handlers conn → w'.session conn = w.session conn
  guar w w' owed := Effect w w' ∧ (∀ c, c ∉ moves → w'.session c = w.session c) ∧
    Announces t w w' owed
  rely_refl _ _ _ := rfl
  rely_trans h h' conn ht := (h' conn ht).trans (h conn ht)
  guar_refl w _ := ⟨.refl w, fun _ _ => rfl, fun _ cd' h => .inl ⟨cd', h, rfl⟩⟩
  guar_mono hmono := by
    rintro ⟨heff, hsess, hann⟩
    refine ⟨heff, hsess, fun u cd' hcd' => ?_⟩
    rcases hann u cd' hcd' with h | ⟨ht, h⟩ | ⟨conn, ht, htr, h⟩
    · exact .inl h
    · exact .inr (.inl ⟨ht, hmono _ h⟩)
    · exact .inr (.inr ⟨conn, ht, htr, hmono _ h⟩)

/-- The code of `t` keeps the invariant and the contract from `w` on, and ends in `Q`. -/
abbrev Keeps (t : Thread) (moves : Set Conn) {α : Type} (Q : α → World → Prop) (p : Prog α)
    (w : World) : Prop :=
  Meets .connectionsMutex Sound (contract t moves) Q p w

namespace Keeps

variable {t : Thread} {moves : Set Conn} {α : Type} {Q : α → World → Prop} {p : Prog α} {w : World}

theorem widen (h : Keeps t ∅ Q p w) (moves : Set Conn) : Keeps t moves Q p w :=
  h.weaken (fun _ _ hr => hr) fun _ _ _ hg =>
    ⟨hg.1, fun c _ => hg.2.1 c (Set.notMem_empty c), hg.2.2⟩

theorem free {conn : Conn} (h : Keeps (.handlers conn) ∅ Q p w) (hfree : Free w conn) :
    Keeps (.handlers conn) ∅ (fun a w => Q a w ∧ Free w conn) p w := by
  refine h.frame (J := (Free · conn)) ?_ ?_ hfree
  · exact fun s s' hr hs n => hr conn rfl ▸ hs n
  · exact fun s s' _ hg hs n => hg.2.1 conn (Set.notMem_empty conn) ▸ hs n

end Keeps

/-! ## What each effect promises -/

section Guarantees

variable {t : Thread} {moves : Set Conn} {w : World} {owed : (World → World → Prop) → Prop}

theorem Announces.of_status {w' : World}
    (h : ∀ u cd', w'.connections.lookup u = some cd' →
      ∃ cd, w.connections.lookup u = some cd ∧ cd.status = cd'.status) : Announces t w w' owed :=
  fun u cd' hcd' => .inl (h u cd' hcd')

theorem guar_send {es : List Event} (h : ∀ e ∈ es, IsSend e) :
    (contract t moves).guar w (w.emits es) owed :=
  ⟨.send h, fun c _ => World.session_sends h c, .of_status fun _ cd' h => ⟨cd', h, rfl⟩⟩

theorem guar_sends {payload : Bytes} (h : WellFormed payload) (conns : List Conn) :
    (contract t moves).guar w (w.sends conns payload) owed := by
  apply guar_send
  intro e he
  obtain ⟨conn, -, rfl⟩ := List.mem_map.mp he
  exact h

theorem guar_flag (userMarkedInactive monitorStarted : Bool) : (contract t moves).guar w
    { w with userMarkedInactive := userMarkedInactive, monitorStarted := monitorStarted } owed :=
  ⟨.flag _ _, fun _ _ => rfl, .of_status fun _ cd' h => ⟨cd', h, rfl⟩⟩

theorem guar_refuse {conn : Conn} {es : List Event} (h : ∀ e ∈ es, IsRefusal conn e)
    (hfree : Free w conn) (hmoves : conn ∈ moves) :
    (contract t moves).guar w (w.emits es) owed := by
  refine ⟨.refuse h hfree, fun c hc => ?_, .of_status fun _ cd' h => ⟨cd', h, rfl⟩⟩
  rcases World.session_refuse h c with hs | ⟨rfl, -⟩
  · exact hs
  · exact absurd hmoves hc

theorem guar_touch (username : Bytes) : (contract t moves).guar w (w.touch username) owed := by
  refine ⟨.touch _, fun _ _ => rfl, .of_status fun u cd' hcd' => ?_⟩
  rw [World.touch_connections] at hcd'
  obtain ⟨cd, hcd, ⟨-, rfl⟩ | rfl⟩ := Table.of_lookup_modify hcd'
  · exact ⟨cd, hcd, rfl⟩
  · exact ⟨cd', hcd, rfl⟩

theorem guar_setStatus {username : Bytes} {status : UserStatus} (ht : t.notifies)
    (h : owed (toldAll username status)) :
    (contract t moves).guar w (w.setStatus username status) owed := by
  refine ⟨.setStatus _ _, fun _ _ => rfl, fun u cd' hcd' => ?_⟩
  rw [World.setStatus_connections] at hcd'
  obtain ⟨cd, hcd, ⟨rfl, rfl⟩ | rfl⟩ := Table.of_lookup_modify hcd'
  · exact .inr (.inl ⟨ht, h⟩)
  · exact .inl ⟨cd', hcd, rfl⟩

theorem guar_storeGeneral {sender msg : Bytes} (hs : ValidName sender) (hm : ValidText msg) :
    (contract t moves).guar w (w.storeGeneral sender msg) owed := by
  refine ⟨.storeGeneral hs hm, fun c _ => ?_, .of_status fun _ cd' h => ⟨cd', h, rfl⟩⟩
  unfold World.session
  rw [World.storeGeneral_trace, World.session_concat]
  rfl

theorem guar_storePrivate {sender recipient msg : Bytes} (hs : ValidName sender)
    (hm : ValidText msg) (hr : isReachable w.connections recipient) :
    (contract t moves).guar w (w.storePrivate sender recipient msg) owed := by
  refine ⟨.storePrivate hs hm hr, fun c _ => ?_, .of_status fun _ cd' h => ⟨cd', h, rfl⟩⟩
  unfold World.session
  rw [World.storePrivate_trace, World.session_concat]
  rfl

theorem session_left_ne {conn : Conn} (hmoves : conn ∈ moves) (trace : List Event) {c : Conn}
    (hc : c ∉ moves) : session (trace ++ [.left conn]) c = session trace c := by
  rw [World.session_left, if_neg]
  rintro rfl
  exact hc hmoves

theorem session_accepted_ne {conn : Conn} (hmoves : conn ∈ moves) (trace : List Event)
    (username : Bytes) {c : Conn} (hc : c ∉ moves) :
    session (trace ++ [.accepted conn username]) c = session trace c := by
  rw [World.session_accepted, if_neg]
  rintro rfl
  exact hc hmoves

theorem guar_leave {conn : Conn} (h : w.findConn conn = none) (hmoves : conn ∈ moves) :
    (contract t moves).guar w (w.emits [.left conn]) owed :=
  ⟨.leave h, fun _ hc => session_left_ne hmoves _ hc,
    .of_status fun _ cd' h => ⟨cd', h, rfl⟩⟩

theorem guar_disconnect {conn : Conn} {e : Sigma fun _ : Bytes => ConnectionData}
    (h : w.findConn conn = some e) (hmoves : conn ∈ moves) (ht : t.notifies)
    (ho : owed (toldAll e.1 .disconnected)) :
    (contract t moves).guar w (w.disconnect conn e.1 e.2.status) owed := by
  refine ⟨.disconnect h, fun _ hc => session_left_ne hmoves _ hc, fun u cd' hcd' => ?_⟩
  rw [World.disconnect_connections] at hcd'
  obtain ⟨cd, hcd, ⟨rfl, rfl⟩ | rfl⟩ := Table.of_lookup_modify hcd'
  · exact .inr (.inl ⟨ht, ho⟩)
  · exact .inl ⟨cd', hcd, rfl⟩

theorem guar_register {conn : Conn} {username : Bytes} (clientIp : Bytes)
    (hname : ValidName username) (hnew : w.connections.lookup username = none)
    (hfree : Free w conn) (hmoves : conn ∈ moves)
    (ho : owed (toldOthers username (w.freshStatus username))) :
    (contract (.handlers conn) moves).guar w (w.register conn username clientIp) owed := by
  refine ⟨.register clientIp hname hnew hfree, fun _ hc => session_accepted_ne hmoves _ _ hc,
    fun u cd' hcd' => ?_⟩
  rw [World.register_connections, Table.lookup_insert_eq] at hcd'
  split at hcd'
  · rename_i hu
    obtain rfl := Option.some.inj hcd'
    exact .inr (.inr ⟨conn, rfl, hu ▸ rfl, hu ▸ ho⟩)
  · exact .inl ⟨cd', hcd', rfl⟩

theorem guar_reconnect {conn : Conn} {username : Bytes} {cd : ConnectionData} (clientIp : Bytes)
    (hcd : w.connections.lookup username = some cd) (hconn : cd.conn = none)
    (hfree : Free w conn) (hmoves : conn ∈ moves)
    (ho : owed (toldOthers username (World.backStatus cd))) :
    (contract (.handlers conn) moves).guar w
      (w.reconnect conn username clientIp (World.backStatus cd)) owed := by
  refine ⟨.reconnect clientIp hcd hconn hfree, fun _ hc => session_accepted_ne hmoves _ _ hc,
    fun u cd' hcd' => ?_⟩
  rw [World.reconnect_connections] at hcd'
  obtain ⟨_, hold, ⟨rfl, rfl⟩ | rfl⟩ := Table.of_lookup_modify hcd'
  · exact .inr (.inr ⟨conn, rfl, rfl, ho⟩)
  · exact .inl ⟨cd', hold, rfl⟩

theorem guar_markIdle (ht : t.notifies)
    (ho : ∀ u ∈ w.idleUsers (w.steadyClock 0), owed (toldAll u .inactivo)) :
    (contract t moves).guar w w.markIdle owed := by
  refine ⟨.markIdle, fun _ _ => rfl, fun u cd' hcd' => ?_⟩
  obtain ⟨cd, hcd, ⟨hu, rfl⟩ | rfl⟩ := World.of_lookup_markIdle hcd'
  · exact .inr (.inl ⟨ht, ho u hu⟩)
  · exact .inl ⟨cd', hcd, rfl⟩

theorem guar_eraseExpired : (contract t moves).guar w w.eraseExpired owed := by
  refine ⟨.eraseExpired, fun _ _ => rfl, .of_status fun u cd' hcd' => ?_⟩
  exact ⟨cd', World.of_lookup_eraseExpired hcd', rfl⟩

end Guarantees

/-! ## Payloads -/

theorem WellFormed.of_frame {payload : Bytes} {frame : Frame} (h : decodeFrame payload = some frame) :
    WellFormed payload :=
  .inr (by rw [h]; rfl)

theorem wellFormed_statusPayload {username : Bytes} (h : ValidName username) (st : UserStatus) :
    WellFormed (statusPayload username st) :=
  .of_frame (decodeFrame_statusChanged h.length_lt _)

theorem wellFormed_joinedPayload {username : Bytes} (h : ValidName username) (st : UserStatus) :
    WellFormed (joinedPayload username st) :=
  .of_frame (decodeFrame_userJoined h.length_lt _)

theorem wellFormed_messagePayload {sender msg : Bytes} (hs : ValidName sender)
    (hm : ValidText msg) : WellFormed (messagePayload sender msg) :=
  .of_frame (decodeFrame_newMessage hs.length_lt hm.length_lt)

theorem wellFormed_error (code : UInt8) : WellFormed [50, code] :=
  .inr (by simp [decodeFrame, Codec.decodeAll, Codec.byte])

theorem wellFormed_historyPayload {messages : List Message}
    (h : ∀ m ∈ messages, ValidName m.1 ∧ ValidText m.2) : WellFormed (historyPayload messages) :=
  .of_frame (decodeFrame_historyPayload fun m hm => ⟨(h m hm).1.length_lt, (h m hm).2.length_lt⟩)

theorem wellFormed_userInfoPayload {requestedName : Bytes} (h : requestedName.length < 256)
    (entry : Option ConnectionData) : WellFormed (userInfoPayload requestedName entry) := by
  cases entry with
  | none => exact wellFormed_error 1
  | some cd => exact .of_frame (decodeFrame_userInfo h _)

def userList (entries : List (Sigma fun _ : Bytes => ConnectionData)) : List (Bytes × UInt8) :=
  entries.map fun e => (e.1, userStatusToByte e.2.status)

theorem userListPayload_eq (entries : List (Sigma fun _ : Bytes => ConnectionData)) :
    userListPayload entries =
      51 :: UInt8.ofNat (userList entries).length :: (userList entries).flatMap namedStatus.encode := by
  unfold userListPayload userList
  rw [List.length_map, List.flatMap_map]
  rfl

theorem userList_fits {w : World} (hw : Sound w) :
    ∀ u ∈ userList w.connections.entries, namedStatus.fits u := by
  intro u hu
  obtain ⟨e, he, rfl⟩ := List.mem_map.mp hu
  exact ⟨(hw.name_of_lookup (Table.lookup_eq_some.mpr he)).length_lt, trivial⟩

theorem wellFormed_userListPayload {w : World} (hw : Sound w) :
    WellFormed (userListPayload w.connections.entries) :=
  .inl ⟨_, userList_fits hw, userListPayload_eq _⟩

/-! ## Code that only sends -/

section Sending

variable {t : Thread} {moves : Set Conn} {w : World} {α : Type} {Q : α → World → Prop}

theorem keeps_log_bind {f : Unit → Prog α} (h : Keeps t moves Q (f ()) w) :
    Keeps t moves Q (log.bind f) w :=
  .skip (fun _ => rfl) (.skip (fun _ => rfl) h)

theorem keeps_log : Keeps t moves (fun _ _ => True) log w :=
  .skip (fun _ => rfl) (.skip (fun _ => rfl) (.ret fun _ _ _ => trivial))

theorem keeps_section {p : Prog Unit} (hp : IsSection .connectionsMutex p)
    (h : ∀ w, Sound w → ∃ es, (∀ e ∈ es, IsSend e) ∧ (p.run w).2 = w.emits es) :
    Keeps t moves (fun _ _ => True) p w := by
  refine .of_section hp fun w' _ hw => ?_
  obtain ⟨es, hes, heq⟩ := h w' hw
  rw [heq]
  exact ⟨(Effect.send hes).sound hw, guar_send hes, fun _ _ _ => trivial⟩

theorem keeps_section_sends {p : Prog Unit} (hp : IsSection .connectionsMutex p) {payload : Bytes}
    (hpay : WellFormed payload) {conns : World → List Conn}
    (h : ∀ w, p.run w = ((), w.sends (conns w) payload)) :
    Keeps t moves (fun _ _ => True) p w := by
  refine keeps_section hp fun w' _ => ⟨(conns w').map (Event.sendBinary · payload), ?_, ?_⟩
  · intro e he
    obtain ⟨conn, -, rfl⟩ := List.mem_map.mp he
    exact hpay
  · rw [h]
    rfl

theorem keeps_emit {e : Event} (h : IsSend e) : Keeps t moves (fun _ _ => True) (emit e) w := by
  refine .access fun w' _ hw => ?_
  have hes : ∀ e' ∈ [e], IsSend e' := fun e' he' => List.mem_singleton.mp he' ▸ h
  exact ⟨(Effect.send hes).sound hw, guar_send hes, .ret fun _ _ _ => trivial⟩

theorem balanced_emit (e : Event) : Balanced .connectionsMutex false (emit e) :=
  (avoids_emit e).balanced

theorem keeps_sendError (conn : Conn) (code : UInt8) :
    Keeps t moves (fun _ _ => True) (sendError conn code) w :=
  .bind (balanced_emit _) (keeps_emit (wellFormed_error code)) fun _ _ _ _ => keeps_log

theorem keeps_notifyUserStatusChange {username : Bytes} (h : ValidName username)
    (st : UserStatus) : Keeps t moves (fun _ _ => True) (notifyUserStatusChange username st) w :=
  keeps_section_sends (section_notifyUserStatusChange _ _) (wellFormed_statusPayload h st)
    (notifyUserStatusChange_run username st)

theorem keeps_notifyUserJoined {username : Bytes} (h : ValidName username) (st : UserStatus) :
    Keeps t moves (fun _ _ => True) (notifyUserJoined username st) w := by
  refine .access fun w' _ hw => ⟨hw, (contract t moves).guar_refl _ _, ?_⟩
  change Keeps t moves _ (if w'.testingMode then pure () else log.bind fun _ => sendJoined username st) w'
  rw [if_neg (by simp [hw.testing])]
  exact keeps_log_bind (keeps_section_sends (section_sendJoined _ _)
    (wellFormed_joinedPayload h st) (sendJoined_run username st))

theorem keeps_notifyNewMessage {sender msg : Bytes} (hs : ValidName sender) (hm : ValidText msg)
    (isPrivate : Bool) (recipient : Bytes) :
    Keeps t moves (fun _ _ => True) (notifyNewMessage sender msg isPrivate recipient) w := by
  have hsection := section_sendNewMessage sender (messagePayload sender msg) isPrivate recipient
  refine .async ?_ (keeps_log_bind ?_)
  · exact balanced_bind balanced_log fun _ => balanced_bind hsection.balanced fun _ => balanced_log
  · exact .bind hsection.balanced (keeps_section_sends hsection (wellFormed_messagePayload hs hm)
      (sendNewMessage_run sender _ isPrivate recipient)) fun _ _ _ _ => keeps_log

theorem keeps_section_reply {p : Prog Unit} (hp : IsSection .connectionsMutex p) {conn : Conn}
    {payload : World → Bytes} (hpay : ∀ w, Sound w → WellFormed (payload w))
    (h : ∀ w, p.run w = ((), w.emits [.sendBinary conn (payload w)])) :
    Keeps t moves (fun _ _ => True) p w := by
  refine keeps_section hp fun w' hw => ⟨[.sendBinary conn (payload w')], ?_, ?_⟩
  · intro e he
    exact List.mem_singleton.mp he ▸ hpay w' hw
  · rw [h]

theorem keeps_handleListUsers (conn : Conn) :
    Keeps t moves (fun _ _ => True) (handleListUsers conn) w :=
  keeps_log_bind (keeps_section_reply (section_sendUserList conn)
    (fun _ hw => wellFormed_userListPayload hw) (sendUserList_run conn))

theorem keeps_answerUserInfo (conn : Conn) {requestedName : Bytes}
    (h : requestedName.length < 256) :
    Keeps t moves (fun _ _ => True) (answerUserInfo conn requestedName) w :=
  keeps_section_reply (section_answerUserInfo _ _) (fun _ _ => wellFormed_userInfoPayload h _)
    (answerUserInfo_run conn requestedName)

end Sending

/-! ## Announcements to come -/

theorem owes_notifyUserStatusChange (username : Bytes) (st : UserStatus) :
    Owes .connectionsMutex Sound (toldAll username st) (notifyUserStatusChange username st) :=
  .of_section (section_notifyUserStatusChange _ _) fun w _ => by
    rw [notifyUserStatusChange_run]
    rfl

theorem owes_notifyUserJoined (username : Bytes) (st : UserStatus) :
    Owes .connectionsMutex Sound (toldOthers username st) (notifyUserJoined username st) := by
  refine .access fun w hw => ?_
  change Owes _ _ _ (if w.testingMode then pure () else log.bind fun _ => sendJoined username st)
  rw [if_neg (by simp [hw.testing])]
  refine .bind_right balanced_log fun _ => .of_section (section_sendJoined _ _) fun w' _ => ?_
  rw [sendJoined_run]
  rfl

/-! ## The requests -/

section Requests

variable {t : Thread} {moves : Set Conn} {w : World}

theorem keeps_updateStatus (ht : t.notifies) (username : Bytes) (status : UserStatus) :
    Keeps t moves (fun _ _ => True) (updateStatus username status true) w := by
  refine .section_bind (.withLock (avoids_applyStatus _ _ _)) fun w' _ hw => ?_
  rw [run_withLock, applyStatus_run]
  cases hcd : w'.connections.lookup username with
  | none => exact ⟨hw, (contract t moves).guar_refl _ _, .ret fun _ _ _ => trivial⟩
  | some cd =>
    have hname : ValidName username := hw.name_of_lookup hcd
    refine ⟨(Effect.setStatus _ _).sound hw, guar_setStatus ht ?_, ?_⟩
    · exact owes_notifyUserStatusChange username status
    · exact keeps_notifyUserStatusChange hname status

theorem keeps_changeStatus (ht : t.notifies) (conn : Conn) (sender username : Bytes)
    (rawStatus : UInt8) :
    Keeps t moves (fun _ _ => True) (changeStatus conn sender username rawStatus) w := by
  unfold changeStatus
  split
  · exact keeps_log_bind (keeps_sendError _ _)
  · refine keeps_log_bind ?_
    refine .section_bind (.withLock (avoids_bind avoids_load fun _ => trivial)) fun w' _ hw => ?_
    refine ⟨hw, (contract t moves).guar_refl _ _, ?_⟩
    cases statusOfByte rawStatus with
    | none => exact keeps_sendError _ _
    | some newStatus => exact keeps_log_bind (keeps_updateStatus ht _ _)

theorem keeps_sendBroadcast {sender msg : Bytes} (hs : ValidName sender) (hm : ValidText msg) :
    Keeps t moves (fun _ _ => True) (sendBroadcast sender msg) w := by
  refine .section_bind (section_storeGeneral sender msg) fun w' _ hw => ?_
  rw [run_withLock, storeGeneral_run]
  exact ⟨(Effect.storeGeneral hs hm).sound hw, guar_storeGeneral hs hm,
    keeps_notifyNewMessage hs hm _ _⟩

theorem keeps_sendPrivateMessage {sender msg : Bytes} (recipient : Bytes) (hs : ValidName sender)
    (hm : ValidText msg) :
    Keeps t moves (fun _ _ => True) (sendPrivateMessage sender recipient msg) w := by
  refine .section_bind (.withLock (avoids_storePrivate _ _ _)) fun w' _ hw => ?_
  rw [run_withLock, storePrivate_run]
  by_cases hr : isReachable w'.connections recipient
  · rw [if_pos hr]
    exact ⟨(Effect.storePrivate hs hm hr).sound hw, guar_storePrivate hs hm hr,
      keeps_notifyNewMessage hs hm _ _⟩
  · rw [if_neg hr]
    have hsend : (contract t moves).guar w' (w'.refusePrivate sender) fun _ => False :=
      guar_sends (wellFormed_error 4) (w'.connOf sender).toList
    exact ⟨hsend.1.sound hw, (contract t moves).guar_mono (fun _ => False.elim) hsend,
      .ret fun _ _ _ => trivial⟩

theorem keeps_sendMessage (conn : Conn) {sender mensaje : Bytes} (destino : Bytes)
    (hs : ValidName sender) (hm : mensaje.length < 256) :
    Keeps t moves (fun _ _ => True) (sendMessage conn sender destino mensaje) w := by
  refine keeps_log_bind ?_
  by_cases hempty : mensaje = []
  · rw [if_pos hempty]
    exact keeps_sendError _ _
  · have hlen : ¬ mensaje.length > maxMessageLength := by
      unfold maxMessageLength
      omega
    have hm' : ValidText mensaje := ⟨hempty, by omega⟩
    rw [if_neg hempty, if_neg hlen]
    change Keeps t moves _ (if destino = generalChat then _ else _) w
    split
    · exact keeps_sendBroadcast hs hm'
    · exact keeps_sendPrivateMessage destino hs hm'

theorem keeps_selectHistory (sender target : Bytes) :
    Keeps t moves (fun messages _ => ∀ m ∈ messages, ValidName m.1 ∧ ValidText m.2)
      (selectHistory sender target) w := by
  unfold selectHistory
  split
  · refine .of_section (.withLock (avoids_bind avoids_load fun _ => trivial)) fun w' _ hw => ?_
    exact ⟨hw, (contract t moves).guar_refl _ _, fun _ _ _ => hw.general⟩
  · refine .access fun w' _ hw => ⟨hw, (contract t moves).guar_refl _ _, ?_⟩
    exact .ret fun _ _ _ => hw.chats (chatId sender target)

theorem keeps_answerHistory (conn : Conn) (sender target : Bytes) :
    Keeps t moves (fun _ _ => True) (answerHistory conn sender target) w := by
  refine .bind (balanced_selectHistory _ _) (keeps_selectHistory sender target) ?_
  exact fun messages w' _ hm => keeps_log_bind (keeps_emit (wellFormed_historyPayload hm))

theorem keeps_perform (ht : t.notifies) (conn : Conn) {sender : Bytes} (hs : ValidName sender)
    {r : Request} (hr : r.Fits) : Keeps t moves (fun _ _ => True) (perform conn sender r) w := by
  cases r with
  | listUsers => exact keeps_handleListUsers conn
  | userInfo requestedName => exact keeps_answerUserInfo conn hr
  | changeStatus username rawStatus => exact keeps_changeStatus ht conn sender username rawStatus
  | sendMessage destino mensaje => exact keeps_sendMessage conn destino hs hr
  | history target => exact keeps_answerHistory conn sender target
  | unknown => exact keeps_log

end Requests

/-! ## The calls -/

section Calls

variable {t : Thread} {w : World}

theorem keeps_onMessage (ht : t.notifies) (conn : Conn) (data : Bytes) (isBinary : Bool) :
    Keeps t ∅ (fun _ _ => True) (onMessage conn data isBinary) w := by
  cases data with
  | nil => cases isBinary <;> exact keeps_log_bind keeps_log
  | cons b rest =>
    cases isBinary with
    | false => exact keeps_log_bind keeps_log
    | true =>
      rw [onMessage_binary]
      refine keeps_log_bind (.section_bind (.withLock (avoids_identifySender _ _)) fun w' _ hw => ?_)
      rw [run_withLock, identifySender_run]
      have hserve : ∀ (r : Bytes × Bytes) (v : World), ValidName r.1 → Keeps t ∅ (fun _ _ => True)
          ((if r.2 ≠ [] then updateStatus r.2 .activo true else .ret ()).bind fun _ =>
            log.bind fun _ => serve conn r.1 (b :: rest)) v := by
        intro r v hr
        refine .bind (Q := fun _ _ => True) ?_ ?_ fun _ v' _ _ => keeps_log_bind ?_
        · split
          · exact balanced_updateStatus _ _ _
          · rfl
        · split
          · exact keeps_updateStatus ht _ _
          · exact .ret fun _ _ _ => trivial
        · unfold serve
          cases hreq : readRequest (b :: rest) with
          | error e => exact keeps_log
          | ok req => exact keeps_perform ht conn hr (readRequest_fits hreq)
      cases hfind : w'.findConn conn with
      | none =>
        exact ⟨hw, (contract t ∅).guar_refl _ _, hserve _ _ validName_desconocido⟩
      | some e =>
        refine ⟨(Effect.touch _).sound hw, guar_touch _, hserve _ _ ?_⟩
        exact hw.name_of_findConn hfind

theorem keeps_refuse {conn : Conn} {e : Event} (he : IsRefusal conn e) (hfree : Free w conn)
    {p : Prog Unit} (h : ∀ w', Free w' conn → Keeps (.handlers conn) {conn} (fun _ _ => True) p w') :
    Keeps (.handlers conn) {conn} (fun _ _ => True) ((emit e).bind fun _ => p) w := by
  refine .access fun w' hr hw => ?_
  have hfree' : Free w' conn := fun n => hr conn rfl ▸ hfree n
  have hes : ∀ e' ∈ [e], IsRefusal conn e' := fun e' he' => List.mem_singleton.mp he' ▸ he
  refine ⟨(Effect.refuse hes hfree').sound hw, guar_refuse hes hfree' rfl, h _ fun n => ?_⟩
  change (w'.emits [e]).session conn ≠ _
  rcases World.session_refuse (w := w') hes conn with hs | ⟨-, hs⟩
  · rw [hs]
    exact hfree' n
  · rw [hs]
    exact nofun

theorem owes_welcome (isReconnection : Bool) (username : Bytes) (st : UserStatus) :
    Owes .connectionsMutex Sound (toldOthers username st)
      ((logOpened isReconnection).bind fun _ => startMonitor.bind fun _ =>
        notifyUserJoined username st) :=
  .bind_right (balanced_logOpened _) fun _ => .bind_right balanced_startMonitor fun _ =>
    owes_notifyUserJoined username st

theorem keeps_welcome {moves : Set Conn} (isReconnection : Bool) {username : Bytes}
    (h : ValidName username) (st : UserStatus) :
    Keeps t moves (fun _ _ => True) ((logOpened isReconnection).bind fun _ =>
      startMonitor.bind fun _ => notifyUserJoined username st) w := by
  refine .bind (Q := fun _ _ => True) (balanced_logOpened _) ?_ fun _ w' _ _ => ?_
  · unfold logOpened
    split
    · exact keeps_log
    · refine keeps_log_bind (keeps_log_bind (keeps_section section_logEntries fun w' _ => ?_))
      refine ⟨[], by simp, ?_⟩
      rw [bind_eq, logEntries_run, World.emits_nil]
  · refine .bind (Q := fun _ _ => True) balanced_startMonitor ?_ fun _ w'' _ _ =>
      keeps_notifyUserJoined h st
    refine .access fun v _ hv => ⟨hv, (contract t moves).guar_refl _ _, ?_⟩
    change Keeps t moves _ (if v.monitorStarted then pure () else update _) v
    split
    · exact .ret fun _ _ _ => trivial
    · refine .access fun v' _ hv' => ?_
      have hflag : (contract t moves).guar v' { v' with monitorStarted := true } fun _ => False :=
        guar_flag v'.userMarkedInactive true
      exact ⟨hflag.1.sound hv', (contract t moves).guar_mono (fun _ => False.elim) hflag,
        .ret fun _ _ _ => trivial⟩

/-- **`on_open`.** The connection has no name when the call begins. -/
theorem keeps_onOpen (conn : Conn) (username : Bytes) (hfree : Free w conn) :
    Keeps (.handlers conn) {conn} (fun _ _ => True) (onOpen conn username) w := by
  refine .access fun w' hr hw => ⟨hw, (contract _ _).guar_refl _ _, ?_⟩
  have hfree' : Free w' conn := fun n => hr conn rfl ▸ hfree n
  change Keeps _ _ _ (if username = [] ∨ username.length > 20 ∨ username = generalChat then _
    else _) w'
  split
  · refine keeps_log_bind (keeps_refuse (.inl ⟨_, rfl⟩) hfree' fun v hv => ?_)
    exact keeps_refuse (.inr ⟨_, rfl⟩) hv fun _ _ => .ret fun _ _ _ => trivial
  · rename_i hvalid
    have hname : ValidName username := by_contra fun hbad => hvalid (not_validName_iff.mp hbad)
    refine .section_bind (.withLock (avoids_admitUser _ _ _)) fun v hrv hv => ?_
    have hfreev : Free v conn := fun n => hrv conn rfl ▸ hfree' n
    rw [run_withLock, admitUser_run]
    cases hcd : v.connections.lookup username with
    | none =>
      exact ⟨(Effect.register _ hname hcd hfreev).sound hv,
        guar_register _ hname hcd hfreev rfl (owes_welcome _ _ _), keeps_welcome _ hname _⟩
    | some cd =>
      dsimp only
      split
      · have hes : ∀ e ∈ [Event.sendText conn "Error: Nombre duplicado.", .close conn "Duplicado."],
            IsRefusal conn e := by simp [IsRefusal]
        exact ⟨(Effect.refuse hes hfreev).sound hv, guar_refuse hes hfreev rfl,
          .ret fun _ _ _ => trivial⟩
      · rename_i hconn
        rw [Option.not_isSome_iff_eq_none] at hconn
        exact ⟨(Effect.reconnect _ hcd hconn hfreev).sound hv,
          guar_reconnect _ hcd hconn hfreev rfl (owes_welcome _ _ _), keeps_welcome _ hname _⟩

/-- **`on_close`.** The connection has no name when the call is over. -/
theorem keeps_onClose (conn : Conn) :
    Keeps (.handlers conn) {conn} (fun _ w' => Free w' conn) (onClose conn) w := by
  refine .section_bind (.withLock (avoids_disconnect conn)) fun w' _ hw => ?_
  rw [run_withLock, disconnect_run]
  have hleft : ∀ (trace : List Event), session (trace ++ [.left conn]) conn = .closed :=
    fun trace => by rw [World.session_left, if_pos rfl]
  cases hfind : w'.findConn conn with
  | none =>
    refine ⟨(Effect.leave hfind).sound hw, guar_leave hfind rfl, .ret fun v hr _ n => ?_⟩
    rw [hr conn rfl]
    change session (w'.trace ++ [.left conn]) conn ≠ _
    rw [hleft]
    exact nofun
  | some e =>
    have hname := hw.name_of_findConn hfind
    refine ⟨(Effect.disconnect hfind).sound hw, guar_disconnect hfind rfl rfl ?_, ?_⟩
    · rw [if_pos hname.1]
      exact owes_notifyUserStatusChange _ _
    · rw [if_pos hname.1]
      have hfree : Free (w'.disconnect conn e.1 e.2.status) conn := by
        intro n
        change session (w'.trace ++ [.left conn]) conn ≠ _
        rw [hleft]
        exact nofun
      have hnotify : Keeps (.handlers conn) ∅ (fun _ _ => True)
          (notifyUserStatusChange e.1 .disconnected) (w'.disconnect conn e.1 e.2.status) :=
        keeps_notifyUserStatusChange hname .disconnected
      exact ((hnotify.free hfree).widen _).mono fun _ _ _ h => h.2

theorem keeps_monitorPass (ht : t.notifies) : Keeps t ∅ (fun _ _ => True) monitorPass w := by
  refine .section_bind (.withLock avoids_findIdle) fun w' _ hw => ?_
  rw [run_withLock, findIdle_run]
  have hbal : ∀ u, Balanced .connectionsMutex false (notifyUserStatusChange u .inactivo) :=
    fun u => (section_notifyUserStatusChange u _).balanced
  refine ⟨Effect.markIdle.sound hw, guar_markIdle ht fun u hu => ?_, ?_⟩
  · refine .bind (balanced_forEach _ hbal) ?_
    exact .forEach hu hbal (owes_notifyUserStatusChange u _)
  · refine .bind (Q := fun _ _ => True) (balanced_forEach _ hbal) ?_ fun _ v _ _ => ?_
    · refine .forEach _ hbal (fun u hu v _ _ => ?_) fun _ _ _ => trivial
      obtain ⟨cd, hcd, -⟩ := World.mem_idleUsers.mp hu
      exact keeps_notifyUserStatusChange (hw.name_of_lookup hcd) _
    · split
      · refine .skip (fun _ => rfl) (.access fun v' _ hv' => ?_)
        have hflag : (contract t ∅).guar v' { v' with userMarkedInactive := false } fun _ => False :=
          guar_flag false v'.monitorStarted
        exact ⟨hflag.1.sound hv', (contract t ∅).guar_mono (fun _ => False.elim) hflag,
          .skip (fun _ => rfl) (.ret fun _ _ _ => trivial)⟩
      · exact .ret fun _ _ _ => trivial

theorem keeps_cleanupPass : Keeps t ∅ (fun _ _ => True) cleanupPass w := by
  refine .of_section section_cleanupPass fun w' _ hw => ?_
  rw [cleanupPass_run]
  exact ⟨Effect.eraseExpired.sound hw, guar_eraseExpired, fun _ _ _ => trivial⟩

end Calls

end ChatServer
