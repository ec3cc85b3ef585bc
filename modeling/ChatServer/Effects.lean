import ChatServer.Sections

/-!
# What a step can do

`Effect` lists every change of the world that a step of any thread makes, with what the
thread knows when it makes it. `Sound` is the invariant that all effects keep.
-/

namespace ChatServer

/-! ## Names and texts -/

def ValidName (username : Bytes) : Prop :=
  username ≠ [] ∧ username.length ≤ 20 ∧ username ≠ generalChat

instance (username : Bytes) : Decidable (ValidName username) := inferInstanceAs (Decidable (_ ∧ _))

theorem not_validName_iff {name : Bytes} :
    ¬ ValidName name ↔ name = [] ∨ name.length > 20 ∨ name = generalChat := by
  unfold ValidName
  rw [not_and_or, not_and_or, not_not, not_not, Nat.not_le]

def ValidText (text : Bytes) : Prop := text ≠ [] ∧ text.length ≤ 255

theorem ValidName.length_lt {username : Bytes} (h : ValidName username) : username.length < 256 := by
  have := h.2.1
  omega

theorem ValidText.length_lt {text : Bytes} (h : ValidText text) : text.length < 256 := by
  have := h.2
  omega

theorem validName_desconocido : ValidName desconocido := by decide

/-! ## Sessions -/

/-- What the server has last done with a connection. -/
inductive Session
  | fresh
  | accepted (username : Bytes)
  | rejected
  | closed
  deriving DecidableEq

def Session.after (conn : Conn) (s : Session) : Event → Session
  | .accepted c username => if c = conn then .accepted username else s
  | .close c _ => if c = conn then .rejected else s
  | .left c => if c = conn then .closed else s
  | _ => s

def session (trace : List Event) (conn : Conn) : Session := trace.foldl (Session.after conn) .fresh

def World.session (w : World) (conn : Conn) : Session := ChatServer.session w.trace conn

def Free (w : World) (conn : Conn) : Prop := ∀ n, w.session conn ≠ .accepted n

/-- A payload that has the form of its code. The count of a 51 frame is that of its users modulo
256. -/
def WellFormed (payload : Bytes) : Prop :=
  (∃ users : List (Bytes × UInt8), (∀ u ∈ users, namedStatus.fits u) ∧
      payload = 51 :: UInt8.ofNat users.length :: users.flatMap namedStatus.encode) ∨
    (decodeFrame payload).isSome

/-- The event is a frame of the right form, or a text. -/
def IsSend : Event → Prop
  | .sendBinary _ payload => WellFormed payload
  | .sendText _ _ => True
  | _ => False

theorem Session.after_send {e : Event} (h : IsSend e) (conn : Conn) (s : Session) :
    s.after conn e = s := by
  cases e <;> first | rfl | cases h

/-- `on_open` tells `conn` that it does not let it in. -/
def IsRefusal (conn : Conn) (e : Event) : Prop :=
  (∃ text, e = .sendText conn text) ∨ ∃ reason, e = .close conn reason

/-! ## The effects -/

inductive Effect (w : World) : World → Prop
  | flag (userMarkedInactive monitorStarted : Bool) :
      Effect w { w with userMarkedInactive := userMarkedInactive, monitorStarted := monitorStarted }
  | send {es : List Event} (h : ∀ e ∈ es, IsSend e) : Effect w (w.emits es)
  | refuse {conn : Conn} {es : List Event} (h : ∀ e ∈ es, IsRefusal conn e)
      (hfree : Free w conn) : Effect w (w.emits es)
  | register {conn : Conn} {username : Bytes} (clientIp : Bytes) (hname : ValidName username)
      (hnew : w.connections.lookup username = none)
      (hfree : Free w conn) : Effect w (w.register conn username clientIp)
  | reconnect {conn : Conn} {username : Bytes} {cd : ConnectionData} (clientIp : Bytes)
      (hcd : w.connections.lookup username = some cd) (hconn : cd.conn = none)
      (hfree : Free w conn) :
      Effect w (w.reconnect conn username clientIp (World.backStatus cd))
  | touch (username : Bytes) : Effect w (w.touch username)
  | setStatus (username : Bytes) (status : UserStatus) : Effect w (w.setStatus username status)
  | storeGeneral {sender msg : Bytes} (hs : ValidName sender) (hm : ValidText msg) :
      Effect w (w.storeGeneral sender msg)
  | storePrivate {sender recipient msg : Bytes} (hs : ValidName sender) (hm : ValidText msg)
      (hr : isReachable w.connections recipient) : Effect w (w.storePrivate sender recipient msg)
  | leave {conn : Conn} (h : w.findConn conn = none) : Effect w (w.emits [.left conn])
  | disconnect {conn : Conn} {e : Sigma fun _ : Bytes => ConnectionData}
      (h : w.findConn conn = some e) : Effect w (w.disconnect conn e.1 e.2.status)
  | markIdle : Effect w w.markIdle
  | eraseExpired : Effect w w.eraseExpired

theorem Effect.refl (w : World) : Effect w w := .flag w.userMarkedInactive w.monitorStarted

namespace World

/-! ## Connections of users -/

theorem connOf_eq_some {w : World} {username : Bytes} {conn : Conn} :
    w.connOf username = some conn ↔
      ∃ cd, w.connections.lookup username = some cd ∧ cd.conn = some conn := by
  simp [connOf, Option.bind_eq_some_iff]

theorem mem_live {w : World} {conn : Conn} : conn ∈ w.live ↔ ∃ n, w.connOf n = some conn := by
  simp [live, connOf_eq_some, Table.lookup_eq_some]

theorem mem_others {w : World} {username : Bytes} {conn : Conn} :
    conn ∈ w.others username ↔ ∃ n, n ≠ username ∧ w.connOf n = some conn := by
  simp only [others, List.mem_filterMap, connOf_eq_some, Table.lookup_eq_some]
  constructor
  · rintro ⟨e, he, hconn⟩
    split at hconn
    · rename_i hne
      exact ⟨e.1, hne, e.2, he, hconn⟩
    · cases hconn
  · rintro ⟨n, hne, cd, he, hconn⟩
    exact ⟨⟨n, cd⟩, he, by simp [hne, hconn]⟩

theorem mem_recipients {w : World} {sender : Bytes} {isPrivate : Bool} {recipient : Bytes}
    {conn : Conn} (h : conn ∈ w.recipients sender isPrivate recipient) :
    ∃ n, w.connOf n = some conn := by
  unfold recipients at h
  split at h
  · rw [List.mem_append, Option.mem_toList, Option.mem_toList] at h
    exact h.elim (⟨sender, ·⟩) (⟨recipient, ·⟩)
  · exact mem_live.mp h

@[simp] theorem connOf_emits (w : World) (es : List Event) (n : Bytes) :
    (w.emits es).connOf n = w.connOf n := rfl

@[simp] theorem connOf_touch (w : World) (username n : Bytes) :
    (w.touch username).connOf n = w.connOf n := by
  simp only [connOf, touch_connections, Table.lookup_modify]
  split
  · cases w.connections.lookup n <;> rfl
  · rfl

@[simp] theorem connOf_setStatus (w : World) (username : Bytes) (status : UserStatus) (n : Bytes) :
    (w.setStatus username status).connOf n = w.connOf n := by
  simp only [connOf, setStatus_connections, Table.lookup_modify]
  split
  · cases w.connections.lookup n <;> rfl
  · rfl

@[simp] theorem connOf_storeGeneral (w : World) (sender msg n : Bytes) :
    (w.storeGeneral sender msg).connOf n = w.connOf n := rfl

@[simp] theorem connOf_storePrivate (w : World) (sender recipient msg n : Bytes) :
    (w.storePrivate sender recipient msg).connOf n = w.connOf n := rfl

@[simp] theorem connOf_markIdle (w : World) (n : Bytes) : w.markIdle.connOf n = w.connOf n := by
  simp only [connOf, markIdle_connections, Table.lookup_mapVal]
  cases w.connections.lookup n with
  | none => rfl
  | some cd =>
    simp only [Option.map_some, Option.bind_some]
    split <;> rfl

@[simp] theorem connOf_eraseExpired (w : World) (n : Bytes) :
    w.eraseExpired.connOf n = w.connOf n := by
  simp only [connOf, eraseExpired_connections, Table.lookup_filter]
  cases h : w.connections.lookup n with
  | none => rfl
  | some cd =>
    by_cases hexp : n ∈ w.expiredUsers (w.steadyClock 0)
    · obtain ⟨cd', hcd', hconn, -⟩ := mem_expiredUsers.mp hexp
      rw [h, Option.some.injEq] at hcd'
      simp [Option.filter, hexp, hcd', hconn]
    · simp [Option.filter, hexp]

theorem connOf_register (w : World) (conn : Conn) (username clientIp n : Bytes) :
    (w.register conn username clientIp).connOf n =
      if n = username then some conn else w.connOf n := by
  simp only [connOf, register_connections, Table.lookup_insert_eq]
  split <;> rfl

theorem connOf_reconnect (w : World) (conn : Conn) {username : Bytes} {cd : ConnectionData}
    (clientIp : Bytes) (status : UserStatus) (hcd : w.connections.lookup username = some cd)
    (n : Bytes) : (w.reconnect conn username clientIp status).connOf n =
      if n = username then some conn else w.connOf n := by
  simp only [connOf, reconnect_connections, Table.lookup_modify]
  by_cases h : n = username
  · subst h
    simp [hcd]
  · simp [h]

theorem connOf_disconnect (w : World) (conn : Conn) (username : Bytes) (status : UserStatus)
    (n : Bytes) : (w.disconnect conn username status).connOf n =
      if n = username then none else w.connOf n := by
  simp only [connOf, disconnect_connections, Table.lookup_modify]
  split
  · cases w.connections.lookup n <;> rfl
  · rfl

theorem findConn_eq_some {w : World} {conn : Conn} {e : Sigma fun _ : Bytes => ConnectionData}
    (h : w.findConn conn = some e) :
    w.connections.lookup e.1 = some e.2 ∧ w.connOf e.1 = some conn := by
  have hmem := List.mem_of_find?_eq_some h
  have hconn := List.find?_some h
  rw [decide_eq_true_eq] at hconn
  have hlookup := Table.lookup_eq_some.mpr hmem
  exact ⟨hlookup, connOf_eq_some.mpr ⟨e.2, hlookup, hconn⟩⟩

theorem findConn_eq_none {w : World} {conn : Conn} :
    w.findConn conn = none ↔ ∀ n, w.connOf n ≠ some conn := by
  constructor
  · intro h n hn
    obtain ⟨cd, hcd, hconn⟩ := connOf_eq_some.mp hn
    have hnone := List.find?_eq_none.mp h ⟨n, cd⟩ (Table.lookup_eq_some.mp hcd)
    exact hnone (decide_eq_true hconn)
  · intro h
    by_contra hne
    obtain ⟨e, he⟩ := Option.ne_none_iff_exists'.mp hne
    exact h e.1 (findConn_eq_some he).2

/-! ## Sessions -/

theorem session_concat (trace es : List Event) (conn : Conn) :
    ChatServer.session (trace ++ es) conn =
      es.foldl (Session.after conn) (ChatServer.session trace conn) :=
  List.foldl_append

theorem session_emits (w : World) (es : List Event) (conn : Conn) :
    (w.emits es).session conn = es.foldl (Session.after conn) (w.session conn) :=
  session_concat _ _ _

theorem session_sends {w : World} {es : List Event} (h : ∀ e ∈ es, IsSend e) (conn : Conn) :
    (w.emits es).session conn = w.session conn := by
  rw [session_emits]
  induction es with
  | nil => rfl
  | cons e es ih =>
    rw [List.foldl_cons, Session.after_send (h e List.mem_cons_self)]
    exact ih fun e' he' => h e' (List.mem_cons_of_mem e he')

theorem session_refuse {w : World} {conn : Conn} {es : List Event}
    (h : ∀ e ∈ es, IsRefusal conn e) (c : Conn) :
    (w.emits es).session c = w.session c ∨ c = conn ∧ (w.emits es).session c = .rejected := by
  rw [session_emits]
  generalize w.session c = s
  induction es generalizing s with
  | nil => exact .inl rfl
  | cons e es ih =>
    have hrest := fun s => ih (fun e' he' => h e' (List.mem_cons_of_mem e he')) s
    rw [List.foldl_cons]
    rcases h e List.mem_cons_self with ⟨text, rfl⟩ | ⟨reason, rfl⟩
    · exact hrest s
    · rcases eq_or_ne conn c with rfl | hc
      · simp only [Session.after, if_true]
        rcases hrest .rejected with hr | ⟨-, hr⟩ <;> simp [hr]
      · simp only [Session.after, if_neg hc]
        exact hrest s

theorem session_accepted (trace : List Event) (conn : Conn) (username : Bytes)
    (c : Conn) : ChatServer.session (trace ++ [.accepted conn username]) c =
      if conn = c then .accepted username else ChatServer.session trace c := by
  rw [session_concat]
  rfl

theorem session_left (trace : List Event) (conn c : Conn) :
    ChatServer.session (trace ++ [.left conn]) c =
      if conn = c then .closed else ChatServer.session trace c := by
  rw [session_concat]
  rfl

end World

/-! ## The invariant -/

/-- A user has a connection if and only if that connection was accepted under its name. -/
def Owned (w : World) : Prop := ∀ n c, w.connOf n = some c ↔ w.session c = .accepted n

structure Sound (w : World) : Prop where
  names : ∀ n, (w.connections.lookup n).isSome → ValidName n
  owned : Owned w
  chats : ∀ key, ∀ m ∈ w.chat key, ValidName m.1 ∧ ValidText m.2
  general : ∀ m ∈ w.generalChatHistory, ValidName m.1 ∧ ValidText m.2
  frames : ∀ conn payload, .sendBinary conn payload ∈ w.trace → WellFormed payload
  testing : w.testingMode = false

theorem Sound.name_of_lookup {w : World} (hw : Sound w) {n : Bytes} {cd : ConnectionData}
    (h : w.connections.lookup n = some cd) : ValidName n :=
  hw.names n (by simp [h])

theorem Sound.name_of_findConn {w : World} (hw : Sound w) {conn : Conn}
    {e : Sigma fun _ : Bytes => ConnectionData} (h : w.findConn conn = some e) : ValidName e.1 :=
  hw.name_of_lookup (World.findConn_eq_some h).1

theorem Owned.unique {w : World} (h : Owned w) {n n' : Bytes} {c : Conn}
    (hn : w.connOf n = some c) (hn' : w.connOf n' = some c) : n = n' := by
  rw [h] at hn hn'
  rw [hn] at hn'
  exact Session.accepted.inj hn'

theorem Owned.findConn {w : World} (h : Owned w) {n : Bytes} {c : Conn} {cd : ConnectionData}
    (hn : w.connOf n = some c) (hcd : w.connections.lookup n = some cd) :
    w.findConn c = some ⟨n, cd⟩ := by
  cases hfind : w.findConn c with
  | none => exact absurd hn (World.findConn_eq_none.mp hfind n)
  | some e =>
    obtain ⟨hlookup, hconn⟩ := World.findConn_eq_some hfind
    obtain ⟨u, cd'⟩ := e
    obtain rfl := h.unique hconn hn
    rw [hcd] at hlookup
    rw [Option.some.inj hlookup]

theorem Owned.live_nodup {w : World} (h : Owned w) : w.live.Nodup := by
  rw [List.Nodup, World.live, List.pairwise_filterMap]
  have hkeys := List.nodupKeys_iff_pairwise.mp w.connections.nodupKeys
  refine hkeys.imp_of_mem fun {e e'} he he' hne c hc c' hc' => ?_
  rintro rfl
  have hmem : ∀ e ∈ w.connections.entries, e.2.conn = some c → w.connOf e.1 = some c :=
    fun e he hc => World.connOf_eq_some.mpr ⟨e.2, Table.lookup_eq_some.mpr he, hc⟩
  exact hne (h.unique (hmem e he hc) (hmem e' he' hc'))

namespace Effect

variable {w w' : World}

theorem names (h : Effect w w') (hw : ∀ n, (w.connections.lookup n).isSome → ValidName n) :
    ∀ n, (w'.connections.lookup n).isSome → ValidName n := by
  have hmodify : ∀ u f, ∀ n, ((w.connections.modify u f).lookup n).isSome → ValidName n := by
    intro u f n hn
    refine hw n ?_
    rw [Table.lookup_modify] at hn
    split at hn
    · simpa using hn
    · exact hn
  intro n hn
  cases h with
  | flag | send | refuse | leave | storeGeneral | storePrivate => exact hw n hn
  | touch | setStatus | reconnect | disconnect => exact hmodify _ _ n hn
  | markIdle => exact hw n (by simpa using hn)
  | eraseExpired =>
    simp only [World.eraseExpired_connections, Table.lookup_filter] at hn
    exact hw n (Option.isSome_of_isSome_filter _ _ hn)
  | register clientIp hname =>
    rw [World.register_connections, Table.lookup_insert_eq] at hn
    split at hn
    · rename_i heq
      exact heq ▸ hname
    · exact hw n hn

theorem owned_accept {conn : Conn} {username : Bytes} (hw : Owned w)
    (hconn : ∀ n, w'.connOf n = if n = username then some conn else w.connOf n)
    (htrace : w'.trace = w.trace ++ [.accepted conn username])
    (hnone : w.connOf username = none) (hfree : Free w conn) : Owned w' := by
  intro n c
  rw [hconn, World.session, htrace, World.session_accepted]
  change _ ↔ (if conn = c then Session.accepted username else w.session c) = _
  by_cases hn : n = username <;> by_cases hc : conn = c
  · simp [hn, hc]
  · rw [if_pos hn, if_neg hc, hn, ← hw, hnone]
    simp [hc]
  · rw [if_neg hn, if_pos hc, hw, ← hc]
    simp [hfree n, Ne.symm hn]
  · rw [if_neg hn, if_neg hc]
    exact hw n c

theorem owned_disconnect {conn : Conn} {username : Bytes} (hw : Owned w)
    (hconn : w.connOf username = some conn) (status : UserStatus) :
    Owned (w.disconnect conn username status) := by
  intro n c
  rw [World.connOf_disconnect, World.session, World.disconnect_trace, World.session_left]
  change _ ↔ (if conn = c then Session.closed else w.session c) = _
  by_cases hn : n = username <;> by_cases hc : conn = c
  · simp [hn, hc]
  · rw [if_pos hn, if_neg hc, hn, ← hw, hconn]
    simp [hc]
  · rw [if_neg hn, if_pos hc, ← hc]
    simp only [reduceCtorEq, iff_false]
    exact fun h => hn (hw.unique h hconn)
  · rw [if_neg hn, if_neg hc]
    exact hw n c

theorem owned (h : Effect w w') (hw : Owned w) : Owned w' := by
  intro n c
  cases h with
  | flag => exact hw n c
  | send h =>
    rw [World.session_sends h]
    exact hw n c
  | @refuse conn es h hfree =>
    rw [World.connOf_emits, hw]
    rcases World.session_refuse h c with hs | ⟨rfl, hs⟩
    · rw [hs]
    · simp [hs, hfree n]
  | touch => rw [World.connOf_touch, hw]; rfl
  | setStatus => rw [World.connOf_setStatus, hw]; rfl
  | markIdle => rw [World.connOf_markIdle, hw]; rfl
  | eraseExpired => rw [World.connOf_eraseExpired, hw]; rfl
  | storeGeneral =>
    rw [World.connOf_storeGeneral, hw, World.session, World.session, World.storeGeneral_trace,
      World.session_concat]
    rfl
  | storePrivate =>
    rw [World.connOf_storePrivate, hw, World.session, World.session, World.storePrivate_trace,
      World.session_concat]
    rfl
  | register clientIp _ hnew hfree =>
    refine owned_accept hw (World.connOf_register _ _ _ _) rfl ?_ hfree n c
    simp [World.connOf, hnew]
  | reconnect clientIp hcd hconn hfree =>
    refine owned_accept hw (World.connOf_reconnect _ _ _ _ hcd) rfl ?_ hfree n c
    simp [World.connOf, hcd, hconn]
  | @leave conn h =>
    rw [World.connOf_emits, World.session, World.emits_trace, World.session_left]
    change _ ↔ (if conn = c then Session.closed else w.session c) = _
    by_cases hc : conn = c
    · rw [if_pos hc, ← hc]
      simp [World.findConn_eq_none.mp h n]
    · rw [if_neg hc]
      exact hw n c
  | disconnect h => exact owned_disconnect hw (World.findConn_eq_some h).2 _ n c

theorem chats (h : Effect w w') (hw : ∀ key, ∀ m ∈ w.chat key, ValidName m.1 ∧ ValidText m.2) :
    ∀ key, ∀ m ∈ w'.chat key, ValidName m.1 ∧ ValidText m.2 := by
  intro key m hm
  cases h with
  | @storePrivate sender recipient msg hs hm' =>
    simp only [World.storePrivate, World.emits, World.chat, Table.lookup_insert_eq] at hm
    split at hm
    · rw [Option.getD_some, List.mem_append, List.mem_singleton] at hm
      rcases hm with hm | rfl
      · exact hw _ m hm
      · exact ⟨hs, hm'⟩
    · exact hw key m hm
  | _ => exact hw key m hm

theorem general (h : Effect w w')
    (hw : ∀ m ∈ w.generalChatHistory, ValidName m.1 ∧ ValidText m.2) :
    ∀ m ∈ w'.generalChatHistory, ValidName m.1 ∧ ValidText m.2 := by
  intro m hm
  cases h with
  | storeGeneral hs hm' =>
    rw [World.storeGeneral_general, List.mem_append, List.mem_singleton] at hm
    rcases hm with hm | rfl
    · exact hw m hm
    · exact ⟨hs, hm'⟩
  | _ => exact hw m hm

theorem frames (h : Effect w w')
    (hw : ∀ conn payload, .sendBinary conn payload ∈ w.trace → WellFormed payload) :
    ∀ conn payload, .sendBinary conn payload ∈ w'.trace → WellFormed payload := by
  intro conn payload hmem
  cases h with
  | send h =>
    rw [World.emits_trace, List.mem_append] at hmem
    rcases hmem with hmem | hmem
    · exact hw conn payload hmem
    · exact h _ hmem
  | refuse h =>
    rw [World.emits_trace, List.mem_append] at hmem
    rcases hmem with hmem | hmem
    · exact hw conn payload hmem
    · rcases h _ hmem with ⟨_, heq⟩ | ⟨_, heq⟩ <;> cases heq
  | flag | touch | setStatus | markIdle | eraseExpired => exact hw conn payload hmem
  | storeGeneral | storePrivate | register | reconnect | leave | disconnect =>
    refine hw conn payload ?_
    simpa using hmem

theorem trace_cases (h : Effect w w') : ∃ es, w'.trace = w.trace ++ es ∧
    ((∀ c n, .accepted c n ∉ es) ∨ ∃ c n, es = [.accepted c n]) := by
  cases h with
  | flag | touch | setStatus | markIdle | eraseExpired => exact ⟨[], by simp, .inl (by simp)⟩
  | @send es h => exact ⟨es, rfl, .inl fun c n hmem => h _ hmem⟩
  | @refuse conn es h =>
    refine ⟨es, rfl, .inl fun c n hmem => ?_⟩
    rcases h _ hmem with ⟨_, heq⟩ | ⟨_, heq⟩ <;> cases heq
  | storeGeneral | storePrivate | leave | disconnect => exact ⟨_, rfl, .inl (by simp)⟩
  | register | reconnect => exact ⟨_, rfl, .inr ⟨_, _, rfl⟩⟩

theorem connOf_cases (h : Effect w w') {c : Conn} {n : Bytes} (hc : w'.connOf n = some c) :
    w.connOf n = some c ∨ w'.trace = w.trace ++ [.accepted c n] := by
  cases h with
  | flag | send | refuse | leave => exact .inl hc
  | touch | setStatus | markIdle | eraseExpired | storeGeneral | storePrivate =>
    exact .inl (by simpa using hc)
  | register =>
    rw [World.connOf_register] at hc
    split at hc
    · rename_i hn
      obtain rfl := Option.some.inj hc
      exact .inr (hn ▸ rfl)
    · exact .inl hc
  | reconnect clientIp hcd =>
    rw [World.connOf_reconnect _ _ _ _ hcd] at hc
    split at hc
    · rename_i hn
      obtain rfl := Option.some.inj hc
      exact .inr (hn ▸ rfl)
    · exact .inl hc
  | disconnect =>
    rw [World.connOf_disconnect] at hc
    split at hc
    · cases hc
    · exact .inl hc

theorem testing (h : Effect w w') (hw : w.testingMode = false) : w'.testingMode = false := by
  cases h <;> exact hw

/-- **Soundness.** Every effect keeps the invariant. -/
theorem sound (h : Effect w w') (hw : Sound w) : Sound w' where
  names := h.names hw.names
  owned := h.owned hw.owned
  chats := h.chats hw.chats
  general := h.general hw.general
  frames := h.frames hw.frames
  testing := h.testing hw.testing

end Effect

theorem Sound.init (steadyClock : Nat → TimePoint) (time : Nat → Int64) (remoteIp : Conn → Bytes) :
    Sound (.init steadyClock time remoteIp) where
  names n hn := by simp [World.init] at hn
  owned n c := by simp [World.connOf, World.init, World.session, session]
  chats key m hm := by simp [World.chat, World.init] at hm
  general m hm := by simp [World.init] at hm
  frames conn payload hmem := by simp [World.init] at hmem
  testing := rfl

end ChatServer
