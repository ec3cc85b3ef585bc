import ChatServer.Frames

/-!
# What a connection may do

`on_message` for a connection without a name, which runs under the name of the fallback
sender, and for the connection of a user.
-/

open Program

namespace ChatServer

/-! ## Connections without a name -/

/-- The connection that an output goes to. -/
def Event.target : Event → Option Conn
  | .sendBinary conn _ | .sendText conn _ | .close conn _ => some conn
  | _ => none

/-- Serving the frame changes nothing, and sends to nobody else. -/
def Powerless (conn : Conn) (w w' : World) : Prop :=
  (w'.connections = w.connections ∧ w'.lastUserStatus = w.lastUserStatus ∧
    w'.chatHistory = w.chatHistory ∧ w'.generalChatHistory = w.generalChatHistory) ∧
  ∀ e ∈ w'.trace.drop w.trace.length, ∀ c, e.target = some c → c = conn

/-- The frame does nothing under the name of the fallback sender: it is no message that somebody
gets, and no change of the status of an entry of that name. -/
def Harmless (w : World) (data : Bytes) : Prop :=
  (∀ destino mensaje, IsMessage data destino mensaje → mensaje = [] ∨
    destino ≠ generalChat ∧ ¬ isReachable w.connections destino ∧ w.connOf desconocido = none) ∧
  ∀ st cd, IsStatusChange data desconocido (userStatusToByte st) →
    w.connections.lookup desconocido = some cd →
      cd.status = st ∧ cd.lastActive = w.steadyClock 0 ∧ w.live = []

theorem powerless_reply (conn : Conn) (payload : Bytes) (w : World) :
    Powerless conn w (w.emits [.sendBinary conn payload]) :=
  ⟨⟨rfl, rfl, rfl, rfl⟩, by simp [Event.target]⟩

theorem powerless_refl (conn : Conn) (w : World) : Powerless conn w w :=
  ⟨⟨rfl, rfl, rfl, rfl⟩, by simp⟩

theorem powerless_sends_iff {conn : Conn} {w : World} (hconn : ∀ n, w.connOf n ≠ some conn)
    (conns : List Conn) (husers : ∀ c ∈ conns, ∃ n, w.connOf n = some c) (payload : Bytes) :
    (∀ e ∈ (w.sends conns payload).trace.drop w.trace.length, ∀ c, e.target = some c → c = conn) ↔
      conns = [] := by
  rw [World.sends_trace, List.drop_left]
  constructor
  · intro h
    by_contra hne
    obtain ⟨c, cs, rfl⟩ := List.exists_cons_of_ne_nil hne
    obtain ⟨n, hn⟩ := husers c List.mem_cons_self
    exact hconn n (h (.sendBinary c payload) (by simp) c rfl ▸ hn)
  · rintro rfl
    simp

theorem powerless_updateStatus_iff {conn : Conn} {w : World} (hconn : ∀ n, w.connOf n ≠ some conn)
    (username : Bytes) (status : UserStatus) :
    Powerless conn w (w.updateStatus username status) ↔
      ∀ cd, w.connections.lookup username = some cd →
        cd.status = status ∧ cd.lastActive = w.steadyClock 0 ∧ w.live = [] := by
  unfold World.updateStatus
  cases hcd : w.connections.lookup username with
  | none => simp [powerless_refl]
  | some cd =>
    have hconn' : ∀ n, (w.setStatus username status).connOf n ≠ some conn :=
      fun n => (World.connOf_setStatus w username status n).symm ▸ hconn n
    have hsent := powerless_sends_iff hconn' w.live (fun c hc => by simpa using World.mem_live.mp hc)
      (statusPayload username status)
    have hentry : (w.setStatus username status).connections = w.connections ↔
        cd.status = status ∧ cd.lastActive = w.steadyClock 0 := by
      rw [World.setStatus_connections]
      constructor
      · intro heq
        have hlookup := congrArg (AList.lookup username) heq
        rw [Table.lookup_modify_self, hcd, Option.map_some, Option.some.injEq] at hlookup
        rw [← hlookup]
        exact ⟨rfl, rfl⟩
      · rintro ⟨rfl, hactive⟩
        apply Table.modify_eq_self
        intro v hv
        rw [hcd, Option.some.injEq] at hv
        rw [← hv, ← hactive]
    simp only [Option.isSome_some, if_true, Option.some.injEq, forall_eq', ← and_assoc, ← hentry,
      ← hsent]
    exact and_congr_left fun _ => ⟨fun h => h.1, fun h => ⟨h, rfl, rfl, rfl⟩⟩

theorem powerless_changeStatus_iff {conn : Conn} {w : World} (hconn : ∀ n, w.connOf n ≠ some conn)
    (sender username : Bytes) (rawStatus : UInt8) :
    Powerless conn w (w.changeStatus conn sender username rawStatus) ↔
      ∀ st cd, username = sender → rawStatus = userStatusToByte st →
        w.connections.lookup sender = some cd →
          cd.status = st ∧ cd.lastActive = w.steadyClock 0 ∧ w.live = [] := by
  unfold World.changeStatus
  by_cases hname : username = sender
  · rw [if_neg (not_not.mpr hname)]
    cases hst : statusOfByte rawStatus with
    | none =>
      simp only [powerless_reply, true_iff]
      intro st cd _ hraw
      rw [(statusOfByte_eq_some _ _).mpr hraw] at hst
      cases hst
    | some status =>
      have hbyte : ∀ st, rawStatus = userStatusToByte st ↔ status = st := by
        intro st
        rw [← statusOfByte_eq_some, hst, Option.some.injEq]
      rw [powerless_updateStatus_iff hconn]
      constructor
      · intro h st cd _ hraw hcd
        exact (hbyte st).mp hraw ▸ h cd hcd
      · exact fun h cd hcd => h status cd hname ((hbyte status).mpr rfl) hcd
  · rw [if_pos hname]
    simp [powerless_reply, hname]

theorem powerless_sendMessage_iff {conn : Conn} {w : World} (hconn : ∀ n, w.connOf n ≠ some conn)
    (sender destino mensaje : Bytes) :
    Powerless conn w (w.sendMessage conn sender destino mensaje) ↔ mensaje = [] ∨
      destino ≠ generalChat ∧ ¬ isReachable w.connections destino ∧ w.connOf sender = none := by
  unfold World.sendMessage
  split_ifs with hempty hgeneral hreach
  · simp [hempty, powerless_reply]
  · simp only [hempty, hgeneral, ne_eq, not_true_eq_false, false_and, or_self, iff_false]
    rintro ⟨⟨-, -, -, hsame⟩, -⟩
    simp at hsame
  · simp only [hempty, hreach, not_true_eq_false, false_and, and_false, or_self, iff_false]
    rintro ⟨⟨-, -, hsame, -⟩, -⟩
    have hchat := congrArg (fun t => ((t.lookup (chatId sender destino)).getD []).length) hsame
    simp [World.storePrivate, World.emits, World.sends, World.chat] at hchat
  · have hsent := powerless_sends_iff hconn (w.connOf sender).toList
      (fun c hc => ⟨sender, Option.mem_toList.mp hc⟩) [50, 4]
    simp only [hempty, hgeneral, hreach, ne_eq, not_false_eq_true, true_and, false_or,
      Bool.false_eq_true]
    rw [← Option.toList_eq_nil_iff, ← hsent]
    exact ⟨fun h => h.2, fun h => ⟨⟨rfl, rfl, rfl, rfl⟩, h⟩⟩

theorem findConn_eq_none_iff {w : World} {conn : Conn} : w.findConn conn = none ↔
    ∀ n cd, w.connections.lookup n = some cd → cd.conn ≠ some conn := by
  rw [World.findConn_eq_none]
  simp only [ne_eq, World.connOf_eq_some, not_exists, not_and]

theorem enter_nameless {conn : Conn} {w : World} (hnone : w.findConn conn = none)
    (opcode : UInt8) : w.enter conn opcode = (desconocido, w) := by
  rw [World.enter, hnone]

theorem harmless_iff {w : World} {data : Bytes} {r : Except String Request}
    (hr : readRequest data = r) : Harmless w data ↔
      (∀ destino mensaje, r = .ok (.sendMessage destino mensaje) → mensaje = [] ∨
        destino ≠ generalChat ∧ ¬ isReachable w.connections destino ∧ w.connOf desconocido = none) ∧
      ∀ st cd, r = .ok (.changeStatus desconocido (userStatusToByte st)) →
        w.connections.lookup desconocido = some cd →
          cd.status = st ∧ cd.lastActive = w.steadyClock 0 ∧ w.live = [] := by
  unfold Harmless IsMessage IsStatusChange
  simp only [← readRequest_eq_sendMessage, ← readRequest_eq_changeStatus, hr]

/-- **Nameless connections.** A frame from a connection that is in no entry has no effect on the
tables and on the other connections if and only if it does nothing as the fallback sender. -/
theorem nameless_powerless_iff {cfg : Config} (h : Reachable cfg) {conn : Conn}
    (hconn : ∀ n cd, cfg.world.connections.lookup n = some cd → cd.conn ≠ some conn)
    (data : Bytes) :
    Powerless conn cfg.world ((onMessage conn data true).run cfg.world).2 ↔
      Harmless cfg.world data := by
  have hfind := findConn_eq_none_iff.mpr hconn
  have hnone := World.findConn_eq_none.mp hfind
  cases data with
  | nil =>
    rw [onMessage_empty, harmless_iff rfl]
    simp [powerless_refl, readRequest_nil]
  | cons b rest =>
    rw [onMessage_eq h.sound, enter_nameless hfind]
    cases hreq : readRequest (b :: rest) with
    | error e =>
      rw [harmless_iff hreq]
      simp [powerless_refl]
    | ok r =>
      rw [harmless_iff hreq]
      cases r with
      | sendMessage destino mensaje =>
        simpa [World.perform] using powerless_sendMessage_iff hnone desconocido destino mensaje
      | changeStatus username rawStatus =>
        simpa [World.perform] using powerless_changeStatus_iff hnone desconocido username rawStatus
      | listUsers | userInfo _ | history _ =>
        simp [World.perform, powerless_reply]
      | unknown => simp [World.perform, powerless_refl]

/-- Two connections ask for one name. The second is rejected, and may ask for the list. -/
theorem nameless_powerless_list : ∃ cfg, Reachable cfg ∧
    .close 2 "Duplicado." ∈ cfg.world.trace ∧
    Powerless 2 cfg.world ((onMessage 2 [1] true).run cfg.world).2 := by
  have hreach := (Reachable.start.serve (c := .onOpen 1 (ascii "a")) rfl rfl).serve
    (c := .onOpen 2 (ascii "a")) rfl rfl
  refine ⟨_, hreach, by decide, ?_⟩
  refine (nameless_powerless_iff hreach (findConn_eq_none_iff.mp (by decide)) [1]).mpr ?_
  exact (harmless_iff (r := .ok .listUsers) rfl).mpr ⟨nofun, nofun⟩

theorem nameless_powerless_fails : ¬ ∀ cfg, Reachable cfg → ∀ conn,
    (∀ n cd, cfg.world.connections.lookup n = some cd → cd.conn ≠ some conn) →
      ∀ data, Powerless conn cfg.world ((onMessage conn data true).run cfg.world).2 := by
  intro h
  have hreach := (Reachable.start.serve (c := .onOpen 1 (ascii "a")) rfl rfl).serve
    (c := .onOpen 2 (ascii "a")) rfl rfl
  have hwrong := (h _ hreach 2 (findConn_eq_none_iff.mp (by decide))
    (4 :: pushString8 generalChat ++ pushString8 (ascii "x"))).1.2.2.2
  revert hwrong
  decide

/-! ## Connections of users -/

/-- The frame speaks for `n`, if it is one that speaks for somebody. -/
def SpeaksFor (n : Bytes) : Frame → Prop
  | .statusChanged username _ => username = n
  | .newMessage sender _ => sender = n
  | _ => True

/-- What may happen on behalf of `n`: no more than a new status and a new time in its own entry,
and frames that speak for it. -/
structure ActsFor (n : Bytes) (w w' : World) : Prop where
  keys : w'.connections.keys = w.connections.keys
  others : ∀ m, m ≠ n → w'.connections.lookup m = w.connections.lookup m
  own : ∀ cd, w.connections.lookup n = some cd → ∃ status lastActive,
    w'.connections.lookup n = some { cd with status := status, lastActive := lastActive }
  last : w'.lastUserStatus = w.lastUserStatus
  frames : Says (SpeaksFor n) w w'

/-- At most one message is new in the histories, and `n` is its author. -/
def Appends (n : Bytes) (w w' : World) : Prop :=
  (w'.chatHistory = w.chatHistory ∧ w'.generalChatHistory = w.generalChatHistory) ∨
  (∃ text, w'.chatHistory = w.chatHistory ∧
    w'.generalChatHistory = w.generalChatHistory ++ [(n, text)]) ∨
  ∃ key text, w'.chatHistory = w.chatHistory.insert key (w.chat key ++ [(n, text)]) ∧
    w'.generalChatHistory = w.generalChatHistory

namespace ActsFor

variable {n : Bytes} {w w' w'' : World}

protected theorem trans (h : ActsFor n w w') (h' : ActsFor n w' w'') : ActsFor n w w'' where
  keys := h'.keys.trans h.keys
  others m hm := (h'.others m hm).trans (h.others m hm)
  own cd hcd := by
    obtain ⟨status, lastActive, hcd'⟩ := h.own cd hcd
    have hown := h'.own _ hcd'
    exact hown
  last := h'.last.trans h.last
  frames := h.frames.trans h'.frames

theorem of_frames (hconn : w'.connections = w.connections) (hlast : w'.lastUserStatus = w.lastUserStatus)
    (hframes : Says (SpeaksFor n) w w') : ActsFor n w w' where
  keys := by rw [hconn]
  others _ _ := by rw [hconn]
  own cd hcd := ⟨cd.status, cd.lastActive, by rw [hconn, hcd]⟩
  last := hlast
  frames := hframes

protected theorem refl (n : Bytes) (w : World) : ActsFor n w w := of_frames rfl rfl (.silent rfl)

theorem touch (n : Bytes) (w : World) : ActsFor n w (w.touch n) where
  keys := Table.keys_modify _ _ _
  others m hm := by rw [World.touch_connections, Table.lookup_modify, if_neg hm]
  own cd hcd := ⟨cd.status, w.steadyClock 0, by simp [hcd]⟩
  last := rfl
  frames := .silent rfl

theorem updateStatus (hn : n.length < 256) (w : World) (status : UserStatus) :
    ActsFor n w (w.updateStatus n status) where
  keys := by
    unfold World.updateStatus
    split
    · exact Table.keys_modify _ _ _
    · rfl
  others m hm := by rw [World.updateStatus_lookup, if_neg hm]
  own cd hcd := ⟨status, w.steadyClock 0, by rw [World.updateStatus_lookup, if_pos rfl, hcd]; rfl⟩
  last := World.updateStatus_lastUserStatus _ _ _
  frames := says_updateStatus hn fun _ _ => rfl

theorem uncoded {code : UInt8} (h : code < 52) (body : Bytes) (conns : List Conn) :
    ActsFor n w (w.sends conns (code :: body)) :=
  of_frames rfl rfl (.uncoded h conns)

end ActsFor

theorem actsFor_changeStatus {n : Bytes} (hn : n.length < 256) (w : World) (conn : Conn)
    (username : Bytes) (rawStatus : UInt8) :
    ActsFor n w (w.changeStatus conn n username rawStatus) := by
  unfold World.changeStatus
  split
  · exact .uncoded (by decide) [2] [conn]
  · cases statusOfByte rawStatus with
    | none => exact .uncoded (by decide) [2] [conn]
    | some status => exact .updateStatus hn w status

theorem actsFor_sendMessage {n mensaje : Bytes} (hn : n.length < 256) (hm : mensaje.length < 256)
    (w : World) (conn : Conn) (destino : Bytes) :
    ActsFor n w (w.sendMessage conn n destino mensaje) := by
  refine .of_frames (World.sendMessage_connections _ _ _ _ _) ?_
    (says_sendMessage conn destino hn hm fun _ => rfl)
  unfold World.sendMessage
  split_ifs <;> rfl

theorem actsFor_perform {w : World} (hw : Sound w) (conn : Conn) {n : Bytes} (hn : ValidName n)
    {r : Request} (hr : r.Fits) : ActsFor n w (w.perform conn n r) := by
  cases r with
  | listUsers => exact .uncoded (by decide) _ [conn]
  | userInfo requestedName =>
    refine .of_frames rfl rfl ?_
    cases hcd : w.connections.lookup requestedName with
    | none =>
      simp only [World.perform, hcd]
      exact .uncoded (by decide) [conn]
    | some cd =>
      simp only [World.perform, hcd]
      exact .sends (decodeFrame_userInfo hr _) trivial [conn]
  | changeStatus username rawStatus =>
    exact actsFor_changeStatus hn.length_lt w conn username rawStatus
  | sendMessage destino mensaje => exact actsFor_sendMessage hn.length_lt hr w conn destino
  | history target =>
    exact .of_frames rfl rfl
      (.sends (decodeFrame_historyPayload (hw.history_fits n target)) trivial [conn])
  | unknown => exact .refl n w

theorem enter_owner {w : World} {conn : Conn} {n : Bytes} {cd : ConnectionData}
    (hfind : w.findConn conn = some ⟨n, cd⟩) (opcode : UInt8) :
    w.enter conn opcode = (n, if cd.status = .inactivo ∧ opcode = 4 then
      (w.touch n).updateStatus n .activo else w.touch n) := by
  rw [World.enter, hfind]

theorem enter_name {w : World} {conn : Conn} {n : Bytes} {cd : ConnectionData}
    (hfind : w.findConn conn = some ⟨n, cd⟩) (opcode : UInt8) : (w.enter conn opcode).1 = n := by
  rw [enter_owner hfind]

theorem actsFor_enter {w : World} {conn : Conn} {n : Bytes} {cd : ConnectionData}
    (hn : n.length < 256) (hfind : w.findConn conn = some ⟨n, cd⟩) (opcode : UInt8) :
    ActsFor n w (w.enter conn opcode).2 := by
  rw [enter_owner hfind]
  dsimp only
  split
  · exact (ActsFor.touch n w).trans (.updateStatus hn _ _)
  · exact .touch n w

theorem appends_perform (w : World) (conn : Conn) (n : Bytes) (r : Request) :
    Appends n w (w.perform conn n r) := by
  cases r with
  | listUsers | userInfo _ | history _ | unknown => exact .inl ⟨rfl, rfl⟩
  | changeStatus username rawStatus =>
    refine .inl ?_
    simp only [World.perform, World.changeStatus]
    split
    · exact ⟨rfl, rfl⟩
    · cases statusOfByte rawStatus <;> simp
  | sendMessage destino mensaje =>
    simp only [World.perform, World.sendMessage]
    split_ifs
    · exact .inl ⟨rfl, rfl⟩
    · exact .inr (.inl ⟨mensaje, rfl, rfl⟩)
    · exact .inr (.inr ⟨chatId n destino, mensaje, rfl, rfl⟩)
    · exact .inl ⟨rfl, rfl⟩

/-! ## The status of a user -/

def World.statusOf (w : World) (n : Bytes) : Option UserStatus :=
  (w.connections.lookup n).map (·.status)

theorem statusOf_of_lookup {w : World} {n : Bytes} {cd : ConnectionData}
    (h : w.connections.lookup n = some cd) : w.statusOf n = some cd.status := by
  unfold World.statusOf
  rw [h]
  rfl

@[simp] theorem statusOf_touch (w : World) (username n : Bytes) :
    (w.touch username).statusOf n = w.statusOf n := by
  simp only [World.statusOf, World.touch_connections, Table.lookup_modify]
  split
  · rw [Option.map_map]
    rfl
  · rfl

theorem statusOf_updateStatus (w : World) (n : Bytes) (status : UserStatus) :
    (w.updateStatus n status).statusOf n = (w.statusOf n).map fun _ => status := by
  rw [World.statusOf, World.updateStatus_lookup, if_pos rfl, World.statusOf, Option.map_map,
    Option.map_map]
  rfl

/-- The status that the request asks for on behalf of `n`. -/
def Request.statusFor (n : Bytes) : Request → Option UserStatus
  | .changeStatus username rawStatus => if username = n then statusOfByte rawStatus else none
  | _ => none

theorem statusFor_eq_some {data : Bytes} {r : Request} (hr : readRequest data = .ok r) (n : Bytes)
    (st : UserStatus) :
    r.statusFor n = some st ↔ IsStatusChange data n (userStatusToByte st) := by
  unfold IsStatusChange
  rw [← readRequest_eq_changeStatus, hr, Except.ok.injEq]
  cases r with
  | changeStatus username rawStatus =>
    simp only [Request.statusFor, Option.ite_none_right_eq_some, statusOfByte_eq_some,
      Request.changeStatus.injEq]
  | _ => simp [Request.statusFor]

theorem statusOf_perform (w : World) (conn : Conn) (n : Bytes) (r : Request) :
    (w.perform conn n r).statusOf n = (w.statusOf n).map fun st => (r.statusFor n).getD st := by
  cases r with
  | listUsers | userInfo _ | history _ | unknown =>
    simp [Request.statusFor, World.perform, World.statusOf, Function.comp_def]
  | sendMessage destino mensaje =>
    simp [Request.statusFor, World.perform, World.statusOf, Function.comp_def]
  | changeStatus username rawStatus =>
    simp only [World.perform, World.changeStatus, Request.statusFor]
    by_cases hname : username = n
    · rw [if_neg (not_not.mpr hname), if_pos hname]
      cases statusOfByte rawStatus with
      | none => simp [World.statusOf, Function.comp_def]
      | some status => simp [statusOf_updateStatus]
    · rw [if_pos hname, if_neg hname]
      simp [World.statusOf, Function.comp_def]

section Owner

variable {w : World} {c : Conn} {n : Bytes} {cd : ConnectionData}

theorem actsFor_onMessage (hw : Sound w) (hfind : w.findConn c = some ⟨n, cd⟩) (b : UInt8)
    (rest : Bytes) : ActsFor n w ((onMessage c (b :: rest) true).run w).2 := by
  have hn := hw.name_of_findConn hfind
  have henter := actsFor_enter hn.length_lt hfind b
  rw [onMessage_eq hw]
  cases hreq : readRequest (b :: rest) with
  | error e => exact henter
  | ok r =>
    dsimp only
    rw [enter_name hfind b]
    exact henter.trans (actsFor_perform (hw.enter c b).1 c hn (readRequest_fits hreq))

theorem appends_onMessage (hw : Sound w) (hfind : w.findConn c = some ⟨n, cd⟩) (b : UInt8)
    (rest : Bytes) : Appends n w ((onMessage c (b :: rest) true).run w).2 := by
  rw [onMessage_eq hw]
  cases readRequest (b :: rest) with
  | error e => exact .inl ⟨by simp, by simp⟩
  | ok r =>
    dsimp only
    rw [enter_name hfind b]
    simpa [Appends, World.chat] using appends_perform (w.enter c b).2 c n r

/-- Reactivation comes first, and a request of `n` may overwrite it. -/
theorem statusOf_onMessage (hw : Sound w) (hfind : w.findConn c = some ⟨n, cd⟩) (b : UInt8)
    (rest : Bytes) : ((onMessage c (b :: rest) true).run w).2.statusOf n = some
      (((readRequest (b :: rest)).toOption.bind (Request.statusFor n)).getD
        (if cd.status = .inactivo ∧ b = 4 then .activo else cd.status)) := by
  have hstatus := statusOf_of_lookup (World.findConn_eq_some hfind).1
  have henter : (w.enter c b).2.statusOf n =
      some (if cd.status = .inactivo ∧ b = 4 then .activo else cd.status) := by
    rw [enter_owner hfind]
    dsimp only
    split
    · rw [statusOf_updateStatus, statusOf_touch, hstatus]
      rfl
    · rw [statusOf_touch, hstatus]
  rw [onMessage_eq hw]
  cases readRequest (b :: rest) with
  | error e => exact henter
  | ok r =>
    dsimp only
    rw [enter_name hfind b, statusOf_perform, henter]
    rfl

end Owner

theorem statusFor_readRequest (data n : Bytes) (st : UserStatus) :
    (readRequest data).toOption.bind (Request.statusFor n) = some st ↔
      IsStatusChange data n (userStatusToByte st) := by
  cases hreq : readRequest data with
  | ok r => exact statusFor_eq_some hreq n st
  | error e =>
    unfold IsStatusChange
    rw [← readRequest_eq_changeStatus, hreq]
    simp [Except.toOption]

theorem statusFor_readRequest_none {data n : Bytes}
    (h : ∀ st, ¬ IsStatusChange data n (userStatusToByte st)) :
    (readRequest data).toOption.bind (Request.statusFor n) = none :=
  Option.eq_none_iff_forall_ne_some.mpr fun st hst => h st ((statusFor_readRequest _ _ _).mp hst)

/-- **Ownership.** A frame from the connection of `n` acts for `n` only, and leaves `n` with the
status that it asks for, with ACTIVO if it wakes `n` up, and else with the status before. -/
theorem owner_acts {cfg : Config} (h : Reachable cfg) {c : Conn} {n : Bytes} {cd : ConnectionData}
    (hcd : cfg.world.connections.lookup n = some cd) (hc : cd.conn = some c) (data : Bytes)
    (isBinary : Bool) :
    let w' := ((onMessage c data isBinary).run cfg.world).2
    ActsFor n cfg.world w' ∧ Appends n cfg.world w' ∧
    (∀ st, isBinary → IsStatusChange data n (userStatusToByte st) → w'.statusOf n = some st) ∧
    (isBinary → data.head? = some 4 → cd.status = .inactivo → w'.statusOf n = some .activo) ∧
    ((isBinary → ∀ st, ¬ IsStatusChange data n (userStatusToByte st)) →
      (isBinary → data.head? = some 4 → cd.status ≠ .inactivo) → w'.statusOf n = some cd.status) := by
  have hw := h.sound
  have hfind := hw.owned.findConn (World.connOf_eq_some.mpr ⟨cd, hcd, hc⟩) hcd
  have hstatus := statusOf_of_lookup hcd
  intro w'
  cases isBinary with
  | false => exact ⟨.refl n _, .inl ⟨rfl, rfl⟩, nofun, nofun, fun _ _ => hstatus⟩
  | true =>
    cases data with
    | nil =>
      refine ⟨.refl n _, .inl ⟨rfl, rfl⟩, ?_, nofun, fun _ _ => hstatus⟩
      rintro st - ⟨-, rest, heq⟩
      cases heq
    | cons b rest =>
      refine ⟨actsFor_onMessage hw hfind b rest, appends_onMessage hw hfind b rest, ?_⟩
      have hafter : w'.statusOf n = _ := statusOf_onMessage hw hfind b rest
      rw [hafter]
      refine ⟨?_, ?_, ?_⟩
      · rintro st - hst
        rw [(statusFor_readRequest _ _ _).mpr hst]
        rfl
      · rintro - h4 hinactivo
        obtain rfl : b = 4 := by simpa using h4
        -- A frame with opcode 4 asks for no status.
        have hno : ∀ st, ¬ IsStatusChange (4 :: rest) n (userStatusToByte st) := by
          rintro st ⟨-, rest', heq⟩
          cases heq
        rw [statusFor_readRequest_none hno, if_pos ⟨hinactivo, rfl⟩]
        rfl
      · intro hno hactive
        rw [statusFor_readRequest_none (hno rfl),
          if_neg fun hre => hactive rfl (by rw [hre.2]; rfl) hre.1]
        rfl

theorem owner_acts_ocupado : ∃ cfg, Reachable cfg ∧
    ((onMessage 1 (3 :: pushString8 (ascii "a") ++ [2]) true).run cfg.world).2.statusOf
      (ascii "a") = some .ocupado := by
  have hreach := Reachable.start.serve (c := .onOpen 1 (ascii "a")) rfl rfl
  refine ⟨_, hreach, ?_⟩
  refine (owner_acts hreach (n := ascii "a") (c := 1) rfl rfl _ true).2.2.1 .ocupado rfl ?_
  exact ⟨by decide, [], by simp [pushString8, userStatusToByte]⟩

end ChatServer
