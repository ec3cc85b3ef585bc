import ChatServer.Authority

/-!
# Sending messages

A frame with opcode 4 from the connection of a user: what is stored, what is sent, and how
often each connection gets it.
-/

open Program

namespace ChatServer

/-! ## Observing a call -/

def Event.isOutput (e : Event) : Bool := e.target.isSome

/-- What the server sent between two worlds. -/
def outputs (w w' : World) : List Event := (w'.trace.drop w.trace.length).filter Event.isOutput

theorem outputs_eq {w w' : World} {es : List Event} (h : w'.trace = w.trace ++ es) :
    outputs w w' = es.filter Event.isOutput := by
  unfold outputs
  rw [h, List.drop_left]

theorem filter_isOutput_map (conns : List Conn) (payload : Bytes) :
    (conns.map (Event.sendBinary · payload)).filter Event.isOutput =
      conns.map (Event.sendBinary · payload) :=
  List.filter_eq_self.mpr fun e he => by
    obtain ⟨c, -, rfl⟩ := List.mem_map.mp he
    rfl

/-! ## Waking up -/

def wake (n : Bytes) (connections : Table Bytes ConnectionData) : Table Bytes ConnectionData :=
  connections.modify n fun cd => if cd.status = .inactivo then { cd with status := .activo } else cd

/-- The announcement that `n` has been reactivated. -/
def wakeFrames (w : World) (n : Bytes) : List Event :=
  if w.statusOf n = some .inactivo then
    w.live.map (Event.sendBinary · (statusPayload n .activo))
  else []

/-- Apart from the clock, the histories and the trace, only the entry of `n` is new: it is awake,
and active at some later time. -/
structure OnlyWakes (n : Bytes) (w w' : World) : Prop where
  connections : ∃ now, w'.connections =
    (wake n w.connections).modify n fun cd => { cd with lastActive := now }
  lastUserStatus : w'.lastUserStatus = w.lastUserStatus
  userMarkedInactive : w'.userMarkedInactive = w.userMarkedInactive
  testingMode : w'.testingMode = w.testingMode
  monitorStarted : w'.monitorStarted = w.monitorStarted
  counter : w'.counter = w.counter
  time : w'.time = w.time
  remoteIp : w'.remoteIp = w.remoteIp

/-- The name is an entry that a private message can reach. -/
def Reaches (connections : Table Bytes ConnectionData) (destino : Bytes) : Prop :=
  ∃ cd, connections.lookup destino = some cd ∧ cd.conn ≠ none ∧ cd.status ≠ .disconnected

theorem isReachable_iff (connections : Table Bytes ConnectionData) (destino : Bytes) :
    isReachable connections destino ↔ Reaches connections destino := by
  unfold isReachable Reaches
  cases connections.lookup destino with
  | none => simp
  | some cd => simp [Option.isSome_iff_ne_none]

theorem lookup_wake (n : Bytes) (connections : Table Bytes ConnectionData) (m : Bytes) :
    (wake n connections).lookup m = if m = n then (connections.lookup m).map fun cd =>
      if cd.status = .inactivo then { cd with status := .activo } else cd
      else connections.lookup m :=
  Table.lookup_modify _ _ _ _

theorem reaches_active (n : Bytes) (now : TimePoint) (connections : Table Bytes ConnectionData)
    (destino : Bytes) :
    Reaches (connections.modify n fun cd => { cd with lastActive := now }) destino ↔
      Reaches connections destino := by
  unfold Reaches
  rw [Table.lookup_modify]
  by_cases h : destino = n
  · rw [if_pos h]
    cases connections.lookup destino <;> simp
  · rw [if_neg h]

section Owner

variable {w : World} {c : Conn} {n : Bytes} {cd : ConnectionData}

theorem enter_wakes (hfind : w.findConn c = some ⟨n, cd⟩) :
    OnlyWakes n w (w.enter c 4).2 ∧ (w.enter c 4).2.trace = w.trace ++ wakeFrames w n := by
  have hcd := (World.findConn_eq_some hfind).1
  have hstatus := statusOf_of_lookup hcd
  rw [enter_owner hfind]
  by_cases hre : cd.status = .inactivo
  · have hsome : ((w.touch n).connections.lookup n).isSome := by simp [hcd]
    rw [if_pos ⟨hre, rfl⟩, wakeFrames, hstatus, hre, if_pos rfl, World.updateStatus, if_pos hsome]
    refine ⟨⟨⟨w.steadyClock 1, ?_⟩, rfl, rfl, rfl, rfl, rfl, rfl, rfl⟩, by simp⟩
    rw [World.sends_connections, World.setStatus_connections, World.touch_connections, wake,
      Table.modify_modify, Table.modify_modify]
    apply Table.modify_congr
    intro v hv
    rw [hcd, Option.some.injEq] at hv
    simp only [Function.comp_apply, ← hv, hre, if_true]
    rfl
  · rw [if_neg fun h => hre h.1, wakeFrames, hstatus, if_neg fun h => hre (Option.some.inj h),
      List.append_nil]
    refine ⟨⟨⟨w.steadyClock 0, ?_⟩, rfl, rfl, rfl, rfl, rfl, rfl, rfl⟩, rfl⟩
    rw [World.touch_connections, wake, Table.modify_modify]
    apply Table.modify_congr
    intro v hv
    rw [hcd, Option.some.injEq] at hv
    rw [Function.comp_apply, ← hv, if_neg hre]

theorem OnlyWakes.sendMessage {v : World} (h : OnlyWakes n w v) (conn : Conn)
    (sender destino mensaje : Bytes) :
    OnlyWakes n w (v.sendMessage conn sender destino mensaje) := by
  unfold World.sendMessage
  split_ifs <;> exact ⟨h.connections, h.lastUserStatus, h.userMarkedInactive, h.testingMode,
    h.monitorStarted, h.counter, h.time, h.remoteIp⟩

end Owner

/-! ## The three outcomes -/

/-- The message is stored once, and what is sent besides the announcement is 55 frames with it. -/
def Accepted (n data : Bytes) (w w' : World) : Prop :=
  ∃ destino mensaje, IsMessage data destino mensaje ∧ mensaje ≠ [] ∧
    (destino = generalChat ∨ Reaches (wake n w.connections) destino) ∧
    (if destino = generalChat then
      w'.generalChatHistory = w.generalChatHistory ++ [(n, mensaje)] ∧
        w'.chatHistory = w.chatHistory
    else
      w'.generalChatHistory = w.generalChatHistory ∧
        w'.chatHistory = w.chatHistory.insert (chatId n destino)
          (w.chat (chatId n destino) ++ [(n, mensaje)])) ∧
    ∃ conns payload, conns ≠ [] ∧ decodeFrame payload = some (.newMessage n mensaje) ∧
      outputs w w' = wakeFrames w n ++ conns.map (Event.sendBinary · payload)

/-- Nothing is stored, and what is sent besides the announcement is an error frame. -/
def Refused (n : Bytes) (c : Conn) (data : Bytes) (w w' : World) : Prop :=
  ∃ destino mensaje, IsMessage data destino mensaje ∧
    (mensaje = [] ∨ destino ≠ generalChat ∧ ¬ Reaches (wake n w.connections) destino) ∧
    w'.generalChatHistory = w.generalChatHistory ∧ w'.chatHistory = w.chatHistory ∧
    ∃ payload, decodeFrame payload = some (.error (if mensaje = [] then 3 else 4)) ∧
      outputs w w' = wakeFrames w n ++ [.sendBinary c payload]

/-- Nothing is stored, and nothing is sent besides the announcement. -/
def Malformed (n data : Bytes) (w w' : World) : Prop :=
  (∀ destino mensaje, ¬ IsMessage data destino mensaje) ∧
    w'.generalChatHistory = w.generalChatHistory ∧ w'.chatHistory = w.chatHistory ∧
    outputs w w' = wakeFrames w n

def ExactlyOne (p q r : Prop) : Prop :=
  p ∧ ¬ q ∧ ¬ r ∨ ¬ p ∧ q ∧ ¬ r ∨ ¬ p ∧ ¬ q ∧ r

theorem IsMessage.unique {data d d' m m' : Bytes} (h : IsMessage data d m)
    (h' : IsMessage data d' m') : d = d' ∧ m = m' := by
  unfold IsMessage at h h'
  rw [← readRequest_eq_sendMessage] at h h'
  rw [h, Except.ok.injEq, Request.sendMessage.injEq] at h'
  exact h'

theorem not_accepted_refused {n data : Bytes} {c : Conn} {w w' : World}
    (h : Accepted n data w w') : ¬ Refused n c data w w' := by
  rintro ⟨d', m', hdata', hbad, -⟩
  obtain ⟨d, m, hdata, hm, hd, -⟩ := h
  obtain ⟨rfl, rfl⟩ := hdata.unique hdata'
  rcases hbad with hbad | ⟨hgeneral, hreach⟩
  · exact hm hbad
  · exact hd.elim hgeneral hreach

theorem not_malformed {n data destino mensaje : Bytes} {w w' : World}
    (h : IsMessage data destino mensaje) : ¬ Malformed n data w w' :=
  fun hmal => hmal.1 destino mensaje h

section Owner

variable {w : World} {c : Conn} {n : Bytes} {cd : ConnectionData}

theorem outputs_enter (hfind : w.findConn c = some ⟨n, cd⟩) {w' : World} (es : List Event)
    (h : w'.trace = (w.enter c 4).2.trace ++ es) :
    outputs w w' = wakeFrames w n ++ es.filter Event.isOutput := by
  rw [(enter_wakes hfind).2, List.append_assoc] at h
  rw [outputs_eq h, List.filter_append]
  congr 1
  unfold wakeFrames
  split
  · exact filter_isOutput_map _ _
  · rfl

theorem reaches_enter (hfind : w.findConn c = some ⟨n, cd⟩) (destino : Bytes) :
    isReachable (w.enter c 4).2.connections destino ↔ Reaches (wake n w.connections) destino := by
  obtain ⟨now, hconn⟩ := (enter_wakes hfind).1.connections
  rw [isReachable_iff, hconn, reaches_active]

theorem sendMessage_accepted (hn : n.length < 256) (hfind : w.findConn c = some ⟨n, cd⟩)
    {data destino mensaje : Bytes} (hdata : IsMessage data destino mensaje) (hm : mensaje ≠ [])
    (hd : destino = generalChat ∨ Reaches (wake n w.connections) destino) :
    Accepted n data w ((w.enter c 4).2.sendMessage c n destino mensaje) := by
  have hconn := (World.findConn_eq_some hfind).2
  refine ⟨destino, mensaje, hdata, hm, hd, ?_⟩
  unfold World.sendMessage
  by_cases hgeneral : destino = generalChat
  · have hlive : (w.enter c 4).2.live ≠ [] := by
      rw [World.live_enter]
      exact List.ne_nil_of_mem (World.mem_live.mpr ⟨n, hconn⟩)
    rw [if_neg hm, if_pos hgeneral, if_pos hgeneral]
    refine ⟨⟨by simp, by simp⟩, _, _, hlive, decodeFrame_newMessage hn hdata.2.1, ?_⟩
    rw [outputs_enter hfind _ (by rw [World.sends_trace, World.storeGeneral_trace, List.append_assoc])]
    congr 1
    exact filter_isOutput_map _ _
  · have hreach := (reaches_enter hfind destino).mpr (hd.resolve_left hgeneral)
    have hrecipients : (w.enter c 4).2.recipients n true destino ≠ [] := by
      simp [World.recipients, hconn]
    rw [if_neg hm, if_neg hgeneral, if_neg hgeneral, if_pos hreach]
    refine ⟨⟨by simp, by simp [World.storePrivate, World.chat, World.emits, World.sends]⟩, _, _,
      hrecipients, decodeFrame_newMessage hn hdata.2.1, ?_⟩
    rw [outputs_enter hfind _ (by rw [World.sends_trace, World.storePrivate_trace, List.append_assoc])]
    congr 1
    exact filter_isOutput_map _ _

theorem sendMessage_refused (hfind : w.findConn c = some ⟨n, cd⟩)
    {data destino mensaje : Bytes} (hdata : IsMessage data destino mensaje)
    (hbad : mensaje = [] ∨ destino ≠ generalChat ∧ ¬ Reaches (wake n w.connections) destino) :
    Refused n c data w ((w.enter c 4).2.sendMessage c n destino mensaje) := by
  have hconn := (World.findConn_eq_some hfind).2
  refine ⟨destino, mensaje, hdata, hbad, ?_⟩
  unfold World.sendMessage
  by_cases hm : mensaje = []
  · rw [if_pos hm, if_pos hm]
    exact ⟨by simp, by simp, [50, 3], rfl, outputs_enter hfind [.sendBinary c [50, 3]] rfl⟩
  · obtain ⟨hgeneral, hreach⟩ := hbad.resolve_left hm
    rw [if_neg hm, if_neg hm, if_neg hgeneral, if_neg (mt (reaches_enter hfind destino).mp hreach)]
    refine ⟨by simp [World.refusePrivate], by simp [World.refusePrivate], [50, 4], rfl, ?_⟩
    refine outputs_enter hfind [.sendBinary c [50, 4]] ?_
    simp [World.refusePrivate, hconn]

end Owner

/-- **All or nothing.** A frame with opcode 4 from the connection of `n` is accepted, refused or
malformed, and only one of these. Whichever it is, it wakes `n` up and does nothing else. -/
theorem send_outcome {cfg : Config} (h : Reachable cfg) {c : Conn} {n : Bytes} {cd : ConnectionData}
    (hcd : cfg.world.connections.lookup n = some cd) (hc : cd.conn = some c) (rest : Bytes) :
    let w := cfg.world
    let w' := ((onMessage c (4 :: rest) true).run w).2
    OnlyWakes n w w' ∧ ExactlyOne (Accepted n (4 :: rest) w w') (Refused n c (4 :: rest) w w')
      (Malformed n (4 :: rest) w w') := by
  intro w w'
  have hw : Sound w := h.sound
  have hfind := hw.owned.findConn (World.connOf_eq_some.mpr ⟨cd, hcd, hc⟩) hcd
  have hn := (hw.name_of_lookup hcd).length_lt
  have henter := (enter_wakes hfind).1
  have hrun : w' = _ := congrArg Prod.snd (onMessage_eq hw c 4 rest)
  rw [enter_name hfind 4] at hrun
  cases hreq : readRequest (4 :: rest) with
  | error e =>
    rw [hreq] at hrun
    have hno : ∀ destino mensaje, ¬ IsMessage (4 :: rest) destino mensaje := by
      intro destino mensaje hdata
      have := (readRequest_eq_sendMessage _ _ _).mpr hdata
      rw [hreq] at this
      cases this
    refine ⟨hrun ▸ henter, .inr (.inr ⟨?_, ?_, hno, ?_⟩)⟩
    · exact fun ⟨d, m, hdata, _⟩ => hno d m hdata
    · exact fun ⟨d, m, hdata, _⟩ => hno d m hdata
    · rw [hrun]
      refine ⟨by simp, by simp, ?_⟩
      rw [outputs_enter hfind [] (by simp), List.filter_nil, List.append_nil]
  | ok r =>
    obtain ⟨destino, mensaje, rfl⟩ := readRequest_four hreq
    have hdata : IsMessage (4 :: rest) destino mensaje := (readRequest_eq_sendMessage _ _ _).mp hreq
    rw [hreq] at hrun
    refine ⟨hrun ▸ henter.sendMessage c n destino mensaje, ?_⟩
    by_cases hbad : mensaje = [] ∨ destino ≠ generalChat ∧ ¬ Reaches (wake n w.connections) destino
    · have hrefused : Refused n c (4 :: rest) w w' := hrun ▸ sendMessage_refused hfind hdata hbad
      exact .inr (.inl ⟨fun hacc => not_accepted_refused hacc hrefused, hrefused, not_malformed hdata⟩)
    · rw [not_or, not_and_not_right, ← or_iff_not_imp_left] at hbad
      have haccepted : Accepted n (4 :: rest) w w' :=
        hrun ▸ sendMessage_accepted hn hfind hdata hbad.1 hbad.2
      exact .inl ⟨haccepted, not_accepted_refused haccepted, not_malformed hdata⟩

theorem send_outcome_hello : ∃ cfg, Reachable cfg ∧
    let rest := pushString8 generalChat ++ pushString8 (ascii "x")
    let w' := ((onMessage 1 (4 :: rest) true).run cfg.world).2
    ExactlyOne (Accepted (ascii "a") (4 :: rest) cfg.world w')
      (Refused (ascii "a") 1 (4 :: rest) cfg.world w')
      (Malformed (ascii "a") (4 :: rest) cfg.world w') := by
  have hreach := Reachable.start.serve (c := .onOpen 1 (ascii "a")) rfl rfl
  exact ⟨_, hreach, (send_outcome hreach (n := ascii "a") (c := 1) rfl rfl _).2⟩

/-! ## Exactly-once delivery -/

/-- How often `conn` was sent the message `mensaje` of `s`. -/
def received (s mensaje : Bytes) (conn : Conn) (w w' : World) : Nat :=
  (w'.trace.drop w.trace.length).countP fun
    | .sendBinary c payload => c = conn ∧ decodeFrame payload = some (.newMessage s mensaje)
    | _ => false

/-- Each connection that the message of `s` to `destino` is for gets it once. A private message
goes nowhere else. -/
def DeliveredOnce (s destino mensaje : Bytes) (w w' : World) : Prop :=
  if destino = generalChat then ∀ conn ∈ w.live, received s mensaje conn w w' = 1
  else ∀ conn, received s mensaje conn w w' =
    if w.connOf s = some conn ∨ w.connOf destino = some conn then 1 else 0

theorem received_eq {conn : Conn} {w w' : World} (es : List Event) {conns : List Conn}
    {s m : Bytes} (hs : s.length < 256) (hm : m.length < 256)
    (h : w'.trace = w.trace ++ es ++ conns.map (Event.sendBinary · (messagePayload s m)))
    (hes : ∀ c payload, .sendBinary c payload ∈ es → decodeFrame payload ≠ some (.newMessage s m)) :
    received s m conn w w' = conns.count conn := by
  have hdecode : decodeFrame (messagePayload s m) = some (.newMessage s m) :=
    decodeFrame_newMessage hs hm
  unfold received
  rw [h, List.append_assoc, List.drop_left, List.countP_append, List.countP_map,
    List.countP_eq_zero.mpr, Nat.zero_add, List.count]
  · apply List.countP_congr
    intro c _
    simp [hdecode]
  · intro e he
    cases e with
    | sendBinary c payload => simp [hes c payload he]
    | _ => simp

section Owner

variable {w : World} {c : Conn} {s : Bytes} {cd : ConnectionData}

theorem wakeFrames_decode {conn : Conn} {payload sender text : Bytes}
    (h : .sendBinary conn payload ∈ wakeFrames w s) :
    decodeFrame payload ≠ some (.newMessage sender text) := by
  unfold wakeFrames at h
  split at h
  · obtain ⟨_, -, heq⟩ := List.mem_map.mp h
    cases heq
    intro hdecode
    exact absurd (decodeFrame_code hdecode) (by simp [Frame.code])
  · cases h

theorem connOf_of_reaches {destino : Bytes} (h : Reaches (wake s w.connections) destino) :
    ∃ conn, w.connOf destino = some conn := by
  obtain ⟨cd', hcd', hconn, -⟩ := h
  obtain ⟨conn, hconn⟩ := Option.ne_none_iff_exists'.mp hconn
  refine ⟨conn, ?_⟩
  rw [lookup_wake] at hcd'
  split at hcd'
  · obtain ⟨cd'', hcd'', rfl⟩ := Option.map_eq_some_iff.mp hcd'
    refine World.connOf_eq_some.mpr ⟨cd'', hcd'', ?_⟩
    split at hconn <;> exact hconn
  · exact World.connOf_eq_some.mpr ⟨cd', hcd', hconn⟩

theorem received_general (hs : s.length < 256) (hfind : w.findConn c = some ⟨s, cd⟩)
    {mensaje : Bytes} (hm : mensaje ≠ []) (hlen : mensaje.length < 256) (conn : Conn) :
    received s mensaje conn w ((w.enter c 4).2.sendMessage c s generalChat mensaje) =
      w.live.count conn := by
  rw [World.sendMessage, if_neg hm, if_pos rfl]
  refine received_eq (wakeFrames w s ++ [.storedGeneral s mensaje]) hs hlen ?_ ?_
  · rw [World.sends_trace, World.storeGeneral_trace, (enter_wakes hfind).2, World.live_enter,
      List.append_assoc w.trace]
  · intro c' payload hmem
    rw [List.mem_append, List.mem_singleton] at hmem
    rcases hmem with hmem | hmem
    · exact wakeFrames_decode hmem
    · cases hmem

theorem received_private (hs : s.length < 256) (hfind : w.findConn c = some ⟨s, cd⟩)
    {destino mensaje : Bytes} (hm : mensaje ≠ []) (hlen : mensaje.length < 256)
    (hgeneral : destino ≠ generalChat) (hreach : Reaches (wake s w.connections) destino) {c' : Conn}
    (hc' : w.connOf destino = some c') (conn : Conn) :
    received s mensaje conn w ((w.enter c 4).2.sendMessage c s destino mensaje) =
      [c, c'].count conn := by
  rw [World.sendMessage, if_neg hm, if_neg hgeneral, if_pos ((reaches_enter hfind destino).mpr hreach)]
  refine received_eq (wakeFrames w s ++ [.storedPrivate s destino mensaje]) hs hlen ?_ ?_
  · have hrecipients : (w.enter c 4).2.recipients s true destino = [c, c'] := by
      have hc : w.connOf s = some c := (World.findConn_eq_some hfind).2
      simp [World.recipients, hc, hc']
    rw [World.sends_trace, World.storePrivate_trace, (enter_wakes hfind).2, hrecipients,
      List.append_assoc w.trace]
  · intro c' payload hmem
    rw [List.mem_append, List.mem_singleton] at hmem
    rcases hmem with hmem | hmem
    · exact wakeFrames_decode hmem
    · cases hmem

theorem deliveredOnce_general (howned : Owned w) (hs : s.length < 256)
    (hfind : w.findConn c = some ⟨s, cd⟩) {mensaje : Bytes} (hm : mensaje ≠ [])
    (hlen : mensaje.length < 256) :
    DeliveredOnce s generalChat mensaje w ((w.enter c 4).2.sendMessage c s generalChat mensaje) := by
  unfold DeliveredOnce
  rw [if_pos rfl]
  intro conn hconn
  rw [received_general hs hfind hm hlen, List.count_eq_one_of_mem howned.live_nodup hconn]

/-- The two lookups of a private message find two connections, unless they ask for one name. -/
theorem deliveredOnce_private (howned : Owned w) (hs : s.length < 256)
    (hfind : w.findConn c = some ⟨s, cd⟩) {destino mensaje : Bytes} (hm : mensaje ≠ [])
    (hlen : mensaje.length < 256) (hgeneral : destino ≠ generalChat)
    (hreach : Reaches (wake s w.connections) destino) :
    DeliveredOnce s destino mensaje w ((w.enter c 4).2.sendMessage c s destino mensaje) ↔
      destino ≠ s := by
  obtain ⟨c', hc'⟩ := connOf_of_reaches hreach
  have hc : w.connOf s = some c := (World.findConn_eq_some hfind).2
  unfold DeliveredOnce
  rw [if_neg hgeneral]
  simp only [received_private hs hfind hm hlen hgeneral hreach hc', hc, hc', Option.some.injEq]
  constructor
  · rintro honce rfl
    obtain rfl : c = c' := Option.some.inj (hc.symm.trans hc')
    have htwo := honce c
    simp at htwo
  · intro hne conn
    have hcc : c ≠ c' := by
      rintro rfl
      exact hne (howned.unique hc' hc)
    by_cases h : c = conn <;> by_cases h' : c' = conn
    · exact absurd (h.trans h'.symm) hcc
    · simp [h, h']
    · simp [h, h']
    · simp [h, h']

end Owner

/-- **Delivery.** Every accepted message is delivered once to each connection that it is for, but
for the messages of a user to itself. -/
theorem delivered_once_iff {cfg : Config} (h : Reachable cfg) {c : Conn} {s : Bytes}
    {cd : ConnectionData} (hcd : cfg.world.connections.lookup s = some cd) (hc : cd.conn = some c)
    {data destino mensaje : Bytes} (hdata : IsMessage data destino mensaje) (hm : mensaje ≠ [])
    (hd : destino = generalChat ∨ Reaches (wake s cfg.world.connections) destino) :
    DeliveredOnce s destino mensaje cfg.world ((onMessage c data true).run cfg.world).2 ↔
      destino ≠ s := by
  have hw := h.sound
  have hs := (hw.name_of_lookup hcd).length_lt
  have hfind := hw.owned.findConn (World.connOf_eq_some.mpr ⟨cd, hcd, hc⟩) hcd
  have hreq := (readRequest_eq_sendMessage _ _ _).mpr hdata
  obtain ⟨-, hlen, rest, rfl⟩ := hdata
  rw [onMessage_eq hw, hreq]
  dsimp only
  rw [show (cfg.world.enter c 4).1 = s by rw [enter_owner hfind]]
  by_cases hgeneral : destino = generalChat
  · subst hgeneral
    have hne : generalChat ≠ s := fun heq => (hw.name_of_lookup hcd).2.2 heq.symm
    exact iff_of_true (deliveredOnce_general hw.owned hs hfind hm hlen) hne
  · exact deliveredOnce_private hw.owned hs hfind hm hlen hgeneral (hd.resolve_left hgeneral)

theorem delivered_once_two : ∃ cfg, Reachable cfg ∧
    DeliveredOnce (ascii "a") (ascii "b") (ascii "x") cfg.world ((onMessage 1
      (4 :: (pushString8 (ascii "b") ++ (pushString8 (ascii "x") ++ []))) true).run cfg.world).2 := by
  have hreach := (Reachable.start.serve (c := .onOpen 1 (ascii "a")) rfl rfl).serve
    (c := .onOpen 2 (ascii "b")) rfl rfl
  refine ⟨_, hreach, ?_⟩
  refine (delivered_once_iff hreach (s := ascii "a") (c := 1) rfl rfl
    ⟨by decide, by decide, [], rfl⟩ (by decide) (.inr ?_)).mpr (by decide)
  exact (isReachable_iff _ _).mp (by decide)

theorem delivered_twice : ¬ ∀ cfg, Reachable cfg → ∀ c s cd,
    cfg.world.connections.lookup s = some cd → cd.conn = some c → ∀ data destino mensaje,
      IsMessage data destino mensaje → mensaje ≠ [] →
      (destino = generalChat ∨ Reaches (wake s cfg.world.connections) destino) →
      DeliveredOnce s destino mensaje cfg.world ((onMessage c data true).run cfg.world).2 := by
  intro h
  have hreach := Reachable.start.serve (c := .onOpen 1 (ascii "a")) rfl rfl
  have honce := h _ hreach 1 (ascii "a") _ rfl rfl
    (4 :: (pushString8 (ascii "a") ++ (pushString8 (ascii "x") ++ []))) (ascii "a") (ascii "x")
    ⟨by decide, by decide, [], rfl⟩ (by decide) (.inr ((isReachable_iff _ _).mp (by decide)))
  rw [DeliveredOnce, if_neg (by decide)] at honce
  have hwrong := honce 1
  revert hwrong
  decide

end ChatServer
