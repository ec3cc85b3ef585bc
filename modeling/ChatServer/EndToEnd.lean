import ChatServer.Confidential
import ChatServer.Serving

/-!
# From client to client

What the chat says to a connection, as its client reads it, and what a client sends, as the
handlers of the chat get it.
-/

open Program

namespace ChatServer

open Websocket (Connection HandlerCall WireFrame Carries WholeHeaders isData)

variable {ok : Connection → Websocket.Event → Prop} {host : ByteOrder} {maxPayloadBytes : Nat}

section Results

variable {app : App} {conn : Conn} {peer : Peer}

/-! ## To the client -/

theorem Peer.Good.sends {trace : List Event} {opened : Conn → Bool}
    (h : peer.Good ok host maxPayloadBytes trace opened conn) :
    peer.connection.Sends host peer.hello (Websocket.sent (Websocket.posts peer.events)) :=
  h.reached.sends (by simp)

/-- Every binary that the chat says has the form that the protocol gives it. -/
theorem wellFormed_of_said {cfg : Config} (h : Reachable cfg) {k : Nat} {frame : Nat × Bytes}
    (hframe : frame ∈ said conn (cfg.world.trace.drop k)) (hbinary : frame.1 = 2) :
    WellFormed frame.2 := by
  obtain ⟨e, he, hsays⟩ := List.mem_filterMap.mp hframe
  have hmem := List.mem_of_mem_drop he
  cases e with
  | sendBinary c payload =>
    simp only [Event.tells] at hsays
    split at hsays
    · obtain rfl := Option.some.inj hsays
      exact h.sound.frames c payload hmem
    · cases hsays
  | sendText c text =>
    simp only [Event.tells] at hsays
    split at hsays
    · obtain rfl := Option.some.inj hsays
      cases hbinary
    · cases hsays
  | _ => cases hsays

/-- **What a client reads.** The data in the frames that a client makes of what has arrived is the
first of what the chat has said to its connection, in this order, and every binary of it has the
form that the protocol gives it. When nothing waits any more, and nothing has failed or closed the
connection, it is all that was said. -/
theorem client_reads (h : app.ReachableBy ok host maxPayloadBytes) (hp : app.peers conn = some peer) :
    (∀ fs : List WireFrame, Websocket.handshake peer.hello ++ fs.flatMap WireFrame.bytes <+:
        peer.connection.outbox.wire →
      (fs.map WireFrame.content).filter isData <+:
          said conn (app.cfg.world.trace.drop peer.since) ∧
        ∀ f ∈ fs, f.fin = true ∧ ¬ Websocket.Masked f.second ∧
          (f.opcode = 2 → WellFormed f.payload)) ∧
      (peer.connection.deleted = false → peer.connection.closeConnection = false →
        peer.connection.outbox.writing = false → peer.connection.posted = [] →
        ∃ fs : List WireFrame, peer.connection.outbox.wire =
            Websocket.handshake peer.hello ++ fs.flatMap WireFrame.bytes ∧
          (fs.map WireFrame.content).filter isData =
            said conn (app.cfg.world.trace.drop peer.since)) := by
  have hgood := h.good.peopled conn peer hp
  refine ⟨fun fs harrived => ?_, fun hpresent hopen hidle hposted => ?_⟩
  · obtain ⟨hwhole, hdata⟩ := hgood.sends.arrived harrived
    have hsaid := hdata.trans hgood.said
    refine ⟨hsaid, fun f hf => ⟨(hwhole f hf).1, (hwhole f hf).2, fun hbinary => ?_⟩⟩
    have hmem : f.content ∈ (fs.map WireFrame.content).filter isData := by
      refine List.mem_filter.mpr ⟨List.mem_map_of_mem hf, ?_⟩
      simp [isData, WireFrame.content, hbinary]
    exact wellFormed_of_said h.good.reachable (hsaid.subset hmem) hbinary
  · rw [← hgood.all hpresent]
    exact hgood.sends.flushed hgood.reached.settled hopen hidle hposted

/-- `a` asks for the list of the users, and gets it. -/
def asks : List App.Turn :=
  [.accept 1 (ascii "/?name=a") (ascii "x"), .handle 1, .steps (.handlers 1) 40,
    .socket 1 (.written true), .socket 1 (.read [0x82, 0x81]), .socket 1 (.read [7, 3, 2, 1]),
    .socket 1 (.read [6]), .handle 1, .steps (.handlers 1) 40, .socket 1 .run,
    .socket 1 (.written true)]

theorem client_reads_list : ∃ (app : App) (peer : Peer),
    app.ReachableBy WholeHeaders .little (256 ^ 8 - 1) ∧ app.peers 1 = some peer ∧
      ∃ fs : List WireFrame, peer.connection.outbox.wire =
          Websocket.handshake peer.hello ++ fs.flatMap WireFrame.bytes ∧
        (fs.map WireFrame.content).filter isData =
          said 1 (app.cfg.world.trace.drop peer.since) := by
  have h := App.reachable_playAll asks
  have hdone : ((App.playAll asks).peers 1).any fun p => p.connection.deleted = false ∧
      p.connection.closeConnection = false ∧ p.connection.outbox.writing = false ∧
        p.connection.posted = [] := by decide +kernel
  obtain ⟨peer, hp, hpeer⟩ := (Option.any_eq_true _ _).mp hdone
  obtain ⟨hpresent, hopen, hidle, hposted⟩ := of_decide_eq_true hpeer
  obtain ⟨-, hall⟩ := client_reads h hp
  exact ⟨_, peer, h, hp, hall hpresent hopen hidle hposted⟩

/-! ## For the client only -/

/-- While an object has been there, nobody but its client has had its connection. -/
theorem App.ReachableBy.names (h : app.ReachableBy ok host maxPayloadBytes)
    (hp : app.peers conn = some peer) {pre : List Event} (hpre : pre <+: app.cfg.world.trace)
    (hsince : peer.since ≤ pre.length) {n : Bytes} (hn : session pre conn = .accepted n) :
    peer.name = n := by
  induction h generalizing conn peer with
  | init => cases hp
  | @accept app c url name hello isBinary hreach hfree _ ih =>
    by_cases hc : conn = c
    · subst hc
      simp only [App.put, Function.update_self, Option.some.injEq] at hp
      subst hp
      obtain rfl : pre = app.cfg.world.trace := hpre.eq_of_length_le hsince
      have hname := hreach.good.named conn n hn
      simp [hfree] at hname
    · exact ih (by simpa [App.put, hc] using hp) hpre hsince hn
  | @socket app c p e _ hpeer _ _ _ _ _ ih =>
    by_cases hc : conn = c
    · subst hc
      simp only [App.put, Function.update_self, Option.some.injEq] at hp
      subst hp
      have hname : p.name = n := ih hpeer hpre hsince hn
      exact hname
    · exact ih (by simpa [App.put, hc] using hp) hpre hsince hn
  | @handle app c p call rest _ _ hpeer _ _ _ ih =>
    by_cases hc : conn = c
    · subst hc
      simp only [App.put, App.call, Function.update_self, Option.some.injEq] at hp
      subst hp
      have hname : p.name = n := ih hpeer hpre hsince hn
      exact hname
    · exact ih (by simpa [App.put, App.call, hc] using hp) hpre hsince hn
  | pass _ _ _ _ ih => exact ih hp hpre hsince hn
  | @move app t q w hreach hadv _ ih =>
    have hkept : ((app.move host t q w).peers conn).map (fun p => (p.name, p.since)) =
        (app.peers conn).map fun p => (p.name, p.since) := by
      apply App.map_foldl
      intro p a
      unfold Peer.use
      split <;> rfl
    rw [hp] at hkept
    obtain ⟨p, hpeer, hsame⟩ := Option.map_eq_some_iff.mp hkept.symm
    obtain ⟨hname, hsince'⟩ := Prod.mk.inj hsame
    obtain ⟨-, es, htrace, haimed⟩ := hreach.good.aiming.move hadv
    change pre <+: w.trace at hpre
    rw [htrace] at hpre
    rcases List.prefix_or_prefix_of_prefix hpre (List.prefix_append _ _) with hold | ⟨es', rfl⟩
    · rw [← hname]
      exact ih hpeer hold (hsince' ▸ hsince) hn
    · rw [← hname]
      rcases App.accepted_of_session hn with hmem | hold
      · have hmem' := ((List.prefix_append_right_inj _).mp hpre).subset hmem
        obtain ⟨rfl, huser⟩ := (haimed _ hmem').accept conn n rfl
        refine Peer.name_of_opening ?_
        simpa [App.users, hpeer] using huser
      · simpa [hpeer] using hreach.good.named conn n hold
  | @free app c p _ _ _ _ _ ih =>
    by_cases hc : conn = c
    · subst hc
      simp [App.put] at hp
    · exact ih (by simpa [App.put, hc] using hp) hpre hsince hn

theorem mem_said {trace : List Event} {payload : Bytes} (h : (2, payload) ∈ said conn trace) :
    .sendBinary conn payload ∈ trace := by
  obtain ⟨e, he, htells⟩ := List.mem_filterMap.mp h
  cases e with
  | sendBinary c m =>
    simp only [Event.tells] at htells
    split at htells
    · rename_i hc
      obtain rfl := (Prod.mk.inj (Option.some.inj htells)).2
      exact hc ▸ he
    · cases htells
  | sendText c text =>
    simp only [Event.tells] at htells
    split at htells <;> cases htells
  | _ => cases htells

/-- What a client with this name may read: a message for everybody, one that it has sent or that was
sent to it, and the beginning of a chat of its own, or of the fallback sender. -/
inductive MayRead (w : World) (name : Bytes) : Bytes → Prop
  | general {s msg : Bytes} (h : .storedGeneral s msg ∈ w.trace) : MayRead w name (messagePayload s msg)
  | confidential {s r msg : Bytes} (h : .storedPrivate s r msg ∈ w.trace) (hname : s = name ∨ r = name) :
      MayRead w name (messagePayload s msg)
  | history {s target : Bytes} {ms : List Message} (hname : s = name ∨ s = desconocido)
      (hms : ms <+: w.entries (chatOf s target)) : MayRead w name (historyPayload ms)

/-- **For this client only.** The messages and histories in the frames that a client can read are such
that a client with its name may read them. -/
theorem reads_what_is_meant (h : app.ReachableBy ok host maxPayloadBytes)
    (hp : app.peers conn = some peer) {fs : List WireFrame} (harrived : Websocket.handshake peer.hello ++
      fs.flatMap WireFrame.bytes <+: peer.connection.outbox.wire) {f : WireFrame} (hf : f ∈ fs)
    (hop : f.opcode = 2) (hcode : f.payload.head? = some 55 ∨ f.payload.head? = some 56) :
    MayRead app.cfg.world peer.name f.payload := by
  have hgood := h.good.peopled conn peer hp
  have hsaid : (2, f.payload) ∈ said conn (app.cfg.world.trace.drop peer.since) := by
    refine ((hgood.sends.arrived harrived).2.trans hgood.said).subset (List.mem_filter.mpr ⟨?_, rfl⟩)
    exact List.mem_map.mpr ⟨f, hf, by rw [← hop]; rfl⟩
  obtain ⟨before, post, hsplit⟩ := List.append_of_mem (mem_said hsaid)
  have htrace : app.cfg.world.trace = (app.cfg.world.trace.take peer.since ++ before) ++
      .sendBinary conn f.payload :: post := by
    rw [List.append_assoc, ← hsplit, List.take_append_drop]
  have hpre : app.cfg.world.trace.take peer.since ++ before <+: app.cfg.world.trace :=
    ⟨_, htrace.symm⟩
  have hnames : ∀ {n}, session (app.cfg.world.trace.take peer.since ++ before) conn = .accepted n →
      peer.name = n := by
    refine fun hn => h.names hp hpre ?_ hn
    rw [List.length_append, List.length_take, Nat.min_eq_left hgood.since]
    omega
  have hmeant := h.good.reachable.rightful _ _ _ _ htrace hcode
  generalize f.payload = payload at hmeant ⊢
  cases hmeant with
  | general hmem => exact .general (hpre.subset hmem)
  | confidential hmem hconn =>
    refine .confidential (hpre.subset hmem) (hconn.imp ?_ ?_)
    · exact fun hs => (hnames hs).symm
    · exact fun hr => (hnames hr).symm
  | @history s target ms hconn hms =>
    have hentries : ms <+: app.cfg.world.entries (chatOf s target) := by
      rw [entries_eq h.good.reachable]
      exact hms.trans (hpre.filterMap _)
    exact .history (hconn.imp (fun hs => (hnames hs).symm) And.left) hentries

/-- `b` is in the chat, and reads what `a` writes to it. -/
def reads : List App.Turn :=
  [.accept 1 (ascii "/?name=a") (ascii "x"), .handle 1, .steps (.handlers 1) 40,
    .accept 2 (ascii "/?name=b") (ascii "x"), .handle 2, .steps (.handlers 2) 40,
    .socket 1 (.written true), .socket 1 (.read [0x82, 0x85]), .socket 1 (.read [0, 0, 0, 0]),
    .socket 1 (.read (4 :: pushString8 (ascii "b") ++ pushString8 (ascii "x"))), .handle 1,
    .steps (.handlers 1) 60, .socket 2 (.written true), .socket 2 .run]

def whisperFrame : WireFrame := .make true 2 none (messagePayload (ascii "a") (ascii "x")) (by decide)

theorem reads_what_is_meant_whisper : ∃ (app : App) (peer : Peer),
    app.ReachableBy WholeHeaders .little (256 ^ 8 - 1) ∧ app.peers 2 = some peer ∧
      peer.connection.outbox.wire =
        Websocket.handshake peer.hello ++ [whisperFrame].flatMap WireFrame.bytes ∧
      MayRead app.cfg.world peer.name (messagePayload (ascii "a") (ascii "x")) := by
  have h := App.reachable_playAll reads
  have hdone : ((App.playAll reads).peers 2).any fun p => p.connection.outbox.wire =
      Websocket.handshake p.hello ++ [whisperFrame].flatMap WireFrame.bytes := by decide +kernel
  obtain ⟨peer, hp, hpeer⟩ := (Option.any_eq_true _ _).mp hdone
  have hwire := of_decide_eq_true hpeer
  have harrived : Websocket.handshake peer.hello ++ [whisperFrame].flatMap WireFrame.bytes <+:
      peer.connection.outbox.wire := ⟨[], by rw [hwire, List.append_nil]⟩
  have hmem : whisperFrame ∈ [whisperFrame] := List.mem_singleton_self _
  have hmay := reads_what_is_meant h hp harrived hmem rfl (.inl (by decide))
  exact ⟨_, peer, h, hp, hwire, hmay⟩

/-! ## From the client -/

theorem wholeHeaders_of_socket {c : Connection} {e : Websocket.Event}
    (h : e.isSocket → WholeHeaders c e) : WholeHeaders c e := by
  cases e with
  | post job => trivial
  | close msg statusCode => trivial
  | _ => exact h rfl

section Hears

variable {trace : List Event} {opened : Conn → Bool} {fs : List WireFrame} {ms : List (Bytes × Bool)}

theorem Peer.Good.whole (h : peer.Good WholeHeaders host maxPayloadBytes trace opened conn) :
    Websocket.ReachedBy WholeHeaders host maxPayloadBytes peer.hello [] peer.events peer.connection :=
  h.reached.mono fun _ _ => wholeHeaders_of_socket

theorem Peer.Good.messages (h : peer.Good ok host maxPayloadBytes trace opened conn) :
    Websocket.messages peer.connection.calls =
      Websocket.messages peer.begun ++ Websocket.messages peer.waiting := by
  rw [h.calls]
  exact List.filterMap_append

theorem Peer.Good.hears (h : peer.Good WholeHeaders host maxPayloadBytes trace opened conn)
    (hcarries : Carries fs ms) (hreceived : Websocket.received peer.events <+: fs.flatMap WireFrame.bytes) :
    Websocket.messages peer.begun <+: ms := by
  obtain ⟨isBinary, done, rest, hparsed⟩ := h.whole.parsed
  rw [← h.whole.taken] at hreceived
  have hmessages := (hparsed.delivered hcarries hreceived).2
  rw [h.messages] at hmessages
  exact (List.prefix_append _ _).trans hmessages

end Hears

/-- **What the chat hears.** The client sends frames that carry messages, and no read comes between
the two bytes that begin a frame. The calls of `on_message` that have begun bring the first of the
messages, whole and in order. When all has come and no call waits, they have brought them all. -/
theorem chat_hears (h : app.ReachableBy WholeHeaders host maxPayloadBytes)
    (hp : app.peers conn = some peer) {fs : List WireFrame} {ms : List (Bytes × Bool)}
    (hcarries : Carries fs ms)
    (hreceived : Websocket.received peer.events <+: fs.flatMap WireFrame.bytes) :
    Websocket.messages peer.begun <+: ms ∧
      (Websocket.received peer.events = fs.flatMap WireFrame.bytes → peer.connection.Waits →
        peer.waiting = [] → Websocket.messages peer.begun = ms) := by
  have hgood := h.good.peopled conn peer hp
  refine ⟨hgood.hears hcarries hreceived, fun heq hwaits hwaiting => ?_⟩
  obtain ⟨isBinary, done, rest, hparsed⟩ := hgood.whole.parsed
  rw [← hgood.whole.taken] at heq
  rw [← hparsed.all hgood.whole.settled hcarries heq hwaits, hgood.messages, hwaiting]
  exact (List.append_nil _).symm

/-- The frame in which `a` asks for the list. -/
def listFrame : WireFrame := .make true 2 (some #v[7, 3, 2, 1]) [1] (by decide)

theorem chat_hears_list : ∃ (app : App) (peer : Peer),
    app.ReachableBy WholeHeaders .little (256 ^ 8 - 1) ∧ app.peers 1 = some peer ∧
      Websocket.messages peer.begun = [([1], true)] := by
  have h := App.reachable_playAll asks
  have hdone : ((App.playAll asks).peers 1).any fun p =>
      Websocket.received p.events = [listFrame].flatMap WireFrame.bytes ∧ p.connection.Waits ∧
        p.waiting = [] := by decide +kernel
  obtain ⟨peer, hp, hpeer⟩ := (Option.any_eq_true _ _).mp hdone
  obtain ⟨hreceived, hwaits, hwaiting⟩ := of_decide_eq_true hpeer
  have hcarries : Carries [listFrame] [([1], true)] := .whole true rfl rfl .nil
  obtain ⟨-, hall⟩ := chat_hears h hp hcarries (hreceived ▸ List.prefix_refl _)
  exact ⟨_, peer, h, hp, hall hreceived hwaits hwaiting⟩

end Results

end ChatServer
