import ChatServer.EndToEnd

/-!
# Where messages come from

The chat accepts no message but what the client of a connection has written into its frames, and
only under the name of this client.
-/

open Program

namespace ChatServer

open Websocket (Connection HandlerCall WireFrame Carries WholeHeaders)

variable {ok : Connection → Websocket.Event → Prop} {host : ByteOrder} {maxPayloadBytes : Nat}

/-! ## What a handler has heard -/

/-- The binary for which the last handler of the object has begun. -/
def Peer.heard (p : Peer) : Option Bytes :=
  match p.begun.getLast? with
  | some (.message data true) => some data
  | _ => none

def App.heard (app : App) : Thread → Option Bytes
  | .handlers conn => ((app.peers conn).map Peer.heard).join
  | .monitor _ | .cleanup _ => none

section Heard

variable {app : App} {conn : Conn} {p : Peer}

theorem Peer.heard_use (p : Peer) (a : Websocket.Event) : (p.use host a).heard = p.heard := by
  unfold Peer.use
  split <;> rfl

theorem Peer.mem_messages {data : Bytes} (h : p.heard = some data) :
    (data, true) ∈ Websocket.messages p.begun := by
  unfold Peer.heard at h
  split at h
  · rename_i heard hlast
    obtain rfl := Option.some.inj h
    exact List.mem_filterMap.mpr ⟨_, List.mem_of_getLast? hlast, rfl⟩
  · cases h

/-- A handler hears what Crow gives it. -/
theorem Peer.heard_begin (p : Peer) {call : HandlerCall} (rest : List HandlerCall)
    {userdata : Option Bytes} {c : Call} (hroute : route conn userdata call = some c) :
    c.thread = .handlers conn ∧ (p.begin call rest).heard = c.heard := by
  unfold Peer.heard Peer.begin
  dsimp only
  rw [List.getLast?_concat]
  cases call with
  | opened =>
    obtain ⟨n, -, rfl⟩ := Option.map_eq_some_iff.mp hroute
    exact ⟨rfl, rfl⟩
  | message data isBinary =>
    obtain rfl := Option.some.inj hroute
    cases isBinary <;> exact ⟨rfl, rfl⟩
  | closed reason code =>
    obtain rfl := Option.some.inj hroute
    exact ⟨rfl, rfl⟩

theorem App.heard_put (app : App) (conn : Conn) (q : Option Peer) :
    (app.put conn q).heard = Function.update app.heard (.handlers conn) (q.map Peer.heard).join := by
  funext t
  cases t with
  | handlers c =>
    by_cases hc : c = conn
    · subst hc
      simp [App.heard, App.put]
    · simp [App.heard, App.put, hc]
  | monitor k => simp [App.heard]
  | cleanup k => simp [App.heard]

theorem App.heard_move (app : App) (t : Thread) (q : Prog Unit) (w : World) :
    (app.move host t q w).heard = app.heard := by
  funext u
  cases u with
  | handlers c => exact congrArg Option.join (App.map_foldl Peer.heard_use _ _ _)
  | monitor k => rfl
  | cleanup k => rfl

/-- Every thread of the chat minds its errand, and its handlers have heard what came last. -/
theorem App.ReachableBy.minding (h : app.ReachableBy ok host maxPayloadBytes) :
    ∃ errand, Minding app.cfg app.heard errand := by
  induction h with
  | init => exact ⟨_, .init _ rfl⟩
  | @accept app conn url name hello isBinary hreach hfree _ ih =>
    obtain ⟨errand, hminding⟩ := ih
    refine ⟨Function.update errand (.handlers conn) .rest, ?_⟩
    rw [App.heard_put]
    exact hminding.update (hreach.good.absent conn hfree).1 none
  | @socket app conn p e _ hp _ _ _ _ _ ih =>
    obtain ⟨errand, hminding⟩ := ih
    have hsame : (app.put conn (some (p.step host e))).heard = app.heard := by
      rw [App.heard_put, Function.update_eq_self_iff]
      simp only [App.heard, hp]
      rfl
    exact ⟨errand, hsame ▸ hminding⟩
  | @handle app conn p call rest c _ _ _ _ hroute ih =>
    obtain ⟨errand, hminding⟩ := ih
    obtain ⟨hthread, hheard⟩ := p.heard_begin rest hroute
    have hsame : ((app.put conn (some (p.begin call rest))).call c).heard =
        Function.update app.heard c.thread c.heard := by
      rw [hthread, ← hheard]
      exact App.heard_put app conn _
    refine ⟨Function.update errand c.thread .rest, ?_⟩
    rw [hsame]
    exact hminding.call c
  | @pass app c _ hloop _ _ ih =>
    obtain ⟨errand, hminding⟩ := ih
    have hnone : app.heard c.thread = c.heard := by
      cases c with
      | onOpen conn | onMessage conn | onClose conn => exact absurd rfl (hloop conn)
      | monitorPass k | cleanupPass k => rfl
    have hsame : app.heard = Function.update app.heard c.thread c.heard := by
      rw [← hnone, Function.update_eq_self]
    refine ⟨Function.update errand c.thread .rest, ?_⟩
    change Minding (app.cfg.call c) app.heard _
    rw [hsame]
    exact hminding.call c
  | @move app t q w hreach hadv _ ih =>
    obtain ⟨errand, hminding⟩ := ih
    rw [App.heard_move]
    exact (hminding.move hreach.good.reachable hadv).2
  | @free app conn p _ _ _ hidle _ ih =>
    obtain ⟨errand, hminding⟩ := ih
    refine ⟨Function.update errand (.handlers conn) .rest, ?_⟩
    rw [App.heard_put]
    exact hminding.update hidle none

end Heard

/-! ## What is accepted -/

section Results

variable {app : App}

/-- **Where messages come from.** When a step of the server accepts a message, it is a step of a
handler of an existing client, a binary that this client has put into its frames says so, and the
sender is this client, or the fallback sender if the connection is in no entry. No read comes
between the two bytes that begin a frame. -/
theorem messages_are_heard (h : app.ReachableBy WholeHeaders host maxPayloadBytes) {t : Thread}
    {q : Prog Unit} {w : World}
    (hadv : advance .connectionsMutex (app.cfg.code t) app.cfg.world = some (q, w)) {e : Event}
    (he : e ∈ w.trace.drop app.cfg.world.trace.length) {s destino msg : Bytes}
    (haccepts : e.accepts = some (s, destino, msg)) :
    ∃ conn peer data mensaje, t = .handlers conn ∧ app.peers conn = some peer ∧
      (peer.name = s ∨ s = desconocido ∧ ∀ n, app.cfg.world.connOf n ≠ some conn) ∧
        readRequest data = .ok (.sendMessage destino mensaje) ∧ msg = mensaje.take maxMessageLength ∧
          ∀ fs ms, Carries fs ms → Websocket.received peer.events <+: fs.flatMap WireFrame.bytes →
            (data, true) ∈ ms := by
  obtain ⟨errand, hminding⟩ := h.minding
  obtain ⟨⟨es, htrace, hes⟩, -⟩ := hminding.move h.good.reachable hadv
  rw [htrace, List.drop_left] at he
  rcases hes with hnone | hmeant | ⟨e', rfl, hwrote⟩
  · have hno := hnone e he
    cases e <;> simp_all [Event.hasMessages, Event.accepts]
  · obtain ⟨conn, payload, rfl, -⟩ := hmeant e he
    cases haccepts
  · obtain rfl := List.mem_singleton.mp he
    obtain ⟨conn, s', data, destino', mensaje, rfl, hruns, hheard, hread, haccepts'⟩ := hwrote
    rw [haccepts', Option.some.injEq, Prod.mk.injEq, Prod.mk.injEq] at haccepts
    obtain ⟨rfl, rfl, rfl⟩ := haccepts
    obtain ⟨peer, hp, hheard⟩ := Option.map_eq_some_iff.mp (Option.join_eq_some_iff.mp hheard)
    have hgood := h.good.peopled conn peer hp
    refine ⟨conn, peer, data, mensaje, rfl, hp, hruns.imp (fun hs => ?_) (.imp id fun hno n hn => ?_),
      hread, rfl, fun fs ms hcarries hreceived => ?_⟩
    · simpa [hp] using h.good.named conn s' hs
    · exact hno n ((h.good.reachable.sound.owned n conn).mp hn)
    · exact (hgood.hears hcarries hreceived).subset (Peer.mem_messages hheard)

/-- `a` writes to everybody, and the message is about to be accepted. -/
def writes : List App.Turn :=
  [.accept 1 (ascii "/?name=a") (ascii "x"), .handle 1, .steps (.handlers 1) 40,
    .socket 1 (.written true), .socket 1 (.read [0x82, 0x85]), .socket 1 (.read [0, 0, 0, 0]),
    .socket 1 (.read (4 :: pushString8 generalChat ++ pushString8 (ascii "x"))), .handle 1,
    .steps (.handlers 1) 7]

theorem messages_are_heard_all : ∃ (app : App) (q : Prog Unit) (w : World),
    app.ReachableBy WholeHeaders .little (256 ^ 8 - 1) ∧
      advance .connectionsMutex (app.cfg.code (.handlers 1)) app.cfg.world = some (q, w) ∧
        .storedGeneral (ascii "a") (ascii "x") ∈ w.trace.drop app.cfg.world.trace.length ∧
          ∃ conn peer data mensaje, Thread.handlers 1 = .handlers conn ∧ app.peers conn = some peer ∧
            readRequest data = .ok (.sendMessage generalChat mensaje) ∧
              ascii "x" = mensaje.take maxMessageLength := by
  have h := App.reachable_playAll writes
  have hstores : (advance .connectionsMutex ((App.playAll writes).cfg.code (.handlers 1))
      (App.playAll writes).cfg.world).any fun r => .storedGeneral (ascii "a") (ascii "x") ∈
        r.2.trace.drop (App.playAll writes).cfg.world.trace.length := by decide +kernel
  obtain ⟨⟨q, w⟩, hadv, hmem⟩ := (Option.any_eq_true _ _).mp hstores
  obtain ⟨conn, peer, data, mensaje, ht, hp, -, hread, hmsg, -⟩ :=
    messages_are_heard h hadv (of_decide_eq_true hmem) rfl
  exact ⟨_, q, w, h, hadv, of_decide_eq_true hmem, conn, peer, data, mensaje, ht, hp, hread, hmsg⟩

end Results

end ChatServer
