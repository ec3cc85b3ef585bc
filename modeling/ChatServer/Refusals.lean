import ChatServer.Serving

/-!
# Refused clients

What the chat does to a connection object calls no handler of it. When `on_open` refuses a client,
the close that it asks for is done at once, and the text that gives the reason waits.
-/

open Program

namespace ChatServer

open Websocket (Connection HandlerCall WireFrame)

variable {ok : Connection → Websocket.Event → Prop} {host : ByteOrder} {maxPayloadBytes : Nat}

/-! ## Use of an object -/

/-- Nothing has been called or deleted between the two. -/
structure Undisturbed (p q : Peer) : Prop where
  waiting : q.waiting = p.waiting
  begun : q.begun = p.begun
  since : q.since = p.since
  deleted : q.connection.deleted = p.connection.deleted

theorem Undisturbed.trans {p q r : Peer} (h : Undisturbed p q) (h' : Undisturbed q r) :
    Undisturbed p r :=
  ⟨h'.waiting.trans h.waiting, h'.begun.trans h.begun, h'.since.trans h.since,
    h'.deleted.trans h.deleted⟩

/-- The first of the frames is a close. -/
def ClosedFirst (frames : List (Nat × Bytes)) : Prop := ∃ payload rest, frames = (8, payload) :: rest

theorem ClosedFirst.mono {frames frames' : List (Nat × Bytes)} (h : ClosedFirst frames)
    (hle : frames <+: frames') : ClosedFirst frames' := by
  obtain ⟨payload, rest, rfl⟩ := h
  obtain ⟨more, rfl⟩ := hle
  exact ⟨payload, rest ++ more, rfl⟩

/-- The object is there, and nothing has been written but a close first. -/
structure Peer.Hushed (p : Peer) : Prop where
  present : p.connection.deleted = false
  frames : p.connection.outbox.frames = [] ∨ ClosedFirst p.connection.outbox.frames

/-- What the uses `es` of an object do. -/
structure Used (conn : Conn) (es : List Event) (p q : Peer) : Prop extends Undisturbed p q where
  hushed : p.Hushed → q.Hushed
  frames : p.connection.outbox.frames <+: q.connection.outbox.frames
  closes : (∃ reason, .close conn reason ∈ es) → p.Hushed → ClosedFirst q.connection.outbox.frames

section Use

variable {trace : List Event} {opened : Conn → Bool} {conn : Conn} {p : Peer}

theorem used_nothing {e : Event} (he : ∀ reason, e ≠ .close conn reason) : Used conn [e] p p := by
  refine ⟨⟨rfl, rfl, rfl, rfl⟩, id, List.prefix_refl _, ?_⟩
  rintro ⟨reason, hmem⟩
  exact absurd (List.mem_singleton.mp hmem).symm (he reason)

/-- The frames after a close on the thread of the connection. -/
theorem frames_close (host : ByteOrder) (c : Connection) (msg : Bytes) (statusCode : UInt16) :
    ∃ payload, (Connection.closeImpl host c msg statusCode).outbox.frames =
      c.outbox.frames ++ [(8, payload)] := by
  rw [Connection.closeImpl_eq]
  exact ⟨_, Connection.Grows.doWrite_frames _⟩

theorem Peer.Good.used (h : p.Good ok host maxPayloadBytes trace opened conn) {e : Event}
    {a : Websocket.Event} (hact : e.act = some (conn, a)) : Used conn [e] p (p.use host a) := by
  unfold Peer.use
  split
  · rename_i hdeleted
    refine ⟨⟨rfl, rfl, rfl, rfl⟩, id, List.prefix_refl _, fun _ hhushed => ?_⟩
    simp [hhushed.present] at hdeleted
  · have ha : (∃ job, a = .post job) ∨ ∃ msg statusCode, a = .close msg statusCode := by
      cases e with
      | sendBinary c payload => exact .inl ⟨_, (Prod.mk.inj (Option.some.inj hact)).2.symm⟩
      | sendText c text => exact .inl ⟨_, (Prod.mk.inj (Option.some.inj hact)).2.symm⟩
      | close c reason => exact .inr ⟨_, _, (Prod.mk.inj (Option.some.inj hact)).2.symm⟩
      | _ => cases hact
    obtain ⟨hcalls, hdeleted⟩ : (p.connection.step host a).calls = p.connection.calls ∧
        (p.connection.step host a).deleted = p.connection.deleted := h.reached.answered.calls_step ha
    have hsame : Undisturbed p (p.step host a) := by
      refine ⟨?_, rfl, rfl, hdeleted⟩
      unfold Peer.step
      dsimp only
      rw [hcalls, List.drop_length, List.append_nil]
    have hgrows : p.connection.outbox.frames <+: (p.connection.step host a).outbox.frames :=
      (Connection.Grows.step p.connection a).frames
    rcases ha with ⟨job, rfl⟩ | ⟨msg, statusCode, rfl⟩
    · refine ⟨hsame, fun hhushed => ⟨hhushed.present, hhushed.frames⟩, hgrows, ?_⟩
      rintro ⟨reason, hmem⟩
      rw [← List.mem_singleton.mp hmem] at hact
      cases hact
    · have hcloses : p.Hushed →
          ClosedFirst (p.step host (.close msg statusCode)).connection.outbox.frames := by
        intro hhushed
        obtain ⟨payload, hframes⟩ := frames_close host p.connection msg statusCode
        rcases hhushed.frames with hnil | hfirst
        · refine ⟨payload, [], ?_⟩
          rw [hnil] at hframes
          exact hframes
        · exact hfirst.mono hgrows
      refine ⟨hsame, fun hhushed => ⟨hdeleted.trans hhushed.present, .inr (hcloses hhushed)⟩, hgrows, ?_⟩
      exact fun _ hhushed => hcloses hhushed

theorem Used.trans {es es' : List Event} {q r : Peer} (h : Used conn es p q) (h' : Used conn es' q r) :
    Used conn (es ++ es') p r := by
  refine ⟨h.toUndisturbed.trans h'.toUndisturbed, h'.hushed ∘ h.hushed, h.frames.trans h'.frames, ?_⟩
  rintro ⟨reason, hmem⟩ hhushed
  rcases List.mem_append.mp hmem with hold | hnew
  · exact (h.closes ⟨reason, hold⟩ hhushed).mono h'.frames
  · exact h'.closes ⟨reason, hnew⟩ (h.hushed hhushed)

theorem used_deliver {peers : Conn → Option Peer}
    (h : App.Peopled ok host maxPayloadBytes trace opened peers) (hp : peers conn = some p) (e : Event) :
    ∃ q, App.deliver host peers e conn = some q ∧ Used conn [e] p q := by
  unfold App.deliver
  cases hact : e.act with
  | none =>
    refine ⟨p, hp, used_nothing ?_⟩
    rintro reason rfl
    cases hact
  | some r =>
    obtain ⟨c, a⟩ := r
    by_cases hc : conn = c
    · subst hc
      refine ⟨p.use host a, ?_, (h conn p hp).used hact⟩
      simp only [Function.update_self, hp, Option.map_some]
    · refine ⟨p, ?_, used_nothing ?_⟩
      · simp only [Function.update_of_ne hc, hp]
      · rintro reason rfl
        exact hc (Prod.mk.inj (Option.some.inj hact)).1

theorem used_foldl {peers : Conn → Option Peer}
    (h : App.Peopled ok host maxPayloadBytes trace opened peers) (hp : peers conn = some p)
    {es : List Event} (hfits : ∀ e ∈ es, ∀ conn a, e.act = some (conn, a) → a.Fits) :
    ∃ q, es.foldl (App.deliver host) peers conn = some q ∧ Used conn es p q := by
  induction es generalizing trace peers p with
  | nil => exact ⟨p, hp, ⟨rfl, rfl, rfl, rfl⟩, id, List.prefix_refl _, by simp⟩
  | cons e es ih =>
    obtain ⟨q, hq, hfirst⟩ := used_deliver h hp e
    obtain ⟨r, hr, hrest⟩ := ih (h.deliver (hfits e List.mem_cons_self)) hq
      fun e' he' => hfits e' (List.mem_cons_of_mem _ he')
    exact ⟨r, hr, hfirst.trans hrest⟩

end Use

/-! ## Runs -/

namespace App

section Steps

variable {app : App} {conn : Conn} {p : Peer}

/-- The open handler has not begun, or it is running. -/
def Opening (app : App) (conn : Conn) (p : Peer) : Prop :=
  p.begun = [] ∨ p.begun = [.opened] ∧ ¬ app.Idle conn

structure Refusing (app : App) (conn : Conn) (p : Peer) : Prop where
  hushed : app.Opening conn p → p.Hushed
  refused : ∀ reason, .close conn reason ∈ app.cfg.world.trace.drop p.since →
    ClosedFirst p.connection.outbox.frames

/-- Every peer of the application. -/
def Refuses (app : App) : Prop := ∀ conn p, app.peers conn = some p → app.Refusing conn p

theorem Refuses.put (h : app.Refuses) {q : Option Peer}
    (hq : ∀ r, q = some r → (app.put conn q).Refusing conn r) : (app.put conn q).Refuses := by
  intro c r hr
  by_cases hc : c = conn
  · subst hc
    refine hq r ?_
    simpa [App.put] using hr
  · obtain ⟨hhushed, hrefused⟩ := h c r (by simpa [App.put, hc] using hr)
    exact ⟨hhushed, hrefused⟩

theorem Refuses.socket (h : app.Refuses) (hgood : app.Good ok host maxPayloadBytes)
    (hp : app.peers conn = some p) (hidle : app.Idle conn) (hwaiting : p.waiting = [])
    (e : Websocket.Event) : (app.put conn (some (p.step host e))).Refuses := by
  apply h.put
  rintro r ⟨⟩
  refine ⟨fun hopening => ?_, fun reason hmem => ?_⟩
  · rcases hopening with hnil | ⟨-, hbusy⟩
    · obtain ⟨rest, hcalls, -⟩ := (hgood.peopled conn p hp).reached.settled.opens
      rw [(hgood.peopled conn p hp).calls, hwaiting, show p.begun = [] from hnil] at hcalls
      cases hcalls
    · exact absurd hidle hbusy
  · exact ((h conn p hp).refused reason hmem).mono (Connection.Grows.step p.connection e).frames

theorem Refuses.handle (h : app.Refuses) (hp : app.peers conn = some p) {call : HandlerCall}
    {rest : List HandlerCall} {c : Call} (hthread : c.thread = .handlers conn) :
    ((app.put conn (some (p.begin call rest))).call c).Refuses := by
  intro d r hr
  by_cases hd : d = conn
  · subst hd
    obtain rfl : p.begin call rest = r := by simpa [App.put, App.call] using hr
    refine ⟨fun hopening => ?_, (h d p hp).refused⟩
    have hnil : p.begun = [] := by
      rcases hopening with hnil | ⟨hone, -⟩
      · exact absurd hnil (by simp [Peer.begin])
      · unfold Peer.begin at hone
        dsimp only at hone
        rw [← List.nil_append [HandlerCall.opened]] at hone
        exact (List.append_inj' hone rfl).1
    obtain ⟨hpresent, hframes⟩ := (h d p hp).hushed (.inl hnil)
    exact ⟨hpresent, hframes⟩
  · have hother : Thread.handlers d ≠ c.thread := by
      rw [hthread]
      exact fun heq => hd (Thread.handlers.inj heq)
    obtain ⟨hhushed, hrefused⟩ := h d r (by simpa [App.put, App.call, hd] using hr)
    refine ⟨fun hopening => hhushed (hopening.imp_right fun hone => ⟨hone.1, fun hidle => ?_⟩), hrefused⟩
    exact hone.2 ((Config.call_code_of_ne _ hother).trans hidle)

theorem Refuses.pass (h : app.Refuses) {c : Call} (hloop : ∀ conn, c.thread ≠ .handlers conn) :
    (app.call c).Refuses := by
  intro d r hr
  obtain ⟨hhushed, hrefused⟩ := h d r hr
  refine ⟨fun hopening => hhushed (hopening.imp_right fun hone => ⟨hone.1, fun hidle => ?_⟩), hrefused⟩
  exact hone.2 ((Config.call_code_of_ne _ (hloop d).symm).trans hidle)

/-- What becomes of a peer when the chat moves. -/
theorem Good.used (hgood : app.Good ok host maxPayloadBytes) {t : Thread} {q : Prog Unit} {w : World}
    (hfits : ∀ e ∈ w.trace.drop app.cfg.world.trace.length, ∀ conn a, e.act = some (conn, a) → a.Fits)
    (hp : app.peers conn = some p) :
    ∃ r, (app.move host t q w).peers conn = some r ∧
      Used conn (w.trace.drop app.cfg.world.trace.length) p r :=
  used_foldl hgood.peopled hp hfits

theorem Refuses.move (h : app.Refuses) (hgood : app.Good ok host maxPayloadBytes) {t : Thread}
    {q : Prog Unit} {w : World}
    (hadv : advance .connectionsMutex (app.cfg.code t) app.cfg.world = some (q, w))
    (hfits : ∀ e ∈ w.trace.drop app.cfg.world.trace.length, ∀ conn a, e.act = some (conn, a) → a.Fits) :
    (app.move host t q w).Refuses := by
  intro c r hr
  obtain ⟨p, hp⟩ : ∃ p, app.peers c = some p := by
    have hname : ((app.move host t q w).peers c).map Peer.name = (app.peers c).map Peer.name :=
      map_foldl name_use _ _ _
    by_contra hno
    rw [Option.eq_none_iff_forall_ne_some.mpr (not_exists.mp hno), hr] at hname
    cases hname
  obtain ⟨r', hr', hused⟩ := hgood.used (t := t) (q := q) hfits hp
  obtain rfl := Option.some.inj (hr'.symm.trans hr)
  obtain ⟨-, es, htrace, haimed⟩ := hgood.aiming.move hadv
  have hbusy : ∀ d, t = .handlers d → ¬ app.Idle d := by
    rintro d rfl hidle
    rw [App.Idle] at hidle
    rw [hidle] at hadv
    cases hadv
  refine ⟨fun hopening => hused.hushed ((h c p hp).hushed ?_), fun reason hmem => ?_⟩
  · unfold Opening at hopening ⊢
    rw [hused.begun] at hopening
    refine hopening.imp_right fun hone => ⟨hone.1, fun hidle => hone.2 ?_⟩
    have hother : Thread.handlers c ≠ t := fun heq => hbusy c heq.symm hidle
    exact (Function.update_of_ne hother _ _).trans hidle
  · have hdrop : w.trace.drop app.cfg.world.trace.length = es := by rw [htrace, List.drop_left]
    rw [hdrop] at hused
    change .close c reason ∈ w.trace.drop r'.since at hmem
    rw [hused.since, htrace, List.drop_append_of_le_length (hgood.peopled c p hp).since] at hmem
    rcases List.mem_append.mp hmem with hold | hnew
    · exact ((h c p hp).refused reason hold).mono hused.frames
    · -- The open handler is what closes, and it is still running.
      obtain ⟨rfl, huser⟩ := (haimed _ hnew).close rfl c rfl
      obtain ⟨n, hn⟩ := Option.isSome_iff_exists.mp huser
      have hopening : p.opening = some n := by
        unfold users at hn
        simpa [hp] using hn
      have hbegun : p.begun = [.opened] := by
        unfold Peer.opening at hopening
        by_contra hne
        rw [if_neg hne] at hopening
        cases hopening
      exact hused.closes ⟨reason, hnew⟩ ((h c p hp).hushed (.inr ⟨hbegun, hbusy c rfl⟩))

theorem ReachableBy.refuses (h : ReachableBy ok host maxPayloadBytes app) : app.Refuses := by
  induction h with
  | init clock time ip =>
    intro c r hr
    cases hr
  | accept hello isBinary _ _ _ ih =>
    apply ih.put
    rintro r ⟨⟩
    refine ⟨fun _ => ⟨rfl, .inl rfl⟩, fun reason hmem => ?_⟩
    simp [App.put, Peer.accept] at hmem
  | socket h hp hidle hwaiting _ _ _ ih => exact ih.socket h.good hp hidle hwaiting _
  | handle h hp _ hwaiting hroute ih =>
    obtain ⟨c, hc, hthread, -⟩ := h.good.routes hp hwaiting
    obtain rfl := Option.some.inj (hc.symm.trans hroute)
    exact ih.handle hp hthread
  | pass _ hloop _ _ ih => exact ih.pass hloop
  | move h hadv hfits ih => exact ih.move h.good hadv hfits
  | free _ _ _ _ ih =>
    apply ih.put
    intro r hr
    cases hr

end Steps

end App

/-! ## Results -/

section Results

variable {app : App} {conn : Conn} {peer : Peer}

/-- **No handler within a handler.** Whatever the chat does to an object, no handler of it is called
for that, and it is not deleted: the sends and the close of the chat return before anything else
happens to the connection. -/
theorem no_handler_within (h : app.ReachableBy ok host maxPayloadBytes) {t : Thread} {q : Prog Unit}
    {w : World} (hfits : ∀ e ∈ w.trace.drop app.cfg.world.trace.length, ∀ conn a,
      e.act = some (conn, a) → a.Fits) (hp : app.peers conn = some peer) :
    ∃ after, (app.move host t q w).peers conn = some after ∧ after.waiting = peer.waiting ∧
      after.connection.deleted = peer.connection.deleted := by
  obtain ⟨r, hr, hused⟩ := h.good.used hfits hp
  exact ⟨r, hr, hused.waiting, hused.deleted⟩

/-- A client comes under the name of the general chat, and is about to be refused. -/
def refused (steps : Nat) : List App.Turn :=
  [.accept 1 (ascii "/?name=~") (ascii "x"), .handle 1, .steps (.handlers 1) steps]

theorem no_handler_within_refusal : ∃ (app : App) (q : Prog Unit) (w : World) (peer after : Peer),
    app.ReachableBy Websocket.WholeHeaders .little (256 ^ 8 - 1) ∧
      advance .connectionsMutex (app.cfg.code (.handlers 1)) app.cfg.world = some (q, w) ∧
        app.peers 1 = some peer ∧ (app.move .little (.handlers 1) q w).peers 1 = some after ∧
          after.waiting = peer.waiting ∧ after.connection.deleted = peer.connection.deleted := by
  have h := App.reachable_playAll (refused 0)
  have hstep : (advance .connectionsMutex ((App.playAll (refused 0)).cfg.code (.handlers 1))
      (App.playAll (refused 0)).cfg.world).any fun r =>
        App.fits (r.2.trace.drop (App.playAll (refused 0)).cfg.world.trace.length) := by decide +kernel
  obtain ⟨⟨q, w⟩, hadv, hfits⟩ := (Option.any_eq_true _ _).mp hstep
  obtain ⟨peer, hp⟩ := Option.isSome_iff_exists.mp
    (by decide +kernel : ((App.playAll (refused 0)).peers 1).isSome)
  obtain ⟨after, hafter, hwaiting, hdeleted⟩ := no_handler_within h (App.fits_iff.mp hfits) hp
  exact ⟨_, q, w, peer, after, h, hadv, hp, hafter, hwaiting, hdeleted⟩

/-- **The reason comes too late.** The first frame that a refused client reads is the close frame:
the text that says why has been sent before it, and still comes after it. -/
theorem reason_comes_late (h : app.ReachableBy ok host maxPayloadBytes)
    (hp : app.peers conn = some peer) {reason : String}
    (hrefused : .close conn reason ∈ app.cfg.world.trace.drop peer.since) {f : WireFrame}
    {fs : List WireFrame} (harrived : Websocket.handshake peer.hello ++
      (f :: fs).flatMap WireFrame.bytes <+: peer.connection.outbox.wire) : f.opcode = 8 := by
  have hsends := (h.good.peopled conn peer hp).reached.sends (by simp)
  obtain ⟨payload, rest, hfirst⟩ := (h.refuses conn peer hp).refused reason hrefused
  have hframes := (hsends.arrivedFrames harrived).2
  rw [hfirst, List.map_cons] at hframes
  obtain ⟨heq, -⟩ := List.cons_prefix_cons.mp hframes
  exact congrArg Prod.fst heq

/-- The client has been refused, and the server has written what it had until then. -/
def refusedLate : List App.Turn := refused 40 ++ [.socket 1 (.written true)]

/-- The first frame that the client reads. -/
def refusalFrame : WireFrame :=
  .make true 8 none ([3, 232] ++ "Nombre inválido.".toUTF8.toList) (by decide +kernel)

theorem reason_comes_late_refusal : ∃ (app : App) (peer : Peer),
    app.ReachableBy Websocket.WholeHeaders .little (256 ^ 8 - 1) ∧ app.peers 1 = some peer ∧
      .close 1 "Nombre inválido." ∈ app.cfg.world.trace.drop peer.since ∧
        Websocket.handshake peer.hello ++ refusalFrame.bytes <+: peer.connection.outbox.wire ∧
          refusalFrame.opcode = 8 := by
  have h := App.reachable_playAll refusedLate
  have harrived : ((App.playAll refusedLate).peers 1).any fun p =>
      .close 1 "Nombre inválido." ∈ (App.playAll refusedLate).cfg.world.trace.drop p.since ∧
        Websocket.handshake p.hello ++ [refusalFrame].flatMap WireFrame.bytes <+:
          p.connection.outbox.wire := by decide +kernel
  obtain ⟨peer, hp, hpeer⟩ := (Option.any_eq_true _ _).mp harrived
  obtain ⟨hrefused, hwire⟩ := of_decide_eq_true hpeer
  exact ⟨_, peer, h, hp, hrefused, by simpa using hwire, reason_comes_late h hp hrefused hwire⟩

end Results

end ChatServer
