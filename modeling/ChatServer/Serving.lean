import ChatServer.App

/-!
# What holds of the application

The handlers of a connection find the object and the name that they use, and whatever the tables
of the chat point to exists.
-/

open Program

namespace ChatServer

open Websocket (Connection HandlerCall isData)

variable {ok : Connection → Websocket.Event → Prop} {host : ByteOrder} {maxPayloadBytes : Nat}

/-! ## What is said to a connection -/

/-- The data that the chat gives to `conn`, as a frame. -/
def Event.tells (conn : Conn) : Event → Option (Nat × Bytes)
  | .sendBinary c payload => if c = conn then some (2, payload) else none
  | .sendText c text => if c = conn then some (1, text.toUTF8.toList) else none
  | _ => none

def said (conn : Conn) (trace : List Event) : List (Nat × Bytes) := trace.filterMap (Event.tells conn)

theorem said_append (conn : Conn) (trace es : List Event) :
    said conn (trace ++ es) = said conn trace ++ said conn es :=
  List.filterMap_append

/-- What an event has the application say. -/
theorem says_act {e : Event} {conn : Conn} {a : Websocket.Event} (h : e.act = some (conn, a)) :
    said conn [e] = Websocket.sent (Websocket.posts [a]) := by
  cases e with
  | sendBinary c payload =>
    obtain ⟨rfl, rfl⟩ := Prod.mk.inj (Option.some.inj h)
    simp [said, Event.tells, Websocket.sent, Websocket.posts, Websocket.Job.data]
  | sendText c text =>
    obtain ⟨rfl, rfl⟩ := Prod.mk.inj (Option.some.inj h)
    simp [said, Event.tells, Websocket.sent, Websocket.posts, Websocket.Job.data]
  | close c reason =>
    obtain ⟨rfl, rfl⟩ := Prod.mk.inj (Option.some.inj h)
    rfl
  | _ => cases h

theorem says_other {e : Event} {conn : Conn} (h : ∀ a, e.act ≠ some (conn, a)) : said conn [e] = [] := by
  cases e with
  | sendBinary c payload =>
    have hne : c ≠ conn := by
      rintro rfl
      exact h _ rfl
    simp [said, Event.tells, hne]
  | sendText c text =>
    have hne : c ≠ conn := by
      rintro rfl
      exact h _ rfl
    simp [said, Event.tells, hne]
  | _ => rfl

/-! ## Peers -/

/-- No close handler has begun. -/
def Unclosed (calls : List HandlerCall) : Bool := !calls.any HandlerCall.isClosed

/-- The user for whom the open handler is running, or was the last to run. -/
def Peer.opening (p : Peer) : Option Bytes := if p.begun = [.opened] then some p.name else none

theorem Peer.name_of_opening {p : Peer} {n : Bytes} (h : p.opening = some n) : p.name = n := by
  unfold opening at h
  split at h
  · exact Option.some.inj h
  · cases h

/-- What holds of a peer at `conn`. -/
structure Peer.Good (ok : Connection → Websocket.Event → Prop) (host : ByteOrder)
    (maxPayloadBytes : Nat) (trace : List Event) (opened : Conn → Bool) (conn : Conn) (p : Peer) :
    Prop where
  reached : Websocket.ReachedBy (fun c e => e.isSocket → ok c e) host maxPayloadBytes p.hello []
    p.events p.connection
  calls : p.connection.calls = p.begun ++ p.waiting
  url : ∃ url, QueryString.onaccept url = some p.name
  opened : opened conn = (!p.begun.isEmpty && Unclosed p.begun)
  userdata : p.userdata = if Unclosed p.begun then some p.name else none
  since : p.since ≤ trace.length
  said : Websocket.sent (Websocket.posts p.events) <+: said conn (trace.drop p.since)
  all : p.connection.deleted = false →
    Websocket.sent (Websocket.posts p.events) = ChatServer.said conn (trace.drop p.since)

namespace Peer

variable {trace : List Event} {opened : Conn → Bool} {conn : Conn} {p : Peer}

/-- The object is new. -/
theorem Good.accept (hello : Bytes) {url name : Bytes} (isBinary : Bool)
    (haccept : QueryString.onaccept url = some name) (hclosed : opened conn = false) :
    (Peer.accept host maxPayloadBytes hello name isBinary trace.length).Good ok host maxPayloadBytes trace
      opened conn where
  reached := .start isBinary
  calls := rfl
  url := ⟨url, haccept⟩
  opened := hclosed
  userdata := rfl
  since := le_rfl
  said := List.nil_prefix
  all _ := by
    unfold Peer.accept
    rw [List.drop_length]
    rfl

/-- Something happens to the object. -/
theorem Good.step (h : p.Good ok host maxPayloadBytes trace opened conn) {e : Websocket.Event}
    (hen : p.connection.Enabled e) (hok : e.isSocket → ok p.connection e) {es : List Event}
    (hsaid : ChatServer.said conn es = Websocket.sent (Websocket.posts [e])) :
    (p.step host e).Good ok host maxPayloadBytes (trace ++ es) opened conn := by
  have hpresent := h.reached.settled.present hen
  have heq : Websocket.sent (Websocket.posts (p.events ++ [e])) =
      ChatServer.said conn ((trace ++ es).drop p.since) := by
    rw [List.drop_append_of_le_length h.since, said_append, hsaid, ← h.all hpresent]
    unfold Websocket.posts
    rw [List.filterMap_append, Websocket.sent_append]
  refine ⟨.step h.reached hen hok, ?_, h.url, h.opened, h.userdata, ?_, ?_, fun _ => heq⟩
  · obtain ⟨more, hmore⟩ := Connection.Grows.step p.connection e |>.calls
    unfold Peer.step
    dsimp only
    rw [← hmore, List.drop_left, h.calls, List.append_assoc]
  · exact h.since.trans (by simp)
  · exact heq ▸ List.prefix_refl _

/-- Nothing happens to the object. -/
theorem Good.mono (h : p.Good ok host maxPayloadBytes trace opened conn) {es : List Event}
    (hsaid : p.connection.deleted = false → ChatServer.said conn es = []) :
    p.Good ok host maxPayloadBytes (trace ++ es) opened conn := by
  refine ⟨h.reached, h.calls, h.url, h.opened, h.userdata, h.since.trans (by simp), ?_, fun hpresent => ?_⟩
  · rw [List.drop_append_of_le_length h.since, said_append]
    exact h.said.trans (List.prefix_append _ _)
  · rw [List.drop_append_of_le_length h.since, said_append, hsaid hpresent, List.append_nil]
    exact h.all hpresent

/-- The open handler begins first, and no other does. -/
theorem Good.first (h : p.Good ok host maxPayloadBytes trace opened conn) {call : HandlerCall}
    {rest : List HandlerCall} (hwaiting : p.waiting = call :: rest) :
    p.begun = [] ∧ call = .opened ∨ p.begun ≠ [] ∧ call ≠ .opened := by
  obtain ⟨more, hcalls, honce⟩ := h.reached.settled.opens
  rw [h.calls, hwaiting] at hcalls
  rcases hbegun : p.begun with _ | ⟨b, bs⟩
  · rw [hbegun] at hcalls
    exact .inl ⟨rfl, (List.cons.inj hcalls).1⟩
  · rw [hbegun, List.cons_append] at hcalls
    refine .inr ⟨by simp, ?_⟩
    rintro rfl
    apply honce
    rw [← (List.cons.inj hcalls).2]
    simp

theorem unclosed_concat (calls : List HandlerCall) (call : HandlerCall) :
    Unclosed (calls ++ [call]) = (Unclosed calls && !call.isClosed) := by
  simp [Unclosed]

/-- A handler finds what it needs, and leaves what the next one needs. -/
theorem Good.begin (h : p.Good ok host maxPayloadBytes trace opened conn) {call : HandlerCall}
    {rest : List HandlerCall} (hwaiting : p.waiting = call :: rest) :
    ∃ c, route conn p.userdata call = some c ∧ c.thread = .handlers conn ∧
      (∀ n, c.user = some n → (p.begin call rest).opening = some n ∧ opened conn = false) ∧
      (p.begin call rest).Good ok host maxPayloadBytes trace (c.opened opened) conn := by
  have hcalls : p.connection.calls = (p.begun ++ [call]) ++ rest := by
    rw [h.calls, hwaiting, List.append_cons]
  have hsome : (p.begun ++ [call]).isEmpty = false := by
    cases p.begun <;> rfl
  have hgood {opened' : Conn → Bool} (hopened : opened' conn = Unclosed (p.begun ++ [call])) :
      (p.begin call rest).Good ok host maxPayloadBytes trace opened' conn := by
    refine ⟨h.reached, hcalls, h.url, ?_, ?_, h.since, h.said, h.all⟩
    · unfold Peer.begin
      dsimp only
      rw [hsome, hopened, Bool.not_false, Bool.true_and]
    · unfold Peer.begin
      dsimp only
      rw [h.userdata, unclosed_concat]
      cases call.isClosed <;> simp
  rcases h.first hwaiting with ⟨hnil, rfl⟩ | ⟨hne, hcall⟩
  · have huserdata : p.userdata = some p.name := by
      rw [h.userdata, hnil]
      rfl
    refine ⟨.onOpen conn p.name, by rw [huserdata]; rfl, rfl, ?_, hgood ?_⟩
    · rintro n ⟨⟩
      refine ⟨?_, by rw [h.opened, hnil]; rfl⟩
      unfold Peer.opening Peer.begin
      dsimp only
      rw [hnil]
      rfl
    · rw [hnil]
      exact Function.update_self _ _ _
  · have hopen : opened conn = Unclosed p.begun := by
      rw [h.opened]
      simp [hne]
    cases call with
    | opened => exact absurd rfl hcall
    | message data isBinary =>
      refine ⟨.onMessage conn data isBinary, rfl, rfl, by simp [Call.user], hgood ?_⟩
      rw [unclosed_concat]
      simpa [Call.opened, HandlerCall.isClosed] using hopen
    | closed reason code =>
      refine ⟨.onClose conn, rfl, rfl, by simp [Call.user], hgood ?_⟩
      rw [unclosed_concat]
      simp [Call.opened, HandlerCall.isClosed]

/-- An object goes after its close handler, or before its open handler. -/
theorem Good.goes (h : p.Good ok host maxPayloadBytes trace opened conn) {opens : Bool}
    (hgoes : p.Goes opens) : opened conn = false ∧ Unclosed p.begun = !opens := by
  cases hgoes with
  | deleted hwaiting hdeleted =>
    obtain ⟨reason, code, hmem⟩ := (h.reached.settled.gone hdeleted).1
    rw [h.calls, hwaiting, List.append_nil] at hmem
    have hany : p.begun.any HandlerCall.isClosed = true := List.any_eq_true.mpr ⟨_, hmem, rfl⟩
    have hunclosed : Unclosed p.begun = false := by simp [Unclosed, hany]
    exact ⟨by rw [h.opened, hunclosed, Bool.and_false], hunclosed⟩
  | throws hwaiting =>
    rcases h.first hwaiting with ⟨hnil, -⟩ | ⟨-, hopened⟩
    · exact ⟨by rw [h.opened, hnil]; rfl, by rw [hnil]; rfl⟩
    · exact absurd rfl hopened

end Peer

/-! ## Delivery to the objects -/

namespace App

variable {opened : Conn → Bool} {trace : List Event} {peers : Conn → Option Peer}

/-- What holds of all peers. -/
def Peopled (ok : Connection → Websocket.Event → Prop) (host : ByteOrder) (maxPayloadBytes : Nat)
    (trace : List Event) (opened : Conn → Bool) (peers : Conn → Option Peer) : Prop :=
  ∀ conn p, peers conn = some p → p.Good ok host maxPayloadBytes trace opened conn

/-- The objects stay, and so does what the use of an object leaves alone. -/
theorem map_deliver {β : Type} {f : Peer → β} (hf : ∀ p a, f (Peer.use host a p) = f p)
    (peers : Conn → Option Peer) (e : Event) (conn : Conn) :
    (deliver host peers e conn).map f = (peers conn).map f := by
  unfold deliver
  cases e.act with
  | none => rfl
  | some r =>
    obtain ⟨c, a⟩ := r
    by_cases hc : conn = c
    · subst hc
      simp only [Function.update_self, Option.map_map]
      exact Option.map_congr fun p _ => hf p a
    · simp only [Function.update_of_ne hc]

theorem map_foldl {β : Type} {f : Peer → β} (hf : ∀ p a, f (Peer.use host a p) = f p)
    (es : List Event) (peers : Conn → Option Peer) (conn : Conn) :
    (es.foldl (deliver host) peers conn).map f = (peers conn).map f := by
  induction es generalizing peers with
  | nil => rfl
  | cons e es ih => rw [List.foldl_cons, ih, map_deliver hf]

theorem name_use (p : Peer) (a : Websocket.Event) : (Peer.use host a p).name = p.name := by
  unfold Peer.use
  split <;> rfl

theorem opening_use (p : Peer) (a : Websocket.Event) : (Peer.use host a p).opening = p.opening := by
  unfold Peer.use
  split <;> rfl

theorem Peopled.deliver (h : Peopled ok host maxPayloadBytes trace opened peers) {e : Event}
    (hfits : ∀ conn a, e.act = some (conn, a) → a.Fits) :
    Peopled ok host maxPayloadBytes (trace ++ [e]) opened (deliver host peers e) := by
  intro conn p hp
  unfold App.deliver at hp
  cases hact : e.act with
  | none =>
    simp only [hact] at hp
    apply (h conn p hp).mono
    intro _
    exact says_other fun a ha => by simp [hact] at ha
  | some r =>
    obtain ⟨c, a⟩ := r
    simp only [hact] at hp
    by_cases hc : conn = c
    · subst hc
      rw [Function.update_self] at hp
      obtain ⟨q, hq, rfl⟩ := Option.map_eq_some_iff.mp hp
      have hgood := h conn q hq
      unfold Peer.use
      split
      · rename_i hdel
        apply hgood.mono
        simp [hdel]
      · rename_i hpresent
        have hen : q.connection.Enabled a ∧ a.isSocket = false := by
          have hsize := hfits conn a hact
          cases e with
          | sendBinary _ payload =>
            obtain ⟨rfl, rfl⟩ := Prod.mk.inj (Option.some.inj hact)
            exact ⟨⟨by simpa using hpresent, hsize⟩, rfl⟩
          | sendText _ text =>
            obtain ⟨rfl, rfl⟩ := Prod.mk.inj (Option.some.inj hact)
            exact ⟨⟨by simpa using hpresent, hsize⟩, rfl⟩
          | close _ reason =>
            obtain ⟨rfl, rfl⟩ := Prod.mk.inj (Option.some.inj hact)
            exact ⟨⟨by simpa using hpresent, hsize⟩, rfl⟩
          | _ => cases hact
        apply hgood.step hen.1
        · simp [hen.2]
        · exact says_act hact
    · rw [Function.update_of_ne hc] at hp
      apply (h conn p hp).mono
      intro _
      apply says_other
      intro b hb
      rw [hact] at hb
      exact hc (Prod.mk.inj (Option.some.inj hb)).1.symm

theorem Peopled.foldl (h : Peopled ok host maxPayloadBytes trace opened peers) {es : List Event}
    (hfits : ∀ e ∈ es, ∀ conn a, e.act = some (conn, a) → a.Fits) :
    Peopled ok host maxPayloadBytes (trace ++ es) opened (es.foldl (App.deliver host) peers) := by
  induction es generalizing trace peers with
  | nil => simpa using h
  | cons e es ih =>
    rw [List.foldl_cons, List.append_cons]
    apply ih
    · exact h.deliver (hfits e List.mem_cons_self)
    · exact fun e' he' => hfits e' (List.mem_cons_of_mem _ he')

/-! ## Runs -/

/-- Whom the open handler of a connection is for. -/
def users (app : App) : Thread → Option Bytes
  | .handlers conn => ((app.peers conn).map Peer.opening).join
  | .monitor _ | .cleanup _ => none

structure Good (ok : Connection → Websocket.Event → Prop) (host : ByteOrder) (maxPayloadBytes : Nat)
    (app : App) : Prop where
  reachable : Reachable app.cfg
  aiming : Aiming app.users app.cfg
  absent : ∀ conn, app.peers conn = none → app.Idle conn ∧ app.cfg.opened conn = false
  peopled : Peopled ok host maxPayloadBytes app.cfg.world.trace app.cfg.opened app.peers
  /-- A user of the chat is there under the name with which its client came. -/
  named : ∀ conn n, app.cfg.world.session conn = .accepted n →
    (app.peers conn).map Peer.name = some n

section Steps

variable {app : App} {conn : Conn} {p : Peer}

theorem users_put (app : App) (conn : Conn) (q : Option Peer) :
    (app.put conn q).users = Function.update app.users (.handlers conn)
      (q.map Peer.opening).join := by
  funext t
  by_cases ht : t = .handlers conn
  · subst ht
    simp [users, put]
  · rw [Function.update_of_ne ht]
    cases t with
    | handlers c =>
      have hc : c ≠ conn := fun heq => ht (congrArg _ heq)
      simp [users, put, hc]
    | monitor k => rfl
    | cleanup k => rfl

theorem absent_put (q : Peer) {c : Conn} (hc : (app.put conn (some q)).peers c = none) :
    app.peers c = none ∧ c ≠ conn := by
  have hne : c ≠ conn := by
    rintro rfl
    simp [put] at hc
  exact ⟨by simpa [put, hne] using hc, hne⟩

theorem Peopled.put {trace : List Event} {opened : Conn → Bool} {peers : Conn → Option Peer} {q : Peer}
    (h : Peopled ok host maxPayloadBytes trace opened peers)
    (hq : q.Good ok host maxPayloadBytes trace opened conn) :
    Peopled ok host maxPayloadBytes trace opened (Function.update peers conn (some q)) := by
  intro c r hr
  by_cases hc : c = conn
  · subst hc
    rw [Function.update_self] at hr
    exact Option.some.inj hr ▸ hq
  · rw [Function.update_of_ne hc] at hr
    exact h c r hr

/-- The names of the users are still those of their clients. -/
theorem Good.named_put (h : app.Good ok host maxPayloadBytes) {q : Option Peer}
    (hq : ∀ n, app.cfg.world.session conn = .accepted n → q.map Peer.name = some n) (c : Conn) (n : Bytes)
    (hc : app.cfg.world.session c = .accepted n) :
    ((app.put conn q).peers c).map Peer.name = some n := by
  by_cases hne : c = conn
  · subst hne
    simpa [put] using hq n hc
  · simpa [put, hne] using h.named c n hc

theorem Good.accept (h : app.Good ok host maxPayloadBytes) (hfree : app.peers conn = none)
    (hello : Bytes) {url name : Bytes} (isBinary : Bool)
    (haccept : QueryString.onaccept url = some name) :
    (app.put conn (some (.accept host maxPayloadBytes hello name isBinary
      app.cfg.world.trace.length))).Good ok host maxPayloadBytes := by
  obtain ⟨hidle, hclosed⟩ := h.absent conn hfree
  refine ⟨h.reachable, ?_, fun c hc => ?_, ?_, h.named_put fun n hn => ?_⟩
  · rw [users_put]
    exact h.aiming.update hidle _
  · exact h.absent c (absent_put _ hc).1
  · exact h.peopled.put (.accept hello isBinary haccept hclosed)
  · have hname := h.named conn n hn
    simp [hfree] at hname

theorem Good.socket (h : app.Good ok host maxPayloadBytes) (hp : app.peers conn = some p)
    {e : Websocket.Event} (he : e.isSocket) (hen : p.connection.Enabled e) (hok : ok p.connection e) :
    (app.put conn (some (p.step host e))).Good ok host maxPayloadBytes := by
  refine ⟨h.reachable, ?_, fun c hc => ?_, ?_, h.named_put fun n hn => ?_⟩
  · rw [users_put, Function.update_eq_self_iff.mpr]
    · exact h.aiming
    · rw [users, hp]
      rfl
  · exact h.absent c (absent_put _ hc).1
  · apply h.peopled.put
    have hquiet : ChatServer.said conn [] = Websocket.sent (Websocket.posts [e]) := by
      cases e with
      | post job => cases he
      | _ => rfl
    simpa using (h.peopled conn p hp).step hen (fun _ => hok) hquiet
  · rw [← h.named conn n hn, hp]
    rfl

theorem Peopled.congr {trace : List Event} {peers : Conn → Option Peer} {opened opened' : Conn → Bool}
    (h : Peopled ok host maxPayloadBytes trace opened peers)
    (hsame : ∀ c q, peers c = some q → opened' c = opened c) :
    Peopled ok host maxPayloadBytes trace opened' peers := by
  intro c q hq
  have hgood := h c q hq
  exact { hgood with opened := (hsame c q hq).trans hgood.opened }

/-- The handler that waits first may begin. -/
theorem Good.routes (h : app.Good ok host maxPayloadBytes) (hp : app.peers conn = some p)
    {call : HandlerCall} {rest : List HandlerCall} (hwaiting : p.waiting = call :: rest) :
    ∃ c, route conn p.userdata call = some c ∧ c.thread = .handlers conn ∧ app.cfg.allows c = true ∧
      (∀ n, c.user = some n → (p.begin call rest).opening = some n) ∧
      (p.begin call rest).Good ok host maxPayloadBytes app.cfg.world.trace
        (c.opened app.cfg.opened) conn := by
  obtain ⟨c, hroute, hthread, huser, hgood⟩ := (h.peopled conn p hp).begin hwaiting
  refine ⟨c, hroute, hthread, ?_, fun n hn => (huser n hn).1, hgood⟩
  cases c with
  | onOpen d n =>
    obtain rfl : d = conn := Thread.handlers.inj hthread
    have hclosed : app.cfg.opened d = false := (huser n rfl).2
    change (!app.cfg.opened d) = true
    rw [hclosed, Bool.not_false]
  | onMessage | onClose => rfl
  | monitorPass | cleanupPass => cases hthread

theorem Good.handle (h : app.Good ok host maxPayloadBytes) (hp : app.peers conn = some p)
    (hidle : app.Idle conn) {call : HandlerCall} {rest : List HandlerCall}
    (hwaiting : p.waiting = call :: rest) {c : Call} (hroute : route conn p.userdata call = some c) :
    ((app.put conn (some (p.begin call rest))).call c).Good ok host maxPayloadBytes := by
  obtain ⟨c', hc', hthread, hallows, huser, hgood⟩ := h.routes hp hwaiting
  obtain rfl := Option.some.inj (hc'.symm.trans hroute)
  have hidle' : app.cfg.code c'.thread = .ret () := by rwa [hthread]
  refine ⟨?_, ?_, fun d hd => ?_, ?_, h.named_put fun n hn => ?_⟩
  · exact .call c' h.reachable hidle' hallows
  · change Aiming (app.put conn (some (p.begin call rest))).users (app.cfg.call c')
    rw [users_put]
    apply (h.aiming.update hidle _).call
    intro n hn
    rw [hthread, Function.update_self]
    exact huser n hn
  · obtain ⟨hd, hne⟩ := absent_put _ hd
    have hother : Thread.handlers d ≠ c'.thread := by
      rw [hthread]
      exact fun heq => hne (Thread.handlers.inj heq)
    obtain ⟨hdidle, hdclosed⟩ := h.absent d hd
    exact ⟨(Config.call_code_of_ne _ hother).trans hdidle,
      (Call.opened_of_ne hother _).trans hdclosed⟩
  · change Peopled _ _ _ _ (c'.opened app.cfg.opened) (Function.update app.peers conn _)
    intro d q hq
    by_cases hd : d = conn
    · subst hd
      rw [Function.update_self] at hq
      exact Option.some.inj hq ▸ hgood
    · rw [Function.update_of_ne hd] at hq
      have hother : Thread.handlers d ≠ c'.thread := by
        rw [hthread]
        exact fun heq => hd (Thread.handlers.inj heq)
      have hsame := h.peopled d q hq
      exact { hsame with opened := (Call.opened_of_ne hother _).trans hsame.opened }
  · rw [← h.named conn n hn, hp]
    rfl

theorem Good.pass (h : app.Good ok host maxPayloadBytes) {c : Call}
    (hloop : ∀ conn, c.thread ≠ .handlers conn) (hidle : app.cfg.code c.thread = .ret ())
    (hallowed : app.cfg.allows c) : (app.call c).Good ok host maxPayloadBytes := by
  have hopened (d : Conn) : c.opened app.cfg.opened d = app.cfg.opened d :=
    Call.opened_of_ne (hloop d).symm _
  refine ⟨.call c h.reachable hidle hallowed, h.aiming.call fun n hn => ?_, fun d hd => ?_, ?_, h.named⟩
  · cases c with
    | onOpen d n => exact absurd rfl (hloop d)
    | _ => cases hn
  · obtain ⟨hdidle, hdclosed⟩ := h.absent d hd
    exact ⟨(Config.call_code_of_ne _ (hloop d).symm).trans hdidle, (hopened d).trans hdclosed⟩
  · exact h.peopled.congr fun d _ _ => hopened d

/-- Who accepts a user, if not an earlier step. -/
theorem accepted_of_session {trace es : List Event} {n : Bytes}
    (h : session (trace ++ es) conn = .accepted n) :
    .accepted conn n ∈ es ∨ session trace conn = .accepted n := by
  induction es using List.reverseRecOn with
  | nil => exact .inr (by simpa using h)
  | append_singleton es e ih =>
    rw [← List.append_assoc, World.session_concat, List.foldl_cons, List.foldl_nil] at h
    by_cases hsame : Session.after conn (session (trace ++ es) conn) e = session (trace ++ es) conn
    · rw [hsame] at h
      exact (ih h).imp_left fun hmem => List.mem_append_left _ hmem
    · refine .inl (List.mem_append_right _ (List.mem_singleton.mpr ?_))
      cases e with
      | accepted c m =>
        simp only [Session.after] at h hsame
        split at h
        · rename_i hc
          rw [hc, Session.accepted.inj h]
        · rename_i hc
          simp [hc] at hsame
      | close c reason =>
        simp only [Session.after] at h hsame
        split at h
        · cases h
        · rename_i hc
          simp [hc] at hsame
      | left c =>
        simp only [Session.after] at h hsame
        split at h
        · cases h
        · rename_i hc
          simp [hc] at hsame
      | _ => exact absurd rfl hsame

theorem Good.move (h : app.Good ok host maxPayloadBytes) {t : Thread} {p : Prog Unit} {w : World}
    (hadv : advance .connectionsMutex (app.cfg.code t) app.cfg.world = some (p, w))
    (hfits : ∀ e ∈ w.trace.drop app.cfg.world.trace.length, ∀ conn a, e.act = some (conn, a) → a.Fits) :
    (app.move host t p w).Good ok host maxPayloadBytes := by
  obtain ⟨haiming, es, htrace, haimed⟩ := h.aiming.move hadv
  have hdrop : w.trace.drop app.cfg.world.trace.length = es := by
    rw [htrace, List.drop_left]
  have hnames (c : Conn) : ((app.move host t p w).peers c).map Peer.name = (app.peers c).map Peer.name :=
    map_foldl name_use _ _ _
  have husers : (app.move host t p w).users = app.users := by
    funext u
    cases u with
    | handlers c => exact congrArg Option.join (map_foldl opening_use _ _ _)
    | monitor k => rfl
    | cleanup k => rfl
  refine ⟨.move t h.reachable hadv trivial, ?_, fun c hc => ?_, ?_, fun c n hn => ?_⟩
  · rw [husers]
    exact haiming
  · have hnone : app.peers c = none := by simpa [hc] using (hnames c).symm
    obtain ⟨hidle, hclosed⟩ := h.absent c hnone
    refine ⟨?_, hclosed⟩
    have ht : Thread.handlers c ≠ t := by
      rintro rfl
      rw [Idle] at hidle
      rw [hidle] at hadv
      cases hadv
    exact (Function.update_of_ne ht _ _).trans hidle
  · change Peopled ok host maxPayloadBytes w.trace app.cfg.opened
      ((w.trace.drop app.cfg.world.trace.length).foldl (App.deliver host) app.peers)
    rw [hdrop] at hfits ⊢
    rw [htrace]
    exact h.peopled.foldl hfits
  · rw [hnames]
    change session w.trace c = _ at hn
    rw [htrace] at hn
    rcases accepted_of_session hn with hmem | hold
    · obtain ⟨rfl, huser⟩ := (haimed _ hmem).accept c n rfl
      obtain ⟨q, hq, hopening⟩ := Option.map_eq_some_iff.mp (Option.join_eq_some_iff.mp huser)
      rw [hq, Option.map_some, Peer.name_of_opening hopening]
    · exact h.named c n hold

theorem Good.free (h : app.Good ok host maxPayloadBytes) (hp : app.peers conn = some p)
    (hidle : app.Idle conn) {opens : Bool} (hgoes : p.Goes opens) :
    (app.put conn none).Good ok host maxPayloadBytes := by
  have hclosed : app.cfg.opened conn = false := ((h.peopled conn p hp).goes hgoes).1
  refine ⟨h.reachable, ?_, fun c hc => ?_, fun c q hq => ?_, h.named_put fun n hn => ?_⟩
  · rw [users_put]
    exact h.aiming.update hidle _
  · by_cases hne : c = conn
    · subst hne
      exact ⟨hidle, hclosed⟩
    · exact h.absent c (by simpa [put, hne] using hc)
  · by_cases hne : c = conn
    · subst hne
      simp [put] at hq
    · exact h.peopled c q (by simpa [put, hne] using hq)
  · exact absurd hn (h.reachable.orderly.idle hidle conn rfl hclosed n)

theorem ReachableBy.good (h : ReachableBy ok host maxPayloadBytes app) :
    app.Good ok host maxPayloadBytes := by
  induction h with
  | init clock time ip =>
    refine ⟨.init clock time ip, .init _, fun _ _ => ⟨rfl, rfl⟩, fun _ _ hp => ?_, fun _ _ hn => ?_⟩
    · cases hp
    · change Session.fresh = _ at hn
      cases hn
  | accept hello isBinary _ hfree haccept ih => exact ih.accept hfree hello isBinary haccept
  | socket _ hp _ _ he hen hok ih => exact ih.socket hp he hen hok
  | handle _ hp hidle hwaiting hroute ih => exact ih.handle hp hidle hwaiting hroute
  | pass _ hloop hidle hallowed ih => exact ih.pass hloop hidle hallowed
  | move _ hadv hfits ih => exact ih.move hadv hfits
  | free _ hp hidle hgoes ih => exact ih.free hp hidle hgoes

end Steps

end App

/-! ## Crow and the chat -/

section Results

variable {app : App} {conn : Conn} {peer : Peer}

/-- **Crow keeps its promises.** What it does with the handlers is a run of the model of the
handlers: one after another, `on_open` first, and again only after `on_close`. The handler that
waits first may begin, and finds the name that it reads. -/
theorem crow_keeps_promises (h : app.ReachableBy ok host maxPayloadBytes) :
    Reachable app.cfg ∧ ∀ conn p call rest, app.peers conn = some p → p.waiting = call :: rest →
      ∃ c, route conn p.userdata call = some c ∧ c.thread = .handlers conn ∧ app.cfg.allows c := by
  refine ⟨h.good.reachable, fun conn p call rest hp hwaiting => ?_⟩
  obtain ⟨c, hroute, hthread, hallows, -⟩ := h.good.routes hp hwaiting
  exact ⟨c, hroute, hthread, hallows⟩

/-- `a` comes in. -/
def greets : List App.Turn := [.accept 1 (ascii "/?name=a") (ascii "x")]

theorem crow_keeps_promises_greets : ∃ app : App,
    app.ReachableBy Websocket.WholeHeaders .little (256 ^ 8 - 1) ∧ Reachable app.cfg ∧
      ∃ p c, app.peers 1 = some p ∧ route 1 p.userdata .opened = some c ∧ app.cfg.allows c := by
  have h := App.reachable_playAll greets
  have hsome : ((App.playAll greets).peers 1).any fun p => p.waiting = [.opened] := by decide +kernel
  obtain ⟨p, hp, hwaiting⟩ := (Option.any_eq_true _ _).mp hsome
  obtain ⟨hreachable, hroutes⟩ := crow_keeps_promises h
  obtain ⟨c, hroute, -, hallows⟩ := hroutes 1 p _ _ hp (of_decide_eq_true hwaiting)
  exact ⟨_, h, hreachable, p, c, hp, hroute, hallows⟩

/-- **No dangling pointers.** Whatever the chat sends or closes, the object exists, and nobody
closes the connection of another. -/
theorem no_dangling_pointers (h : app.ReachableBy ok host maxPayloadBytes) {t : Thread} {p : Prog Unit}
    {w : World} (hadv : advance .connectionsMutex (app.cfg.code t) app.cfg.world = some (p, w)) :
    ∀ e ∈ w.trace.drop app.cfg.world.trace.length, ∀ conn, e.target = some conn →
      (∃ peer, app.peers conn = some peer) ∧ (e.isClose → t = .handlers conn) := by
  obtain ⟨-, es, htrace, haimed⟩ := h.good.aiming.move hadv
  rw [htrace, List.drop_left]
  intro e he conn hconn
  refine ⟨?_, fun hclose => ((haimed e he).close hclose conn hconn).1⟩
  rcases (haimed e he).use conn hconn with rfl | ⟨n, hn⟩
  · by_contra hno
    have hnone : app.peers conn = none := Option.eq_none_iff_forall_ne_some.mpr (not_exists.mp hno)
    have hidle := (h.good.absent conn hnone).1
    rw [App.Idle] at hidle
    rw [hidle] at hadv
    cases hadv
  · obtain ⟨q, hq, -⟩ := Option.map_eq_some_iff.mp
      (h.good.named conn n ((h.good.reachable.sound.owned n conn).mp hn))
    exact ⟨q, hq⟩

/-- `b` comes to `a`, and is about to be announced. -/
def comesTo : List App.Turn :=
  [.accept 1 (ascii "/?name=a") (ascii "x"), .handle 1, .steps (.handlers 1) 40,
    .accept 2 (ascii "/?name=b") (ascii "x"), .handle 2, .steps (.handlers 2) 11]

theorem no_dangling_pointers_announced : ∃ (app : App) (p : Prog Unit) (w : World),
    app.ReachableBy Websocket.WholeHeaders .little (256 ^ 8 - 1) ∧
      advance .connectionsMutex (app.cfg.code (.handlers 2)) app.cfg.world = some (p, w) ∧
        .sendBinary 1 (joinedPayload (ascii "b") .activo) ∈ w.trace.drop app.cfg.world.trace.length ∧
          ∃ peer, app.peers 1 = some peer := by
  have h := App.reachable_playAll comesTo
  have hsends : (advance .connectionsMutex ((App.playAll comesTo).cfg.code (.handlers 2))
      (App.playAll comesTo).cfg.world).any fun r => .sendBinary 1 (joinedPayload (ascii "b") .activo) ∈
        r.2.trace.drop (App.playAll comesTo).cfg.world.trace.length := by decide +kernel
  obtain ⟨⟨p, w⟩, hadv, hmem⟩ := (Option.any_eq_true _ _).mp hsends
  obtain ⟨hpeer, -⟩ := no_dangling_pointers h hadv _ (of_decide_eq_true hmem) 1 rfl
  exact ⟨_, p, w, h, hadv, of_decide_eq_true hmem, hpeer⟩

/-- **Entries are clients.** The connection of an entry is that of a client that came with this very
name in its URL. The name is one that the protocol can carry, and has no zero byte. -/
theorem entries_are_clients (h : app.ReachableBy ok host maxPayloadBytes) {n : Bytes}
    (hn : app.cfg.world.connOf n = some conn) :
    ∃ peer url, app.peers conn = some peer ∧ peer.name = n ∧ QueryString.onaccept url = some n ∧
      ValidName n ∧ 0 ∉ n := by
  have hsound := h.good.reachable.sound
  obtain ⟨q, hq, hname⟩ := Option.map_eq_some_iff.mp
    (h.good.named conn n ((hsound.owned n conn).mp hn))
  obtain ⟨url, hurl⟩ := (h.good.peopled conn q hq).url
  rw [hname] at hurl
  obtain ⟨cd, hcd, -⟩ := World.connOf_eq_some.mp hn
  exact ⟨q, url, hq, hname, hurl, hsound.names n (by rw [hcd]; rfl), (QueryString.onaccept_name hurl).2⟩

theorem entries_are_clients_two : ∃ app : App,
    app.ReachableBy Websocket.WholeHeaders .little (256 ^ 8 - 1) ∧
      app.cfg.world.connOf (ascii "b") = some 2 ∧
        ∃ peer url, app.peers 2 = some peer ∧ peer.name = ascii "b" ∧
          QueryString.onaccept url = some (ascii "b") ∧ ValidName (ascii "b") ∧ 0 ∉ ascii "b" := by
  have h := App.reachable_playAll comesTo
  have hconn : (App.playAll comesTo).cfg.world.connOf (ascii "b") = some 2 := by decide +kernel
  exact ⟨_, h, hconn, entries_are_clients h hconn⟩

/-- **Nothing stays behind.** When an object goes, no entry points to it, and its address may be used
again. Its name has been deleted, unless its open handler throws: then the name is lost. -/
theorem nothing_stays_behind (h : app.ReachableBy ok host maxPayloadBytes)
    (hp : app.peers conn = some peer) (hidle : app.Idle conn) {opens : Bool}
    (hgoes : peer.Goes opens) :
    (peer.userdata = if opens then none else some peer.name) ∧
      (∀ n, app.cfg.world.connOf n ≠ some conn) ∧ app.cfg.opened conn = false := by
  have hgood := h.good.peopled conn peer hp
  obtain ⟨hclosed, hunclosed⟩ := hgood.goes hgoes
  refine ⟨?_, fun n hn => ?_, hclosed⟩
  · rw [hgood.userdata, hunclosed]
    cases opens <;> rfl
  · have hsession := (h.good.reachable.sound.owned n conn).mp hn
    exact h.good.reachable.orderly.idle hidle conn rfl hclosed n hsession

/-- `a` comes in and closes. -/
def comesAndGoes : List App.Turn :=
  [.accept 1 (ascii "/?name=a") (ascii "x"), .handle 1, .steps (.handlers 1) 40,
    .socket 1 (.written true), .socket 1 (.read [0x88, 0x80]), .socket 1 (.read [1, 2, 3, 4]),
    .socket 1 (.read []), .handle 1, .steps (.handlers 1) 40, .socket 1 (.written true)]

theorem nothing_stays_behind_gone :
    (∃ (app : App) (peer : Peer), app.ReachableBy Websocket.WholeHeaders .little (256 ^ 8 - 1) ∧
      app.peers 1 = some peer ∧ peer.connection.deleted = true ∧ peer.userdata = none ∧
        ∀ n, app.cfg.world.connOf n ≠ some 1) ∧
    ∃ (app : App) (peer : Peer), app.ReachableBy Websocket.WholeHeaders .little (256 ^ 8 - 1) ∧
      app.peers 1 = some peer ∧ peer.Goes false ∧ peer.userdata = some peer.name := by
  refine ⟨?_, ?_⟩
  · have h := App.reachable_playAll comesAndGoes
    have hgone : ((App.playAll comesAndGoes).peers 1).any fun p =>
        p.waiting = [] ∧ p.connection.deleted = true := by decide +kernel
    obtain ⟨peer, hp, hpeer⟩ := (Option.any_eq_true _ _).mp hgone
    obtain ⟨hwaiting, hdeleted⟩ := of_decide_eq_true hpeer
    have hidle : (App.playAll comesAndGoes).isIdle 1 := by decide +kernel
    obtain ⟨huserdata, hfree, -⟩ := nothing_stays_behind h hp (App.ret_of_isDone hidle)
      (.deleted hwaiting hdeleted)
    exact ⟨_, peer, h, hp, hdeleted, huserdata, hfree⟩
  · have h := App.reachable_playAll greets
    have hcomes : ((App.playAll greets).peers 1).any fun p => p.waiting = [.opened] := by decide +kernel
    obtain ⟨peer, hp, hwaiting⟩ := (Option.any_eq_true _ _).mp hcomes
    have hidle : (App.playAll greets).isIdle 1 := by decide +kernel
    have hgoes : peer.Goes false := .throws (of_decide_eq_true hwaiting)
    exact ⟨_, peer, h, hp, hgoes, (nothing_stays_behind h hp (App.ret_of_isDone hidle) hgoes).1⟩

end Results

end ChatServer
