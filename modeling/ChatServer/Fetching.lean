import ChatServer.Chats
import ChatServer.Frames
import ChatServer.Lib.Script

/-!
# Fetched histories

What a request for a history is answered with, whatever the other threads do in the meantime,
against the message that was last accepted into the chat.
-/

open Program

namespace ChatServer

/-! ## What was said -/

/-- The message that the event accepts into the general chat, or between `a` and `b`. -/
def Event.saidIn (a b : Bytes) : Event → Option Message
  | .storedGeneral sender msg => if b = generalChat then some (sender, msg) else none
  | .storedPrivate sender recipient msg =>
    if b ≠ generalChat ∧ Between a b (sender, recipient, msg) then some (sender, msg) else none
  | _ => none

/-- The chat is the general one, or no other pair with the same key has said anything. -/
def OwnKey (a b : Bytes) (trace : List Event) : Prop :=
  b = generalChat ∨ ∀ s r msg, .storedPrivate s r msg ∈ trace → chatId s r = chatId a b →
    s = a ∧ r = b ∨ s = b ∧ r = a

/-- The message `m` is the last one that was accepted into the chat. -/
def JustSaid (a b : Bytes) (m : Message) (trace : List Event) : Prop :=
  ∃ before e after, trace = before ++ e :: after ∧ e.saidIn a b = some m ∧
    ∀ e' ∈ after, e'.saidIn a b = none

theorem OwnKey.of_isPrefix {a b : Bytes} {trace trace' : List Event} (h : OwnKey a b trace')
    (hle : trace <+: trace') : OwnKey a b trace :=
  h.imp_right fun hown s r msg hmem => hown s r msg (hle.subset hmem)

theorem said_eq_saidIn {a b : Bytes} {trace : List Event} (h : OwnKey a b trace) {e : Event}
    (he : e ∈ trace) : e.said (chatOf a b) = e.saidIn a b := by
  unfold Event.said Event.saidIn chatOf
  cases e with
  | storedGeneral sender msg =>
    by_cases hb : b = generalChat <;> simp [Event.record, hb]
  | storedPrivate sender recipient msg =>
    by_cases hb : b = generalChat
    · simp [Event.record, hb]
    · have hiff : chatId sender recipient = chatId a b ↔ Between a b (sender, recipient, msg) :=
        ⟨(h.resolve_left hb) _ _ _ he, chatId_of_between⟩
      simp [Event.record, hb, hiff]
  | _ => rfl

/-- **Histories.** The stored messages of a chat with its own key are what was said in it. -/
theorem history_eq_said {cfg : Config} (h : Reachable cfg) {a b : Bytes}
    (hown : OwnKey a b cfg.world.trace) :
    cfg.world.history a b = cfg.world.trace.filterMap (Event.saidIn a b) := by
  rw [history_eq_entries, entries_eq h]
  exact List.filterMap_congr fun e he => said_eq_saidIn hown he

theorem JustSaid.getLast? {a b : Bytes} {m : Message} {trace : List Event}
    (h : JustSaid a b m trace) : (trace.filterMap (Event.saidIn a b)).getLast? = some m := by
  obtain ⟨before, e, after, rfl, he, hafter⟩ := h
  rw [List.filterMap_append, List.filterMap_cons_some he, List.filterMap_eq_nil_iff.mpr hafter,
    List.getLast?_concat]

theorem saidIn_of_send {a b : Bytes} {e : Event} (h : IsSend e) : e.saidIn a b = none := by
  cases e <;> first | rfl | cases h

/-! ## The request -/

/-- What the handlers of `conn` have sent since `cfg`, while the other threads have done anything
but accept a message into the chat. -/
inductive Answering (conn : Conn) (a b : Bytes) (cfg : Config) : List Event → Config → Prop
  | start : Answering conn a b cfg [] cfg
  | call {sent : List Event} {cfg' : Config} (c : Call) (h : Answering conn a b cfg sent cfg')
      (hother : c.thread ≠ .handlers conn) (hidle : cfg'.code c.thread = .ret ())
      (hallowed : cfg'.allows c) : Answering conn a b cfg sent (cfg'.call c)
  | own {sent : List Event} {cfg' : Config} {p : Prog Unit} {w : World}
      (h : Answering conn a b cfg sent cfg')
      (hadv : advance .connectionsMutex (cfg'.code (.handlers conn)) cfg'.world = some (p, w)) :
      Answering conn a b cfg (sent ++ outputs cfg'.world w) (cfg'.move (.handlers conn) p w)
  | other {sent : List Event} {cfg' : Config} (t : Thread) {p : Prog Unit} {w : World}
      (h : Answering conn a b cfg sent cfg') (hother : t ≠ .handlers conn)
      (hadv : advance .connectionsMutex (cfg'.code t) cfg'.world = some (p, w))
      (hquiet : ∀ e ∈ w.trace.drop cfg'.world.trace.length, e.saidIn a b = none) :
      Answering conn a b cfg sent (cfg'.move t p w)

/-- The script of a call that only sends. The stages are what it has sent. -/
def sending (conn : Conn) (a b : Bytes) (messages : List Message) :
    Script Mutex.connectionsMutex World (List Event) where
  know _ w := Sound w ∧ w.connOf a = some conn ∧ w.history a b = messages
  step sent _ w sent' w' := ∃ es, w'.trace = w.trace ++ es ∧ sent' = sent ++ es ∧ ∀ e ∈ es, IsSend e
  step_bind _ _ h := h
  idle _ _ _ _ := ⟨[], by simp⟩

section Request

variable {conn : Conn} {a b : Bytes} {messages : List Message}

theorem sends_nothing {α : Type} {E : α → List Event → Prop} {sent : List Event} {f : Unit → Prog α}
    (h : Follows (sending conn a b messages) E (f ()) sent) :
    Follows (sending conn a b messages) E (log.bind f) sent :=
  .skip nofun (fun _ => rfl) rfl (.skip nofun (fun _ => rfl) rfl h)

theorem follows_selectHistory : Follows (sending conn a b messages)
    (fun ms sent => ms = messages ∧ sent = []) (selectHistory a b) [] := by
  have hrun : ∀ w, (sending conn a b messages).know [] w →
      (selectHistory a b).run w = (messages, w) := by
    rintro w ⟨-, -, rfl⟩
    exact selectHistory_eq a b w
  have hstep : ∀ {α : Type} (p : Prog α) w, (sending conn a b messages).step [] p w [] w :=
    fun _ _ => ⟨[], by simp⟩
  unfold selectHistory at hrun ⊢
  split at hrun
  · rename_i hb
    rw [if_pos hb]
    refine .of_section (.withLock (avoids_bind avoids_load fun _ => trivial)) fun w hw => ⟨[], ?_⟩
    rw [hrun w hw]
    exact ⟨hstep _ w, rfl, rfl⟩
  · rename_i hb
    rw [if_neg hb]
    refine .access fun w hw => ⟨[], hstep _ w, .ret ⟨?_, rfl⟩⟩
    exact congrArg Prod.fst (hrun w hw)

theorem follows_answerHistory (hwell : WellFormed (historyPayload messages)) :
    Follows (sending conn a b messages)
      (fun _ sent => sent = [.sendBinary conn (historyPayload messages)])
      (answerHistory conn a b) [] := by
  refine .bind (balanced_selectHistory _ _) follows_selectHistory ?_
  rintro _ _ ⟨rfl, rfl⟩
  refine sends_nothing (.access fun w _ => ⟨_, ⟨[.sendBinary conn _], rfl, rfl, ?_⟩, .ret rfl⟩)
  intro e he
  exact List.mem_singleton.mp he ▸ hwell

theorem follows_request {data : Bytes} (hdata : readRequest data = .ok (.history b))
    (hwell : WellFormed (historyPayload messages)) :
    Follows (sending conn a b messages)
      (fun _ sent => sent = [.sendBinary conn (historyPayload messages)])
      (onMessage conn data true) [] := by
  obtain ⟨-, rest, rfl⟩ := (readRequest_eq_history _ _).mp hdata
  rw [onMessage_binary]
  have hsection : IsSection .connectionsMutex
      (withLock .connectionsMutex (identifySender conn 5)) := .withLock (avoids_identifySender _ _)
  refine sends_nothing (.section_bind hsection ?_)
  rintro w ⟨hw, hconn, -⟩
  obtain ⟨cd, hcd, -⟩ := World.connOf_eq_some.mp hconn
  have hasleep : reactivated a cd 5 = [] := by
    unfold reactivated
    rw [if_neg (by simp)]
  rw [run_withLock, identifySender_run, hw.owned.findConn hconn hcd]
  dsimp only
  rw [if_neg (not_not.mpr hasleep)]
  refine ⟨[], ⟨[], by simp⟩, sends_nothing ?_⟩
  unfold serve
  rw [hdata]
  exact follows_answerHistory hwell

end Request

/-! ## The answer -/

/-- What is known while the request is served: the chat and the name of `conn` are as they were. -/
structure Unanswered (conn : Conn) (a b : Bytes) (messages : List Message) (cfg : Config)
    (sent : List Event) (cfg' : Config) : Prop where
  reachable : Reachable cfg'
  named : cfg'.world.connOf a = some conn
  quiet : ∃ es, cfg'.world.trace = cfg.world.trace ++ es ∧ ∀ e ∈ es, e.saidIn a b = none
  follows : Follows (sending conn a b messages)
    (fun _ sent => sent = [.sendBinary conn (historyPayload messages)])
    (cfg'.code (.handlers conn)) sent

namespace Unanswered

variable {conn : Conn} {a b : Bytes} {messages : List Message} {cfg cfg' : Config} {sent : List Event}

theorem history (h : Unanswered conn a b messages cfg sent cfg') (hreach : Reachable cfg)
    (hown : OwnKey a b cfg'.world.trace) : cfg'.world.history a b = cfg.world.history a b := by
  obtain ⟨es, htrace, hquiet⟩ := h.quiet
  rw [history_eq_said h.reachable hown,
    history_eq_said hreach (hown.of_isPrefix (htrace ▸ List.prefix_append _ _)), htrace,
    List.filterMap_append, List.filterMap_eq_nil_iff.mpr hquiet, List.append_nil]

theorem quiet_append (h : Unanswered conn a b messages cfg sent cfg') {w : World} {es : List Event}
    (htrace : w.trace = cfg'.world.trace ++ es) (hes : ∀ e ∈ es, e.saidIn a b = none) :
    ∃ es, w.trace = cfg.world.trace ++ es ∧ ∀ e ∈ es, e.saidIn a b = none := by
  obtain ⟨before, hbefore, hquiet⟩ := h.quiet
  refine ⟨before ++ es, by rw [htrace, hbefore, List.append_assoc], fun e he => ?_⟩
  exact (List.mem_append.mp he).elim (hquiet e) (hes e)

theorem own (h : Unanswered conn a b messages cfg sent cfg')
    (hhistory : cfg'.world.history a b = messages) {p : Prog Unit} {w : World}
    (hadv : advance .connectionsMutex (cfg'.code (.handlers conn)) cfg'.world = some (p, w)) :
    Unanswered conn a b messages cfg (sent ++ outputs cfg'.world w)
      (cfg'.move (.handlers conn) p w) := by
  have hnext : Reachable (cfg'.move _ p w) := .move _ h.reachable hadv trivial
  obtain ⟨sent', ⟨es, htrace, rfl, hes⟩, hfollows⟩ :=
    h.follows.advance ⟨h.reachable.sound, h.named, hhistory⟩ hadv
  have houtputs : outputs cfg'.world w = es := by
    rw [outputs_eq htrace, List.filter_eq_self]
    intro e he
    have := hes e he
    cases e <;> first | rfl | cases this
  have hsession : w.session conn = cfg'.world.session conn := by
    rw [← World.session_sends (w := cfg'.world) hes]
    unfold World.session
    rw [htrace]
    rfl
  refine ⟨hnext, ?_, h.quiet_append htrace fun e he => saidIn_of_send (hes e he), ?_⟩
  · exact (hnext.sound.owned a conn).mpr (hsession.trans ((h.reachable.sound.owned a conn).mp h.named))
  · rw [houtputs]
    simpa only [Config.move, Function.update_self] using hfollows

theorem other (h : Unanswered conn a b messages cfg sent cfg') {t : Thread}
    (hother : t ≠ .handlers conn) {p : Prog Unit} {w : World}
    (hadv : advance .connectionsMutex (cfg'.code t) cfg'.world = some (p, w))
    (hquiet : ∀ e ∈ w.trace.drop cfg'.world.trace.length, e.saidIn a b = none) :
    Unanswered conn a b messages cfg sent (cfg'.move t p w) := by
  have hnext : Reachable (cfg'.move _ p w) := .move _ h.reachable hadv trivial
  obtain ⟨-, heffect, hsession, -⟩ := h.reachable.orderly.move hadv
  obtain ⟨es, htrace, -⟩ := heffect.trace_cases
  rw [htrace, List.drop_left] at hquiet
  refine ⟨hnext, ?_, h.quiet_append htrace hquiet, ?_⟩
  · refine (hnext.sound.owned a conn).mpr ((hsession conn ?_).trans
      ((h.reachable.sound.owned a conn).mp h.named))
    intro hmem
    cases t with
    | handlers c => exact hother (congrArg Thread.handlers (Eq.symm hmem))
    | monitor | cleanup => exact hmem
  · have hcode : (cfg'.move t p w).code (.handlers conn) = cfg'.code (.handlers conn) :=
      Function.update_of_ne hother.symm _ _
    rw [hcode]
    exact h.follows

end Unanswered

namespace Answering

variable {conn : Conn} {a b : Bytes} {cfg cfg' : Config} {sent : List Event}

theorem reachable (h : Answering conn a b cfg sent cfg') (hcfg : Reachable cfg) :
    Reachable cfg' := by
  induction h with
  | start => exact hcfg
  | call c _ _ hidle hallowed ih => exact .call c ih hidle hallowed
  | own _ hadv ih => exact .move _ ih hadv trivial
  | other t _ _ hadv _ ih => exact .move t ih hadv trivial

theorem trace_isPrefix (h : Answering conn a b cfg sent cfg') (hcfg : Reachable cfg) :
    cfg.world.trace <+: cfg'.world.trace := by
  induction h with
  | start => exact List.prefix_rfl
  | call _ _ _ _ _ ih => exact ih
  | own h hadv ih | other t h _ hadv _ ih =>
    obtain ⟨es, htrace, -⟩ := ((h.reachable hcfg).effect hadv).trace_cases
    exact ih.trans (htrace ▸ List.prefix_append _ es)

theorem unanswered (hrun : Answering conn a b cfg sent cfg') {messages : List Message}
    (h : Unanswered conn a b messages cfg [] cfg) (hmessages : cfg.world.history a b = messages)
    (hown : OwnKey a b cfg'.world.trace) : Unanswered conn a b messages cfg sent cfg' := by
  have hcfg := h.reachable
  induction hrun with
  | start => exact h
  | call c _ hother hidle hallowed ih =>
    obtain ⟨hreach, hnamed, hquiet, hfollows⟩ := ih hown
    refine ⟨.call c hreach hidle hallowed, hnamed, hquiet, ?_⟩
    rwa [Config.call_code_of_ne _ hother.symm]
  | own hrun hadv ih =>
    obtain ⟨es, htrace, -⟩ := ((hrun.reachable hcfg).effect hadv).trace_cases
    have hown' := hown.of_isPrefix (htrace ▸ List.prefix_append _ es)
    exact (ih hown').own (((ih hown').history hcfg hown').trans hmessages) hadv
  | other t hrun hother hadv hquiet ih =>
    obtain ⟨es, htrace, -⟩ := ((hrun.reachable hcfg).effect hadv).trace_cases
    exact (ih (hown.of_isPrefix (htrace ▸ List.prefix_append _ es))).other hother hadv hquiet

/-- **The reply.** Once the request is served, its handlers have sent one frame, with the history
as it was when the request came. -/
theorem reply {data : Bytes} (hrun : Answering conn a b (cfg.call (.onMessage conn data true)) sent cfg')
    (h : Reachable cfg) (hconn : cfg.world.connOf a = some conn)
    (hidle : cfg.code (.handlers conn) = .ret ()) (hdata : readRequest data = .ok (.history b))
    (hdone : cfg'.code (.handlers conn) = .ret ()) (hown : OwnKey a b cfg'.world.trace) :
    sent = [.sendBinary conn (historyPayload (cfg.world.history a b))] := by
  have hwell : WellFormed (historyPayload (cfg.world.history a b)) :=
    .inr (by rw [decodeFrame_historyPayload (h.sound.history_fits a b)]; rfl)
  have hstart : Unanswered conn a b (cfg.world.history a b)
      (cfg.call (.onMessage conn data true)) [] (cfg.call (.onMessage conn data true)) := by
    refine ⟨.call _ h hidle rfl, hconn, ⟨[], by simp⟩, ?_⟩
    have hcode : (cfg.call (.onMessage conn data true)).code (.handlers conn) =
        onMessage conn data true := Function.update_self _ _ _
    rw [hcode]
    exact follows_request hdata hwell
  have hfollows := (hrun.unanswered hstart rfl hown).follows
  rw [hdone] at hfollows
  exact hfollows.done

/-- The handlers of `conn` may run on alone. -/
theorem finish (h : Answering conn a b cfg sent cfg') :
    ∃ sent', Answering conn a b cfg sent' (cfg'.finish (.handlers conn)) := by
  refine Config.finish_induction (P := fun cfg' => ∃ sent', Answering conn a b cfg sent' cfg') ?_
    ⟨sent, h⟩
  rintro cfg' p w ⟨sent', h'⟩ hadv
  exact ⟨_, h'.own hadv⟩

end Answering

/-- The handlers of `conn` have sent one history, and its last entry is `m`. -/
def ShowsLast (conn : Conn) (m : Message) (sent : List Event) : Prop :=
  ∃ payload messages, sent = [.sendBinary conn payload] ∧
    decodeFrame payload = some (.history messages) ∧ messages.getLast? = some m

theorem getLast?_take {α : Type} {xs : List α} {x : α} (h : xs.getLast? = some x) :
    (xs.take 255).getLast? = some x ↔ xs.length ≤ 255 ∨ xs[254]? = some x := by
  rw [List.getLast?_take, if_neg (by decide), h]
  rcases Nat.lt_trichotomy xs.length 255 with hlt | heq | hgt
  · simp [List.getElem?_eq_none (by omega : xs.length ≤ 254), hlt.le]
  · rw [List.getLast?_eq_getElem?, heq] at h
    rw [h]
    exact ⟨fun _ => .inl heq.le, fun _ => rfl⟩
  · simp [List.getElem?_eq_getElem (by omega : 254 < xs.length), hgt]

theorem showsLast_iff {conn : Conn} {m : Message} {messages : List Message}
    (hfits : ∀ m ∈ messages, m.1.length < 256 ∧ m.2.length < 256)
    (hlast : messages.getLast? = some m) :
    ShowsLast conn m [.sendBinary conn (historyPayload messages)] ↔
      messages.length ≤ 255 ∨ messages[254]? = some m := by
  rw [← getLast?_take hlast]
  constructor
  · rintro ⟨payload, shown, hsent, hdecode, hshown⟩
    obtain ⟨-, rfl⟩ := Event.sendBinary.inj (List.singleton_inj.mp hsent)
    rw [decodeFrame_historyPayload hfits, Option.some.injEq, Frame.history.injEq] at hdecode
    rwa [hdecode]
  · exact fun h => ⟨_, _, rfl, decodeFrame_historyPayload hfits, h⟩

/-- **Fetched histories.** The reply to a request that is served before anybody says more ends in
what was said last if and only if the chat has at most 255 messages, or the 255th is the same. -/
theorem history_shows_last_iff {cfg : Config} (h : Reachable cfg) {conn : Conn} {a b : Bytes}
    (hconn : cfg.world.connOf a = some conn) (hidle : cfg.code (.handlers conn) = .ret ())
    {m : Message} (hsaid : JustSaid a b m cfg.world.trace) {data : Bytes}
    (hdata : readRequest data = .ok (.history b)) {sent : List Event} {cfg' : Config}
    (hrun : Answering conn a b (cfg.call (.onMessage conn data true)) sent cfg')
    (hdone : cfg'.code (.handlers conn) = .ret ()) (hown : OwnKey a b cfg'.world.trace) :
    ShowsLast conn m sent ↔ (cfg.world.history a b).length ≤ 255 ∨
      (cfg.world.history a b)[254]? = some m := by
  have hown' : OwnKey a b cfg.world.trace := hown.of_isPrefix (hrun.trace_isPrefix (.call _ h hidle rfl))
  have hlast : (cfg.world.history a b).getLast? = some m := by
    rw [history_eq_said h hown']
    exact hsaid.getLast?
  rw [hrun.reply h hconn hidle hdata hdone hown]
  exact showsLast_iff (h.sound.history_fits a b) hlast

/-- `a` says `x` to all and looks. -/
theorem history_shows_last_one : ∃ cfg sent cfg', Reachable cfg ∧
    Answering 1 (ascii "a") generalChat (cfg.call (.onMessage 1 (5 :: pushString8 generalChat) true))
      sent cfg' ∧ ShowsLast 1 (ascii "a", ascii "x") sent := by
  have hreach := (Reachable.start.serve (c := .onOpen 1 (ascii "a")) rfl rfl).serve
    (c := .onMessage 1 (4 :: pushString8 generalChat ++ pushString8 (ascii "x")) true) rfl rfl
  obtain ⟨sent, hrun⟩ := Answering.finish (.start : Answering 1 (ascii "a") generalChat
    (Config.call _ (.onMessage 1 (5 :: pushString8 generalChat) true)) [] _)
  refine ⟨_, sent, _, hreach, hrun, (history_shows_last_iff hreach (by decide) rfl
    ⟨[.accepted 1 (ascii "a")], .storedGeneral (ascii "a") (ascii "x"),
      [.sendBinary 1 (messagePayload (ascii "a") (ascii "x"))], by decide, rfl, by decide⟩ (by decide) hrun
    ((Config.finish_code _).trans (if_pos rfl)) (.inl rfl)).mpr (.inl (by decide))⟩

/-! ## A chat with 256 messages -/

def sayAll (msg : Bytes) : Bytes := 4 :: (pushString8 generalChat ++ pushString8 msg)

theorem sayAll_run {w : World} (hw : Sound w) {a : Bytes} {conn : Conn}
    (hconn : w.connOf a = some conn) (msg : Bytes) (hne : msg ≠ []) (hlen : msg.length < 256) :
    ((onMessage conn (sayAll msg) true).run w).2 =
      ((w.enter conn 4).2.storeGeneral a msg).sends w.live (messagePayload a msg) := by
  have hread : readRequest (sayAll msg) = .ok (.sendMessage generalChat msg) :=
    (readRequest_eq_sendMessage _ _ _).mpr ⟨by decide, hlen, [], by simp [sayAll]⟩
  obtain ⟨cd, hcd, -⟩ := World.connOf_eq_some.mp hconn
  have hsender : (w.enter conn 4).1 = a := by
    unfold World.enter
    rw [hw.owned.findConn hconn hcd]
  unfold sayAll at hread ⊢
  rw [onMessage_eq hw, hread, hsender]
  change (w.enter conn 4).2.sendMessage conn a generalChat msg = _
  unfold World.sendMessage
  rw [if_neg hne, if_pos rfl, World.live_enter]

/-- `a` says `msg` to all, and nobody else moves. -/
theorem reachable_sayAll {cfg : Config} (h : Reachable cfg) (hrest : cfg.AtRest) {a : Bytes}
    {conn : Conn} (hconn : cfg.world.connOf a = some conn) {msg : Bytes} (hne : msg ≠ [])
    (hlen : msg.length < 256) : ∃ cfg', Reachable cfg' ∧ cfg'.AtRest ∧
      cfg'.world.connOf a = some conn ∧
      cfg'.world.generalChatHistory = cfg.world.generalChatHistory ++ [(a, msg)] ∧
      JustSaid a generalChat (a, msg) cfg'.world.trace := by
  refine ⟨_, h.serve (c := .onMessage conn (sayAll msg) true) (hrest _) rfl, hrest.serve _, ?_⟩
  have hworld : (cfg.serve (.onMessage conn (sayAll msg) true)).world = _ :=
    (Config.serve_world _ _).trans (sayAll_run h.sound hconn msg hne hlen)
  rw [hworld]
  refine ⟨(World.connOf_enter cfg.world conn 4 _).trans hconn, ?_, ?_⟩
  · change (cfg.world.enter conn 4).2.generalChatHistory ++ [_] = _
    rw [World.enter_general]
  · refine ⟨_, .storedGeneral a msg, _, List.append_assoc _ _ _, rfl, ?_⟩
    intro e he
    obtain ⟨c, -, rfl⟩ := List.mem_map.mp he
    rfl

/-- `a` has said the same thing `k` times. -/
theorem chatter (k : Nat) : ∃ cfg, Reachable cfg ∧ cfg.AtRest ∧
    cfg.world.connOf (ascii "a") = some 1 ∧
    cfg.world.generalChatHistory = List.replicate k (ascii "a", ascii "x") := by
  induction k with
  | zero =>
    have hreach := Reachable.start.serve (c := .onOpen 1 (ascii "a")) rfl rfl
    exact ⟨_, hreach, Config.AtRest.serve (fun _ => rfl) _, by decide, by decide⟩
  | succ k ih =>
    obtain ⟨cfg, hreach, hrest, hconn, hhistory⟩ := ih
    obtain ⟨cfg', hreach', hrest', hconn', hgrown, -⟩ :=
      reachable_sayAll hreach hrest hconn (by decide : ascii "x" ≠ []) (by decide)
    refine ⟨cfg', hreach', hrest', hconn', ?_⟩
    rw [hgrown, hhistory, List.replicate_succ']

theorem history_shows_last_fails : ¬ ∀ cfg, Reachable cfg → ∀ conn a b m data sent cfg',
    cfg.world.connOf a = some conn → cfg.code (.handlers conn) = .ret () →
    JustSaid a b m cfg.world.trace → readRequest data = .ok (.history b) →
    Answering conn a b (cfg.call (.onMessage conn data true)) sent cfg' →
    cfg'.code (.handlers conn) = .ret () → OwnKey a b cfg'.world.trace → ShowsLast conn m sent := by
  intro h
  obtain ⟨cfg, hreach, hrest, hconn, hhistory⟩ := chatter 255
  obtain ⟨cfg', hreach', hrest', hconn', hgrown, hsaid⟩ :=
    reachable_sayAll hreach hrest hconn (by decide : ascii "y" ≠ []) (by decide)
  have hlong : cfg'.world.history (ascii "a") generalChat =
      List.replicate 255 (ascii "a", ascii "x") ++ [(ascii "a", ascii "y")] := by
    rw [← hhistory, ← hgrown]
    exact if_pos rfl
  obtain ⟨sent, hanswer⟩ := Answering.finish (.start : Answering 1 (ascii "a") generalChat
    (cfg'.call (.onMessage 1 (5 :: pushString8 generalChat) true)) [] _)
  have hdone : (cfg'.call (.onMessage 1 (5 :: pushString8 generalChat) true)
      |>.finish (.handlers 1)).code (.handlers 1) = .ret () :=
    (Config.finish_code _).trans (if_pos rfl)
  have hshows := h _ hreach' 1 _ generalChat _ _ sent _ hconn' (hrest' _) hsaid (by decide) hanswer
    hdone (.inl rfl)
  have hreply := hanswer.reply hreach' hconn' (hrest' _) (by decide) hdone (.inl rfl)
  have hlast : (cfg'.world.history (ascii "a") generalChat).getLast? = some (ascii "a", ascii "y") := by
    rw [hlong, List.getLast?_concat]
  have hlength : (cfg'.world.history (ascii "a") generalChat).length = 256 := by
    rw [hlong, List.length_append, List.length_replicate, List.length_singleton]
  have hshown : (cfg'.world.history (ascii "a") generalChat)[254]? = some (ascii "a", ascii "x") := by
    rw [hlong, List.getElem?_append_left (by rw [List.length_replicate]; omega),
      List.getElem?_replicate_of_lt (by omega)]
  rw [hreply, showsLast_iff (hreach'.sound.history_fits _ _) hlast, hlength, hshown] at hshows
  exact absurd hshows (by decide)

end ChatServer
