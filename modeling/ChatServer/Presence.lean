import ChatServer.Invariants

/-!
# Presence

What the 53 and 54 frames leave each client believing about each user, in any interleaving. A
status changes in one critical section and is announced in a later one, so an announcement may
be out of date when it is made.
-/

open Program

namespace ChatServer

/-! ## What a client has heard -/

def presence (payload : Bytes) : Option (Bytes × UInt8) :=
  match decodeFrame payload with
  | some (.userJoined username st) => some (username, st)
  | some (.statusChanged username st) => some (username, st)
  | _ => none

def hear (c : Conn) (u : Bytes) (last : Option UInt8) : Event → Option UInt8
  | .accepted conn _ => if conn = c then none else last
  | .sendBinary conn payload =>
    match presence payload with
    | some (username, st) => if conn = c ∧ username = u then some st else last
    | none => last
  | _ => last

/-- The last 53 or 54 frame about `u` that went to `c` since `c` was accepted. -/
def lastPresence (trace : List Event) (c : Conn) (u : Bytes) : Option UInt8 :=
  trace.foldl (hear c u) none

theorem lastPresence_append (trace es : List Event) (c : Conn) (u : Bytes) :
    lastPresence (trace ++ es) c u = es.foldl (hear c u) (lastPresence trace c u) :=
  List.foldl_append

theorem lastPresence_accepted (trace : List Event) (c : Conn) (n u : Bytes) :
    lastPresence (trace ++ [.accepted c n]) c u = none := by
  simp [lastPresence_append, hear]

theorem foldl_hear (es : List Event) (c : Conn) (u : Bytes) (last : Option UInt8) :
    es.foldl (hear c u) last = last ∨ es.foldl (hear c u) last = none ∨
      ∃ payload st, .sendBinary c payload ∈ es ∧ presence payload = some (u, st) ∧
        es.foldl (hear c u) last = some st := by
  induction es generalizing last with
  | nil => exact .inl rfl
  | cons e es ih =>
    rw [List.foldl_cons]
    rcases ih (hear c u last e) with h | h | ⟨payload, st, hmem, hpres, h⟩
    · rw [h]
      cases e with
      | sendBinary conn payload =>
        simp only [hear]
        cases hpres : presence payload with
        | none => exact .inl rfl
        | some p =>
          dsimp only
          split
          · rename_i heq
            obtain ⟨rfl, rfl⟩ := heq
            exact .inr (.inr ⟨payload, p.2, List.mem_cons_self, hpres, rfl⟩)
          · exact .inl rfl
      | accepted conn n =>
        simp only [hear]
        split
        · exact .inr (.inl rfl)
        · exact .inl rfl
      | _ => exact .inl rfl
    · exact .inr (.inl h)
    · exact .inr (.inr ⟨payload, st, List.mem_cons_of_mem e hmem, hpres, h⟩)

theorem lastPresence_sends {w : World} {conns : List Conn} {payload u : Bytes} {st : UInt8}
    (hpres : presence payload = some (u, st)) {c : Conn} (hc : c ∈ conns) :
    lastPresence (w.sends conns payload).trace c u = some st := by
  have hfold : ∀ (cs : List Conn) (last : Option UInt8),
      (cs.map (Event.sendBinary · payload)).foldl (hear c u) last =
        if c ∈ cs then some st else last := by
    intro cs
    induction cs with
    | nil => simp
    | cons conn cs ih =>
      intro last
      rw [List.map_cons, List.foldl_cons, ih]
      rcases eq_or_ne conn c with rfl | hne
      · simp [hear, hpres]
      · simp [hear, hpres, hne, hne.symm]
  rw [World.sends_trace, lastPresence_append, hfold, if_pos hc]

/-! ## Announcements to come -/

/-- The thread `t` has still to tell `c` that the status of `u` is `st`. -/
def WillTell (cfg : Config) (t : Thread) (c : Conn) (u : Bytes) (st : UserStatus) : Prop :=
  t.notifies ∧ (Owes .connectionsMutex Sound (toldAll u st) (cfg.code t) ∨
    Owes .connectionsMutex Sound (toldOthers u st) (cfg.code t) ∧ cfg.world.connOf u ≠ some c)

/-- The announcements that the thread `t` makes when it is its turn: to whom, about whom, and
the status byte. -/
def announcements (cfg : Config) (t : Thread) : List (Conn × Bytes × UInt8) :=
  match advance .connectionsMutex (cfg.code t) cfg.world with
  | none => []
  | some (_, w') => (w'.trace.drop cfg.world.trace.length).filterMap fun
    | .sendBinary c payload => (presence payload).map fun p => (c, p)
    | _ => none

/-- No announcement of `t` is out of date when it is made, unless another thread has still to
announce the status that the entry has. -/
def Timely (cfg : Config) (t : Thread) : Prop :=
  ∀ c u st cd, (c, u, st) ∈ announcements cfg t → cfg.world.connections.lookup u = some cd →
    st = userStatusToByte cd.status ∨ ∃ t', t' ≠ t ∧ WillTell cfg t' c u cd.status

/-- What the client `c` has last heard about each user is true, or about to be put right. -/
def Informed (cfg : Config) : Prop :=
  ∀ c, c ∈ cfg.world.live → ∀ u cd, cfg.world.connections.lookup u = some cd →
    (∃ t, WillTell cfg t c u cd.status) ∨
    ∀ st, lastPresence cfg.world.trace c u = some st → st = userStatusToByte cd.status

theorem presence_status {u : Bytes} (h : ValidName u) (st : UserStatus) :
    presence (statusPayload u st) = some (u, userStatusToByte st) := by
  unfold presence statusPayload
  rw [decodeFrame_statusChanged h.length_lt]

theorem presence_joined {u : Bytes} (h : ValidName u) (st : UserStatus) :
    presence (joinedPayload u st) = some (u, userStatusToByte st) := by
  unfold presence joinedPayload
  rw [decodeFrame_userJoined h.length_lt]

theorem WillTell.call {cfg : Config} {t : Thread} {c : Conn} {u : Bytes} {st : UserStatus}
    (h : WillTell cfg t c u st) {d : Call} (hidle : cfg.code d.thread = .ret ()) :
    WillTell (cfg.call d) t c u st := by
  have hne : t ≠ d.thread := by
    rintro rfl
    rw [WillTell, hidle] at h
    exact h.2.elim Owes.not_ret fun h => Owes.not_ret h.1
  unfold WillTell at h ⊢
  simpa only [Config.call, Function.update_of_ne hne] using h

section Move

variable {cfg : Config} {t : Thread} {p : Prog Unit} {w : World} {c : Conn} {u : Bytes}
  {cd : ConnectionData}

theorem WillTell.move_ne {t' : Thread} {st : UserStatus} (h : WillTell cfg t' c u st) (hne : t' ≠ t)
    (hconn : w.connOf u = some c → cfg.world.connOf u = some c) :
    WillTell (cfg.move t p w) t' c u st := by
  unfold WillTell at h ⊢
  simp only [Config.move, Function.update_of_ne hne]
  exact ⟨h.1, h.2.imp_right fun h => ⟨h.1, mt hconn h.2⟩⟩

/-- A step of `t` tells `c` what `t` had still to tell, or `t` has still to tell it. -/
theorem WillTell.move_self {st : UserStatus} (h : WillTell cfg t c u st) (hw : Sound cfg.world)
    (hadv : advance .connectionsMutex (cfg.code t) cfg.world = some (p, w)) (hu : ValidName u)
    (hc : c ∈ cfg.world.live) (hconn : w.connOf u = some c → cfg.world.connOf u = some c) :
    WillTell (cfg.move t p w) t c u st ∨
      lastPresence w.trace c u = some (userStatusToByte st) := by
  have hlater : (Owes .connectionsMutex Sound (toldAll u st) p ∨
      Owes .connectionsMutex Sound (toldOthers u st) p ∧ w.connOf u ≠ some c) →
      WillTell (cfg.move t p w) t c u st := by
    intro howes
    refine ⟨h.1, ?_⟩
    simpa only [Config.move, Function.update_self] using howes
  rcases h.2 with howes | ⟨howes, hother⟩
  · rcases howes.advance hw hadv with htold | howes
    · unfold toldAll at htold
      rw [htold]
      exact .inr (lastPresence_sends (presence_status hu st) hc)
    · exact .inl (hlater (.inl howes))
  · rcases howes.advance hw hadv with htold | howes
    · obtain ⟨n, hn⟩ := World.mem_live.mp hc
      have hmem : c ∈ cfg.world.others u := by
        refine World.mem_others.mpr ⟨n, ?_, hn⟩
        rintro rfl
        exact hother hn
      unfold toldOthers at htold
      rw [htold]
      exact .inr (lastPresence_sends (presence_joined hu st) hmem)
    · exact .inl (hlater (.inr ⟨howes, mt hconn hother⟩))

end Move

/-! ## The invariant -/

theorem Informed.init (steadyClock : Nat → TimePoint) (time : Nat → Int64)
    (remoteIp : Conn → Bytes) : Informed (.init (.init steadyClock time remoteIp)) := by
  intro c hc
  obtain ⟨n, hn⟩ := World.mem_live.mp hc
  cases hn

theorem Informed.call {cfg : Config} (h : Informed cfg) {d : Call}
    (hidle : cfg.code d.thread = .ret ()) : Informed (cfg.call d) := by
  intro c hc u cd hcd
  rcases h c hc u cd hcd with ⟨t, ht⟩ | hlast
  · exact .inl ⟨t, ht.call hidle⟩
  · exact .inr hlast

theorem mem_announcements {cfg : Config} {t : Thread} {p : Prog Unit} {w : World}
    (hadv : advance .connectionsMutex (cfg.code t) cfg.world = some (p, w)) {es : List Event}
    (htrace : w.trace = cfg.world.trace ++ es) {c : Conn} {payload u : Bytes} {st : UInt8}
    (hmem : .sendBinary c payload ∈ es) (hpres : presence payload = some (u, st)) :
    (c, u, st) ∈ announcements cfg t := by
  unfold announcements
  rw [hadv]
  dsimp only
  rw [htrace, List.drop_left, List.mem_filterMap]
  exact ⟨_, hmem, by simp [hpres]⟩

theorem Informed.move_same {cfg : Config} (h : Informed cfg) (hw : Sound cfg.world) {t : Thread}
    {p : Prog Unit} {w : World}
    (hadv : advance .connectionsMutex (cfg.code t) cfg.world = some (p, w))
    (heff : Effect cfg.world w) (htimely : Timely cfg t) {c : Conn} (hc : c ∈ w.live) {u : Bytes}
    {cd : ConnectionData} (hcd : cfg.world.connections.lookup u = some cd) :
    (∃ t', WillTell (cfg.move t p w) t' c u cd.status) ∨
      ∀ st, lastPresence w.trace c u = some st → st = userStatusToByte cd.status := by
  by_cases hnew : ∃ n, w.trace = cfg.world.trace ++ [.accepted c n]
  · -- The client has just come, and has not heard anything.
    obtain ⟨n, htrace⟩ := hnew
    rw [htrace, lastPresence_accepted]
    exact .inr nofun
  · have hold : ∀ n, w.connOf n = some c → cfg.world.connOf n = some c :=
      fun n hn => (heff.connOf_cases hn).resolve_right fun htrace => hnew ⟨n, htrace⟩
    obtain ⟨n, hn⟩ := World.mem_live.mp hc
    have hc' : c ∈ cfg.world.live := World.mem_live.mpr ⟨n, hold n hn⟩
    rcases h c hc' u cd hcd with ⟨t', htell⟩ | hlast
    · by_cases ht : t' = t
      · subst ht
        rcases htell.move_self hw hadv (hw.name_of_lookup hcd) hc' (hold u) with htell | hlast
        · exact .inl ⟨t', htell⟩
        · refine .inr fun st hst => ?_
          rw [hlast] at hst
          exact (Option.some.inj hst).symm
      · exact .inl ⟨t', htell.move_ne ht (hold u)⟩
    · obtain ⟨es, htrace, -⟩ := heff.trace_cases
      rw [htrace, lastPresence_append]
      rcases foldl_hear es c u (lastPresence cfg.world.trace c u) with
        hsame | hnone | ⟨payload, st, hmem, hpres, hheard⟩
      · rw [hsame]
        exact .inr hlast
      · rw [hnone]
        exact .inr nofun
      · rcases htimely c u st cd (mem_announcements hadv htrace hmem hpres) hcd with
          hst | ⟨t', ht', htell⟩
        · rw [hheard]
          exact .inr fun st' hst' => (Option.some.inj hst').symm.trans hst
        · exact .inl ⟨t', htell.move_ne ht' (hold u)⟩

theorem Informed.move {cfg : Config} (h : Informed cfg) (horderly : Orderly cfg) {t : Thread}
    {p : Prog Unit} {w : World}
    (hadv : advance .connectionsMutex (cfg.code t) cfg.world = some (p, w))
    (htimely : Timely cfg t) : Informed (cfg.move t p w) := by
  obtain ⟨hafter, heff, -, hann⟩ := horderly.move hadv
  intro c hc u cd' hcd'
  have hc' : c ∈ w.live := hc
  rcases hann u cd' hcd' with ⟨cd, hcd, hst⟩ | ⟨ht, howes⟩ | ⟨conn, ht, htrace, howes⟩
  · rw [← hst]
    exact h.move_same horderly.sound hadv heff htimely hc' hcd
  · refine .inl ⟨t, ht, .inl ?_⟩
    simpa only [Config.move, Function.update_self] using howes
  · by_cases hcc : conn = c
    · -- What `on_open` has just accepted has not heard anything.
      subst hcc
      refine .inr fun st hst => ?_
      change lastPresence w.trace conn u = some st at hst
      rw [htrace, lastPresence_accepted] at hst
      cases hst
    · refine .inl ⟨t, by rw [ht]; rfl, .inr ⟨?_, ?_⟩⟩
      · simpa only [Config.move, Function.update_self] using howes
      · have hsession : w.session conn = .accepted u := by
          unfold World.session
          rw [htrace, World.session_accepted, if_pos rfl]
        have hu : w.connOf u = some conn := (hafter.sound.owned u conn).mpr hsession
        change w.connOf u ≠ some c
        rw [hu]
        exact fun heq => hcc (Option.some.inj heq)

theorem ReachableBy.informed {cfg : Config} (h : ReachableBy Timely cfg) : Informed cfg := by
  induction h with
  | init clock time ip => exact .init clock time ip
  | call d _ hidle _ ih => exact ih.call hidle
  | move t hreach hadv htimely ih => exact ih.move (Reachable.orderly hreach.reachable) hadv htimely

/-- **Presence.** In a run in which every announcement is timely, all clients know the status of
all users whenever no handler and no monitor pass is at work. -/
theorem presence_converges {cfg : Config} (h : ReachableBy Timely cfg)
    (hidle : ∀ t, t.notifies → cfg.code t = .ret ()) {c : Conn} (hc : c ∈ cfg.world.live)
    {u : Bytes} {cd : ConnectionData} (hcd : cfg.world.connections.lookup u = some cd) {st : UInt8}
    (hlast : lastPresence cfg.world.trace c u = some st) : st = userStatusToByte cd.status := by
  rcases h.informed c hc u cd hcd with ⟨t, ht, howes⟩ | htrue
  · rw [hidle t ht] at howes
    exact howes.elim (fun h => absurd h Owes.not_ret) fun h => absurd h.1 Owes.not_ret
  · exact htrue st hlast

theorem timely_of_all {cfg : Config} {t : Thread}
    (h : (announcements cfg t).all fun a =>
      (cfg.world.connections.lookup a.2.1).all fun cd => a.2.2 = userStatusToByte cd.status) :
    Timely cfg t := by
  intro c u st cd hmem hcd
  have hall := List.all_eq_true.mp h _ hmem
  simp only [hcd, Option.all_some, decide_eq_true_eq] at hall
  exact .inl hall

theorem idle_of_isNone {cfg : Config} {t : Thread}
    (h : (advance .connectionsMutex (cfg.code t) cfg.world).isNone) : cfg.code t = .ret () :=
  (advance_eq_none (Option.isNone_iff_eq_none.mp h)).choose_spec

theorem presence_converges_two : ∃ cfg, ReachableBy Timely cfg ∧
    lastPresence cfg.world.trace 1 (ascii "b") = some 1 ∧
    ∀ cd, cfg.world.connections.lookup (ascii "b") = some cd → 1 = userStatusToByte cd.status := by
  have hfirst : ReachableBy Timely _ := .call (.onOpen 1 (ascii "a"))
    (.init (fun _ => 0) (fun _ => 0) fun _ => []) rfl rfl
  have hopen := hfirst.steps (t := .handlers 1) (k := 30) fun i hi => timely_of_all (by
    revert i
    decide)
  have hsecond := hopen.call (.onOpen 2 (ascii "b")) (idle_of_isNone (by decide)) rfl
  have hrun := hsecond.steps (t := .handlers 2) (k := 30) fun i hi => timely_of_all (by
    revert i
    decide)
  refine ⟨_, hrun, by decide, fun cd hcd =>
    presence_converges hrun (fun t _ => ?_) (c := 1) (by decide) hcd (by decide)⟩
  by_cases h2 : t = .handlers 2
  · subst h2
    exact idle_of_isNone (by decide +kernel)
  · rw [Config.steps_code_of_ne _ h2, Config.call_code_of_ne _ h2]
    by_cases h1 : t = .handlers 1
    · subst h1
      exact idle_of_isNone (by decide)
    · rw [Config.steps_code_of_ne _ h1, Config.call_code_of_ne _ h1]
      rfl

def slowClock (i : Nat) : TimePoint := 60 * nanosPerSecond * i

/-- The monitor marks the only user, which then wakes up before the monitor has announced it. -/
theorem presence_diverges : ¬ ∀ cfg, Reachable cfg → (∀ t, t.notifies → cfg.code t = .ret ()) →
    ∀ c ∈ cfg.world.live, ∀ u cd, cfg.world.connections.lookup u = some cd →
      ∀ st, lastPresence cfg.world.trace c u = some st → st = userStatusToByte cd.status := by
  intro h
  have hopen : Reachable _ := Reachable.serve (.init slowClock (fun _ => 0) fun _ => [])
    (c := .onOpen 1 (ascii "a")) rfl rfl
  have hmark := ReachableBy.step (hopen.call (.monitorPass 0) rfl rfl) (t := .monitor 0) trivial
  have hwake := Reachable.serve hmark
    (c := .onMessage 1 (4 :: pushString8 generalChat ++ pushString8 (ascii "x")) true) rfl rfl
  have hlate := Reachable.finish hwake (.monitor 0)
  have hwrong := h _ hlate (fun t _ => ?_) 1 (by decide) (ascii "a") _ rfl 3 (by decide)
  · revert hwrong
    decide
  · by_cases hm : t = .monitor 0
    · rw [hm]
      rfl
    · rw [Config.finish_code, if_neg hm, Config.serve_code, Config.step_code_of_ne _ hm,
        Config.call_code_of_ne _ hm, Config.serve_code]
      simp [Config.init]

end ChatServer
