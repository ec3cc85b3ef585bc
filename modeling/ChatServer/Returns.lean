import ChatServer.Timeline

/-!
# Leaving and coming back

The status of a user that has no connection, and the status that a user comes back with.
-/

open Program

namespace ChatServer

/-! ## Offline users -/

def OfflineShown (w : World) : Prop :=
  ∀ n cd, w.connections.lookup n = some cd → cd.conn = none → cd.status = .disconnected

/-- A connection that has no name sets the status of the user Desconocido, who is offline. -/
def Haunts (e : Entry) : Prop :=
  ∃ conn st cd, e.thread = .handlers conn ∧ e.before.findConn conn = none ∧
    Begins (withLock .connectionsMutex (applyStatus desconocido st true)) e.code ∧
    st ≠ .disconnected ∧ e.before.connections.lookup desconocido = some cd ∧ cd.conn = none

theorem OfflineShown.init (steadyClock : Nat → TimePoint) (time : Nat → Int64)
    (remoteIp : Conn → Bytes) : OfflineShown (.init steadyClock time remoteIp) := by
  intro n cd hcd
  rw [World.init, AList.lookup_empty] at hcd
  cases hcd

theorem OfflineShown.of_connections {w w' : World} (h : OfflineShown w)
    (hconn : w'.connections = w.connections) : OfflineShown w' := by
  unfold OfflineShown
  rwa [hconn]

theorem OfflineShown.modify {w w' : World} (h : OfflineShown w) {username : Bytes}
    {f : ConnectionData → ConnectionData} (hconn : w'.connections = w.connections.modify username f)
    (hf : ∀ cd, w.connections.lookup username = some cd → (f cd).conn = none →
      (f cd).status = .disconnected) : OfflineShown w' := by
  intro n cd hcd hnone
  rw [hconn] at hcd
  obtain ⟨cd', hcd', ⟨rfl, rfl⟩ | rfl⟩ := Table.of_lookup_modify hcd
  · exact hf cd' hcd' hnone
  · exact h n cd hcd' hnone

theorem Deed.offlineShown {t : Thread} {w w' : World} {i j : Stage} {p : Prog Unit}
    (h : Deed t w i p j w') (hw : Sound w) (hi : Knows t w i) (hoff : OfflineShown w)
    {now : TimePoint} {arrival : Option Call} (hno : ¬ Haunts ⟨t, p, now, w, w', arrival⟩) :
    OfflineShown w' := by
  cases h with
  | quiet | refuse | nameless | storeGeneral | storePrivate | deliver | joined | leave =>
    exact hoff.of_connections rfl
  | @touch _ conn _ _ e ht hp hfind =>
    apply hoff.modify (World.touch_connections _ _)
    intro cd hcd hnone
    exact hoff e.1 cd hcd hnone
  | @setStatus _ sender status hp =>
    apply hoff.modify (World.setStatus_connections _ _ _)
    intro cd hcd hnone
    obtain ⟨conn, rfl, hconn | ⟨rfl, hfree⟩⟩ := hi
    · -- The sender has this connection.
      obtain ⟨cd', hcd', hconn'⟩ := World.connOf_eq_some.mp ((hw.owned _ _).mpr hconn)
      rw [hcd, Option.some.injEq] at hcd'
      rw [← hcd', hnone] at hconn'
      cases hconn'
    · by_contra hne
      have hfind : w.findConn conn = none :=
        World.findConn_eq_none.mpr fun n hn => hfree n ((hw.owned n conn).mp hn)
      exact hno ⟨conn, status, cd, rfl, hfind, hp, hne, hcd, hnone⟩
  | @register _ conn username clientIp ht hname hnew =>
    intro n cd hcd hnone
    rw [World.register_connections, Table.lookup_insert_eq] at hcd
    split at hcd
    · obtain rfl := Option.some.inj hcd
      cases hnone
    · exact hoff n cd hcd hnone
  | reconnect =>
    apply hoff.modify (World.reconnect_connections _ _ _ _ _)
    intro cd _ hnone
    cases hnone
  | disconnect => exact hoff.modify (World.disconnect_connections _ _ _ _) fun _ _ _ => rfl
  | markIdle =>
    intro n cd hcd hnone
    obtain ⟨cd', hcd', ⟨hidle, rfl⟩ | rfl⟩ := World.of_lookup_markIdle hcd
    · obtain ⟨cd'', hcd'', hsome, -⟩ := World.mem_idleUsers.mp hidle
      rw [hcd', Option.some.injEq] at hcd''
      rw [← hcd'', show cd'.conn = none from hnone] at hsome
      cases hsome
    · exact hoff n cd hcd' hnone
  | eraseExpired =>
    intro n cd hcd hnone
    exact hoff n cd (World.of_lookup_eraseExpired hcd) hnone

theorem Haunts.not_offlineShown {e : Entry} (h : Haunts e) (ht : Taken e) :
    ¬ OfflineShown e.after := by
  obtain ⟨conn, st, cd, -, -, hp, hst, hcd, hnone⟩ := h
  obtain ⟨p, hadv⟩ := ht.advance
  have hafter := hp.advance (avoids_applyStatus _ _ _) hadv
  rw [applyStatus_run, hcd] at hafter
  intro hoff
  refine hst (hoff desconocido { cd with status := st, lastActive := e.before.steadyClock 0 } ?_ hnone)
  rw [hafter]
  simp [hcd]

theorem Timed.offlineShown {cfg : Config} {log : List Entry} (h : Timed cfg log)
    (hno : ∀ e ∈ log, ¬ Haunts e) : OfflineShown cfg.world ∧ ∀ e ∈ log, OfflineShown e.after := by
  have hmove : KeptByDeeds fun _ w log => (∀ e ∈ log, ¬ Haunts e) →
      OfflineShown w ∧ ∀ e ∈ log, OfflineShown e.after := by
    intro stage w log t now code j w' arrival hw hknows _ hJ hdeed hno
    obtain ⟨hoff, hall⟩ := hJ fun e he => hno e (List.mem_cons_of_mem _ he)
    have hnext := hdeed.offlineShown (hw.atTime now) (hknows.atTime now)
      (hoff.of_connections rfl) (hno _ List.mem_cons_self)
    refine ⟨hnext, fun e he => ?_⟩
    rcases List.mem_cons.mp he with rfl | he
    · exact hnext
    · exact hall e he
  obtain ⟨stage, -, hJ⟩ :=
    h.always (fun _ _ _ _ => ⟨.init _ _ _, by simp⟩) (fun _ _ _ _ hJ => hJ) hmove
  exact hJ hno

/-- **Offline users.** Everybody who has no connection is DISCONNECTED in every state of a run, if
and only if no nameless connection changes the status of an offline user Desconocido. -/
theorem offline_shown_iff {cfg : Config} {log : List Entry} (h : Timed cfg log) :
    (OfflineShown cfg.world ∧ ∀ e ∈ log, OfflineShown e.after) ↔ ∀ e ∈ log, ¬ Haunts e := by
  constructor
  · intro hoff e he hhaunts
    exact hhaunts.not_offlineShown (h.taken he) (hoff.2 e he)
  · exact h.offlineShown

/-- The user Desconocido comes and goes. Then a connection with no name says that it is ACTIVO. -/
def haunting : List Turn :=
  [.call (.onOpen 1 desconocido), .steps (.handlers 1) 0 40,
    .call (.onClose 1), .steps (.handlers 1) 0 40,
    .call (.onOpen 2 []), .steps (.handlers 2) 0 40,
    .call (.onMessage 2 (3 :: pushString8 desconocido ++ [1]) true), .steps (.handlers 2) 0 40]

theorem offline_shown_fails : ¬ ∀ cfg log, Timed cfg log → OfflineShown cfg.world := by
  intro h
  have hwrong : ((playAll haunting).1.world.connections.lookup desconocido).any
      fun cd => cd.conn = none ∧ cd.status = .activo := by decide +kernel
  obtain ⟨cd, hcd, heq⟩ := (Option.any_eq_true _ _).mp hwrong
  rw [decide_eq_true_eq] at heq
  have hoff := h _ _ (timed_playAll haunting) desconocido cd hcd heq.1
  rw [heq.2] at hoff
  cases hoff

theorem offline_shown_haunted : ∃ cfg log, Timed cfg log ∧
    (cfg.world.connections.lookup desconocido).isSome ∧
    ((OfflineShown cfg.world ∧ ∀ e ∈ log, OfflineShown e.after) ↔ ∀ e ∈ log, ¬ Haunts e) :=
  ⟨_, _, timed_playAll haunting, by decide +kernel, offline_shown_iff (timed_playAll haunting)⟩

/-! ## Users that come back -/

/-- The entry of `n` is kept and is DISCONNECTED or ACTIVO, or it is gone and the status that
`on_close` has saved is one of these. -/
def ComesBackActive (w : World) (n : Bytes) : Prop :=
  match w.connections.lookup n with
  | some cd => cd.status = .disconnected ∨ cd.status = .activo
  | none => ∀ st, w.lastUserStatus.lookup n = some st → st = .disconnected ∨ st = .activo

/-- Whoever `on_open` accepts is ACTIVO, and so the others are told. -/
structure BackActive (log : List Entry) : Prop where
  stored : ∀ e ∈ log, ∀ c n, .accepted c n ∈ e.news → e.after.statusOf n = some .activo
  announced : ∀ e ∈ log, ∀ c payload n st, .sendBinary c payload ∈ e.news →
    decodeFrame payload = some (.userJoined n st) → st = userStatusToByte .activo

theorem backStatus_eq_activo {cd : ConnectionData} :
    World.backStatus cd = .activo ↔ cd.status = .disconnected ∨ cd.status = .activo := by
  unfold World.backStatus
  split
  · rename_i h
    simp [h]
  · rename_i h
    simp [h]

theorem freshStatus_eq_activo {w : World} {n : Bytes} : w.freshStatus n = .activo ↔
    ∀ st, w.lastUserStatus.lookup n = some st → st = .disconnected ∨ st = .activo := by
  unfold World.freshStatus
  cases w.lastUserStatus.lookup n with
  | none => simp
  | some st => cases st <;> simp

/-- What a deed does to the users that are accepted and to the 53 frames about them. -/
inductive WelcomeDeed (w : World) (i j : Stage) (w' : World) : Prop
  | other (es : List Event) (htrace : w'.trace = w.trace ++ es)
      (haccepted : ∀ c n, .accepted c n ∉ es)
      (hjoined : ∀ c payload n st, .sendBinary c payload ∈ es →
        decodeFrame payload ≠ some (.userJoined n st))
      (hstage : ∀ n st, j = .welcome n st → i = j)
  | accept (conn : Conn) (n : Bytes) (st : UserStatus)
      (htrace : w'.trace = w.trace ++ [.accepted conn n]) (hj : j = .welcome n st)
      (hst : w'.statusOf n = some st)
  | announce (n : Bytes) (st : UserStatus) (conns : List Conn) (hi : i = .welcome n st)
      (hj : j = .calm) (hw : w' = w.sends conns (joinedPayload n st))

theorem not_userJoined_of_code {code : UInt8} {body : Bytes} (h : code ≠ 53) (n : Bytes)
    (st : UInt8) : decodeFrame (code :: body) ≠ some (.userJoined n st) := by
  intro hdecode
  exact h (UInt8.toNat_inj.mp (decodeFrame_code hdecode))

theorem Deed.welcome {t : Thread} {w w' : World} {α : Type} {i j : Stage} {p : Prog α}
    (h : Deed t w i p j w') : WelcomeDeed w i j w' := by
  have hother : ∀ {v : World} {es : List Event}, v.trace = w.trace ++ es →
      (∀ c n, .accepted c n ∉ es) → (∀ c payload, .sendBinary c payload ∈ es →
        ∃ code body, payload = code :: body ∧ code ≠ 53) →
      (∀ n st, j ≠ .welcome n st) → WelcomeDeed w i j v := by
    intro v es htrace haccepted hcode hj
    refine .other es htrace haccepted ?_ fun n st h => absurd h (hj n st)
    intro c payload n st hmem
    obtain ⟨code, body, rfl, hne⟩ := hcode c payload hmem
    exact not_userJoined_of_code hne n st
  cases h with
  | @quiet _ _ es um ms hes hp =>
    refine .other es rfl ?_ ?_ fun _ _ h => rfl
    · intro c n hmem
      cases hes _ hmem
    · intro c payload n st hmem
      obtain ⟨code, body, rfl, hne, -⟩ := hes _ hmem
      exact not_userJoined_of_code hne n st
  | @refuse _ conn es ht hes =>
    refine hother rfl ?_ ?_ nofun
    · intro c n hmem
      rcases hes _ hmem with ⟨_, heq⟩ | ⟨_, heq⟩ <;> cases heq
    · intro c payload hmem
      rcases hes _ hmem with ⟨_, heq⟩ | ⟨_, heq⟩ <;> cases heq
  | nameless | touch | setStatus | markIdle | eraseExpired =>
    exact @hother _ [] (by simp) (by simp) (by simp) nofun
  | storeGeneral | storePrivate | leave | disconnect =>
    exact hother rfl (by simp) (by simp) nofun
  | deliver hp conns =>
    refine hother rfl ?_ ?_ nofun
    · intro c n hmem
      obtain ⟨_, -, heq⟩ := List.mem_map.mp hmem
      cases heq
    · intro c payload hmem
      obtain ⟨_, -, heq⟩ := List.mem_map.mp hmem
      cases heq
      exact ⟨55, _, rfl, by decide⟩
  | @register _ conn username clientIp ht hname hnew =>
    exact .accept conn username _ rfl rfl (by simp [World.statusOf, World.freshEntry])
  | @reconnect _ conn username cd clientIp ht hname hcd hconn =>
    exact .accept conn username _ rfl rfl (by simp [World.statusOf, hcd])
  | joined conns => exact .announce _ _ conns rfl rfl rfl

/-- The step `e` accepts `n` with the status `st`. -/
def Accepts (e : Entry) (n : Bytes) (st : UserStatus) : Prop :=
  (∃ c, .accepted c n ∈ e.news) ∧ e.after.statusOf n = some st

/-- A thread announces only what it has itself accepted. -/
structure Welcomes (stage : Thread → Stage) (log : List Entry) : Prop where
  pending : ∀ t n st, stage t = .welcome n st → ∃ e ∈ log, e.thread = t ∧ Accepts e n st
  announced : ∀ e ∈ log, ∀ c payload n st, .sendBinary c payload ∈ e.news →
    decodeFrame payload = some (.userJoined n st) →
    ∃ e' ∈ log, e'.thread = e.thread ∧ ∃ st', Accepts e' n st' ∧ st = userStatusToByte st'

theorem Welcomes.call {stage : Thread → Stage} {log : List Entry} (h : Welcomes stage log)
    (c : Call) : Welcomes (Function.update stage c.thread c.stage) log where
  pending u n st hu := h.pending u n st (stage_of_called hu (by simp) rfl)
  announced := h.announced

/-- Of a new step, only what the thread has accepted and what it announces matters. -/
theorem Welcomes.cons {stage : Thread → Stage} {log : List Entry} (h : Welcomes stage log) {e : Entry}
    {j : Stage}
    (hpending : ∀ n st, j = .welcome n st → ∃ e' ∈ e :: log, e'.thread = e.thread ∧ Accepts e' n st)
    (hannounced : ∀ c payload n st, .sendBinary c payload ∈ e.news →
      decodeFrame payload = some (.userJoined n st) →
      ∃ e' ∈ e :: log, e'.thread = e.thread ∧ ∃ st', Accepts e' n st' ∧ st = userStatusToByte st') :
    Welcomes (Function.update stage e.thread j) (e :: log) where
  pending t n st ht := by
    by_cases hte : t = e.thread
    · subst hte
      rw [Function.update_self] at ht
      exact hpending n st ht
    · rw [Function.update_of_ne hte] at ht
      obtain ⟨e', he', hacc⟩ := h.pending t n st ht
      exact ⟨e', List.mem_cons_of_mem e he', hacc⟩
  announced e₁ he₁ c payload n st hmem hdecode := by
    rcases List.mem_cons.mp he₁ with rfl | he₁
    · exact hannounced c payload n st hmem hdecode
    · obtain ⟨e', he', hacc⟩ := h.announced e₁ he₁ c payload n st hmem hdecode
      exact ⟨e', List.mem_cons_of_mem e he', hacc⟩

theorem Welcomes.move {stage : Thread → Stage} {log : List Entry} (h : Welcomes stage log) {e : Entry}
    {j : Stage} (hknows : Knows e.thread e.before (stage e.thread))
    (hdeed : WelcomeDeed e.before (stage e.thread) j e.after) :
    Welcomes (Function.update stage e.thread j) (e :: log) := by
  cases hdeed with
  | other es htrace haccepted hjoined hstage =>
    apply h.cons
    · intro n st hj
      obtain ⟨e', he', hacc⟩ := h.pending e.thread n st ((hstage n st hj).trans hj)
      exact ⟨e', List.mem_cons_of_mem e he', hacc⟩
    · intro c payload n st hmem hdecode
      rw [Entry.news_eq htrace] at hmem
      exact absurd hdecode (hjoined c payload n st hmem)
  | accept conn u st htrace hj hst =>
    apply h.cons
    · intro n st' hj'
      rw [hj, Stage.welcome.injEq] at hj'
      obtain ⟨rfl, rfl⟩ := hj'
      refine ⟨e, List.mem_cons_self, rfl, ⟨conn, ?_⟩, hst⟩
      rw [Entry.news_eq htrace]
      exact List.mem_singleton_self _
    · intro c payload n st hmem
      rw [Entry.news_eq htrace, List.mem_singleton] at hmem
      cases hmem
  | announce u st conns hi hj hw =>
    apply h.cons
    · intro n st' hj'
      rw [hj] at hj'
      cases hj'
    · intro c payload n st' hmem hdecode
      rw [Entry.news_eq (by rw [hw]; rfl)] at hmem
      obtain ⟨conn, -, heq⟩ := List.mem_map.mp hmem
      obtain ⟨-, rfl⟩ := Event.sendBinary.inj heq
      rw [hi] at hknows
      have hjoined := decodeFrame_userJoined (ValidName.length_lt hknows) (userStatusToByte st)
      rw [joinedPayload, hjoined, Option.some.injEq, Frame.userJoined.injEq] at hdecode
      obtain ⟨rfl, rfl⟩ := hdecode
      obtain ⟨e', he', ht, hacc⟩ := h.pending e.thread u st hi
      exact ⟨e', List.mem_cons_of_mem e he', ht, st, hacc, rfl⟩

theorem Timed.welcomes {cfg : Config} {log : List Entry} (h : Timed cfg log) :
    ∃ stage, Welcomes stage log := by
  have hmove : KeptByDeeds fun stage _ log => Welcomes stage log := by
    intro stage w log t now code j w' arrival _ hknows _ hJ hdeed
    exact hJ.move (e := ⟨t, code, now, w.atTime now, w', arrival⟩) (hknows.atTime now) hdeed.welcome
  obtain ⟨stage, -, hJ⟩ := h.always (fun _ _ _ => ⟨by simp, by simp⟩) (fun _ _ _ c hJ => hJ.call c)
    hmove
  exact ⟨stage, hJ⟩

theorem Enters.status {w w' : World} {c : Conn} {n : Bytes} (h : Enters w c n w') :
    ∃ st, w'.statusOf n = some st ∧ (st = .activo ↔ ComesBackActive w n) := by
  obtain ⟨clientIp, ⟨hnew, rfl⟩ | ⟨cd, hcd, -, rfl⟩⟩ := h
  · refine ⟨w.freshStatus n, by simp [World.statusOf, World.freshEntry], ?_⟩
    rw [freshStatus_eq_activo, ComesBackActive, hnew]
  · refine ⟨World.backStatus cd, by simp [World.statusOf, hcd], ?_⟩
    rw [backStatus_eq_activo, ComesBackActive, hcd]

/-- **Coming back.** All that `on_open` accepts in a run are ACTIVO, and announced so, if and only
if each is found with an entry or a saved status that is DISCONNECTED or ACTIVO. -/
theorem back_active_iff {cfg : Config} {log : List Entry} (h : Timed cfg log) :
    BackActive log ↔ ∀ e ∈ log, ∀ c n, .accepted c n ∈ e.news → ComesBackActive e.before n := by
  constructor
  · intro hback e he c n hmem
    obtain ⟨st, hst, hiff⟩ := ((h.taken he).admits hmem).status
    have hactive := hback.stored e he c n hmem
    rw [hst, Option.some.injEq] at hactive
    exact hiff.mp hactive
  · intro hcond
    have hstored : ∀ e ∈ log, ∀ c n, .accepted c n ∈ e.news →
        e.after.statusOf n = some .activo := by
      intro e he c n hmem
      obtain ⟨st, hst, hiff⟩ := ((h.taken he).admits hmem).status
      rw [hst, hiff.mpr (hcond e he c n hmem)]
    refine ⟨hstored, fun e he c payload n st hmem hdecode => ?_⟩
    obtain ⟨stage, hwelcomes⟩ := h.welcomes
    obtain ⟨e', he', -, st', ⟨⟨c', hacc⟩, hst'⟩, rfl⟩ :=
      hwelcomes.announced e he c payload n st hmem hdecode
    have hactive := hstored e' he' c' n hacc
    rw [hst', Option.some.injEq] at hactive
    rw [hactive]

/-- `a` is OCUPADO, leaves, and comes back after the cleanup. -/
def longLeave : List Turn :=
  [.call (.onOpen 1 (ascii "a")), .steps (.handlers 1) 0 40,
    .call (.onMessage 1 (3 :: pushString8 (ascii "a") ++ [2]) true), .steps (.handlers 1) 0 40,
    .call (.onClose 1), .steps (.handlers 1) 0 40,
    .call (.cleanupPass 0), .steps (.cleanup 0) (5 * nanosPerMinute) 1,
    .call (.onOpen 2 (ascii "a")), .steps (.handlers 2) (5 * nanosPerMinute) 40]

theorem back_active_fails : ¬ ∀ cfg log, Timed cfg log → BackActive log := by
  intro h
  have hwrong : (playAll longLeave).2.any fun e => e.news.contains (.accepted 2 (ascii "a")) &&
      e.after.statusOf (ascii "a") = some .ocupado := by decide +kernel
  obtain ⟨e, he, heq⟩ := List.any_eq_true.mp hwrong
  rw [Bool.and_eq_true, List.contains_iff_mem, decide_eq_true_eq] at heq
  have hactive := (h _ _ (timed_playAll longLeave)).stored e he 2 _ heq.1
  rw [heq.2] at hactive
  cases hactive

theorem back_active_left : ∃ cfg log, Timed cfg log ∧
    (log.any fun e => e.news.contains (.accepted 2 (ascii "a"))) ∧
    (BackActive log ↔ ∀ e ∈ log, ∀ c n, .accepted c n ∈ e.news → ComesBackActive e.before n) :=
  ⟨_, _, timed_playAll longLeave, by decide +kernel, back_active_iff (timed_playAll longLeave)⟩

end ChatServer
