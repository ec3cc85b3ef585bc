import ChatServer.Activity

/-!
# The grace period

How long the entry of a user stays after its `on_close`. The cleanup judges by the stamp
`last_active`, which `on_close` does not write.
-/

open Program

namespace ChatServer

def gracePeriod : Int := 5 * nanosPerMinute

/-- In the step `e`, `on_close` finds the connection of `n`. -/
def ClosedIn (n : Bytes) (e : Entry) : Prop :=
  ∃ conn, .left conn ∈ e.news ∧ e.before.connOf n = some conn

def ErasedIn (n : Bytes) (e : Entry) : Prop :=
  (e.before.connections.lookup n).isSome ∧ e.after.connections.lookup n = none

/-- The last `on_close` of `n` before the step `e` was at least five minutes before it. -/
def LongGone (n : Bytes) (e : Entry) (older : List Entry) : Prop :=
  ∃ c, Latest (ClosedIn n) older c ∧ c + gracePeriod ≤ e.time

/-- Nobody is erased within five minutes of its last `on_close`, and who was connected within the
last five minutes has an entry. -/
structure GraceKept (log : List Entry) : Prop where
  erased : ∀ newer e older, log = newer ++ e :: older → ∀ n, ErasedIn n e → LongGone n e older
  present : ∀ newer e older, log = newer ++ e :: older → ∀ e' ∈ e :: older, ∀ n conn,
    e'.before.connOf n = some conn → e.time < e'.time + gracePeriod →
      (e.after.connections.lookup n).isSome

/-- A cleanup pass comes upon a user who has left less than five minutes ago, and whose last
activity was at least five minutes ago. -/
def Hasty (e : Entry) (older : List Entry) : Prop :=
  Begins cleanupPass e.code ∧ ∃ n cd a c, e.before.connections.lookup n = some cd ∧
    cd.conn = none ∧ Latest (ActiveIn n) older a ∧ a + gracePeriod ≤ e.time ∧
    Latest (ClosedIn n) older c ∧ e.time < c + gracePeriod

/-! ## Entries without a connection -/

theorem Taken.offline {e : Entry} (h : Taken e) {n : Bytes} {cd' : ConnectionData}
    (hcd' : e.after.connections.lookup n = some cd') (hnone : cd'.conn = none) :
    ClosedIn n e ∨ ∃ cd, e.before.connections.lookup n = some cd ∧ cd.conn = none := by
  obtain ⟨i, j, -, -, hdeed⟩ := h.deed
  have hclosed : ∀ {es : List Event}, e.after.trace = e.before.trace ++ es → ∀ conn,
      .left conn ∈ es → e.before.connOf n = some conn → ClosedIn n e :=
    fun htrace conn hmem hconn => ⟨conn, Entry.news_eq htrace ▸ hmem, hconn⟩
  have hmodify : ∀ {username : Bytes} {f : ConnectionData → ConnectionData} {v : World},
      v.connections = e.before.connections.modify username f →
      v.connections.lookup n = some cd' → (∀ cd, (f cd).conn = none → cd.conn = none) →
      ∃ cd, e.before.connections.lookup n = some cd ∧ cd.conn = none := by
    intro username f v hv hcd hf
    rw [hv] at hcd
    obtain ⟨cd, hold, ⟨-, rfl⟩ | rfl⟩ := Table.of_lookup_modify hcd
    · exact ⟨cd, hold, hf cd hnone⟩
    · exact ⟨cd', hold, hnone⟩
  revert hclosed
  generalize e.after = w' at hdeed hcd'
  intro hclosed
  cases hdeed with
  | quiet | refuse | nameless | storeGeneral | storePrivate | deliver | joined | leave =>
    exact .inr ⟨cd', hcd', hnone⟩
  | touch => exact .inr (hmodify (World.touch_connections _ _) hcd' fun _ h => h)
  | setStatus => exact .inr (hmodify (World.setStatus_connections _ _ _) hcd' fun _ h => h)
  | reconnect =>
    exact .inr (hmodify (World.reconnect_connections _ _ _ _ _) hcd' fun _ h => by cases h)
  | register =>
    rw [World.register_connections, Table.lookup_insert_eq] at hcd'
    split at hcd'
    · obtain rfl := Option.some.inj hcd'
      cases hnone
    · exact .inr ⟨cd', hcd', hnone⟩
  | @disconnect _ conn e' ht hfind =>
    rw [World.disconnect_connections] at hcd'
    obtain ⟨cd, hcd, ⟨rfl, -⟩ | rfl⟩ := Table.of_lookup_modify hcd'
    · exact .inl (hclosed rfl conn (List.mem_singleton_self _) (World.findConn_eq_some hfind).2)
    · exact .inr ⟨cd', hcd, hnone⟩
  | markIdle =>
    obtain ⟨cd, hcd, ⟨-, rfl⟩ | rfl⟩ := World.of_lookup_markIdle hcd'
    · exact .inr ⟨cd, hcd, hnone⟩
    · exact .inr ⟨cd', hcd, hnone⟩
  | eraseExpired => exact .inr ⟨cd', World.of_lookup_eraseExpired hcd', hnone⟩

theorem Taken.erased {e : Entry} (h : Taken e) {n : Bytes} (herased : ErasedIn n e) :
    Begins cleanupPass e.code ∧ ∃ cd, e.before.connections.lookup n = some cd ∧
      isExpired e.time cd := by
  obtain ⟨i, j, -, -, hdeed⟩ := h.deed
  obtain ⟨hsome, hnone⟩ := herased
  have hclock : e.before.steadyClock 0 = e.time := by rw [h.clock]
  have hkept : ∀ {v : World}, v.connections.keys = e.before.connections.keys →
      v.connections.lookup n = none → False := by
    intro v hkeys hv
    rw [AList.lookup_eq_none, AList.mem_keys, hkeys, ← AList.mem_keys, ← AList.lookup_isSome] at hv
    exact hv hsome
  generalize e.after = w' at hdeed hnone
  cases hdeed with
  | quiet | refuse | nameless | storeGeneral | storePrivate | deliver | joined | leave =>
    exact (hkept rfl hnone).elim
  | touch | setStatus | reconnect | disconnect => exact (hkept (Table.keys_modify _ _ _) hnone).elim
  | markIdle => exact (hkept (Table.keys_mapVal _ _) hnone).elim
  | register =>
    rw [World.register_connections, Table.lookup_insert_eq] at hnone
    split at hnone
    · cases hnone
    · rw [hnone] at hsome
      cases hsome
  | eraseExpired hp =>
    rw [World.eraseExpired_connections, Table.lookup_filter, hclock] at hnone
    obtain ⟨cd, hcd⟩ := Option.isSome_iff_exists.mp hsome
    refine ⟨hp, World.mem_expiredUsers.mp ?_⟩
    by_contra hn
    rw [hcd, Option.filter_some, if_pos (decide_eq_true hn)] at hnone
    cases hnone

theorem Timed.closed {cfg : Config} {log : List Entry} (h : Timed cfg log) {n : Bytes}
    {cd : ConnectionData} (hcd : cfg.world.connections.lookup n = some cd) (hnone : cd.conn = none) :
    ∃ c, Latest (ClosedIn n) log c := by
  induction h generalizing cd with
  | init =>
    rw [Config.init, World.init, AList.lookup_empty] at hcd
    cases hcd
  | call _ _ _ _ ih => exact ih hcd hnone
  | @move cfg log t now p w hrun htime hadv ih =>
    have htaken := (Timed.move t now hrun htime hadv).taken List.mem_cons_self
    by_cases hclosed : ClosedIn n ⟨t, cfg.code t, now, cfg.world.atTime now, w, cfg.arrival t⟩
    · exact ⟨_, .here hclosed⟩
    · obtain ⟨cd', hcd', hnone'⟩ := (htaken.offline hcd hnone).resolve_left hclosed
      obtain ⟨c, hc⟩ := ih hcd' hnone'
      exact ⟨c, .older hclosed hc⟩

/-! ## The grace period -/

theorem isExpired_iff {now : TimePoint} {cd : ConnectionData} :
    isExpired now cd ↔ cd.conn = none ∧ cd.lastActive + gracePeriod ≤ now := by
  unfold isExpired
  rw [le_elapsed_iff (by decide) (by decide)]
  unfold gracePeriod
  apply and_congr_right
  intro _
  rw [Int.add_comm]
  exact ⟨Int.add_le_of_le_sub_right, Int.le_sub_right_of_add_le⟩

/-- What was erased is gone for a reason, unless a pass was hasty. -/
theorem erased_of_not_hasty {cfg : Config} {e : Entry} {older : List Entry}
    (h : Timed cfg (e :: older)) (hno : ¬ Hasty e older) {n : Bytes} (herased : ErasedIn n e) :
    LongGone n e older := by
  obtain ⟨hp, cd, hcd, hexp⟩ := (h.taken List.mem_cons_self).erased herased
  obtain ⟨hnone, hle⟩ := isExpired_iff.mp hexp
  obtain ⟨-, cfg', hrun, hbefore⟩ := h.before
  have hcd' : cfg'.world.connections.lookup n = some cd := by
    rw [hbefore] at hcd
    exact hcd
  obtain ⟨c, hc⟩ := hrun.closed hcd' hnone
  refine ⟨c, hc, ?_⟩
  by_contra hlt
  exact hno ⟨hp, n, cd, cd.lastActive, c, hcd, hnone, hrun.stamp hcd', hle, hc, not_le.mp hlt⟩

theorem Hasty.erases {cfg : Config} {e : Entry} {older : List Entry} (h : Hasty e older)
    (hrun : Timed cfg (e :: older)) :
    ∃ n c, ErasedIn n e ∧ Latest (ClosedIn n) older c ∧ e.time < c + gracePeriod := by
  obtain ⟨hp, n, cd, a, c, hcd, hnone, ha, hle, hc, hlt⟩ := h
  obtain ⟨-, cfg', hbefore, hworld⟩ := hrun.before
  have htaken := hrun.taken List.mem_cons_self
  refine ⟨n, c, ⟨by rw [hcd]; rfl, ?_⟩, hc, hlt⟩
  have hstamp : cd.lastActive = a := by
    rw [hworld] at hcd
    exact (hbefore.stamp hcd).unique ha
  have hexp : n ∈ e.before.expiredUsers e.time :=
    World.mem_expiredUsers.mpr ⟨cd, hcd, isExpired_iff.mpr ⟨hnone, hstamp ▸ hle⟩⟩
  obtain ⟨p, hadv⟩ := htaken.advance
  obtain ⟨k, hk⟩ := hp
  rw [hk, section_cleanupPass.advance_bind, Option.some.injEq, Prod.mk.injEq, cleanupPass_run] at hadv
  rw [← hadv.2, World.eraseExpired_connections, Table.lookup_filter, hcd, htaken.clock]
  simp [Option.filter, hexp]

/-- `n` has an entry, and if it has no connection, it left at `since` or later. -/
def StillThere (n : Bytes) (since : TimePoint) (w : World) (log : List Entry) : Prop :=
  ∃ cd, w.connections.lookup n = some cd ∧
    (cd.conn = none → ∃ c, Latest (ClosedIn n) log c ∧ since ≤ c)

theorem Taken.stillThere {e : Entry} {older : List Entry} (h : Taken e) {n : Bytes}
    {since : TimePoint} (hkept : ErasedIn n e → LongGone n e older)
    (hthere : StillThere n since e.before older) (hle : since ≤ e.time) :
    StillThere n since e.after (e :: older) ∨ since + gracePeriod ≤ e.time := by
  obtain ⟨cd, hcd, hgone⟩ := hthere
  cases hcd' : e.after.connections.lookup n with
  | none =>
    have herased : ErasedIn n e := ⟨Option.isSome_iff_exists.mpr ⟨cd, hcd⟩, hcd'⟩
    obtain ⟨-, cd₁, hcd₁, hexp⟩ := h.erased herased
    obtain rfl : cd = cd₁ := Option.some.inj (hcd.symm.trans hcd₁)
    obtain ⟨c, hc, hle'⟩ := hgone hexp.1
    obtain ⟨c₁, hc₁, hlate⟩ := hkept herased
    rw [hc₁.unique hc] at hlate
    exact .inr ((Int.add_le_add_right hle' _).trans hlate)
  | some cd' =>
    refine .inl ⟨cd', hcd', fun hnone => ?_⟩
    by_cases hclosed : ClosedIn n e
    · exact ⟨e.time, .here hclosed, hle⟩
    · obtain ⟨cd₁, hcd₁, hnone₁⟩ := (h.offline hcd' hnone).resolve_left hclosed
      obtain rfl : cd = cd₁ := Option.some.inj (hcd.symm.trans hcd₁)
      obtain ⟨c, hc, hle'⟩ := hgone hnone₁
      exact ⟨c, .older hclosed hc, hle'⟩

/-- Who was connected at a step of the log still has an entry, or five minutes have passed. -/
theorem Timed.connected {cfg : Config} {log : List Entry} (h : Timed cfg log)
    (hkept : ∀ newer e older, log = newer ++ e :: older → ∀ n, ErasedIn n e → LongGone n e older)
    {e' : Entry} (he' : e' ∈ log) {n : Bytes} {conn : Conn} (hconn : e'.before.connOf n = some conn) :
    StillThere n e'.time cfg.world log ∨ ∃ e ∈ log, e'.time + gracePeriod ≤ e.time := by
  induction h with
  | init => cases he'
  | call _ _ _ _ ih => exact ih hkept he'
  | @move cfg log t now p w hrun htime hadv ih =>
    have htaken := (Timed.move t now hrun htime hadv).taken List.mem_cons_self
    have hstep : ∀ since, StillThere n since cfg.world log → since ≤ now →
        StillThere n since w (⟨t, cfg.code t, now, cfg.world.atTime now, w, cfg.arrival t⟩ :: log) ∨
          ∃ e ∈ (⟨t, cfg.code t, now, cfg.world.atTime now, w, cfg.arrival t⟩ :: log : List Entry),
            since + gracePeriod ≤ e.time := by
      intro since hthere hle
      apply (htaken.stillThere (hkept [] _ log rfl n) hthere hle).imp_right
      intro hlate
      exact ⟨_, List.mem_cons_self, hlate⟩
    rcases List.mem_cons.mp he' with rfl | he'
    · obtain ⟨cd, hcd, hsome⟩ := World.connOf_eq_some.mp hconn
      refine hstep now ⟨cd, hcd, fun hnone => ?_⟩ le_rfl
      rw [hnone] at hsome
      cases hsome
    · have hpre : ∀ newer e older, log = newer ++ e :: older → ∀ n, ErasedIn n e →
          LongGone n e older := by
        intro newer e older hlog
        exact hkept (_ :: newer) e older (congrArg _ hlog)
      rcases ih hpre he' with hthere | ⟨e, he, hle⟩
      · exact hstep e'.time hthere (htime _ he')
      · exact .inr ⟨e, List.mem_cons_of_mem _ he, hle⟩

/-- **The grace period.** It is kept in a run if and only if no cleanup pass comes upon a user who
was idle for five minutes and has left less than five minutes ago. -/
theorem grace_kept_iff {cfg : Config} {log : List Entry} (h : Timed cfg log) :
    GraceKept log ↔ ∀ newer e older, log = newer ++ e :: older → ¬ Hasty e older := by
  constructor
  · rintro hkept newer e older rfl hhasty
    obtain ⟨cfg', hrun, -⟩ := h.upTo
    obtain ⟨n, c, herased, hc, hlt⟩ := hhasty.erases hrun
    obtain ⟨c', hc', hle⟩ := hkept.erased newer e older rfl n herased
    rw [hc'.unique hc] at hle
    exact absurd hle (not_le.mpr hlt)
  · intro hno
    have herased : ∀ newer e older, log = newer ++ e :: older → ∀ n, ErasedIn n e →
        LongGone n e older := by
      rintro newer e older rfl n herased
      obtain ⟨cfg', hrun, -⟩ := h.upTo
      exact erased_of_not_hasty hrun (hno newer e older rfl) herased
    refine ⟨herased, ?_⟩
    rintro newer e older rfl e' he' n conn hconn hlt
    obtain ⟨cfg', hrun, hworld⟩ := h.upTo
    have hpre : ∀ newer' e₁ older', e :: older = newer' ++ e₁ :: older' → ∀ n, ErasedIn n e₁ →
        LongGone n e₁ older' := by
      intro newer' e₁ older' hlog
      apply herased (newer ++ newer') e₁ older'
      rw [hlog, List.append_assoc]
    rcases hrun.connected hpre he' hconn with ⟨cd, hcd, -⟩ | ⟨e₁, he₁, hle⟩
    · rw [← hworld, hcd]
      rfl
    · have hmax : e₁.time ≤ e.time := by
        rcases List.mem_cons.mp he₁ with rfl | he₁
        · exact le_rfl
        · exact hrun.before.1 e₁ he₁
      exact absurd (hle.trans hmax) (not_le.mpr hlt)

/-- `a` says nothing for six minutes, leaves, and is erased at once. -/
def hastyLeave : List Turn :=
  [.call (.onOpen 1 (ascii "a")), .steps (.handlers 1) 0 40,
    .call (.onClose 1), .steps (.handlers 1) (6 * nanosPerMinute) 40,
    .call (.cleanupPass 0), .steps (.cleanup 0) (6 * nanosPerMinute) 1]

theorem grace_kept_fails : ¬ ∀ cfg log, Timed cfg log → GraceKept log := by
  intro h
  have hclosed : (playAll hastyLeave).2.all fun e => e.time = 6 * nanosPerMinute ||
      (e.before.connOf (ascii "a")).all fun conn => !e.news.contains (.left conn) := by decide +kernel
  have hlast : (playAll hastyLeave).2.head?.any fun e => e.time = 6 * nanosPerMinute &&
      (e.before.connections.lookup (ascii "a")).isSome &&
        (e.after.connections.lookup (ascii "a")).isNone := by decide +kernel
  have hkept := (h _ _ (timed_playAll hastyLeave)).erased []
  generalize (playAll hastyLeave).2 = log at hclosed hlast hkept
  obtain ⟨e, hhead, he⟩ := (Option.any_eq_true _ _).mp hlast
  obtain ⟨older, rfl⟩ := List.head?_eq_some_iff.mp hhead
  simp only [Bool.and_eq_true, decide_eq_true_eq, Option.isNone_iff_eq_none] at he
  obtain ⟨c, hc, hle⟩ := hkept e older rfl (ascii "a") ⟨he.1.2, he.2⟩
  obtain ⟨x, hx, ⟨conn, hleft, hconn⟩, rfl⟩ := hc.mem
  have htime := List.all_eq_true.mp hclosed x (List.mem_cons_of_mem e hx)
  rw [hconn, Option.all_some, List.contains_iff_mem.mpr hleft, Bool.not_true, Bool.or_false,
    decide_eq_true_eq] at htime
  rw [htime, he.1.1] at hle
  exact absurd hle (by decide)

theorem grace_kept_hasty : ∃ cfg log, Timed cfg log ∧ log ≠ [] ∧
    (GraceKept log ↔ ∀ newer e older, log = newer ++ e :: older → ¬ Hasty e older) :=
  ⟨_, _, timed_playAll hastyLeave, by decide +kernel, grace_kept_iff (timed_playAll hastyLeave)⟩

end ChatServer
