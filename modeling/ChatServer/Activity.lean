import ChatServer.Timeline
import Mathlib.Algebra.BigOperators.Group.List.Basic

/-!
# Activity

The stamp `last_active` of a user against what the user has done in the run, and what a monitor
pass makes of it.
-/

open Program

namespace ChatServer

/-! ## The last step of a kind -/

/-- The time of the last step of the log that satisfies `P`. -/
inductive Latest (P : Entry → Prop) : List Entry → TimePoint → Prop
  | here {e : Entry} {log : List Entry} (h : P e) : Latest P (e :: log) e.time
  | older {e : Entry} {log : List Entry} {a : TimePoint} (hno : ¬ P e) (h : Latest P log a) :
      Latest P (e :: log) a

namespace Latest

variable {P : Entry → Prop} {log : List Entry} {a b : TimePoint}

theorem unique (ha : Latest P log a) (hb : Latest P log b) : a = b := by
  induction ha with
  | here h =>
    rcases hb with _ | ⟨hno, -⟩
    · rfl
    · exact absurd h hno
  | older hno _ ih =>
    rcases hb with h | ⟨-, hb⟩
    · exact absurd h hno
    · exact ih hb

theorem mem (h : Latest P log a) : ∃ e ∈ log, P e ∧ e.time = a := by
  induction h with
  | here h => exact ⟨_, List.mem_cons_self, h, rfl⟩
  | older _ _ ih =>
    obtain ⟨e, he, h⟩ := ih
    exact ⟨e, List.mem_cons_of_mem _ he, h⟩

end Latest

/-! ## What counts as activity -/

/-- In the step `e`, `on_open` accepts `n`, or a call of `on_message` with a binary frame that is not
empty comes to its first critical section, on the connection of `n`, or `update_status` runs for
`n`. -/
inductive ActiveIn (n : Bytes) (e : Entry) : Prop
  | accepted {conn : Conn} (h : .accepted conn n ∈ e.news)
  | frame {conn : Conn} {opcode : UInt8} {rest : Bytes}
      (hframe : e.arrival = some (.onMessage conn (opcode :: rest) true))
      (hconn : e.before.connOf n = some conn)
  | status {st : UserStatus}
      (hp : Begins (withLock .connectionsMutex (applyStatus n st true)) e.code)

/-- Where a frame arrives, the sender is found and touched. -/
theorem Taken.touches {e : Entry} (h : Taken e) {conn : Conn} {opcode : UInt8} {rest : Bytes}
    (hframe : e.arrival = some (.onMessage conn (opcode :: rest) true)) {n : Bytes}
    (hconn : e.before.connOf n = some conn) : e.after = e.before.touch n := by
  obtain ⟨i, j, -, hheard, hdeed⟩ := h.deed
  obtain ⟨htakes, rfl⟩ := (hheard conn opcode rest).mp hframe
  generalize e.after = w' at hdeed
  cases hdeed with
  | quiet um ms hes hp => exact Bool.noConfusion (hp htakes)
  | nameless ht hp hfind => exact absurd hconn (World.findConn_eq_none.mp hfind n)
  | touch ht hp hfind =>
    rw [h.sound.owned.unique hconn (World.findConn_eq_some hfind).2]

theorem ActiveIn.stamp {e : Entry} {n : Bytes} (h : ActiveIn n e) (ht : Taken e)
    {cd : ConnectionData} (hcd : e.after.connections.lookup n = some cd) :
    cd.lastActive = e.time := by
  obtain ⟨p, hadv⟩ := ht.advance
  have hclock : e.before.steadyClock 0 = e.time := by rw [ht.clock]
  cases h with
  | @accepted conn h =>
    obtain ⟨clientIp, ⟨-, hafter⟩ | ⟨cd', -, -, hafter⟩⟩ := ht.admits h
    · rw [hafter, World.register_connections, AList.lookup_insert, Option.some.injEq] at hcd
      rw [← hcd]
      exact hclock
    · rw [hafter, World.reconnect_connections, Table.lookup_modify_self,
        Option.map_eq_some_iff] at hcd
      obtain ⟨_, -, rfl⟩ := hcd
      exact hclock
  | frame hframe hconn =>
    rw [ht.touches hframe hconn, World.touch_connections, Table.lookup_modify_self,
      Option.map_eq_some_iff] at hcd
    obtain ⟨_, -, rfl⟩ := hcd
    exact hclock
  | @status st hp =>
    have hafter := hp.advance (avoids_applyStatus _ _ _) hadv
    rw [applyStatus_run] at hafter
    cases hold : e.before.connections.lookup n with
    | none =>
      rw [hold] at hafter
      rw [hafter, hold] at hcd
      cases hcd
    | some cd' =>
      rw [hold] at hafter
      rw [hafter, World.setStatus_connections, Table.lookup_modify_self,
        Option.map_eq_some_iff] at hcd
      obtain ⟨_, -, rfl⟩ := hcd
      exact hclock

theorem Taken.stamp_kept {e : Entry} (h : Taken e) {n : Bytes} (hno : ¬ ActiveIn n e)
    {cd' : ConnectionData} (hcd' : e.after.connections.lookup n = some cd') :
    ∃ cd, e.before.connections.lookup n = some cd ∧ cd.lastActive = cd'.lastActive := by
  obtain ⟨i, j, -, hheard, hdeed⟩ := h.deed
  have hnews : ∀ {es : List Event}, e.after.trace = e.before.trace ++ es → ∀ conn,
      .accepted conn n ∉ es := by
    intro es htrace conn hmem
    exact hno (.accepted (Entry.news_eq htrace ▸ hmem))
  -- An entry that is modified, and not by an activity of `n`.
  have hmodify : ∀ {username : Bytes} {f : ConnectionData → ConnectionData} {v : World},
      v.connections = e.before.connections.modify username f →
      v.connections.lookup n = some cd' →
      (n = username → ∀ cd, (f cd).lastActive = cd.lastActive) →
      ∃ cd, e.before.connections.lookup n = some cd ∧ cd.lastActive = cd'.lastActive := by
    intro username f v hv hcd hf
    rw [hv] at hcd
    obtain ⟨cd, hold, ⟨hn, rfl⟩ | rfl⟩ := Table.of_lookup_modify hcd
    · exact ⟨cd, hold, (hf hn cd).symm⟩
    · exact ⟨cd', hold, rfl⟩
  revert hnews
  generalize e.after = w' at hdeed hcd'
  intro hnews
  cases hdeed with
  | quiet | refuse | nameless | storeGeneral | storePrivate | deliver | joined | leave =>
    exact ⟨cd', hcd', rfl⟩
  | touch ht hp hfind =>
    refine hmodify (World.touch_connections _ _) hcd' ?_
    rintro rfl
    have hframe := (hheard _ _ _).mpr ⟨hp, rfl⟩
    exact absurd (.frame hframe (World.findConn_eq_some hfind).2) hno
  | setStatus hp =>
    refine hmodify (World.setStatus_connections _ _ _) hcd' ?_
    rintro rfl
    exact absurd (.status hp) hno
  | @register _ conn username clientIp ht hname hnew =>
    rw [World.register_connections, Table.lookup_insert_eq] at hcd'
    split at hcd'
    · rename_i hn
      exact absurd (hn ▸ List.mem_singleton_self _) (hnews rfl conn)
    · exact ⟨cd', hcd', rfl⟩
  | @reconnect _ conn username cd clientIp ht hname hcd hconn =>
    refine hmodify (World.reconnect_connections _ _ _ _ _) hcd' ?_
    rintro rfl
    exact absurd (List.mem_singleton_self _) (hnews rfl conn)
  | disconnect => exact hmodify (World.disconnect_connections _ _ _ _) hcd' fun _ _ => rfl
  | markIdle =>
    obtain ⟨cd, hcd, ⟨-, rfl⟩ | rfl⟩ := World.of_lookup_markIdle hcd'
    · exact ⟨cd, hcd, rfl⟩
    · exact ⟨cd', hcd, rfl⟩
  | eraseExpired => exact ⟨cd', World.of_lookup_eraseExpired hcd', rfl⟩

/-- **The stamp.** `last_active` is the time of the last activity of the user in the run. -/
theorem Timed.stamp {cfg : Config} {log : List Entry} (h : Timed cfg log) {n : Bytes}
    {cd : ConnectionData} (hcd : cfg.world.connections.lookup n = some cd) :
    Latest (ActiveIn n) log cd.lastActive := by
  induction h generalizing cd with
  | init =>
    rw [Config.init, World.init, AList.lookup_empty] at hcd
    cases hcd
  | call _ _ _ _ ih => exact ih hcd
  | @move cfg log t now p w hrun htime hadv ih =>
    have htaken := (Timed.move t now hrun htime hadv).taken List.mem_cons_self
    by_cases hactive : ActiveIn n ⟨t, cfg.code t, now, cfg.world.atTime now, w, cfg.arrival t⟩
    · rw [hactive.stamp htaken hcd]
      exact .here hactive
    · obtain ⟨cd', hcd', hstamp⟩ := htaken.stamp_kept hactive hcd
      rw [← hstamp]
      exact .older hactive (ih hcd')

/-! ## The monitor -/

theorem le_elapsed_iff {unit k : Int} (hunit : 0 < unit) (hk : 0 < k) (now since : TimePoint) :
    elapsed unit now since ≥ k ↔ k * unit ≤ now - since := by
  unfold elapsed
  constructor
  · intro h
    by_cases hneg : 0 ≤ now - since
    · rw [Int.tdiv_eq_ediv_of_nonneg hneg] at h
      exact (Int.le_ediv_iff_mul_le hunit).mp h
    · have hle : (now - since).tdiv unit ≤ (0 : Int).tdiv unit :=
        Int.tdiv_le_tdiv hunit (not_le.mp hneg).le
      rw [Int.zero_tdiv] at hle
      exact absurd (h.trans hle) (by omega)
  · exact Int.le_tdiv_of_mul_le hunit

/-- `n` is connected and ACTIVO or OCUPADO, and has done nothing for a minute. -/
def Idles (log : List Entry) (w : World) (now : TimePoint) (n : Bytes) : Prop :=
  ∃ cd a, w.connections.lookup n = some cd ∧ cd.conn ≠ none ∧
    (cd.status = .activo ∨ cd.status = .ocupado) ∧
    Latest (ActiveIn n) log a ∧ 60 * nanosPerSecond ≤ now - a

/-- A 54 frame to `c` that says that `n` is INACTIVO. -/
def Event.tellsInactive (c : Conn) (n : Bytes) : Event → Bool
  | .sendBinary conn payload =>
    conn = c && decodeFrame payload = some (.statusChanged n (userStatusToByte .inactivo))
  | _ => false

/-- A monitor pass at `now` takes the world from `w` to `w'`. -/
structure Judged (log : List Entry) (now : TimePoint) (w w' : World) : Prop where
  marks : ∀ n, (w'.statusOf n = some .inactivo ∧ w.statusOf n ≠ some .inactivo) ↔ Idles log w now n
  entry : ∀ n, Idles log w now n → w'.connections.lookup n =
    (w.connections.lookup n).map fun cd => { cd with status := .inactivo }
  others : ∀ n, ¬ Idles log w now n → w'.connections.lookup n = w.connections.lookup n
  stores : w'.lastUserStatus = w.lastUserStatus ∧ w'.chatHistory = w.chatHistory ∧
    w'.generalChatHistory = w.generalChatHistory
  tells : ∀ n c, Idles log w now n → (∃ u, w.connOf u = some c) →
    (outputs w w').countP (Event.tellsInactive c n) = 1
  silent : ∀ e ∈ outputs w w', ∃ n c, Idles log w now n ∧ (∃ u, w.connOf u = some c) ∧
    e.tellsInactive c n

theorem isIdle_iff {now : TimePoint} {cd : ConnectionData} : isIdle now cd ↔ cd.conn ≠ none ∧
    (cd.status = .activo ∨ cd.status = .ocupado) ∧ 60 * nanosPerSecond ≤ now - cd.lastActive := by
  unfold isIdle
  rw [le_elapsed_iff (by decide) (by decide), Option.isSome_iff_ne_none]
  cases cd.status <;> simp

theorem Timed.idles_iff {cfg : Config} {log : List Entry} (h : Timed cfg log) (now : TimePoint)
    (n : Bytes) : Idles log (cfg.world.atTime now) now n ↔
      n ∈ (cfg.world.atTime now).idleUsers now := by
  rw [World.mem_idleUsers]
  constructor
  · rintro ⟨cd, a, hcd, hconn, hst, ha, hle⟩
    refine ⟨cd, hcd, isIdle_iff.mpr ⟨hconn, hst, ?_⟩⟩
    rwa [ha.unique (h.stamp hcd)] at hle
  · rintro ⟨cd, hcd, hidle⟩
    obtain ⟨hconn, hst, hle⟩ := isIdle_iff.mp hidle
    exact ⟨cd, cd.lastActive, hcd, hconn, hst, h.stamp hcd, hle⟩

theorem idleUsers_nodup (w : World) (now : TimePoint) : (w.idleUsers now).Nodup := by
  have hkeys : w.connections.keys.Nodup := w.connections.keys_nodup
  exact hkeys.sublist (List.filter_sublist.map _)

theorem countP_idle {u : Bytes} (hu : ValidName u) (c : Conn) (n : Bytes) {live : List Conn}
    (hlive : live.Nodup) (hc : c ∈ live) :
    (live.map (Event.sendBinary · (statusPayload u .inactivo))).countP (Event.tellsInactive c n) =
      if u = n then 1 else 0 := by
  have hdecode : decodeFrame (statusPayload u .inactivo) =
      some (.statusChanged u (userStatusToByte .inactivo)) :=
    decodeFrame_statusChanged hu.length_lt _
  rw [List.countP_map]
  by_cases hun : u = n
  · subst hun
    have hp : ∀ conn ∈ live, (Event.tellsInactive c u ∘
        (Event.sendBinary · (statusPayload u .inactivo))) conn = (conn == c) := by
      intro conn _
      simp [Event.tellsInactive, hdecode, beq_eq_decide]
    rw [if_pos rfl, List.countP_congr fun conn hconn => by rw [hp conn hconn]]
    exact List.count_eq_one_of_mem hlive hc
  · rw [if_neg hun, List.countP_eq_zero]
    intro conn _
    simp [Event.tellsInactive, hdecode, hun]

theorem countP_flatMap_one {n : Bytes} {users : List Bytes} {f : Bytes → List Event}
    {p : Event → Bool} (hn : n ∈ users) (hnodup : users.Nodup)
    (hf : ∀ u ∈ users, (f u).countP p = if u = n then 1 else 0) : (users.flatMap f).countP p = 1 := by
  have hcount : @List.count Bytes instBEqOfDecidableEq n users = 1 :=
    @List.count_eq_one_of_mem _ instBEqOfDecidableEq _ n users hnodup hn
  rw [List.countP_flatMap, List.sum_map_eq_nsmul_single n, hcount, one_nsmul]
  · exact (hf n hn).trans (if_pos rfl)
  · intro u hne hu
    exact (hf u hu).trans (if_neg hne)

theorem mem_idleFrames {w : World} {users : List Bytes} {e : Event}
    (h : e ∈ users.flatMap fun u => w.live.map (Event.sendBinary · (statusPayload u .inactivo))) :
    ∃ u ∈ users, ∃ c ∈ w.live, e = .sendBinary c (statusPayload u .inactivo) := by
  obtain ⟨u, hu, he⟩ := List.mem_flatMap.mp h
  obtain ⟨c, hc, rfl⟩ := List.mem_map.mp he
  exact ⟨u, hu, c, hc, rfl⟩

/-! ## A monitor pass -/

section Pass

variable {w : World} {now : TimePoint}

theorem monitorPass_lookup (hclock : w.steadyClock 0 = now) (n : Bytes) :
    (monitorPass.run w).2.connections.lookup n = (w.connections.lookup n).map fun cd =>
      if n ∈ w.idleUsers now then { cd with status := .inactivo } else cd := by
  rw [monitorPass_eq, hclock]
  change w.markIdle.connections.lookup n = _
  rw [World.markIdle_connections, Table.lookup_mapVal, hclock]

theorem monitorPass_marked (hclock : w.steadyClock 0 = now) {n : Bytes} (hn : n ∈ w.idleUsers now) :
    (monitorPass.run w).2.connections.lookup n =
      (w.connections.lookup n).map fun cd => { cd with status := .inactivo } := by
  simp only [monitorPass_lookup hclock, if_pos hn]

theorem monitorPass_spared (hclock : w.steadyClock 0 = now) {n : Bytes} (hn : n ∉ w.idleUsers now) :
    (monitorPass.run w).2.connections.lookup n = w.connections.lookup n := by
  simp only [monitorPass_lookup hclock, if_neg hn, Option.map_id']

theorem monitorPass_marks (hclock : w.steadyClock 0 = now) (n : Bytes) :
    ((monitorPass.run w).2.statusOf n = some .inactivo ∧ w.statusOf n ≠ some .inactivo) ↔
      n ∈ w.idleUsers now := by
  unfold World.statusOf
  constructor
  · rintro ⟨hafter, hbefore⟩
    by_contra hn
    rw [monitorPass_spared hclock hn] at hafter
    exact hbefore hafter
  · intro hn
    obtain ⟨cd, hcd, -, hne, -⟩ := World.mem_idleUsers.mp hn
    rw [monitorPass_marked hclock hn, hcd]
    exact ⟨rfl, fun heq => hne (Option.some.inj heq)⟩

theorem monitorPass_outputs (hclock : w.steadyClock 0 = now) :
    outputs w (monitorPass.run w).2 = (w.idleUsers now).flatMap fun u =>
      w.markIdle.live.map (Event.sendBinary · (statusPayload u .inactivo)) := by
  rw [monitorPass_eq, hclock]
  have htrace : (w.markIdle.announceIdle (w.idleUsers now)).trace = w.trace ++
      (w.idleUsers now).flatMap fun u =>
        w.markIdle.live.map (Event.sendBinary · (statusPayload u .inactivo)) := rfl
  rw [outputs_eq htrace, List.filter_eq_self]
  intro e he
  obtain ⟨u, -, c, -, rfl⟩ := mem_idleFrames he
  rfl

theorem mem_live_markIdle (c : Conn) : c ∈ w.markIdle.live ↔ ∃ u, w.connOf u = some c := by
  simp only [World.mem_live, World.connOf_markIdle]

theorem monitorPass_tells (hw : Sound w) (hclock : w.steadyClock 0 = now) {n : Bytes}
    (hn : n ∈ w.idleUsers now) {c : Conn} (hc : ∃ u, w.connOf u = some c) :
    (outputs w (monitorPass.run w).2).countP (Event.tellsInactive c n) = 1 := by
  have hnodup : w.markIdle.live.Nodup := (Effect.markIdle.sound hw).owned.live_nodup
  rw [monitorPass_outputs hclock]
  apply countP_flatMap_one hn (idleUsers_nodup w now)
  intro u hu
  obtain ⟨cd, hcd, -⟩ := World.mem_idleUsers.mp hu
  exact countP_idle (hw.name_of_lookup hcd) c n hnodup ((mem_live_markIdle c).mpr hc)

theorem monitorPass_silent (hw : Sound w) (hclock : w.steadyClock 0 = now) {e : Event}
    (he : e ∈ outputs w (monitorPass.run w).2) : ∃ n c, n ∈ w.idleUsers now ∧
      (∃ u, w.connOf u = some c) ∧ e.tellsInactive c n := by
  rw [monitorPass_outputs hclock] at he
  obtain ⟨u, hu, c, hc, rfl⟩ := mem_idleFrames he
  obtain ⟨cd, hcd, -⟩ := World.mem_idleUsers.mp hu
  have hdecode : decodeFrame (statusPayload u .inactivo) =
      some (.statusChanged u (userStatusToByte .inactivo)) :=
    decodeFrame_statusChanged (hw.name_of_lookup hcd).length_lt _
  refine ⟨u, c, hu, (mem_live_markIdle c).mp hc, ?_⟩
  simp [Event.tellsInactive, hdecode]

end Pass

theorem Timed.judged {cfg : Config} {log : List Entry} (h : Timed cfg log) (now : TimePoint) :
    Judged log now (cfg.world.atTime now) (monitorPass.run (cfg.world.atTime now)).2 := by
  have hidles := h.idles_iff now
  have hsound : Sound (cfg.world.atTime now) := h.sound.atTime now
  have hclock : (cfg.world.atTime now).steadyClock 0 = now := rfl
  refine ⟨?_, ?_, ?_, ⟨by rw [monitorPass_eq]; rfl, by rw [monitorPass_eq]; rfl,
    by rw [monitorPass_eq]; rfl⟩, ?_, ?_⟩
  · intro n
    rw [hidles]
    exact monitorPass_marks hclock n
  · intro n hn
    exact monitorPass_marked hclock ((hidles n).mp hn)
  · intro n hn
    exact monitorPass_spared hclock (mt (hidles n).mpr hn)
  · intro n c hn hc
    exact monitorPass_tells hsound hclock ((hidles n).mp hn) hc
  · intro e he
    obtain ⟨n, c, hn, hc, htells⟩ := monitorPass_silent hsound hclock he
    exact ⟨n, c, (hidles n).mpr hn, hc, htells⟩

/-- **The monitor.** A pass marks those who have done nothing for a minute, and nobody else. It
tells each live connection once of each of them, and changes nothing else. The frames that count
are those of all calls that are over, and of those under way that have come to the mutex. -/
theorem monitor_judges {cfg : Config} {log : List Entry} (h : Timed cfg log) (now : TimePoint) :
    Judged log now (cfg.world.atTime now) (monitorPass.run (cfg.world.atTime now)).2 ∧
      ∀ t conn opcode rest, cfg.code t = .ret () →
        cfg.pending t ≠ some (.onMessage conn (opcode :: rest) true) :=
  ⟨h.judged now, fun _ conn opcode rest hidle => h.arrived hidle conn opcode rest⟩

/-- `a` comes in, and sends a malformed frame half a minute later. -/
def halfMinute : List Turn :=
  [.call (.onOpen 1 (ascii "a")), .steps (.handlers 1) 0 40,
    .call (.onMessage 1 [2] true), .steps (.handlers 1) (30 * nanosPerSecond) 40]

theorem monitor_judges_minute : ∃ cfg log, Timed cfg log ∧
    ¬ Idles log (cfg.world.atTime nanosPerMinute) nanosPerMinute (ascii "a") ∧
    Idles log (cfg.world.atTime (90 * nanosPerSecond)) (90 * nanosPerSecond) (ascii "a") := by
  have hjudged := monitor_judges (timed_playAll halfMinute)
  refine ⟨_, _, timed_playAll halfMinute, ?_, ?_⟩
  · rw [← (hjudged nanosPerMinute).1.marks]
    decide +kernel
  · exact ((hjudged (90 * nanosPerSecond)).1.marks _).mp (by decide +kernel)

end ChatServer
