import ChatServer.Lib.Numeral
import ChatServer.Timeline
import Mathlib.Algebra.Group.Nat.Defs

/-!
# Session identifiers

`generate_uuid` writes the time and then the number of the call, both in hexadecimal and with
nothing in between. As neither ever goes back, no identifier comes twice.
-/

open Program

namespace ChatServer

/-! ## Numerals -/

theorem hexBytes_injective : Function.Injective hexBytes :=
  Numeral.map_toDigits_injective (by decide) (by decide)

theorem length_hexBytes_mono : Monotone fun n => (hexBytes n).length := by
  intro m n hmn
  unfold hexBytes
  simpa only [List.length_map] using Numeral.length_toDigits_mono (by decide) hmn

/-! ## Calls of `generate_uuid` -/

/-- A call of `generate_uuid`: what `std::time` returned, and the identifier. -/
structure Issue where
  time : Int64
  uuid : Bytes

/-- The calls of `generate_uuid` in a process, the last one first. In between anything may happen,
but nothing else writes its counter. -/
inductive Issues : World → List Issue → Prop
  | start {w : World} (hcounter : w.counter = 0) : Issues w []
  | generate {w : World} {issues : List Issue} (h : Issues w issues) :
      Issues (generateUuid.run w).2 (⟨w.time 0, (generateUuid.run w).1⟩ :: issues)
  | other {w w' : World} {issues : List Issue} (h : Issues w issues)
      (hcounter : w'.counter = w.counter) : Issues w' issues

/-- The values in an identifier: the time, and how many calls there were before. -/
def stamps : List Issue → List (Nat × Nat)
  | [] => []
  | i :: older => (i.time.toUInt64.toNat, older.length) :: stamps older

theorem Issues.counter {w : World} {issues : List Issue} (h : Issues w issues) :
    w.counter = Int32.ofNat issues.length := by
  induction h with
  | start hcounter => exact hcounter
  | @generate w issues _ ih =>
    change w.counter + 1 = _
    rw [ih, List.length_cons, Int32.ofNat_add]
    rfl
  | other _ hcounter ih => exact hcounter.trans ih

/-- Each identifier is the hexadecimal time and the hexadecimal counter. -/
theorem Issues.uuids_eq {w : World} {issues : List Issue} (h : Issues w issues)
    (hfew : issues.length < 2 ^ 31) :
    issues.map Issue.uuid = (stamps issues).map fun p => hexBytes p.1 ++ hexBytes p.2 := by
  induction h with
  | start => rfl
  | @generate w issues h ih =>
    rw [List.length_cons] at hfew
    have hcounter : w.counter.toUInt32.toNat = issues.length := by
      rw [h.counter, Int32.toUInt32_ofNat', UInt32.toNat_ofNat_of_lt']
      exact Nat.lt_trans (by omega) (by decide : 2 ^ 31 < UInt32.size)
    rw [List.map_cons, stamps, List.map_cons, ih (by omega), ← hcounter]
    rfl
  | other _ _ ih => exact ih hfew

theorem mem_stamps {issues : List Issue} {p : Nat × Nat} (h : p ∈ stamps issues) :
    (∃ i ∈ issues, p.1 = i.time.toUInt64.toNat) ∧ p.2 < issues.length := by
  induction issues with
  | nil => cases h
  | cons i older ih =>
    rcases List.mem_cons.mp h with rfl | h
    · exact ⟨⟨i, List.mem_cons_self, rfl⟩, Nat.lt_succ_self _⟩
    · obtain ⟨⟨i', hi', hp⟩, hlt⟩ := ih h
      exact ⟨⟨i', List.mem_cons_of_mem i hi', hp⟩, Nat.lt_succ_of_lt hlt⟩

/-- The clock shows positive times and never goes back. -/
def Steady (issues : List Issue) : Prop :=
  (∀ i ∈ issues, 0 < i.time) ∧ issues.Pairwise fun later earlier => earlier.time ≤ later.time

theorem Steady.stamps {issues : List Issue} (h : Steady issues) :
    (stamps issues).Pairwise fun p q => q.1 ≤ p.1 ∧ q.2 < p.2 := by
  obtain ⟨hpos, hle⟩ := h
  induction issues with
  | nil => exact .nil
  | cons i older ih =>
    obtain ⟨hi, holder⟩ := List.pairwise_cons.mp hle
    refine List.pairwise_cons.mpr ⟨?_, ih (fun i' hi' => hpos i' (List.mem_cons_of_mem i hi')) holder⟩
    intro p hp
    obtain ⟨⟨i', hi', htime⟩, hlt⟩ := mem_stamps hp
    refine ⟨?_, hlt⟩
    rw [htime]
    have hpos' : 0 < i'.time := hpos i' (List.mem_cons_of_mem i hi')
    exact Int64.toUInt64_le (Int64.le_of_lt hpos') (hi i' hi')

theorem Issues.nodup {w : World} {issues : List Issue} (h : Issues w issues)
    (hfew : issues.length < 2 ^ 31) (hsteady : Steady issues) : (issues.map Issue.uuid).Nodup := by
  rw [h.uuids_eq hfew]
  exact Numeral.nodup_append length_hexBytes_mono length_hexBytes_mono hexBytes_injective hsteady.stamps

/-- **Session identifiers.** Each of fewer than 2 ^ 31 identifiers is the hexadecimal time and the
hexadecimal counter, and all of them are different if the clock never goes back. -/
theorem uuids_distinct {w : World} {issues : List Issue} (h : Issues w issues)
    (hfew : issues.length < 2 ^ 31) (hsteady : Steady issues) :
    (issues.map Issue.uuid = (stamps issues).map fun p => hexBytes p.1 ++ hexBytes p.2) ∧
      (issues.map Issue.uuid).Nodup :=
  ⟨h.uuids_eq hfew, h.nodup hfew hsteady⟩

/-- The time gets one digit more after the first call. -/
theorem uuids_distinct_three : ∃ w issues, Issues w issues ∧
    issues.map Issue.uuid = [ascii "1012", ascii "1001", ascii "ff0"] ∧
    (issues.map Issue.uuid).Nodup := by
  have h : Issues (.init (fun _ => 0) (fun k => 255 + Int64.ofNat k) fun _ => []) [] := .start rfl
  have hsteady : Steady [⟨257, ascii "1012"⟩, ⟨256, ascii "1001"⟩, ⟨255, ascii "ff0"⟩] := by
    constructor <;> decide
  exact ⟨_, _, h.generate.generate.generate, by decide,
    (uuids_distinct h.generate.generate.generate (by decide) hsteady).2⟩

/-! ## The server -/

/-- What a deed does to the counter and to the identifiers in the table. -/
inductive SessionDeed (w w' : World) : Prop
  | other (es : List Event) (htrace : w'.trace = w.trace ++ es) (hcounter : w'.counter = w.counter)
      (hold : ∀ c n, .accepted c n ∈ es → w.connections.lookup n ≠ none)
      (hkept : ∀ n cd', w'.connections.lookup n = some cd' →
        ∃ cd, w.connections.lookup n = some cd ∧ cd.uuid = cd'.uuid)
  | register (conn : Conn) (username clientIp : Bytes) (hnew : w.connections.lookup username = none)
      (hw' : w' = w.register conn username clientIp)

theorem Deed.session {t : Thread} {w w' : World} {α : Type} {i j : Stage} {p : Prog α}
    (h : Deed t w i p j w') : SessionDeed w w' := by
  have hmodify : ∀ {v : World} {username : Bytes} {f : ConnectionData → ConnectionData},
      v.connections = w.connections.modify username f → (∀ cd, (f cd).uuid = cd.uuid) →
      ∀ n cd', v.connections.lookup n = some cd' →
        ∃ cd, w.connections.lookup n = some cd ∧ cd.uuid = cd'.uuid := by
    intro v username f hv hf n cd' hcd'
    rw [hv] at hcd'
    obtain ⟨cd, hcd, ⟨-, rfl⟩ | rfl⟩ := Table.of_lookup_modify hcd'
    · exact ⟨cd, hcd, (hf cd).symm⟩
    · exact ⟨cd', hcd, rfl⟩
  have hsame : ∀ n cd', w.connections.lookup n = some cd' →
      ∃ cd, w.connections.lookup n = some cd ∧ cd.uuid = cd'.uuid := fun n cd' hcd' => ⟨cd', hcd', rfl⟩
  cases h with
  | @quiet _ _ es um ms hes hp =>
    refine .other es rfl rfl (fun c n hmem => ?_) hsame
    cases hes _ hmem
  | @refuse _ conn es ht hes =>
    refine .other es rfl rfl (fun c n hmem => ?_) hsame
    rcases hes _ hmem with ⟨_, heq⟩ | ⟨_, heq⟩ <;> cases heq
  | nameless => exact .other [] (List.append_nil _).symm rfl (by simp) hsame
  | touch => exact .other [] (List.append_nil _).symm rfl (by simp) (hmodify rfl fun _ => rfl)
  | setStatus => exact .other [] (List.append_nil _).symm rfl (by simp) (hmodify rfl fun _ => rfl)
  | storeGeneral | storePrivate | leave => exact .other _ rfl rfl (by simp) hsame
  | deliver _ conns | joined conns =>
    refine .other _ rfl rfl (fun c n hmem => ?_) hsame
    obtain ⟨_, -, heq⟩ := List.mem_map.mp hmem
    cases heq
  | @register _ conn username clientIp ht hname hnew => exact .register conn username clientIp hnew rfl
  | @reconnect _ conn username cd clientIp ht hname hcd hconn =>
    refine .other _ rfl rfl (fun c n hmem => ?_) (hmodify rfl fun _ => rfl)
    obtain ⟨-, rfl⟩ := Event.accepted.inj (List.mem_singleton.mp hmem)
    rw [hcd]
    simp
  | disconnect => exact .other _ rfl rfl (by simp) (hmodify rfl fun _ => rfl)
  | markIdle =>
    refine .other [] (List.append_nil _).symm rfl (by simp) fun n cd' hcd' => ?_
    obtain ⟨cd, hcd, ⟨-, rfl⟩ | rfl⟩ := World.of_lookup_markIdle hcd'
    · exact ⟨cd, hcd, rfl⟩
    · exact ⟨cd', hcd, rfl⟩
  | eraseExpired =>
    refine .other [] (List.append_nil _).symm rfl (by simp) fun n cd' hcd' => ?_
    exact ⟨cd', World.of_lookup_eraseExpired hcd', rfl⟩

/-- The user that the step adds to the table, and its identifier. -/
def Entry.issue (e : Entry) : Option (Bytes × Issue) :=
  e.news.findSome? fun
    | .accepted _ n =>
      if e.before.connections.lookup n = none then
        (e.after.connections.lookup n).map fun cd => (n, ⟨e.before.time 0, cd.uuid⟩)
      else none
    | _ => none

def issued (log : List Entry) : List (Bytes × Issue) := log.filterMap Entry.issue

theorem issue_register {e : Entry} {conn : Conn} {username clientIp : Bytes}
    (hnew : e.before.connections.lookup username = none)
    (hafter : e.after = e.before.register conn username clientIp) :
    e.issue = some (username, ⟨e.before.time 0, (generateUuid.run e.before).1⟩) := by
  have hnews : e.news = [.accepted conn username] := Entry.news_eq (by rw [hafter]; rfl)
  unfold Entry.issue
  rw [hnews, hafter]
  simp only [List.findSome?_cons, if_pos hnew, World.register_connections, AList.lookup_insert,
    Option.map_some]
  rfl

theorem issue_other {e : Entry} {es : List Event} (htrace : e.after.trace = e.before.trace ++ es)
    (hold : ∀ c n, .accepted c n ∈ es → e.before.connections.lookup n ≠ none) : e.issue = none := by
  unfold Entry.issue
  rw [Entry.news_eq htrace, List.findSome?_eq_none_iff]
  intro ev hev
  cases ev with
  | accepted c n => exact if_neg (hold c n hev)
  | _ => rfl

/-- The run makes its identifiers by calls of `generate_uuid`, and the entries have theirs from it. -/
structure Identified (w : World) (log : List Entry) : Prop where
  issues : Issues w ((issued log).map (·.2))
  holders : ∀ n cd, w.connections.lookup n = some cd → ∃ i, (n, i) ∈ issued log ∧ i.uuid = cd.uuid

theorem Identified.move {w : World} {log : List Entry} (h : Identified w log) {e : Entry}
    {now : TimePoint} (hbefore : e.before = w.atTime now) (hdeed : SessionDeed e.before e.after) :
    Identified e.after (e :: log) := by
  have hissues : Issues e.before ((issued log).map (·.2)) := h.issues.other (by rw [hbefore]; rfl)
  have hholders : ∀ n cd, e.before.connections.lookup n = some cd →
      ∃ i, (n, i) ∈ issued log ∧ i.uuid = cd.uuid := by
    intro n cd hcd
    rw [hbefore] at hcd
    exact h.holders n cd hcd
  cases hdeed with
  | other es htrace hcounter hold hkept =>
    have hissued : issued (e :: log) = issued log := List.filterMap_cons_none (issue_other htrace hold)
    refine ⟨?_, fun n cd' hcd' => ?_⟩
    · rw [hissued]
      exact hissues.other hcounter
    · obtain ⟨cd, hcd, huuid⟩ := hkept n cd' hcd'
      rw [hissued, ← huuid]
      exact hholders n cd hcd
  | register conn username clientIp hnew hafter =>
    have hissued : issued (e :: log) =
        (username, ⟨e.before.time 0, (generateUuid.run e.before).1⟩) :: issued log :=
      List.filterMap_cons_some (issue_register hnew hafter)
    refine ⟨?_, fun n cd hcd => ?_⟩
    · rw [hissued, hafter]
      exact hissues.generate.other rfl
    · rw [hafter, World.register_connections, Table.lookup_insert_eq] at hcd
      rw [hissued]
      split at hcd
      · rename_i hn
        obtain rfl := Option.some.inj hcd
        rw [hn]
        exact ⟨_, List.mem_cons_self, rfl⟩
      · obtain ⟨i, hi, huuid⟩ := hholders n cd hcd
        exact ⟨i, List.mem_cons_of_mem _ hi, huuid⟩

theorem Timed.identified {cfg : Config} {log : List Entry} (h : Timed cfg log) :
    Identified cfg.world log := by
  have hmove : KeptByDeeds fun _ w log => Identified w log := by
    intro stage w log t now code j w' arrival _ _ _ hJ hdeed
    exact hJ.move (e := ⟨t, code, now, w.atTime now, w', arrival⟩) rfl hdeed.session
  have hinit : ∀ clock time ip, Identified (.init clock time ip) [] := by
    refine fun clock time ip => ⟨.start rfl, fun n cd hcd => ?_⟩
    rw [World.init, AList.lookup_empty] at hcd
    cases hcd
  obtain ⟨stage, -, hJ⟩ := h.always hinit (fun _ _ _ _ hJ => hJ) hmove
  exact hJ

/-- **Sessions.** No two sessions of a run have the same identifier, whether they are over or not. -/
theorem sessions_distinct {cfg : Config} {log : List Entry} (h : Timed cfg log)
    (hfew : (issued log).length < 2 ^ 31) (hsteady : Steady ((issued log).map (·.2))) :
    ((issued log).map (·.2.uuid)).Nodup ∧ ∀ n n' cd cd', cfg.world.connections.lookup n = some cd →
      cfg.world.connections.lookup n' = some cd' → cd.uuid = cd'.uuid → n = n' := by
  have hnodup : ((issued log).map (·.2.uuid)).Nodup := by
    have hissues := h.identified.issues.nodup (by rwa [List.length_map]) hsteady
    rwa [List.map_map] at hissues
  refine ⟨hnodup, fun n n' cd cd' hcd hcd' huuid => ?_⟩
  obtain ⟨i, hi, hcd⟩ := h.identified.holders n cd hcd
  obtain ⟨i', hi', hcd'⟩ := h.identified.holders n' cd' hcd'
  have heq := List.inj_on_of_nodup_map hnodup hi hi' (hcd.trans (huuid.trans hcd'.symm))
  exact congrArg Prod.fst heq

theorem Timed.plays {run : Config × List Entry} (h : Timed run.1 run.2) (turns : List Turn) :
    Timed (turns.foldl ChatServer.play run).1 (turns.foldl ChatServer.play run).2 := by
  induction turns generalizing run with
  | nil => exact h
  | cons turn turns ih => exact ih (h.play turn)

/-- `a` and `b` come in. Each reading of `std::time` shows one second more. -/
def comeIn : Config × List Entry :=
  [Turn.call (.onOpen 1 (ascii "a")), .steps (.handlers 1) 0 40,
    .call (.onOpen 2 (ascii "b")), .steps (.handlers 2) 0 40].foldl play
      (.init (.init (fun _ => 0) (fun k => 255 + Int64.ofNat k) fun _ => []), [])

theorem sessions_distinct_two : ∃ cfg log, Timed cfg log ∧
    (issued log).map (·.2.uuid) = [ascii "1001", ascii "ff0"] ∧
      ((issued log).map (·.2.uuid)).Nodup := by
  have h : Timed comeIn.1 comeIn.2 := Timed.plays (.init _ _ _) _
  have hsteady : Steady ((issued comeIn.2).map (·.2)) := by
    constructor <;> decide +kernel
  exact ⟨_, _, h, by decide +kernel, (sessions_distinct h (by decide +kernel) hsteady).1⟩

end ChatServer
