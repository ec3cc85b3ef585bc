import ChatServer.Deeds
import Mathlib.Logic.Function.Iterate

/-!
# Timed runs

A run in which each step has a time, which never goes back, and the log of its steps. All
readings of the clock in one step show its time.
-/

open Program

namespace ChatServer

/-! ## Logs -/

/-- The world when the clock shows `now`. -/
def World.atTime (w : World) (now : TimePoint) : World := { w with steadyClock := fun _ => now }

/-- A step of a thread, with the code that the thread had still to run before it. -/
structure Entry where
  thread : Thread
  code : Prog Unit
  time : TimePoint
  before : World
  after : World
  /-- The call that comes to its first critical section in this step. -/
  arrival : Option Call

/-- The call that the next step of `t` takes to its first critical section. -/
def Config.arrival (cfg : Config) (t : Thread) : Option Call :=
  if (cfg.code t).takes .connectionsMutex then cfg.pending t else none

/-- What the server did in the step. -/
def Entry.news (e : Entry) : List Event := e.after.trace.drop e.before.trace.length

/-- A timed run, and its steps, the last one first. -/
inductive Timed : Config → List Entry → Prop
  | init (steadyClock : Nat → TimePoint) (time : Nat → Int64) (remoteIp : Conn → Bytes) :
      Timed (.init (.init steadyClock time remoteIp)) []
  | call {cfg : Config} {log : List Entry} (c : Call) (h : Timed cfg log)
      (hidle : cfg.code c.thread = .ret ()) (hallowed : cfg.allows c) : Timed (cfg.call c) log
  | move {cfg : Config} {log : List Entry} (t : Thread) (now : TimePoint) {p : Prog Unit}
      {w : World} (h : Timed cfg log) (htime : ∀ e ∈ log, e.time ≤ now)
      (hadv : advance .connectionsMutex (cfg.code t) (cfg.world.atTime now) = some (p, w)) :
      Timed (cfg.move t p w)
        (⟨t, cfg.code t, now, cfg.world.atTime now, w, cfg.arrival t⟩ :: log)

theorem Entry.news_eq {e : Entry} {es : List Event} (h : e.after.trace = e.before.trace ++ es) :
    e.news = es := by
  unfold news
  rw [h, List.drop_left]

/-! ## The time of a step -/

theorem Sound.atTime {w : World} (hw : Sound w) (now : TimePoint) : Sound (w.atTime now) :=
  ⟨hw.names, hw.owned, hw.chats, hw.general, hw.frames, hw.testing⟩

def Config.atTime (cfg : Config) (now : TimePoint) : Config :=
  { cfg with world := cfg.world.atTime now }

theorem Orderly.atTime {cfg : Config} (h : Orderly cfg) (now : TimePoint) :
    Orderly (cfg.atTime now) where
  sound := h.sound.atTime now
  keeps t := (h.keeps t).stable fun _ _ => rfl

theorem Timed.orderly {cfg : Config} {log : List Entry} (h : Timed cfg log) : Orderly cfg := by
  induction h with
  | init clock time ip => exact .init clock time ip
  | call c _ hidle hallowed ih => exact ih.call hidle hallowed
  | move t now _ _ hadv ih => exact ((ih.atTime now).move hadv).1

theorem Timed.sound {cfg : Config} {log : List Entry} (h : Timed cfg log) : Sound cfg.world :=
  h.orderly.sound

/-! ## What threads know -/

theorem Knows.stable {t : Thread} {w w' : World} {i : Stage} (h : Knows t w i)
    (hsession : ∀ conn, t = .handlers conn → w'.session conn = w.session conn)
    (hentries : ∀ chat, w.entries chat <+: w'.entries chat) : Knows t w' i := by
  cases i with
  | calm | heard => trivial
  | welcome username st => exact h
  | acting sender =>
    obtain ⟨conn, ht, hconn⟩ := h
    refine ⟨conn, ht, ?_⟩
    unfold Free at hconn ⊢
    rwa [hsession conn ht]
  | stored chat index sender msg =>
    obtain ⟨rest, hrest⟩ := hentries chat
    change (w.entries chat)[index]? = _ at h
    have hlt : index < (w.entries chat).length := (List.getElem?_eq_some_iff.mp h).1
    change (w'.entries chat)[index]? = _
    rw [← hrest, List.getElem?_append_left hlt, h]

theorem Knows.atTime {t : Thread} {w : World} {i : Stage} (h : Knows t w i) (now : TimePoint) :
    Knows t (w.atTime now) i :=
  h.stable (fun _ _ => rfl) fun chat => by cases chat <;> exact List.prefix_rfl

theorem Effect.entries_isPrefix {w w' : World} (h : Effect w w') (chat : Chat) :
    w.entries chat <+: w'.entries chat := by
  obtain ⟨es, -, hentries⟩ := h.entries
  rw [hentries]
  exact List.prefix_append _ _

theorem session_quiet {w : World} {es : List Event} (h : ∀ e ∈ es, IsQuiet e) (conn : Conn) :
    (w.emits es).session conn = w.session conn := by
  rw [World.session_emits]
  induction es with
  | nil => rfl
  | cons e es ih =>
    have he := h e List.mem_cons_self
    rw [List.foldl_cons]
    cases e with
    | sendBinary | sendText => exact ih fun e' he' => h e' (List.mem_cons_of_mem _ he')
    | _ => cases he

theorem Deed.knows {t : Thread} {w w' : World} {α : Type} {i j : Stage} {p : Prog α}
    (h : Deed t w i p j w') (hw : Sound w) (hi : Knows t w i) : Knows t w' j := by
  cases h with
  | quiet um ms hes hp =>
    apply hi.stable (fun conn _ => session_quiet hes conn)
    intro chat
    cases chat <;> exact List.prefix_rfl
  | @nameless _ conn _ _ ht hp hfind =>
    refine ⟨conn, ht, .inr ⟨rfl, fun n hn => ?_⟩⟩
    exact World.findConn_eq_none.mp hfind n ((hw.owned n conn).mpr hn)
  | @touch _ conn _ _ e ht hp hfind =>
    exact ⟨conn, ht, .inl ((hw.owned _ _).mp (World.findConn_eq_some hfind).2)⟩
  | setStatus => exact hi
  | storeGeneral =>
    change (World.entries _ .general)[_]? = _
    rw [entries_storeGeneral, if_pos rfl]
    exact List.getElem?_concat_length
  | storePrivate =>
    change (World.entries _ (.keyed _))[_]? = _
    rw [entries_storePrivate, if_pos rfl]
    exact List.getElem?_concat_length
  | register clientIp ht hname => exact hname
  | reconnect clientIp ht hname => exact hname
  | _ => trivial

/-! ## Stages along a run -/

theorem Call.stage_cases (c : Call) : c.stage = .calm ∨ c.stage.isHeard = true := by
  unfold Call.stage
  split
  · exact .inr rfl
  · exact .inl rfl

theorem Call.stage_eq_heard {c : Call} {conn : Conn} {opcode : UInt8} {rest : Bytes} :
    c.stage = .heard conn opcode rest ↔ c = .onMessage conn (opcode :: rest) true := by
  unfold Call.stage
  split
  · simp
  · rename_i hno
    simp only [reduceCtorEq, false_iff]
    exact hno conn opcode rest

theorem stage_of_called {stage : Thread → Stage} {c : Call} {u : Thread} {i : Stage}
    (h : Function.update stage c.thread c.stage u = i) (hi : i ≠ .calm)
    (hheard : i.isHeard = false) : stage u = i := by
  by_cases hu : u = c.thread
  · subst hu
    rw [Function.update_self] at h
    rcases c.stage_cases with hc | hc
    · exact absurd (h.symm.trans hc) hi
    · rw [h, hheard] at hc
      cases hc
  · rwa [Function.update_of_ne hu] at h

/-- The code of each thread keeps to its script from its stage on. -/
structure Staged (cfg : Config) (stage : Thread → Stage) : Prop where
  acts : ∀ t, Acts t (fun _ j => j.isHeard = false) (cfg.code t) (stage t)
  knows : ∀ t, Knows t cfg.world (stage t)
  heard : ∀ t conn opcode rest, stage t = .heard conn opcode rest ↔
    cfg.pending t = some (.onMessage conn (opcode :: rest) true)

theorem Staged.call {cfg : Config} {stage : Thread → Stage} (h : Staged cfg stage) (c : Call) :
    Staged (cfg.call c) (Function.update stage c.thread c.stage) where
  acts t := by
    by_cases ht : t = c.thread
    · subst ht
      simpa only [Config.call, Function.update_self] using acts_call c
    · simpa only [Config.call, Function.update_of_ne ht] using h.acts t
  knows t := by
    by_cases ht : t = c.thread
    · subst ht
      rw [Function.update_self]
      rcases c.stage_cases with hc | hc
      · rw [hc]
        trivial
      · cases hstage : c.stage <;> simp [hstage, Stage.isHeard] at hc
        trivial
    · rw [Function.update_of_ne ht]
      exact h.knows t
  heard t conn opcode rest := by
    by_cases ht : t = c.thread
    · subst ht
      simpa only [Config.call, Function.update_self, Option.some.injEq] using Call.stage_eq_heard
    · simpa only [Config.call, Function.update_of_ne ht] using h.heard t conn opcode rest

theorem Staged.heard_move {cfg : Config} {stage : Thread → Stage} (h : Staged cfg stage)
    {t : Thread} {v w : World} {j : Stage} {p : Prog Unit}
    (hdeed : Deed t v (stage t) (cfg.code t) j w) (u : Thread) (conn : Conn) (opcode : UInt8)
    (rest : Bytes) : Function.update stage t j u = .heard conn opcode rest ↔
      (cfg.move t p w).pending u = some (.onMessage conn (opcode :: rest) true) := by
  have hiff := hdeed.heard_iff conn opcode rest
  rw [h.heard] at hiff
  by_cases hu : u = t
  · subst hu
    rw [Function.update_self, hiff]
    cases htakes : (cfg.code u).takes .connectionsMutex <;> simp [Config.move, htakes]
  · rw [Function.update_of_ne hu, h.heard]
    cases htakes : (cfg.code t).takes .connectionsMutex <;> simp [Config.move, htakes, hu]

theorem Staged.move {cfg : Config} {stage : Thread → Stage} (h : Staged cfg stage)
    (horderly : Orderly cfg) {t : Thread} {now : TimePoint} {p : Prog Unit} {w : World}
    (hadv : advance .connectionsMutex (cfg.code t) (cfg.world.atTime now) = some (p, w)) :
    ∃ j, Deed t (cfg.world.atTime now) (stage t) (cfg.code t) j w ∧
      Staged (cfg.move t p w) (Function.update stage t j) := by
  have hknows : ∀ u, Knows u (cfg.world.atTime now) (stage u) :=
    fun u => (h.knows u).atTime now
  have hsound : Sound (cfg.world.atTime now) := horderly.sound.atTime now
  obtain ⟨-, heff, hrely, -⟩ := (horderly.atTime now).move hadv
  obtain ⟨j, hdeed, hacts⟩ := (h.acts t).advance ⟨hsound, hknows t⟩ hadv
  refine ⟨j, hdeed, ?_, ?_, h.heard_move hdeed⟩
  · intro u
    by_cases hu : u = t
    · subst hu
      simpa only [Config.move, Function.update_self] using hacts
    · simpa only [Config.move, Function.update_of_ne hu] using h.acts u
  · intro u
    by_cases hu : u = t
    · subst hu
      rw [Function.update_self]
      exact hdeed.knows hsound (hknows u)
    · rw [Function.update_of_ne hu]
      refine (hknows u).stable ?_ heff.entries_isPrefix
      rintro conn rfl
      apply hrely conn
      intro hmem
      cases t with
      | handlers c => exact hu (congrArg Thread.handlers hmem)
      | monitor | cleanup => exact hmem

/-- What the step of a thread keeps, whichever of its deeds the step is. -/
def KeptByDeeds (J : (Thread → Stage) → World → List Entry → Prop) : Prop :=
  ∀ ⦃stage w log t now code j w' arrival⦄, Sound w → Knows t w (stage t) →
    (∀ e ∈ log, e.time ≤ now) → J stage w log → Deed t (w.atTime now) (stage t) code j w' →
    J (Function.update stage t j) w' (⟨t, code, now, w.atTime now, w', arrival⟩ :: log)

/-- **Timed runs.** What holds at the start and what each deed keeps holds always. -/
theorem Timed.always {J : (Thread → Stage) → World → List Entry → Prop} {cfg : Config}
    {log : List Entry} (h : Timed cfg log)
    (hinit : ∀ steadyClock time remoteIp, J (fun _ => .calm) (.init steadyClock time remoteIp) [])
    (hcall : ∀ stage w log (c : Call), J stage w log →
      J (Function.update stage c.thread c.stage) w log)
    (hmove : KeptByDeeds J) : ∃ stage, Staged cfg stage ∧ J stage cfg.world log := by
  induction h with
  | init clock time ip =>
    exact ⟨fun _ => .calm, ⟨fun t => .ret rfl, fun t => trivial, fun _ _ _ _ => by simp [Config.init]⟩,
      hinit clock time ip⟩
  | call c _ _ _ ih =>
    obtain ⟨stage, hstaged, hJ⟩ := ih
    exact ⟨_, hstaged.call c, hcall _ _ _ _ hJ⟩
  | move t now hrun htime hadv ih =>
    obtain ⟨stage, hstaged, hJ⟩ := ih
    obtain ⟨j, hdeed, hnext⟩ := hstaged.move hrun.orderly hadv
    exact ⟨_, hnext, hmove hrun.sound (hstaged.knows t) htime hJ hdeed⟩

/-- A step that is in the log. -/
structure Taken (e : Entry) : Prop where
  sound : Sound e.before
  clock : e.before.steadyClock = fun _ => e.time
  advance : ∃ p, advance .connectionsMutex e.code e.before = some (p, e.after)
  deed : ∃ i j, Knows e.thread e.before i ∧
    (∀ conn opcode rest, e.arrival = some (.onMessage conn (opcode :: rest) true) ↔
      e.code.takes .connectionsMutex ∧ i = .heard conn opcode rest) ∧
    Deed e.thread e.before i e.code j e.after

theorem Timed.staged {cfg : Config} {log : List Entry} (h : Timed cfg log) :
    ∃ stage, Staged cfg stage := by
  obtain ⟨stage, hstaged, -⟩ := h.always (J := fun _ _ _ => True) (fun _ _ _ => trivial)
    (fun _ _ _ _ _ => trivial) fun _ _ _ _ _ _ _ _ _ _ _ _ _ _ => trivial
  exact ⟨stage, hstaged⟩

/-- Each frame whose call is over has come to its critical section. -/
theorem Timed.arrived {cfg : Config} {log : List Entry} (h : Timed cfg log) {t : Thread}
    (hidle : cfg.code t = .ret ()) (conn : Conn) (opcode : UInt8) (rest : Bytes) :
    cfg.pending t ≠ some (.onMessage conn (opcode :: rest) true) := by
  obtain ⟨stage, hstaged⟩ := h.staged
  intro hpending
  have hheard := (hstaged.heard t conn opcode rest).mpr hpending
  have hend : (stage t).isHeard = false := (hidle ▸ hstaged.acts t).done
  rw [hheard] at hend
  cases hend

theorem Timed.taken {cfg : Config} {log : List Entry} (h : Timed cfg log) {e : Entry}
    (he : e ∈ log) : Taken e := by
  induction h with
  | init => cases he
  | call _ _ _ _ ih => exact ih he
  | move t now hrun _ hadv ih =>
    rcases List.mem_cons.mp he with rfl | he
    · obtain ⟨stage, hstaged⟩ := hrun.staged
      obtain ⟨j, hdeed, -⟩ := hstaged.move hrun.orderly hadv
      refine ⟨hrun.sound.atTime now, rfl, ⟨_, hadv⟩, _, j, (hstaged.knows t).atTime now, ?_, hdeed⟩
      intro conn opcode rest
      rw [hstaged.heard, Config.arrival, Option.ite_none_right_eq_some]
    · exact ih he

/-- What `on_open` does when it accepts a connection. -/
def Enters (w : World) (conn : Conn) (n : Bytes) (w' : World) : Prop :=
  ∃ clientIp, (w.connections.lookup n = none ∧ w' = w.register conn n clientIp) ∨
    ∃ cd, w.connections.lookup n = some cd ∧ cd.conn = none ∧
      w' = w.reconnect conn n clientIp (World.backStatus cd)

theorem Taken.admits {e : Entry} (h : Taken e) {conn : Conn} {n : Bytes}
    (hmem : .accepted conn n ∈ e.news) : Enters e.before conn n e.after := by
  obtain ⟨i, j, -, -, hdeed⟩ := h.deed
  have hnot : ∀ {es : List Event}, e.after.trace = e.before.trace ++ es → .accepted conn n ∈ es := by
    intro es htrace
    rwa [Entry.news_eq htrace] at hmem
  revert hnot
  generalize e.after = w' at hdeed
  intro hnot
  cases hdeed with
  | quiet um ms hes hp => cases hes _ (hnot rfl)
  | refuse ht hes =>
    rcases hes _ (hnot rfl) with ⟨_, heq⟩ | ⟨_, heq⟩ <;> cases heq
  | nameless | touch | setStatus | markIdle | eraseExpired =>
    exact absurd (@hnot [] (by simp)) (by simp)
  | storeGeneral | storePrivate | leave | disconnect => exact absurd (hnot rfl) (by simp)
  | deliver hp conns | joined conns =>
    obtain ⟨_, -, heq⟩ := List.mem_map.mp (hnot rfl)
    cases heq
  | register clientIp ht hname hnew =>
    obtain ⟨rfl, rfl⟩ := Event.accepted.inj (List.mem_singleton.mp (hnot rfl))
    exact ⟨clientIp, .inl ⟨hnew, rfl⟩⟩
  | reconnect clientIp ht hname hcd hconn =>
    obtain ⟨rfl, rfl⟩ := Event.accepted.inj (List.mem_singleton.mp (hnot rfl))
    exact ⟨clientIp, .inr ⟨_, hcd, hconn, rfl⟩⟩

/-! ## Earlier parts of a run -/

/-- The run up to a step that is in the log. -/
theorem Timed.upTo {cfg : Config} {newer older : List Entry} {e : Entry}
    (h : Timed cfg (newer ++ e :: older)) :
    ∃ cfg', Timed cfg' (e :: older) ∧ cfg'.world = e.after := by
  generalize hlog : newer ++ e :: older = log at h
  induction h generalizing newer with
  | init => simp at hlog
  | call _ _ _ _ ih => exact ih hlog
  | @move cfg log t now p w hrun htime hadv ih =>
    cases newer with
    | nil =>
      rw [List.nil_append] at hlog
      exact ⟨cfg.move t p w, hlog ▸ .move t now hrun htime hadv, (List.cons.inj hlog).1 ▸ rfl⟩
    | cons x newer =>
      rw [List.cons_append] at hlog
      exact ih (List.cons.inj hlog).2

/-- The run before its last step. -/
theorem Timed.before {cfg : Config} {older : List Entry} {e : Entry} (h : Timed cfg (e :: older)) :
    (∀ x ∈ older, x.time ≤ e.time) ∧
      ∃ cfg', Timed cfg' older ∧ e.before = cfg'.world.atTime e.time := by
  generalize hlog : e :: older = log at h
  induction h with
  | init => cases hlog
  | call _ _ _ _ ih => exact ih hlog
  | @move cfg log t now p w hrun htime hadv ih =>
    obtain ⟨rfl, rfl⟩ := List.cons.inj hlog
    exact ⟨htime, cfg, hrun, rfl⟩

/-! ## Schedules -/

/-- What happens next in a schedule: a call begins, or a thread takes `steps` steps at `now`. -/
inductive Turn
  | call (c : Call)
  | steps (t : Thread) (now : TimePoint) (steps : Nat)

def isDone : Prog Unit → Bool
  | .ret _ => true
  | _ => false

/-- A step of `t` at `now`, where it has one. -/
def stepAt (t : Thread) (now : TimePoint) (run : Config × List Entry) : Config × List Entry :=
  match advance .connectionsMutex (run.1.code t) (run.1.world.atTime now) with
  | some (p, w) =>
    if run.2.all fun e => e.time ≤ now then
      (run.1.move t p w,
        ⟨t, run.1.code t, now, run.1.world.atTime now, w, run.1.arrival t⟩ :: run.2)
    else run
  | none => run

def play (run : Config × List Entry) : Turn → Config × List Entry
  | .call c => if isDone (run.1.code c.thread) && run.1.allows c then (run.1.call c, run.2) else run
  | .steps t now steps => (stepAt t now)^[steps] run

theorem Timed.stepAt {run : Config × List Entry} (h : Timed run.1 run.2) (t : Thread)
    (now : TimePoint) : Timed (stepAt t now run).1 (stepAt t now run).2 := by
  unfold ChatServer.stepAt
  split
  · rename_i p w hadv
    split
    · rename_i htime
      refine .move t now h (fun e he => ?_) hadv
      simpa using List.all_eq_true.mp htime e he
    · exact h
  · exact h

theorem Timed.play {run : Config × List Entry} (h : Timed run.1 run.2) (turn : Turn) :
    Timed (play run turn).1 (play run turn).2 := by
  cases turn with
  | call c =>
    unfold ChatServer.play
    dsimp only
    split
    · rename_i hok
      rw [Bool.and_eq_true] at hok
      refine .call c h ?_ hok.2
      cases hcode : run.1.code c.thread with
      | ret a => rfl
      | _ => simp [isDone, hcode] at hok
    · exact h
  | steps t now steps =>
    unfold ChatServer.play
    dsimp only
    induction steps with
    | zero => exact h
    | succ k ih =>
      rw [Function.iterate_succ_apply']
      exact ih.stepAt t now

/-- The run of a schedule from the start. -/
def playAll (turns : List Turn) : Config × List Entry :=
  turns.foldl play (.init (.init (fun _ => 0) (fun _ => 0) fun _ => []), [])

theorem timed_playAll (turns : List Turn) : Timed (playAll turns).1 (playAll turns).2 := by
  suffices ∀ run : Config × List Entry, Timed run.1 run.2 →
      Timed (turns.foldl play run).1 (turns.foldl play run).2 from this _ (.init _ _ _)
  induction turns with
  | nil => exact fun _ h => h
  | cons turn turns ih => exact fun run h => ih _ (h.play turn)

end ChatServer
