import Mathlib.Data.List.Basic
import Mathlib.Logic.Function.Basic

/-!
# The logger

`logger.cpp`: any number of calls of `log`, one worker that runs `processLogs`, and one call of
`stopLogging`, in any interleaving of their steps.
-/

namespace ChatServer

/-! ## Steps -/

/-- Where a call of `log` stands. -/
inductive LogCall
  | away
  | waiting (message : String)
  | holding (line : String)
  /-- The line is in the queue, and the lock is still to be given back. -/
  | leaving (line : String)

/-- Where the worker stands in the loop of `processLogs`. -/
inductive Worker
  | testing
  | locking
  | checking
  | dozing
  | asleep
  | waking
  | draining
  | flushing
  | ended
  deriving DecidableEq

/-- Where the call of `stopLogging` stands. -/
inductive Stopper
  | away
  | notifying
  | done
  deriving DecidableEq

inductive Holder (τ : Type)
  | call (t : τ)
  | worker

structure Logger (τ : Type) where
  logQueue : List String
  running : Bool
  logFile : List String
  queueMutex : Option (Holder τ)
  call : τ → LogCall
  worker : Worker
  stopper : Stopper

namespace Logger

variable {τ : Type}

def start : Logger τ where
  logQueue := []
  running := true
  logFile := []
  queueMutex := none
  call _ := .away
  worker := .testing
  stopper := .away

def logLine (now message : String) : String := "[" ++ now ++ "] " ++ message

/-- `condition.notify_one`: only the worker ever waits. -/
def notified : Worker → Worker
  | .asleep => .waking
  | w => w

inductive Act
  | took (line : String)
  | returned (line : String)
  | stop
  | silent

section Run

variable [DecidableEq τ]

inductive Step (s : Logger τ) : Act → Logger τ → Prop
  /-- `log` is called. -/
  | enter {t : τ} (message : String) (hcall : s.call t = .away) :
      Step s .silent { s with call := Function.update s.call t (.waiting message) }
  | acquire {t : τ} {message : String} (now : String) (hcall : s.call t = .waiting message)
      (hfree : s.queueMutex = none) : Step s (.took (logLine now message)) { s with
        queueMutex := some (.call t)
        call := Function.update s.call t (.holding (logLine now message)) }
  | push {t : τ} {line : String} (hcall : s.call t = .holding line) : Step s .silent { s with
        logQueue := s.logQueue ++ [line]
        call := Function.update s.call t (.leaving line)
        worker := notified s.worker }
  | release {t : τ} {line : String} (hcall : s.call t = .leaving line) : Step s (.returned line) { s with
        queueMutex := none
        call := Function.update s.call t .away }
  | stop (hstop : s.stopper = .away) : Step s .stop { s with running := false, stopper := .notifying }
  | notify (hstop : s.stopper = .notifying) :
      Step s .silent { s with worker := notified s.worker, stopper := .done }
  | test (hworker : s.worker = .testing) :
      Step s .silent { s with worker := if s.running then .locking else .ended }
  | lock (hworker : s.worker = .locking ∨ s.worker = .waking) (hfree : s.queueMutex = none) :
      Step s .silent { s with queueMutex := some .worker, worker := .checking }
  | check (hworker : s.worker = .checking) : Step s .silent { s with
        worker := if s.logQueue ≠ [] ∨ s.running = false then .draining else .dozing }
  | sleep (hworker : s.worker = .dozing) :
      Step s .silent { s with queueMutex := none, worker := .asleep }
  /-- The worker may wake up by itself. -/
  | wake (hworker : s.worker = .asleep) : Step s .silent { s with worker := .waking }
  | write {line : String} {rest : List String} (hworker : s.worker = .draining)
      (hqueue : s.logQueue = line :: rest) :
      Step s .silent { s with logFile := s.logFile ++ [line], logQueue := rest }
  | drained (hworker : s.worker = .draining) (hqueue : s.logQueue = []) :
      Step s .silent { s with worker := .flushing }
  | unlock (hworker : s.worker = .flushing) :
      Step s .silent { s with queueMutex := none, worker := .testing }

/-- A run, and its steps with the states before them, the last one first. -/
inductive Run : Logger τ → List (Logger τ × Act) → Prop
  | start : Run .start []
  | step {s s' : Logger τ} {log : List (Logger τ × Act)} {a : Act} (h : Run s log)
      (hstep : Step s a s') : Run s' ((s, a) :: log)

end Run

/-! ## What was logged -/

/-- The lines of the calls that have taken `queueMutex`, in order. -/
def took : List (Logger τ × Act) → List String
  | [] => []
  | (_, .took line) :: log => took log ++ [line]
  | _ :: log => took log

/-- The lines of the calls that are over, in order. -/
def returned : List (Logger τ × Act) → List String
  | [] => []
  | (_, .returned line) :: log => returned log ++ [line]
  | _ :: log => returned log

/-- The file has no line that was not logged, each one once and in the order of the calls, and no
line is missing whose call was over when `stopLogging` was called. -/
structure LosesNothing (s : Logger τ) (log : List (Logger τ × Act)) : Prop where
  faithful : s.logFile <+: took log
  complete : ∀ newer s₀ older, log = newer ++ (s₀, .stop) :: older → returned older <+: s.logFile

/-! ## The queue, the file and the calls -/

/-- The line of a call that holds the mutex. -/
def inHand : LogCall → List String
  | .holding line | .leaving line => [line]
  | _ => []

/-- The line of a call that holds the mutex, while it is not in the queue. -/
def unpushed : LogCall → List String
  | .holding line => [line]
  | _ => []

/-- What `f` finds in the hand of the call that holds `queueMutex`. -/
def ofHolder (f : LogCall → List String) (s : Logger τ) : List String :=
  match s.queueMutex with
  | some (.call t) => f (s.call t)
  | _ => []

/-- The worker holds `queueMutex`. -/
def holds : Worker → Bool
  | .checking | .dozing | .draining | .flushing => true
  | _ => false

structure Kept (s : Logger τ) (log : List (Logger τ × Act)) : Prop where
  callers : ∀ t, s.queueMutex = some (.call t) ↔ inHand (s.call t) ≠ []
  worker : s.queueMutex = some .worker ↔ holds s.worker
  took_eq : took log = s.logFile ++ s.logQueue ++ s.ofHolder unpushed
  returned_eq : took log = returned log ++ s.ofHolder inHand
  flushed : s.worker = .flushing → s.logQueue = []
  alive : s.stopper = .away → s.running = true ∧ s.worker ≠ .ended

theorem holds_notified (w : Worker) : holds (notified w) = holds w := by cases w <;> rfl

theorem notified_eq_flushing {w : Worker} (h : notified w = .flushing) : w = .flushing := by
  cases w <;> first | rfl | cases h

theorem notified_eq_ended {w : Worker} (h : notified w = .ended) : w = .ended := by
  cases w <;> first | rfl | cases h

namespace Kept

variable {s : Logger τ} {log : List (Logger τ × Act)}

theorem start : Kept (.start : Logger τ) [] where
  callers _ := ⟨nofun, fun h => absurd rfl h⟩
  worker := ⟨nofun, nofun⟩
  took_eq := rfl
  returned_eq := rfl
  flushed := nofun
  alive _ := ⟨rfl, nofun⟩

/-- A step of the worker, or of `stopLogging`, that leaves the mutex and the lines alone. -/
theorem go_on (h : Kept s log) {a : Act} (ha : a = .silent ∨ a = .stop) (running : Bool)
    {w : Worker} (stopper : Stopper) (hw : holds w = holds s.worker)
    (hflushed : w = .flushing → s.logQueue = [])
    (halive : stopper = .away → running = true ∧ w ≠ .ended) :
    Kept { s with running := running, worker := w, stopper := stopper } ((s, a) :: log) where
  callers := h.callers
  worker := by
    change s.queueMutex = some .worker ↔ holds w
    rw [hw]
    exact h.worker
  took_eq := by
    rcases ha with rfl | rfl <;> exact h.took_eq
  returned_eq := by
    rcases ha with rfl | rfl <;> exact h.returned_eq
  flushed := hflushed
  alive := halive

theorem holder (h : Kept s log) {t : τ} (ht : inHand (s.call t) ≠ []) (f : LogCall → List String) :
    s.queueMutex = some (.call t) ∧ s.ofHolder f = f (s.call t) := by
  have hmutex := (h.callers t).mpr ht
  refine ⟨hmutex, ?_⟩
  unfold ofHolder
  rw [hmutex]

theorem not_holds (h : Kept s log) {t : τ} (hmutex : s.queueMutex = some (.call t)) :
    holds s.worker = false := by
  rw [Bool.eq_false_iff]
  intro hw
  rw [h.worker.mpr hw] at hmutex
  cases hmutex

variable [DecidableEq τ]

theorem enter (h : Kept s log) {t : τ} (message : String) (hcall : s.call t = .away) :
    Kept { s with call := Function.update s.call t (.waiting message) } ((s, .silent) :: log) := by
  have hnot : s.queueMutex ≠ some (.call t) := by
    rw [Ne, h.callers, hcall]
    exact fun hne => hne rfl
  have hholder : ∀ f, ofHolder f { s with call := Function.update s.call t (.waiting message) } =
      s.ofHolder f := by
    intro f
    unfold ofHolder
    dsimp only
    split
    · rename_i u hu
      rw [Function.update_of_ne]
      rintro rfl
      exact hnot hu
    · rfl
  refine ⟨fun u => ?_, h.worker, ?_, ?_, h.flushed, h.alive⟩
  · by_cases hut : u = t
    · subst hut
      simp [hnot, inHand]
    · simpa [hut] using h.callers u
  · rw [hholder]
    exact h.took_eq
  · rw [hholder]
    exact h.returned_eq

theorem acquire (h : Kept s log) {t : τ} {line : String} (hfree : s.queueMutex = none) :
    Kept { s with
      queueMutex := some (.call t)
      call := Function.update s.call t (.holding line) } ((s, .took line) :: log) := by
  have hempty : ∀ f, s.ofHolder f = [] := by
    intro f
    unfold ofHolder
    rw [hfree]
  have htaken : ∀ f, ofHolder f { s with
      queueMutex := some (.call t)
      call := Function.update s.call t (.holding line) } = f (.holding line) := by
    intro f
    unfold ofHolder
    simp
  refine ⟨fun u => ?_, ?_, ?_, ?_, h.flushed, h.alive⟩
  · by_cases hut : u = t
    · subst hut
      simp [inHand]
    · have hu := h.callers u
      rw [hfree] at hu
      simpa [hut, Ne.symm hut] using hu
  · have hw := h.worker
    rw [hfree] at hw
    simpa using hw
  · rw [htaken, took, h.took_eq, hempty, List.append_nil]
    rfl
  · rw [htaken, took, h.returned_eq, hempty, List.append_nil]
    rfl

theorem push (h : Kept s log) {t : τ} {line : String} (hcall : s.call t = .holding line) :
    Kept { s with
      logQueue := s.logQueue ++ [line]
      call := Function.update s.call t (.leaving line)
      worker := notified s.worker } ((s, .silent) :: log) := by
  have hhand : inHand (s.call t) ≠ [] := by
    rw [hcall]
    exact List.cons_ne_nil _ _
  have hmutex := (h.callers t).mpr hhand
  have hpushed : ∀ f, ofHolder f { s with
      logQueue := s.logQueue ++ [line]
      call := Function.update s.call t (.leaving line)
      worker := notified s.worker } = f (.leaving line) := by
    intro f
    unfold ofHolder
    simp [hmutex]
  refine ⟨fun u => ?_, ?_, ?_, ?_, fun hw => ?_, fun haway => ?_⟩
  · by_cases hut : u = t
    · subst hut
      simp [hmutex, inHand]
    · simpa [hut] using h.callers u
  · change s.queueMutex = some .worker ↔ holds (notified s.worker)
    rw [holds_notified]
    exact h.worker
  · rw [hpushed]
    change took log = s.logFile ++ (s.logQueue ++ [line]) ++ []
    rw [h.took_eq, (h.holder hhand unpushed).2, hcall, List.append_nil, List.append_assoc]
    rfl
  · rw [hpushed]
    change took log = returned log ++ [line]
    rw [h.returned_eq, (h.holder hhand inHand).2, hcall]
    rfl
  · have hfalse := h.not_holds hmutex
    rw [notified_eq_flushing hw] at hfalse
    cases hfalse
  · exact ⟨(h.alive haway).1, fun hw => (h.alive haway).2 (notified_eq_ended hw)⟩

theorem release (h : Kept s log) {t : τ} {line : String} (hcall : s.call t = .leaving line) :
    Kept { s with
      queueMutex := none
      call := Function.update s.call t .away } ((s, .returned line) :: log) := by
  have hhand : inHand (s.call t) ≠ [] := by
    rw [hcall]
    exact List.cons_ne_nil _ _
  have hmutex := (h.callers t).mpr hhand
  refine ⟨fun u => ?_, ?_, ?_, ?_, h.flushed, h.alive⟩
  · by_cases hut : u = t
    · subst hut
      simp [inHand]
    · have hu := h.callers u
      rw [hmutex, Option.some.injEq, Holder.call.injEq] at hu
      simpa [hut, Ne.symm hut] using hu
  · simp [h.not_holds hmutex]
  · change took log = s.logFile ++ s.logQueue ++ []
    rw [h.took_eq, (h.holder hhand unpushed).2, hcall]
    rfl
  · change took log = returned log ++ [line] ++ []
    rw [h.returned_eq, (h.holder hhand inHand).2, hcall, List.append_nil]
    rfl

omit [DecidableEq τ]

/-- The worker takes the mutex, or gives it back. -/
theorem pass (h : Kept s log) {w : Worker} {holder : Option (Holder τ)}
    (hbefore : s.queueMutex = none ∨ s.queueMutex = some .worker)
    (hafter : holder = none ∨ holder = some .worker) (hw : holder = some .worker ↔ holds w)
    (hflushing : w ≠ .flushing) (hended : w ≠ .ended) :
    Kept { s with queueMutex := holder, worker := w } ((s, .silent) :: log) := by
  have hempty : ∀ f, s.ofHolder f = [] := by
    intro f
    unfold ofHolder
    rcases hbefore with hnone | hworker
    · rw [hnone]
    · rw [hworker]
  have hempty' : ∀ f, ofHolder f { s with queueMutex := holder, worker := w } = [] := by
    intro f
    unfold ofHolder
    rcases hafter with rfl | rfl <;> rfl
  refine ⟨fun u => ?_, hw, ?_, ?_, fun h => absurd h hflushing, fun ha => ⟨(h.alive ha).1, hended⟩⟩
  · have hu := h.callers u
    have hno : s.queueMutex ≠ some (.call u) := by
      rcases hbefore with hnone | hworker
      · rw [hnone]
        exact nofun
      · rw [hworker]
        exact nofun
    rw [iff_false_left hno] at hu
    refine iff_of_false ?_ hu
    rcases hafter with rfl | rfl <;> exact nofun
  · rw [hempty']
    have htook := h.took_eq
    rwa [hempty] at htook
  · rw [hempty']
    have hreturned := h.returned_eq
    rwa [hempty] at hreturned

theorem write (h : Kept s log) {line : String} {rest : List String} (hw : s.worker = .draining)
    (hqueue : s.logQueue = line :: rest) :
    Kept { s with logFile := s.logFile ++ [line], logQueue := rest } ((s, .silent) :: log) where
  callers := h.callers
  worker := h.worker
  took_eq := by
    change took log = s.logFile ++ [line] ++ rest ++ s.ofHolder unpushed
    rw [h.took_eq, hqueue]
    simp
  returned_eq := h.returned_eq
  flushed hflushing := by
    change s.worker = .flushing at hflushing
    rw [hw] at hflushing
    cases hflushing
  alive := h.alive

end Kept

variable [DecidableEq τ]

theorem Kept.step {s s' : Logger τ} {log : List (Logger τ × Act)} {a : Act} (h : Kept s log)
    (hstep : Step s a s') : Kept s' ((s, a) :: log) := by
  cases hstep with
  | enter message hcall => exact h.enter message hcall
  | acquire now hcall hfree => exact h.acquire hfree
  | push hcall => exact h.push hcall
  | release hcall => exact h.release hcall
  | stop => exact h.go_on (.inr rfl) false .notifying rfl h.flushed nofun
  | notify =>
    refine h.go_on (.inl rfl) s.running .done (holds_notified _) ?_ nofun
    exact fun hw => h.flushed (notified_eq_flushing hw)
  | test hw =>
    refine h.go_on (.inl rfl) s.running s.stopper ?_ ?_ fun haway => ⟨(h.alive haway).1, ?_⟩
    · rw [hw]
      split <;> rfl
    · split <;> exact nofun
    · rw [(h.alive haway).1, if_pos rfl]
      exact nofun
  | lock hw hfree => exact h.pass (.inl hfree) (.inr rfl) ⟨fun _ => rfl, fun _ => rfl⟩ nofun nofun
  | check hw =>
    refine h.go_on (.inl rfl) s.running s.stopper ?_ ?_ fun haway => ⟨(h.alive haway).1, ?_⟩
    · rw [hw]
      split <;> rfl
    · split <;> exact nofun
    · split <;> exact nofun
  | sleep hw =>
    exact h.pass (.inr (h.worker.mpr (by rw [hw]; rfl))) (.inl rfl) ⟨nofun, nofun⟩ nofun nofun
  | wake hw =>
    refine h.go_on (.inl rfl) s.running s.stopper ?_ nofun fun haway => ⟨(h.alive haway).1, nofun⟩
    rw [hw]
    rfl
  | write hw hqueue => exact h.write hw hqueue
  | drained hw hqueue =>
    refine h.go_on (.inl rfl) s.running s.stopper ?_ (fun _ => hqueue)
      fun haway => ⟨(h.alive haway).1, nofun⟩
    rw [hw]
    rfl
  | unlock hw =>
    exact h.pass (.inr (h.worker.mpr (by rw [hw]; rfl))) (.inl rfl) ⟨nofun, nofun⟩ nofun nofun

theorem Run.kept {s : Logger τ} {log : List (Logger τ × Act)} (h : Run s log) : Kept s log := by
  induction h with
  | start => exact .start
  | step _ hstep ih => exact ih.step hstep

/-! ## After `stopLogging` -/

/-- The worker has still to drain the queue before it tests `running` again. -/
def drains : Worker → Bool
  | .testing | .flushing | .ended => false
  | _ => true

omit [DecidableEq τ] in
/-- The lines of the calls that are over are in the file or in the queue. -/
theorem Kept.returned_isPrefix {s : Logger τ} {log : List (Logger τ × Act)} (h : Kept s log) :
    returned log <+: s.logFile ++ s.logQueue := by
  have heq := h.took_eq.symm.trans h.returned_eq
  unfold ofHolder at heq
  split at heq
  · rename_i t ht
    cases hcall : s.call t with
    | holding line =>
      rw [hcall] at heq
      exact ⟨[], (List.append_nil _).trans (List.append_cancel_right heq).symm⟩
    | _ =>
      rw [hcall] at heq
      simp only [unpushed, List.append_nil] at heq
      exact ⟨_, heq.symm⟩
  · rw [List.append_nil, List.append_nil] at heq
    exact ⟨[], (List.append_nil _).trans heq.symm⟩

/-- What is so from the step of `stopLogging` on: nobody runs, a worker that was at its test writes
no more, and else what was logged is in the file or will be. -/
structure Stopped (s₀ : Logger τ) (older : List (Logger τ × Act)) (s : Logger τ) : Prop where
  running : s.running = false
  idle : s₀.worker = .testing →
    (s.worker = .testing ∨ s.worker = .ended) ∧ s.logFile = s₀.logFile
  kept : s₀.worker ≠ .testing ∨ returned older <+: s₀.logFile → returned older <+: s.logFile ∨
    drains s.worker ∧ returned older <+: s.logFile ++ s.logQueue

namespace Stopped

variable {s₀ s s' : Logger τ} {older : List (Logger τ × Act)} {a : Act}

omit [DecidableEq τ] in
theorem base (h : Kept s₀ older) (haway : s₀.stopper = .away) :
    Stopped s₀ older { s₀ with running := false, stopper := .notifying } where
  running := rfl
  idle hw := ⟨.inl hw, rfl⟩
  kept := by
    rintro (hw | hdone)
    · change returned older <+: s₀.logFile ∨
        drains s₀.worker ∧ returned older <+: s₀.logFile ++ s₀.logQueue
      have hpre := h.returned_isPrefix
      cases hworker : s₀.worker with
      | testing => exact absurd hworker hw
      | ended => exact absurd hworker (h.alive haway).2
      | flushing =>
        rw [h.flushed hworker, List.append_nil] at hpre
        exact .inl hpre
      | _ => exact .inr ⟨rfl, hpre⟩
    · exact .inl hdone

omit [DecidableEq τ] in
/-- A step that does not write, after which the worker is where it was or nearer to its drain. -/
theorem go_on (h : Stopped s₀ older s) (hrunning : s'.running = false)
    (hfile : s'.logFile = s.logFile) (hqueue : s.logQueue <+: s'.logQueue)
    (hidle : s.worker = .testing ∨ s.worker = .ended → s'.worker = .testing ∨ s'.worker = .ended)
    (hdrains : drains s.worker → drains s'.worker) : Stopped s₀ older s' where
  running := hrunning
  idle hw := ⟨hidle (h.idle hw).1, hfile.trans (h.idle hw).2⟩
  kept hok := by
    rw [hfile]
    refine (h.kept hok).imp_right fun hpending => ⟨hdrains hpending.1, hpending.2.trans ?_⟩
    obtain ⟨more, hmore⟩ := hqueue
    exact ⟨more, by rw [← hmore, List.append_assoc]⟩

theorem drains_notified {w : Worker} (h : drains w) : drains (notified w) := by
  cases w <;> first | rfl | cases h

theorem idle_notified {w : Worker} (h : w = .testing ∨ w = .ended) :
    notified w = .testing ∨ notified w = .ended := by
  rcases h with rfl | rfl
  · exact .inl rfl
  · exact .inr rfl

theorem step (h : Stopped s₀ older s) (hstep : Step s a s') : Stopped s₀ older s' := by
  have hrefl : s.logQueue <+: s.logQueue := List.prefix_rfl
  -- A worker that is not at its test, nor at its end, has never been at its test.
  have hbusy : ∀ {w : Worker}, s.worker = w → w ≠ .testing → w ≠ .ended → s₀.worker ≠ .testing := by
    rintro w rfl htesting hended hw
    exact (h.idle hw).1.elim htesting hended
  cases hstep with
  | enter | acquire | release => exact h.go_on h.running rfl hrefl id id
  | push =>
    exact h.go_on h.running rfl (List.prefix_append _ _) idle_notified drains_notified
  | stop => exact h.go_on rfl rfl hrefl id id
  | notify => exact h.go_on h.running rfl hrefl idle_notified drains_notified
  | test hw =>
    refine h.go_on h.running rfl hrefl (fun _ => .inr (if_neg (by simp [h.running]))) fun hdrains => ?_
    rw [hw] at hdrains
    cases hdrains
  | lock hw =>
    refine h.go_on h.running rfl hrefl (fun hidle => ?_) fun _ => rfl
    rcases hw with hw | hw <;> rw [hw] at hidle <;> simp at hidle
  | check hw =>
    rw [if_pos (.inr h.running)]
    refine h.go_on h.running rfl hrefl (fun hidle => ?_) fun _ => rfl
    rw [hw] at hidle
    simp at hidle
  | sleep hw | wake hw =>
    refine h.go_on h.running rfl hrefl (fun hidle => ?_) fun _ => rfl
    rw [hw] at hidle
    simp at hidle
  | write hw hqueue =>
    refine ⟨h.running, fun hw₀ => absurd hw₀ (hbusy hw nofun nofun), fun hok => ?_⟩
    refine (h.kept hok).imp (fun hdone => hdone.trans (List.prefix_append _ _)) fun hpending => ?_
    refine ⟨hpending.1, ?_⟩
    have hpre := hpending.2
    rwa [hqueue, List.append_cons] at hpre
  | drained hw hqueue =>
    refine ⟨h.running, fun hw₀ => absurd hw₀ (hbusy hw nofun nofun), fun hok => .inl ?_⟩
    rcases h.kept hok with hdone | ⟨-, hpre⟩
    · exact hdone
    · rwa [hqueue, List.append_nil] at hpre
  | unlock hw =>
    refine ⟨h.running, fun hw₀ => absurd hw₀ (hbusy hw nofun nofun), fun hok => ?_⟩
    refine (h.kept hok).imp_right fun hpending => ?_
    rw [hw] at hpending
    cases hpending.1

end Stopped

theorem Run.stopped {s s₀ : Logger τ} {newer older : List (Logger τ × Act)}
    (h : Run s (newer ++ (s₀, .stop) :: older)) : Stopped s₀ older s := by
  generalize hlog : newer ++ (s₀, Act.stop) :: older = log at h
  induction h generalizing newer with
  | start => simp at hlog
  | step hrun hstep ih =>
    cases newer with
    | nil =>
      obtain ⟨heq, rfl⟩ := List.cons.inj hlog
      obtain ⟨rfl, rfl⟩ := Prod.mk.inj heq
      cases hstep with
      | stop haway => exact .base hrun.kept haway
    | cons x newer => exact (ih (List.cons.inj hlog).2).step hstep

/-- **The logger.** Once the worker has ended, nothing is lost if and only if it was not at its test
of `running`, with lines of calls that were over not yet written, when `stopLogging` came. -/
theorem loses_nothing_iff {s : Logger τ} {log : List (Logger τ × Act)} (h : Run s log)
    (hended : s.worker = .ended) : LosesNothing s log ↔
      ∀ newer s₀ older, log = newer ++ (s₀, .stop) :: older → s₀.worker = .testing →
        returned older <+: s₀.logFile := by
  constructor
  · rintro hlossless newer s₀ older rfl hw
    rw [← (h.stopped.idle hw).2]
    exact hlossless.complete newer s₀ older rfl
  · intro hok
    refine ⟨⟨s.logQueue ++ s.ofHolder unpushed, by rw [h.kept.took_eq, List.append_assoc]⟩, ?_⟩
    rintro newer s₀ older rfl
    have hsafe : s₀.worker ≠ .testing ∨ returned older <+: s₀.logFile := by
      by_cases hw : s₀.worker = .testing
      · exact .inr (hok newer s₀ older rfl hw)
      · exact .inl hw
    rcases h.stopped.kept hsafe with hdone | ⟨hdrains, -⟩
    · exact hdone
    · rw [hended] at hdrains
      cases hdrains

/-- `stopLogging` comes after a call of `log`, before the worker tests `running`. -/
theorem loses_nothing_fails : ¬ ∀ (s : Logger Nat) (log : List (Logger Nat × Act)), Run s log →
    s.worker = .ended → LosesNothing s log := by
  intro h
  have hrun := Run.start (τ := Nat)
    |>.step (.enter (t := 0) "x" rfl)
    |>.step (.acquire (t := 0) "now" rfl rfl)
    |>.step (.push (t := 0) rfl)
    |>.step (.release (t := 0) rfl)
    |>.step (.stop rfl)
    |>.step (.test rfl)
  have hlost := (h _ _ hrun rfl).complete [_] _ _ rfl
  exact absurd hlost.length_le (by decide)

theorem loses_nothing_late : ∃ (s : Logger Nat) (log : List (Logger Nat × Act)), Run s log ∧
    s.logFile = [logLine "now" "x"] ∧ (LosesNothing s log ↔
      ∀ newer s₀ older, log = newer ++ (s₀, .stop) :: older → s₀.worker = .testing →
        returned older <+: s₀.logFile) := by
  have hrun := Run.start (τ := Nat)
    |>.step (.enter (t := 0) "x" rfl)
    |>.step (.acquire (t := 0) "now" rfl rfl)
    |>.step (.push (t := 0) rfl)
    |>.step (.release (t := 0) rfl)
    |>.step (.test rfl)
    |>.step (.stop rfl)
    |>.step (.lock (.inl rfl) rfl)
    |>.step (.check rfl)
    |>.step (.write rfl rfl)
    |>.step (.drained rfl rfl)
    |>.step (.unlock rfl)
    |>.step (.test rfl)
  exact ⟨_, _, hrun, rfl, loses_nothing_iff hrun rfl⟩

end Logger

end ChatServer
