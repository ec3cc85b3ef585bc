import ChatServer.Conduct

/-!
# What holds in every reachable configuration

The invariant is `Sound`, and that every thread keeps its contract from where it is. From
these, an invariant of the world needs a proof for each `Effect` only.
-/

open Program

namespace ChatServer

/-- The connection whose session the thread may change. -/
def Thread.moves : Thread → Set Conn
  | .handlers conn => {conn}
  | .monitor _ | .cleanup _ => ∅

/-- Where a thread may end: a connection that is not open has no name. -/
def ClosedIsFree (opened : Conn → Bool) (t : Thread) (w : World) : Prop :=
  ∀ conn, t = .handlers conn → opened conn = false → Free w conn

structure Orderly (cfg : Config) : Prop where
  sound : Sound cfg.world
  keeps : ∀ t, Keeps t t.moves (fun _ => ClosedIsFree cfg.opened t) (cfg.code t) cfg.world

theorem Orderly.idle {cfg : Config} (h : Orderly cfg) {t : Thread} (ht : cfg.code t = .ret ()) :
    ClosedIsFree cfg.opened t cfg.world :=
  (ht ▸ h.keeps t).done h.sound

theorem guar_rely {t u : Thread} (htu : t ≠ u) (w w' : World)
    (owed : (World → World → Prop) → Prop) (hg : (contract t t.moves).guar w w' owed) :
    (contract u u.moves).rely w w' := by
  rintro conn rfl
  apply hg.2.1 conn
  intro hmem
  cases t with
  | handlers c => exact htu (congrArg Thread.handlers (Eq.symm hmem))
  | monitor | cleanup => exact hmem

theorem Orderly.init (steadyClock : Nat → TimePoint) (time : Nat → Int64)
    (remoteIp : Conn → Bytes) : Orderly (.init (.init steadyClock time remoteIp)) where
  sound := .init _ _ _
  keeps t := by
    refine .ret fun w hr _ conn ht _ n => ?_
    rw [hr conn ht]
    exact nofun

theorem Call.opened_of_ne {c : Call} {conn : Conn} (h : Thread.handlers conn ≠ c.thread)
    (opened : Conn → Bool) : c.opened opened conn = opened conn := by
  cases c with
  | onOpen conn' | onClose conn' =>
    exact Function.update_of_ne (fun heq : conn = conn' => h (congrArg Thread.handlers heq)) _ _
  | _ => rfl

theorem Orderly.keeps_code {cfg : Config} (h : Orderly cfg) {c : Call}
    (hidle : cfg.code c.thread = .ret ()) (hallowed : cfg.allows c) :
    Keeps c.thread c.thread.moves (fun _ => ClosedIsFree (c.opened cfg.opened) c.thread) c.code
      cfg.world := by
  have hfree := h.idle hidle
  cases c with
  | onOpen conn username =>
    have hclosed : cfg.opened conn = false := by simpa [Config.allows] using hallowed
    refine (keeps_onOpen conn username (hfree conn rfl hclosed)).mono fun _ w _ _ => ?_
    rintro _ ⟨⟩ hopen
    simp [Call.opened] at hopen
  | onMessage conn data isBinary =>
    have hkeeps := keeps_onMessage (t := .handlers conn) (w := cfg.world) rfl conn data isBinary
    by_cases hclosed : cfg.opened conn = false
    · refine ((hkeeps.free (hfree conn rfl hclosed)).widen _).mono fun _ w _ hw => ?_
      rintro _ ⟨⟩ _
      exact hw.2
    · refine (hkeeps.widen _).mono fun _ w _ _ => ?_
      rintro _ ⟨⟩ hopen
      exact absurd hopen hclosed
  | onClose conn =>
    refine (keeps_onClose conn).mono fun _ w _ hw => ?_
    rintro _ ⟨⟩ _
    exact hw
  | monitorPass k => exact (keeps_monitorPass rfl).mono fun _ _ _ _ => nofun
  | cleanupPass k => exact keeps_cleanupPass.mono fun _ _ _ _ => nofun

theorem Orderly.call {cfg : Config} (h : Orderly cfg) {c : Call}
    (hidle : cfg.code c.thread = .ret ()) (hallowed : cfg.allows c) : Orderly (cfg.call c) where
  sound := h.sound
  keeps t := by
    by_cases ht : t = c.thread
    · subst ht
      simp only [Config.call, Function.update_self]
      exact h.keeps_code hidle hallowed
    · simp only [Config.call, Function.update_of_ne ht]
      refine (h.keeps t).mono fun _ w _ hw => ?_
      rintro conn rfl hopen
      exact hw conn rfl (Call.opened_of_ne ht cfg.opened ▸ hopen)

theorem Orderly.move {cfg : Config} (h : Orderly cfg) {t : Thread} {p : Prog Unit} {w : World}
    (hadv : advance .connectionsMutex (cfg.code t) cfg.world = some (p, w)) :
    Orderly (cfg.move t p w) ∧
      (contract t t.moves).guar cfg.world w (Owes .connectionsMutex Sound · p) := by
  obtain ⟨hsound, hguar, hpool⟩ := Meets.advance_pool
    (C := fun t => contract t t.moves) (Q := fun t _ => ClosedIsFree cfg.opened t)
    (fun _ _ htu w w' owed _ _ => guar_rely htu w w' owed) h.keeps h.sound hadv
  exact ⟨⟨hsound, hpool⟩, hguar⟩

/-- **Order.** Every reachable configuration is orderly. -/
theorem Reachable.orderly {cfg : Config} (h : Reachable cfg) : Orderly cfg := by
  induction h with
  | init clock time ip => exact .init clock time ip
  | call c _ hidle hallowed ih => exact ih.call hidle hallowed
  | move t _ hadv _ ih => exact (ih.move hadv).1

theorem Reachable.sound {cfg : Config} (h : Reachable cfg) : Sound cfg.world := h.orderly.sound

theorem Reachable.effect {cfg : Config} (h : Reachable cfg) {t : Thread} {p : Prog Unit} {w : World}
    (hadv : advance .connectionsMutex (cfg.code t) cfg.world = some (p, w)) :
    Effect cfg.world w :=
  (h.orderly.move hadv).2.1

/-- **Invariants.** What holds at the start and what each effect keeps holds always. -/
theorem Reachable.always {J : World → Prop} {cfg : Config} (h : Reachable cfg)
    (hinit : ∀ steadyClock time remoteIp, J (.init steadyClock time remoteIp))
    (hstep : ∀ w w', Sound w → J w → Effect w w' → J w') : J cfg.world := by
  induction h with
  | init clock time ip => exact hinit clock time ip
  | call _ _ _ _ ih => exact ih
  | move t h hadv _ ih => exact hstep _ _ (Reachable.sound h) ih (Reachable.effect h hadv)

end ChatServer
