import ChatServer.Lib.Program

/-!
# Interleavings of critical sections

Threads share the memory, and one mutex `m` guards it. A step of a thread is a whole
critical section of `m`, or one instruction outside of it. `Meets` says what a thread keeps
up whatever the other threads do, and `Meets.advance_pool` is the rule for all of them.
-/

namespace Program

variable {μ σ α β : Type} [DecidableEq μ]

/-! ## One step -/

/-- Runs to the end of the critical section of `m`: the rest of the code, and the memory. -/
def leave (m : μ) : Program μ σ α → σ → Program μ σ α × σ
  | .ret a, s => (.ret a, s)
  | .unlock m' p, s => if m' = m then (p, s) else leave m p s
  | .lock _ p, s | .spawn p, s | .join p, s => leave m p s
  | .access f k, s => leave m (k s) (f s)

/-- One step of a thread that holds nothing: a critical section of `m`, or one instruction. -/
def advance (m : μ) : Program μ σ α → σ → Option (Program μ σ α × σ)
  | .ret _, _ => none
  | .lock m' p, s => if m' = m then some (leave m p s) else some (p, s)
  | .unlock _ p, s | .spawn p, s | .join p, s => some (p, s)
  | .access f k, s => some (k s, f s)

/-- The next thing that the code does is to take `m`. -/
def takes (m : μ) : Program μ σ α → Bool
  | .lock m' _ => m' = m
  | _ => false

/-- Alone, the code takes `m` at some time. -/
def comesTo (m : μ) : Program μ σ α → σ → Bool
  | .ret _, _ => false
  | .lock m' p, s => m' = m || comesTo m p s
  | .unlock _ p, s | .spawn p, s | .join p, s => comesTo m p s
  | .access f k, s => comesTo m (k s) (f s)

variable {m : μ}

theorem takes_bind {p : Program μ σ α} (hgo : ∀ a, p ≠ .ret a) (f : α → Program μ σ β) :
    (p.bind f).takes m = p.takes m := by
  cases p with
  | ret a => exact absurd rfl (hgo a)
  | _ => rfl

theorem comesTo_advance {p p' : Program μ σ α} {s s' : σ} (h : advance m p s = some (p', s')) :
    p.comesTo m s = (p.takes m || p'.comesTo m s') := by
  cases p with
  | ret a => simp [advance] at h
  | lock m' p =>
    by_cases hm : m' = m
    · simp [comesTo, takes, hm]
    · simp only [advance, hm, if_false, Option.some.injEq, Prod.mk.injEq] at h
      simp [comesTo, takes, hm, h]
  | _ =>
    simp only [advance, Option.some.injEq, Prod.mk.injEq] at h
    simp [comesTo, takes, h]

theorem leave_bind {p : Program μ σ α} (hp : Avoids m p) (f : α → Program μ σ β) (s : σ) :
    leave m (p.bind f) s = leave m (f (p.run s).1) (p.run s).2 := by
  induction p generalizing s with
  | ret a => rfl
  | access g k ih => exact ih s (hp s) (g s)
  | lock m' p ih => exact ih hp.2 s
  | unlock m' p ih =>
    simp only [Program.bind, leave, hp.1, if_false, run]
    exact ih hp.2 s
  | spawn p ih | join p ih => exact ih hp s

theorem advance_withLock {body : Program μ σ α} (hb : Avoids m body) (s : σ) :
    advance m (withLock m body) s = some (.ret (body.run s).1, (body.run s).2) := by
  simp [withLock, advance, leave_bind hb, leave]

theorem leave_bind_of_balanced {p : Program μ σ α} (hp : Balanced m true p)
    (f : α → Program μ σ β) (s : σ) :
    leave m (p.bind f) s = ((leave m p s).1.bind f, (leave m p s).2) := by
  induction p generalizing s with
  | ret a => exact absurd hp (by simp [Balanced])
  | access g k ih => exact ih s (hp s) (g s)
  | lock m' p ih =>
    unfold Balanced at hp
    split at hp
    · exact absurd hp.1 (by simp)
    · exact ih hp s
  | unlock m' p ih =>
    simp only [Program.bind, leave, Balanced] at hp ⊢
    split at hp
    · rename_i h
      simp [h]
    · rename_i h
      simp only [h, if_false]
      exact ih hp s
  | spawn p ih | join p ih => exact ih hp s

theorem balanced_leave {p : Program μ σ α} (hp : Balanced m true p) (s : σ) :
    Balanced m false (leave m p s).1 := by
  induction p generalizing s with
  | ret a => exact absurd hp (by simp [Balanced])
  | access g k ih => exact ih s (hp s) (g s)
  | lock m' p ih =>
    unfold Balanced at hp
    split at hp
    · exact absurd hp.1 (by simp)
    · exact ih hp s
  | unlock m' p ih =>
    simp only [leave, Balanced] at hp ⊢
    split at hp
    · rename_i h
      simpa [h] using hp.2
    · rename_i h
      simp only [h, if_false]
      exact ih hp s
  | spawn p ih | join p ih => exact ih hp s

theorem balanced_advance {p p' : Program μ σ α} {s s' : σ} (hp : Balanced m false p)
    (h : advance m p s = some (p', s')) : Balanced m false p' := by
  cases p with
  | ret a => simp [advance] at h
  | access g k =>
    simp only [advance, Option.some.injEq, Prod.mk.injEq] at h
    exact h.1 ▸ hp s
  | lock m' p =>
    simp only [advance, Balanced] at h hp
    split at h
    · rename_i he
      rw [if_pos he] at hp
      simp only [Option.some.injEq] at h
      simpa [h] using balanced_leave hp.2 s
    · rename_i he
      rw [if_neg he] at hp
      simp only [Option.some.injEq, Prod.mk.injEq] at h
      exact h.1 ▸ hp
  | unlock m' p =>
    simp only [advance, Balanced, Option.some.injEq, Prod.mk.injEq] at h hp
    split at hp
    · exact absurd hp.1 (by simp)
    · exact h.1 ▸ hp
  | spawn p | join p =>
    simp only [advance, Option.some.injEq, Prod.mk.injEq] at h
    exact h.1 ▸ hp

/-- A step of `p.bind f` is a step of `p`, or one of `f a` once `p` is over. -/
theorem advance_bind {p : Program μ σ α} (hp : Balanced m false p) (f : α → Program μ σ β)
    (s : σ) :
    advance m (p.bind f) s = match p with
      | .ret a => advance m (f a) s
      | _ => (advance m p s).map fun r => (r.1.bind f, r.2) := by
  cases p with
  | lock m' p =>
    simp only [Program.bind, advance, Balanced] at hp ⊢
    split at hp
    · rename_i h
      simp [h, leave_bind_of_balanced hp.2]
    · rename_i h
      simp [h]
  | _ => rfl

theorem advance_bind_of_ne {p : Program μ σ α} (hp : Balanced m false p)
    (hgo : ∀ a, p ≠ .ret a) (f : α → Program μ σ β) {s s' : σ} {q : Program μ σ β}
    (h : advance m (p.bind f) s = some (q, s')) :
    ∃ p', advance m p s = some (p', s') ∧ q = p'.bind f := by
  rw [advance_bind hp] at h
  split at h
  · exact absurd rfl (hgo _)
  · rw [Option.map_eq_some_iff] at h
    obtain ⟨⟨p', t⟩, hp', heq⟩ := h
    simp only [Prod.mk.injEq] at heq
    obtain ⟨rfl, rfl⟩ := heq
    exact ⟨p', hp', rfl⟩

omit [DecidableEq μ] in
theorem bind_ne_ret {p : Program μ σ α} (hgo : ∀ a, p ≠ .ret a) (f : α → Program μ σ β) (b : β) :
    p.bind f ≠ .ret b := by
  cases p with
  | ret a => exact absurd rfl (hgo a)
  | _ => exact nofun

/-! ## Code that is one critical section -/

/-- The code is one critical section of `m`, and nothing else. -/
def IsSection (m : μ) (p : Program μ σ α) : Prop := ∃ body, p = withLock m body ∧ Avoids m body

namespace IsSection

omit [DecidableEq μ] in
protected theorem withLock {body : Program μ σ α} (hb : Avoids m body) :
    IsSection m (withLock m body) := ⟨body, rfl, hb⟩

protected theorem balanced {p : Program μ σ α} (h : IsSection m p) : Balanced m false p := by
  obtain ⟨body, rfl, hb⟩ := h
  exact balanced_withLock hb

protected theorem advance {p : Program μ σ α} (h : IsSection m p) (s : σ) :
    advance m p s = some (.ret (p.run s).1, (p.run s).2) := by
  obtain ⟨body, rfl, hb⟩ := h
  rw [advance_withLock hb, run_withLock]

protected theorem advance_bind {p : Program μ σ α} (h : IsSection m p) (f : α → Program μ σ β)
    (s : σ) : advance m (p.bind f) s = some (f (p.run s).1, (p.run s).2) := by
  obtain ⟨body, rfl, hb⟩ := h
  rw [Program.advance_bind (balanced_withLock hb)]
  change (advance m (withLock m body) s).map _ = _
  rw [advance_withLock hb, run_withLock]
  rfl

omit [DecidableEq μ] in
theorem bind_ne_ret {p : Program μ σ α} (h : IsSection m p) (f : α → Program μ σ β) (b : β) :
    p.bind f ≠ .ret b := by
  obtain ⟨body, rfl, -⟩ := h
  exact nofun

end IsSection

/-! ## Running alone is one of the interleavings -/

theorem run_leave {p : Program μ σ α} (s : σ) :
    (leave m p s).1.run (leave m p s).2 = p.run s := by
  induction p generalizing s with
  | ret a => rfl
  | access g k ih => exact ih s (g s)
  | lock m' p ih | spawn p ih | join p ih => exact ih s
  | unlock m' p ih =>
    unfold leave
    split
    · rfl
    · exact ih s

theorem run_advance {p p' : Program μ σ α} {s s' : σ} (h : advance m p s = some (p', s')) :
    p'.run s' = p.run s := by
  cases p with
  | ret a => simp [advance] at h
  | lock m' p =>
    simp only [advance] at h
    split at h <;> simp only [Option.some.injEq] at h
    · have hrun := run_leave (m := m) (p := p) s
      rw [h] at hrun
      exact hrun
    · simp only [Prod.mk.injEq] at h
      rw [← h.1, ← h.2]
      rfl
  | access g k =>
    simp only [advance, Option.some.injEq, Prod.mk.injEq] at h
    rw [← h.1, ← h.2]
    rfl
  | unlock m' p | spawn p | join p =>
    simp only [advance, Option.some.injEq, Prod.mk.injEq] at h
    rw [← h.1, ← h.2]
    rfl

inductive Suffix : Program μ σ α → Program μ σ α → Prop
  | refl (p) : Suffix p p
  | lock {q m p} : Suffix q p → Suffix q (.lock m p)
  | unlock {q m p} : Suffix q p → Suffix q (.unlock m p)
  | access {q f k} (s) : Suffix q (k s) → Suffix q (.access f k)
  | spawn {q p} : Suffix q p → Suffix q (.spawn p)
  | join {q p} : Suffix q p → Suffix q (.join p)

theorem leave_suffix (p : Program μ σ α) (s : σ) : Suffix (leave m p s).1 p := by
  induction p generalizing s with
  | ret a => exact .refl _
  | access g k ih => exact .access s (ih s (g s))
  | lock m' p ih => exact .lock (ih s)
  | spawn p ih => exact .spawn (ih s)
  | join p ih => exact .join (ih s)
  | unlock m' p ih =>
    unfold leave
    split
    · exact .unlock (.refl _)
    · exact .unlock (ih s)

/-- Every step of a thread brings it nearer to its end. -/
theorem advance_induction {motive : Program μ σ α → Prop}
    (h : ∀ p, (∀ s p' s', advance m p s = some (p', s') → motive p') → motive p)
    (p : Program μ σ α) : motive p := by
  suffices ∀ q, Suffix q p → motive q from this p (.refl p)
  -- What a step leaves of a constructor is a suffix of what stands under it.
  induction p with
  | ret a =>
    rintro _ ⟨⟩
    exact h _ fun s p' s' hadv => by simp [advance] at hadv
  | access f k ih =>
    intro q hq
    cases hq with
    | access s hq => exact ih s q hq
    | refl =>
      apply h _
      intro s p' s' hadv
      simp only [advance, Option.some.injEq, Prod.mk.injEq] at hadv
      exact hadv.1 ▸ ih s _ (.refl _)
  | lock m' p ih =>
    intro q hq
    cases hq with
    | lock hq => exact ih q hq
    | refl =>
      apply h _
      intro s p' s' hadv
      simp only [advance] at hadv
      split at hadv <;> simp only [Option.some.injEq] at hadv
      · have hs := leave_suffix (m := m) p s
        rw [hadv] at hs
        exact ih _ hs
      · simp only [Prod.mk.injEq] at hadv
        exact hadv.1 ▸ ih _ (.refl _)
  | unlock m' p ih | spawn p ih | join p ih =>
    intro q hq
    rcases hq with _ | hq | hq | _ | hq | hq
    · apply h _
      intro s p' s' hadv
      simp only [advance, Option.some.injEq, Prod.mk.injEq] at hadv
      exact hadv.1 ▸ ih _ (.refl _)
    · exact ih q hq

theorem advance_eq_none {p : Program μ σ α} {s : σ} (h : advance m p s = none) :
    ∃ a, p = .ret a := by
  cases p with
  | ret a => exact ⟨a, rfl⟩
  | lock m' p =>
    simp only [advance] at h
    split at h <;> simp at h
  | _ => simp [advance] at h

end Program
