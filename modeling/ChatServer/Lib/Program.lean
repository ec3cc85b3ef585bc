import Mathlib.Logic.Function.Basic

/-!
# Programs over shared memory

A `Program` is the code of one thread: it takes and gives back mutexes, accesses the
memory of type `σ`, and hands work to a task that it waits for. `run` executes it alone,
from start to end. `Interleave.lean` runs many of them together.
-/

/-- The code of a thread over mutexes `μ` and memory `σ`, with a result in `α`. -/
inductive Program (μ σ α : Type) : Type
  | ret (a : α)
  | lock (m : μ) (rest : Program μ σ α)
  | unlock (m : μ) (rest : Program μ σ α)
  /-- One access: the memory becomes `f s`, and the rest sees the `s` from before. -/
  | access (f : σ → σ) (rest : σ → Program μ σ α)
  /-- From here a spawned task runs, and its creator waits for it. -/
  | spawn (rest : Program μ σ α)
  /-- The spawned task is over, and its creator goes on. -/
  | join (rest : Program μ σ α)

namespace Program

variable {μ σ α β : Type}

protected def bind : Program μ σ α → (α → Program μ σ β) → Program μ σ β
  | .ret a, f => f a
  | .lock m p, f => .lock m (p.bind f)
  | .unlock m p, f => .unlock m (p.bind f)
  | .access g k, f => .access g fun s => (k s).bind f
  | .spawn p, f => .spawn (p.bind f)
  | .join p, f => .join (p.bind f)

instance : Monad (Program μ σ) where
  pure := .ret
  bind := Program.bind

@[simp] theorem pure_eq (a : α) : (Pure.pure a : Program μ σ α) = .ret a := rfl
@[simp] theorem bind_eq (p : Program μ σ α) (f : α → Program μ σ β) : p >>= f = p.bind f := rfl
@[simp] theorem ret_bind (a : α) (f : α → Program μ σ β) : (Program.ret a).bind f = f a := rfl

theorem bind_ret (p : Program μ σ α) : p.bind .ret = p := by
  induction p with
  | ret a => rfl
  | access g k ih => simp only [Program.bind, ih]
  | lock m p ih | unlock m p ih | spawn p ih | join p ih => simp only [Program.bind, ih]

protected theorem bind_assoc {γ : Type} (p : Program μ σ α) (f : α → Program μ σ β)
    (g : β → Program μ σ γ) : (p.bind f).bind g = p.bind fun a => (f a).bind g := by
  induction p with
  | ret a => rfl
  | access h k ih => simp only [Program.bind, ih]
  | lock m p ih | unlock m p ih | spawn p ih | join p ih => simp only [Program.bind, ih]

instance : LawfulMonad (Program μ σ) :=
  LawfulMonad.mk' _ Program.bind_ret (fun _ _ => rfl) Program.bind_assoc

/-! ## The instructions -/

def load : Program μ σ σ := .access id .ret

def update (f : σ → σ) : Program μ σ Unit := .access f fun _ => .ret ()

/-- A scoped lock: `m` is held while `body` runs, and no longer. -/
def withLock (m : μ) (body : Program μ σ α) : Program μ σ α :=
  .lock m (body.bind fun a => .unlock m (.ret a))

/-- Hands `task` to another thread and waits until it is done. -/
def async (task : Program μ σ α) : Program μ σ α :=
  .spawn (task.bind fun a => .join (.ret a))

def forEach {ι : Type} : List ι → (ι → Program μ σ Unit) → Program μ σ Unit
  | [], _ => .ret ()
  | i :: is, f => (f i).bind fun _ => forEach is f

/-! ## A program alone -/

/-- The result and the memory after `p` has run alone, from start to end. -/
def run : Program μ σ α → σ → α × σ
  | .ret a, s => (a, s)
  | .lock _ p, s | .unlock _ p, s | .spawn p, s | .join p, s => run p s
  | .access f k, s => run (k s) (f s)

@[simp] theorem run_pure (a : α) (s : σ) : (Program.ret a : Program μ σ α).run s = (a, s) := rfl

@[simp] theorem run_bind (p : Program μ σ α) (f : α → Program μ σ β) (s : σ) :
    (p.bind f).run s = (f (p.run s).1).run (p.run s).2 := by
  induction p generalizing s with
  | ret a => rfl
  | access g k ih => exact ih s (g s)
  | lock m p ih | unlock m p ih | spawn p ih | join p ih => exact ih s

@[simp] theorem run_load (s : σ) : (load : Program μ σ σ).run s = (s, s) := rfl

@[simp] theorem run_load_bind (f : σ → Program μ σ α) (s : σ) :
    (load.bind f).run s = (f s).run s := rfl

@[simp] theorem run_update (f : σ → σ) (s : σ) :
    (update f : Program μ σ Unit).run s = ((), f s) := rfl

@[simp] theorem run_withLock (m : μ) (body : Program μ σ α) (s : σ) :
    (withLock m body).run s = body.run s := by
  simp [withLock, run]

@[simp] theorem run_async (task : Program μ σ α) (s : σ) : (async task).run s = task.run s := by
  simp [async, run]

theorem run_forEach {ι : Type} (f : ι → Program μ σ Unit) (is : List ι) (s : σ) :
    (forEach is f).run s = ((), is.foldl (fun s i => ((f i).run s).2) s) := by
  induction is generalizing s with
  | nil => rfl
  | cons i is ih => simp only [forEach, run_bind, ih, List.foldl_cons]

@[simp] theorem run_ite (c : Prop) [Decidable c] (p q : Program μ σ α) (s : σ) :
    (if c then p else q).run s = if c then p.run s else q.run s := by
  split <;> rfl

/-! ## Code that may throw -/

section Throwing

variable {ε : Type}

theorem exceptT_ok_bind (a : α) (f : α → ExceptT ε (Program μ σ) β) :
    ((liftM (Except.ok a : Except ε α) : ExceptT ε (Program μ σ) α) >>= f).run = (f a).run :=
  rfl

theorem exceptT_lift (p : Program μ σ α) :
    (liftM p : ExceptT ε (Program μ σ) α).run = p.bind fun a => .ret (.ok a) :=
  rfl

theorem exceptT_lift_bind (p : Program μ σ α) (f : α → ExceptT ε (Program μ σ) β) :
    ((liftM p : ExceptT ε (Program μ σ) α) >>= f).run = p.bind fun a => (f a).run :=
  Program.bind_assoc p _ _

end Throwing

/-! ## Code outside and inside a critical section -/

def Avoids (m : μ) : Program μ σ α → Prop
  | .ret _ => True
  | .lock m' p | .unlock m' p => m' ≠ m ∧ Avoids m p
  | .access _ k => ∀ s, Avoids m (k s)
  | .spawn p | .join p => Avoids m p

/-- Each `lock m` of the program has its `unlock m`. `held` says whether `m` is held at the start. -/
def Balanced (m : μ) [DecidableEq μ] : Bool → Program μ σ α → Prop
  | held, .ret _ => held = false
  | held, .lock m' p => if m' = m then held = false ∧ Balanced m true p else Balanced m held p
  | held, .unlock m' p => if m' = m then held = true ∧ Balanced m false p else Balanced m held p
  | held, .access _ k => ∀ s, Balanced m held (k s)
  | held, .spawn p | held, .join p => Balanced m held p

section Avoids

variable {m : μ}

@[simp] theorem avoids_pure (a : α) : Avoids m (Program.ret a : Program μ σ α) := trivial

@[simp] theorem avoids_load : Avoids m (load : Program μ σ σ) := fun _ => trivial

@[simp] theorem avoids_update (f : σ → σ) : Avoids m (update f : Program μ σ Unit) :=
  fun _ => trivial

theorem avoids_bind {p : Program μ σ α} {f : α → Program μ σ β} (hp : Avoids m p)
    (hf : ∀ a, Avoids m (f a)) : Avoids m (p.bind f) := by
  induction p with
  | ret a => exact hf a
  | access g k ih => exact fun s => ih s (hp s)
  | lock m' p ih | unlock m' p ih => exact ⟨hp.1, ih hp.2⟩
  | spawn p ih | join p ih => exact ih hp

theorem avoids_withLock {m' : μ} (hm : m' ≠ m) {body : Program μ σ α} (hb : Avoids m body) :
    Avoids m (withLock m' body) :=
  ⟨hm, avoids_bind hb fun _ => ⟨hm, trivial⟩⟩

theorem avoids_forEach {ι : Type} {f : ι → Program μ σ Unit} (is : List ι)
    (hf : ∀ i, Avoids m (f i)) : Avoids m (forEach is f) := by
  induction is with
  | nil => trivial
  | cons i is ih => exact avoids_bind (hf i) fun _ => ih

theorem avoids_ite {c : Prop} [Decidable c] {p q : Program μ σ α} (hp : Avoids m p)
    (hq : Avoids m q) : Avoids m (if c then p else q) := by
  split <;> assumption

end Avoids

section Balanced

variable [DecidableEq μ] {m : μ}

theorem Avoids.balanced {p : Program μ σ α} (hp : Avoids m p) : Balanced m false p := by
  induction p with
  | ret a => rfl
  | access g k ih => exact fun s => ih s (hp s)
  | lock m' p ih | unlock m' p ih =>
    simp only [Balanced, hp.1, if_false]
    exact ih hp.2
  | spawn p ih | join p ih => exact ih hp

theorem balanced_bind_of_avoids {held : Bool} {p : Program μ σ α} {f : α → Program μ σ β}
    (hp : Avoids m p) (hf : ∀ a, Balanced m held (f a)) : Balanced m held (p.bind f) := by
  induction p with
  | ret a => exact hf a
  | access g k ih => exact fun s => ih s (hp s)
  | lock m' p ih | unlock m' p ih =>
    simp only [Program.bind, Balanced, hp.1, if_false]
    exact ih hp.2
  | spawn p ih | join p ih => exact ih hp

theorem balanced_withLock {body : Program μ σ α} (hb : Avoids m body) :
    Balanced m false (withLock m body) := by
  simp only [withLock, Balanced, if_true, true_and]
  exact balanced_bind_of_avoids hb fun a => by simp [Balanced]

theorem balanced_bind {held : Bool} {p : Program μ σ α} {f : α → Program μ σ β}
    (hp : Balanced m held p) (hf : ∀ a, Balanced m false (f a)) : Balanced m held (p.bind f) := by
  induction p generalizing held with
  | ret a =>
    obtain rfl : held = false := hp
    exact hf a
  | access g k ih => exact fun s => ih s (hp s)
  | lock m' p ih | unlock m' p ih =>
    simp only [Program.bind, Balanced] at hp ⊢
    split at hp
    · rename_i h
      rw [if_pos h]
      exact ⟨hp.1, ih hp.2⟩
    · rename_i h
      rw [if_neg h]
      exact ih hp
  | spawn p ih | join p ih => exact ih hp

theorem balanced_forEach {ι : Type} {f : ι → Program μ σ Unit} (is : List ι)
    (hf : ∀ i, Balanced m false (f i)) : Balanced m false (forEach is f) := by
  induction is with
  | nil => rfl
  | cons i is ih => exact balanced_bind (hf i) fun _ => ih

end Balanced

end Program
