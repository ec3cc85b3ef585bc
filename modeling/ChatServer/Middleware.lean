import ChatServer.Lib.Interleave
import ChatServer.State
import Mathlib.Data.List.TakeWhile

/-!
# The preflight check

`ValidateMiddleware::before_handle` of `validate_middleware.h`.
-/

open Program

namespace ChatServer

inductive HttpMethod
  | get
  | other
  deriving DecidableEq

/-- What the middleware reads of a `crow::request`. -/
structure HttpRequest where
  url : Bytes
  method : HttpMethod
  hasUpgrade : Bool
  nameParam : Option Bytes

structure HttpResponse where
  code : Nat
  body : String
  deriving DecidableEq

/-- What a `std::string` made of a C string holds. -/
def cString (s : Bytes) : Bytes := s.takeWhile (· ≠ 0)

/-- The critical section of `before_handle`: whether the name is taken. -/
def isTaken (name : Bytes) : Prog Bool :=
  withLock .connectionsMutex do
    match (← load).connections.lookup name with
    | some connData => pure (decide (connData.status ≠ .disconnected))
    | none => pure false

/-- The response that ends the request here, or nothing where the route goes on. -/
def beforeHandle (req : HttpRequest) : Prog (Option HttpResponse) := do
  if req.url = ascii "/" ∧ req.method = .get ∧ req.hasUpgrade = false then
    match req.nameParam with
    | none => pure (some ⟨400, "Nombre inválido"⟩)
    | some param =>
      let name := cString param
      if name = [] ∨ name = ascii "~" then pure (some ⟨400, "Nombre inválido"⟩)
      else if ← isTaken name then pure (some ⟨400, "Usuario ya conectado o activo"⟩)
      else pure (some ⟨200, "OK"⟩)
  else pure none

def rootRequest (name : Bytes) : HttpRequest where
  url := ascii "/"
  method := .get
  hasUpgrade := false
  nameParam := some name

/-! ## What it answers -/

theorem cString_of_notMem {s : Bytes} (h : 0 ∉ s) : cString s = s := by
  apply List.takeWhile_eq_self_iff.mpr
  intro b hb
  have hne : b ≠ 0 := fun heq => h (heq ▸ hb)
  simpa using hne

theorem isTaken_run (name : Bytes) (w : World) :
    (isTaken name).run w =
      ((w.connections.lookup name).any fun cd => cd.status ≠ .disconnected, w) := by
  unfold isTaken
  simp only [run_withLock, bind_eq, run_load_bind]
  cases w.connections.lookup name <;> rfl

theorem beforeHandle_root {name : Bytes} (h : 0 ∉ name) (w : World) :
    (beforeHandle (rootRequest name)).run w = (some
      (if name = [] ∨ name = generalChat then ⟨400, "Nombre inválido"⟩
      else if (w.connections.lookup name).any fun cd => cd.status ≠ .disconnected then
        ⟨400, "Usuario ya conectado o activo"⟩
      else ⟨200, "OK"⟩), w) := by
  unfold beforeHandle
  rw [if_pos ⟨rfl, rfl, rfl⟩]
  simp only [rootRequest, cString_of_notMem h]
  change (if name = [] ∨ name = generalChat then _ else _ : Prog _).run w = _
  split
  · rfl
  · rw [bind_eq, run_bind, isTaken_run]
    dsimp only
    split <;> rfl

end ChatServer
