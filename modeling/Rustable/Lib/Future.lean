import Mathlib.Data.List.Basic

/-!
# Futures that are polled

A poll of a future is not one step: it performs operations one after another, and what
they answer may change in between.  `Prog res α` is a program of such operations, the
free monad over them, where `res o` is the type of what the operation `o` answers.  A
`Future` is polled by a program, which ends with the output of the future or with what
is left of it.

`Select` is the future that polls two others in turn, the first one first, and returns the
output of the one that is ready together with the other one.

`Channel` is the queue of one source, together with what has been taken from it.
-/

universe u

/-! ## Programs -/

/-- A program over operations with answers in `res`. -/
inductive Prog {ω : Type} (res : ω → Type) (α : Type) : Type
  | /-- Return. -/
    ret (a : α)
  | /-- Perform an operation and go on with its answer. -/
    op (o : ω) (k : res o → Prog res α)

namespace Prog

variable {ω : Type} {res : ω → Type} {α β : Type}

/-- One program after another. -/
def bind : Prog res α → (α → Prog res β) → Prog res β
  | ret a, f => f a
  | op o k, f => op o fun r ↦ (k r).bind f

instance : Monad (Prog res) where
  pure := ret
  bind := bind

/-- Returning is not a step. -/
@[simp] theorem ret_bind (a : α) (f : α → Prog res β) : (ret a >>= f) = f a := rfl

/-- What follows an operation waits for its answer. -/
@[simp] theorem op_bind (o : ω) (k : res o → Prog res α) (f : α → Prog res β) :
    (op o k >>= f) = op o fun r ↦ k r >>= f := rfl

/-- Returning nothing new changes nothing. -/
theorem bind_ret (x : Prog res α) : x >>= ret = x := by
  induction x with
  | ret a => rfl
  | op o k ih => exact congrArg (op o) (funext ih)

theorem bind_assoc {γ : Type} (x : Prog res α) (f : α → Prog res β) (g : β → Prog res γ) :
    x >>= f >>= g = x >>= fun a ↦ f a >>= g := by
  induction x with
  | ret a => rfl
  | op o k ih => exact congrArg (op o) (funext ih)

instance : LawfulMonad (Prog res) := .mk' _ bind_ret (fun _ _ ↦ rfl) bind_assoc

end Prog

/-! ## Polling -/

/-- How a poll ends. -/
inductive Poll (φ α : Type)
  | /-- The future is ready, with its output. -/
    ready (a : α)
  | /-- It is not, and this is left of it. -/
    pending (rest : φ)

/-- The type `φ` is a type of futures with outputs in `α`. -/
class Future {ω : Type} (res : ω → Type) (φ : Type) (α : outParam Type) where
  /-- Poll. -/
  poll : φ → Prog res (Poll φ α)

/-- The first of two futures. -/
structure Select (φ ψ : Type) where
  left : φ
  right : ψ

namespace Select

variable {ω : Type} {res : ω → Type} {φ ψ α β : Type} [Future res φ α] [Future res ψ β]

/-- The left future is polled first, and the right one only if the left one is not ready.
Whoever loses is handed back. -/
instance : Future res (Select φ ψ) ((α × ψ) ⊕ (β × φ)) where
  poll s := do
    match ← Future.poll s.left with
    | .ready a => return .ready (.inl (a, s.right))
    | .pending left =>
        match ← Future.poll s.right with
        | .ready b => return .ready (.inr (b, left))
        | .pending right => return .pending ⟨left, right⟩

end Select

/-! ## Channels -/

/-- A first-in first-out queue. -/
structure Channel (α : Type u) where
  /-- What has been taken. -/
  seen : List α := []
  /-- What waits. -/
  queue : List α := []

namespace Channel

variable {α : Type u} {c : Channel α}

/-- What has been put into the channel. -/
def sent (c : Channel α) : List α := c.seen ++ c.queue

/-- Put something into the channel. -/
def push (a : α) (c : Channel α) : Channel α := { c with queue := c.queue ++ [a] }

/-- Take what has waited longest. -/
def take (c : Channel α) : Option α × Channel α :=
  match c.queue with
  | [] => (none, c)
  | a :: queue => (some a, ⟨c.seen ++ [a], queue⟩)

@[simp] theorem seen_push (a : α) : (c.push a).seen = c.seen := rfl

@[simp] theorem queue_push (a : α) : (c.push a).queue = c.queue ++ [a] := rfl

/-- What is put into the channel comes last. -/
@[simp] theorem sent_push (a : α) : (c.push a).sent = c.sent ++ [a] :=
  (List.append_assoc c.seen c.queue [a]).symm

/-- Taking neither loses nor makes up anything. -/
@[simp] theorem sent_take : c.take.2.sent = c.sent := by
  rw [take]
  split
  · rfl
  · next a queue hqueue => simp [sent, hqueue]

theorem take_nil (h : c.queue = []) : c.take = (none, c) := by
  rw [take, h]

theorem take_cons {a : α} {queue : List α} (h : c.queue = a :: queue) :
    c.take = (some a, ⟨c.seen ++ [a], queue⟩) := by
  rw [take, h]

end Channel
