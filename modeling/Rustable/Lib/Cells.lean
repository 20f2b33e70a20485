import Mathlib.Tactic.Common

/-!
# Memory cells that may be uninitialised

`Cells α n` is an array of `n` cells, each of which holds an `α` or nothing yet.
Reading a prefix of it succeeds only if every cell of the prefix is there and has
been written.

`Holds m l` says that the first cells of `m` hold the elements of `l`.  It is the
invariant of a growable buffer over such an array, and the lemmas below are how
the usual operations change it: a shorter length (`Holds.take`), an overwrite in
the middle that ends the contents (`Holds.write`), an append (`Holds.append`).
-/

universe u v

/-- `n` cells, initialised or not. -/
abbrev Cells (α : Type u) (n : Nat) := Vector (Option α) n

namespace Cells

variable {α : Type u} {γ : Type v} {n : Nat}

/-- Cells none of which has been written. -/
def uninit : Cells α n := Vector.replicate n none

/-- Write the elements of a list into consecutive cells. -/
def write (m : Cells α n) (pos : Nat) : List α → Cells α n
  | [] => m
  | a :: as => write (m.setIfInBounds pos (some a)) (pos + 1) as

/-- Fill `count` consecutive cells with what a generator returns, one call a cell.
A generator that fails ends the loop, with the cells before it written. -/
def fillWith {ε : Type v} (gen : γ → Except ε (α × γ)) :
    (count pos : Nat) → Cells α n → γ → Cells α n × Except ε γ
  | 0, _, m, g => (m, .ok g)
  | count + 1, pos, m, g => match gen g with
    | .error e => (m, .error e)
    | .ok (a, g') => fillWith gen count (pos + 1) (m.setIfInBounds pos (some a)) g'

/-- Read `count` consecutive cells, if they are all there and initialised. -/
def read (m : Cells α n) (pos : Nat) : Nat → Option (List α)
  | 0 => some []
  | count + 1 => do
      let a ← m[pos]?.join
      let as ← read m (pos + 1) count
      return a :: as

/-- The cells of `m` from `pos` on hold the elements of `l`. -/
def HoldsAt (m : Cells α n) (pos : Nat) (l : List α) : Prop :=
  ∀ i a, l[i]? = some a → m[pos + i]? = some (some a)

/-- The first cells of `m` hold the elements of `l`. -/
abbrev Holds (m : Cells α n) (l : List α) : Prop := HoldsAt m 0 l

variable {m : Cells α n} {l s : List α} {pos : Nat}

/-! ## Reading -/

theorem HoldsAt.nil : HoldsAt m pos ([] : List α) := fun _ _ h ↦ nomatch h

theorem HoldsAt.head {a : α} (h : HoldsAt m pos (a :: l)) : m[pos]? = some (some a) := by
  simpa using h 0 a rfl

theorem HoldsAt.tail {a : α} (h : HoldsAt m pos (a :: l)) : HoldsAt m (pos + 1) l := by
  intro i b hi
  rw [Nat.add_assoc, Nat.add_comm 1 i]
  exact h (i + 1) b hi

/-- What the cells hold is what is read. -/
theorem HoldsAt.read_eq (h : HoldsAt m pos l) : m.read pos l.length = some l := by
  induction l generalizing pos with
  | nil => rfl
  | cons a l ih =>
      rw [List.length_cons, read, h.head]
      simp only [Option.join_some, Option.bind_eq_bind, Option.bind_some, ih h.tail]
      rfl

/-- The contents fit. -/
theorem Holds.length_le (h : Holds m l) : l.length ≤ n := by
  cases hl : l.length with
  | zero => exact Nat.zero_le n
  | succ k =>
      have hk : k < l.length := by omega
      have hc := h k l[k] (List.getElem?_eq_getElem hk)
      rw [Nat.zero_add] at hc
      obtain ⟨hn, _⟩ := Vector.getElem?_eq_some_iff.mp hc
      omega

/-! ## Writing -/

@[simp] theorem write_nil (m : Cells α n) (pos : Nat) : m.write pos [] = m := rfl

/-- A write leaves the cells before it alone. -/
theorem getElem?_write_of_lt {i : Nat} (h : i < pos) : (m.write pos s)[i]? = m[i]? := by
  induction s generalizing m pos with
  | nil => rfl
  | cons a s ih =>
      rw [write, ih (Nat.lt_succ_of_lt h), Vector.getElem?_setIfInBounds_ne (by omega)]

/-- The cells written hold what was written. -/
theorem holdsAt_write (h : pos + s.length ≤ n) : HoldsAt (m.write pos s) pos s := by
  induction s generalizing m pos with
  | nil => exact .nil
  | cons a s ih =>
      rw [List.length_cons] at h
      intro i b hi
      cases i with
      | zero =>
          obtain rfl : a = b := by simpa using hi
          rw [write, Nat.add_zero pos, getElem?_write_of_lt (Nat.lt_succ_self pos)]
          exact Vector.getElem?_setIfInBounds_self_of_lt (by omega)
      | succ i =>
          rw [← Nat.add_assoc, Nat.add_right_comm]
          exact ih (by omega) i b hi

theorem Holds.take (h : Holds m l) (k : Nat) : Holds m (l.take k) := by
  intro i a hi
  rw [List.getElem?_take] at hi
  split at hi
  · exact h i a hi
  · contradiction

/-- Writing inside the contents, or right behind them, cuts them there. -/
theorem Holds.write (h : Holds m l) (hpos : pos ≤ l.length) (hend : pos + s.length ≤ n) :
    Holds (m.write pos s) (l.take pos ++ s) := by
  have hlen : (l.take pos).length = pos := List.length_take_of_le hpos
  intro i a hi
  rw [Nat.zero_add]
  by_cases hlt : i < pos
  · rw [List.getElem?_append_left (by omega)] at hi
    rw [getElem?_write_of_lt hlt]
    simpa using h.take pos i a hi
  · rw [List.getElem?_append_right (by omega), hlen] at hi
    have := holdsAt_write (m := m) hend (i - pos) a hi
    rwa [Nat.add_sub_cancel' (by omega)] at this

/-- Writing right behind the contents appends. -/
theorem Holds.append (h : Holds m l) (hend : l.length + s.length ≤ n) :
    Holds (m.write l.length s) (l ++ s) := by
  simpa using h.write (Nat.le_refl _) hend

/-! ## Filling from a generator -/

/-- A generator that yields the elements of `s` one after the other. -/
inductive Yields {ε : Type v} (gen : γ → Except ε (α × γ)) : γ → List α → γ → Prop
  | nil (g : γ) : Yields gen g [] g
  | cons {g g' g'' : γ} {a : α} {as : List α} :
      gen g = .ok (a, g') → Yields gen g' as g'' → Yields gen g (a :: as) g''

/-- Filling from a generator writes what it yields. -/
theorem fillWith_eq {ε : Type v} {gen : γ → Except ε (α × γ)} {g g' : γ} {count : Nat}
    (h : Yields gen g s g') (hcount : s.length = count) :
    fillWith gen count pos m g = (m.write pos s, .ok g') := by
  subst hcount
  induction h generalizing m pos with
  | nil g => rfl
  | cons hg _ ih => rw [List.length_cons, fillWith, hg]; exact ih

end Cells
