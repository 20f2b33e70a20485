import Mathlib.Tactic.Common

/-!
# Computations with fuel

A loop that need not end is a function of its fuel.  With too little of it the loop is `cut`
off; `Ends f r` says that it comes to `r` with enough.

A computation is `Stable` if more fuel never changes what it has come to.  Then it ends if it is
not cut off just once (`Stable.stops_iff`).
-/

/-- How a computation ends: it returns, it fails, it panics, or it is cut off. -/
inductive Ending (ε α : Type)
  | done (a : α)
  | failed (e : ε)
  | panicked
  | cut
deriving DecidableEq

variable {ε ε' α β : Type}

namespace Ending

/-- One computation after the other. -/
def bind (x : Ending ε α) (f : α → Ending ε β) : Ending ε β :=
  match x with
  | done a => f a
  | failed e => failed e
  | panicked => panicked
  | cut => cut

/-- The same ending, with another error. -/
def mapError (f : ε → ε') : Ending ε α → Ending ε' α
  | done a => done a
  | failed e => failed (f e)
  | panicked => panicked
  | cut => cut

/-- `y` is what `x` comes to with more fuel. -/
def Below (x y : Ending ε α) : Prop := x = cut ∨ x = y

@[simp] theorem done_ne_cut (a : α) : (done a : Ending ε α) ≠ cut := by
  intro h
  contradiction

@[simp] theorem failed_ne_cut (e : ε) : (failed e : Ending ε α) ≠ cut := by
  intro h
  contradiction

@[simp] theorem panicked_ne_cut : (panicked : Ending ε α) ≠ cut := by
  intro h
  contradiction

/-- A sequence returns if both of its parts do. -/
theorem bind_eq_done {x : Ending ε α} {f : α → Ending ε β} {b : β} :
    x.bind f = done b ↔ ∃ a, x = done a ∧ f a = done b := by
  cases x with
  | done a => simp [bind]
  | failed e => simp [bind]
  | panicked => simp [bind]
  | cut => simp [bind]

theorem Below.refl (x : Ending ε α) : Below x x := .inr rfl

theorem below_cut (y : Ending ε α) : Below cut y := .inl rfl

theorem Below.bind {x y : Ending ε α} {f g : α → Ending ε β} (h : Below x y)
    (hf : ∀ a, Below (f a) (g a)) : Below (x.bind f) (y.bind g) := by
  rcases h with rfl | rfl
  · exact below_cut _
  · cases x with
    | done a => exact hf a
    | failed e => exact .refl _
    | panicked => exact .refl _
    | cut => exact .refl _

theorem Below.mapError {x y : Ending ε α} (h : Below x y) (f : ε → ε') :
    Below (x.mapError f) (y.mapError f) := by
  rcases h with rfl | rfl
  · exact below_cut _
  · exact .refl _

end Ending

/-- More fuel does not change what the computation has come to. -/
def Stable (f : Nat → Ending ε α) : Prop := ∀ n, (f n).Below (f (n + 1))

/-- With enough fuel the computation comes to `r`. -/
def Ends (f : Nat → Ending ε α) (r : Ending ε α) : Prop :=
  r ≠ .cut ∧ ∃ n, ∀ m, n ≤ m → f m = r

namespace Ends

variable {f g : Nat → Ending ε α} {r r' : Ending ε α}

/-- It comes to one thing only. -/
theorem unique (h : Ends f r) (h' : Ends f r') : r = r' := by
  obtain ⟨-, n, hn⟩ := h
  obtain ⟨-, n', hn'⟩ := h'
  exact (hn _ (Nat.le_max_left n n')).symm.trans (hn' _ (Nat.le_max_right n n'))

/-- It comes to it at once. -/
theorem of_succ (hr : r ≠ .cut) (h : ∀ n, f (n + 1) = r) : Ends f r := by
  refine ⟨hr, 1, fun n hn ↦ ?_⟩
  obtain ⟨k, rfl⟩ := Nat.exists_eq_add_of_le' hn
  exact h k

/-- A loop that is never anything but cut off does not end. -/
theorem not_of_cut (h : ∀ n, f n = .cut) : ¬Ends f r := by
  rintro ⟨hr, n, hn⟩
  exact hr ((hn n (Nat.le_refl n)).symm.trans (h n))

end Ends

section Rules

variable {f g : Nat → Ending ε α} {r : Ending ε α}

/-- A turn of a loop takes one more unit of fuel than what it comes down to. -/
theorem ends_succ (h : ∀ n, f (n + 1) = g n) : Ends f r ↔ Ends g r := by
  refine and_congr_right fun _ ↦ ⟨?_, ?_⟩
  · rintro ⟨n, hn⟩
    refine ⟨n, fun m hm ↦ ?_⟩
    rw [← h]
    exact hn _ (Nat.le_succ_of_le hm)
  · rintro ⟨n, hn⟩
    refine ⟨n + 1, fun m hm ↦ ?_⟩
    obtain ⟨k, rfl⟩ := Nat.exists_eq_add_of_le' hm
    rw [← Nat.add_assoc, h]
    exact hn _ (Nat.le_add_left ..)

/-- What follows a computation that returns. -/
theorem ends_bind {x : Nat → Ending ε β} {b : β} {k : Nat → β → Ending ε α}
    (hx : Ends x (.done b)) :
    Ends (fun n ↦ (x n).bind (k n)) r ↔ Ends (fun n ↦ k n b) r := by
  obtain ⟨-, n₀, hx⟩ := hx
  have hbind (n : Nat) (hn : n₀ ≤ n) : (x n).bind (k n) = k n b := by
    rw [hx n hn]
    rfl
  refine and_congr_right fun _ ↦ ⟨?_, ?_⟩
  · rintro ⟨n, hn⟩
    refine ⟨max n₀ n, fun m hm ↦ ?_⟩
    have heq := hbind m (Nat.le_trans (Nat.le_max_left ..) hm)
    exact heq.symm.trans (hn m (Nat.le_trans (Nat.le_max_right ..) hm))
  · rintro ⟨n, hn⟩
    refine ⟨max n₀ n, fun m hm ↦ ?_⟩
    have heq := hbind m (Nat.le_trans (Nat.le_max_left ..) hm)
    exact heq.trans (hn m (Nat.le_trans (Nat.le_max_right ..) hm))

/-- Nothing follows one that does not. -/
theorem ends_bind_of_not_done {x : Nat → Ending ε β} {e : Ending ε β}
    {k : Nat → β → Ending ε α} (hx : Ends x e) (he : ∀ f, e.bind f = r) (hr : r ≠ .cut) :
    Ends (fun n ↦ (x n).bind (k n)) r := by
  obtain ⟨-, n, hn⟩ := hx
  refine ⟨hr, n, fun m hm ↦ ?_⟩
  change (x m).bind (k m) = r
  rw [hn m hm]
  exact he (k m)

theorem ends_mapError {x : Nat → Ending ε α} {e : Ending ε α} (h : ε → ε') (hx : Ends x e) :
    Ends (fun n ↦ (x n).mapError h) (e.mapError h) := by
  obtain ⟨hne, n, hn⟩ := hx
  refine ⟨?_, n, fun m hm ↦ congrArg (Ending.mapError h) (hn m hm)⟩
  cases e with
  | cut => contradiction
  | done a => simp [Ending.mapError]
  | failed e => simp [Ending.mapError]
  | panicked => simp [Ending.mapError]

end Rules

namespace Stable

variable {f : Nat → Ending ε α}

theorem eq_of_le (hf : Stable f) {n m : Nat} (h : n ≤ m) (hn : f n ≠ .cut) : f m = f n := by
  induction h with
  | refl => rfl
  | @step m _ ih =>
      rcases hf m with hcut | heq
      · exact absurd (ih.symm.trans hcut) hn
      · exact heq.symm.trans ih

/-- What it comes to with some fuel it comes to with enough. -/
theorem ends (hf : Stable f) {n : Nat} (hn : f n ≠ .cut) : Ends f (f n) :=
  ⟨hn, n, fun _ h ↦ hf.eq_of_le h hn⟩

theorem eq_cut (hf : Stable f) (h : ∀ r, ¬Ends f r) (n : Nat) : f n = .cut := by
  by_contra hn
  exact h _ (hf.ends hn)

/-- The computation stops. -/
theorem stops_iff (hf : Stable f) : (∃ n, f n ≠ .cut) ↔ ∃ r, Ends f r := by
  constructor
  · rintro ⟨n, hn⟩
    exact ⟨f n, hf.ends hn⟩
  · rintro ⟨r, hr, n, hn⟩
    exact ⟨n, (hn n (Nat.le_refl n)).symm ▸ hr⟩

end Stable
