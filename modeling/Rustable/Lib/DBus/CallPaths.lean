import Rustable.Lib.DBus.Path
import Rustable.Lib.Keyed

/-!
# Call paths

A connection has a table that says what becomes of the calls for a path.  A `CallTable` is
any such table; all that is known of it is which paths accept calls after an action has been
inserted: the path itself if it is the action to do so, and of all others those that accepted calls
before.

A connection keeps a tree.  A path that is given an action gets ancestors as well, which refuse
calls until they are given another action, and a leaf that refuses calls is taken away.  So the
other paths need not keep their actions, and a path that was told to refuse calls need not have
one.

`Inserted P t t'` says that between `t` and `t'` the paths in `P`, and only these, were given the
action to accept calls; it is composed along the code that inserts.  When the actions are those
of before is told by `restored_iff`.
-/

namespace DBus

/-- What becomes of the calls for a path. -/
inductive CallAction
  | /-- They are dropped. -/
    drop
  | /-- They are queued for whoever handles the path. -/
    exact
  | /-- They are answered by the connection itself, if they ask for the children. -/
    intro
  | /-- They are refused. -/
    nothing
deriving DecidableEq, Repr

/-- A table of actions. -/
class CallTable (τ : Type) where
  /-- The action of a path, if it has one. -/
  action : τ → ObjectPath → Option CallAction
  /-- Give a path an action. -/
  insert : τ → ObjectPath → CallAction → τ
  /-- It accepts calls afterwards if that is what it was told. -/
  accepts_insert : ∀ t p a, action (insert t p a) p = some .exact ↔ a = .exact
  /-- All others accept calls if they did before. -/
  accepts_insert_of_ne : ∀ t p q a, q ≠ p →
    (action (insert t p a) q = some .exact ↔ action t q = some .exact)

/-! ## The tree of a connection -/

/-- A tree of actions, as a map: each path is there with its ancestors. -/
structure CallTree where
  actions : HashMap ObjectPath CallAction

namespace CallTree

/-- A tree without paths. -/
def empty : CallTree := ⟨∅⟩

/-- The path is there, and if it was not it refuses calls. -/
def grow (t : CallTree) (p : ObjectPath) : CallTree :=
  if p ∈ t.actions then t else ⟨AList.insert p .nothing t.actions⟩

/-- No path of the tree is below this one. -/
def IsLeaf (t : CallTree) (p : ObjectPath) : Prop :=
  ∀ q ∈ t.actions.keys, q.parent ≠ some p

instance (t : CallTree) (p : ObjectPath) : Decidable (t.IsLeaf p) :=
  inferInstanceAs (Decidable (∀ q ∈ t.actions.keys, q.parent ≠ some p))

/-- Give a path an action, that is there with its ancestors. -/
def put (t : CallTree) (p : ObjectPath) (a : CallAction) : CallTree :=
  if a = .nothing ∧ t.IsLeaf p then ⟨t.actions.erase p⟩ else ⟨AList.insert p a t.actions⟩

/-- The ancestors of a path, from the root on. -/
def ancestors (p : ObjectPath) : List ObjectPath :=
  p.elements.inits.dropLast.filterMap fun es ↦
    if h : ∀ e ∈ es, IsElement e then some ⟨es, h⟩ else none

/-- Give a path an action. -/
def insert (t : CallTree) (p : ObjectPath) (a : CallAction) : CallTree :=
  ((ancestors p).foldl grow t).put p a

theorem lookup_grow (t : CallTree) (p q : ObjectPath) :
    (t.grow p).actions.lookup q = some .exact ↔ t.actions.lookup q = some .exact := by
  rw [grow]
  split
  · exact Iff.rfl
  · next hp =>
      by_cases hq : q = p
      · subst hq
        rw [AList.lookup_insert, AList.lookup_eq_none.mpr hp]
        exact iff_of_false (by decide) (by decide)
      · rw [AList.lookup_insert_ne hq]

theorem lookup_foldl_grow (ps : List ObjectPath) (t : CallTree) (q : ObjectPath) :
    (ps.foldl grow t).actions.lookup q = some .exact ↔ t.actions.lookup q = some .exact := by
  induction ps generalizing t with
  | nil => exact Iff.rfl
  | cons p ps ih => exact (ih (t.grow p)).trans (lookup_grow t p q)

theorem lookup_put (t : CallTree) (p : ObjectPath) (a : CallAction) :
    (t.put p a).actions.lookup p = some .exact ↔ a = .exact := by
  rw [put]
  split
  · next h =>
      rw [AList.lookup_erase, h.1]
      exact iff_of_false (by decide) (by decide)
  · rw [AList.lookup_insert]
    exact Option.some_inj

theorem lookup_put_of_ne (t : CallTree) {p q : ObjectPath} (a : CallAction) (h : q ≠ p) :
    (t.put p a).actions.lookup q = t.actions.lookup q := by
  rw [put]
  split
  · exact AList.lookup_erase_ne h
  · exact AList.lookup_insert_ne h

instance : CallTable CallTree where
  action t p := t.actions.lookup p
  insert := insert
  accepts_insert t p a := lookup_put _ p a
  accepts_insert_of_ne t p q a h := by
    rw [insert, lookup_put_of_ne _ a h]
    exact lookup_foldl_grow (ancestors p) t q

/-- A path comes with its ancestors, and goes alone. -/
example (a b : ObjectPath) (ha : a = ⟨["a".toList], by decide⟩)
    (hb : b = ⟨["a".toList, "b".toList], by decide⟩) :
    (empty.insert b .exact).actions.keys = [b, a, .root] ∧
      ((empty.insert b .exact).insert b .nothing).actions.keys = [a, .root] := by
  subst ha hb
  decide

end CallTree

namespace CallTable

variable {τ : Type} [CallTable τ] {t t' t'' : τ} {P Q : ObjectPath → Prop} {p : ObjectPath}

/-- Calls for the path are queued. -/
def Accepts (t : τ) (p : ObjectPath) : Prop := action t p = some .exact

/-- The paths in `P` have been made to accept calls, and no others. -/
structure Inserted (P : ObjectPath → Prop) (t t' : τ) : Prop where
  accepts : ∀ p, P p → Accepts t' p
  frame : ∀ p, ¬P p → (Accepts t' p ↔ Accepts t p)

namespace Inserted

theorem refl (t : τ) : Inserted (fun _ ↦ False) t t := ⟨fun _ h ↦ h.elim, fun _ _ ↦ Iff.rfl⟩

theorem single (t : τ) (p : ObjectPath) : Inserted (· = p) t (insert t p .exact) where
  accepts _ h := h ▸ (accepts_insert t p .exact).mpr rfl
  frame _ h := accepts_insert_of_ne t p _ .exact h

theorem trans (h : Inserted P t t') (h' : Inserted Q t' t'') :
    Inserted (fun p ↦ P p ∨ Q p) t t'' where
  accepts p hp := by
    by_cases hq : Q p
    · exact h'.accepts p hq
    · exact (h'.frame p hq).mpr (h.accepts p (hp.resolve_right hq))
  frame p hp := by
    obtain ⟨hp, hq⟩ := not_or.mp hp
    exact (h'.frame p hq).trans (h.frame p hp)

theorem congr (h : Inserted P t t') (hPQ : ∀ p, P p ↔ Q p) : Inserted Q t t' where
  accepts p hp := h.accepts p ((hPQ p).mpr hp)
  frame p hp := h.frame p (mt (hPQ p).mp hp)

end Inserted

/-- A path that has been given another action does not accept calls. -/
theorem not_accepts_insert (t : τ) (p : ObjectPath) {a : CallAction} (h : a ≠ .exact) :
    ¬Accepts (insert t p a) p := mt (accepts_insert t p a).mp h

/-- **Paths that accept calls have the action they had before if and only if they accepted calls
then.** -/
theorem restored_iff (h : ∀ p, P p → Accepts t' p) :
    (∀ p, P p → action t' p = action t p) ↔ ∀ p, P p → Accepts t p :=
  forall₂_congr fun p hp ↦ eq_comm.trans (by rw [h p hp]; exact Iff.rfl)

end CallTable

end DBus
