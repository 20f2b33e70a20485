import Mathlib.Data.List.Induction
import Rustable.Lib.Keyed

/-!
# Insertion-ordered maps

A list whose elements carry their keys is a map in the order of insertion, if elements
are added by `replaceOrPush` and removed by `eraseP`.  `KeyOp` is one of these operations,
and `KeyOp.latest` tells what a sequence of them leaves under a key: the element of the
last operation on the key, if that is an addition.  After every sequence the list has
the laws of such a map (`KeyOp.insertionOrdered`).
-/

universe u v w

section ReplaceOrPush

variable {α : Type u} {κ : Type v} [DecidableEq κ] {key : α → κ} {l : List α}

/-- A new key comes last. -/
theorem replaceOrPush_of_notMem {a : α} (h : key a ∉ l.map key) :
    replaceOrPush key a l = l ++ [a] := by
  induction l with
  | nil => rfl
  | cons b l ih =>
      rw [List.map_cons, List.mem_cons, not_or] at h
      rw [replaceOrPush, if_neg (Ne.symm h.1), ih h.2, List.cons_append]

/-- An element with an old key takes the place of the old element. -/
theorem replaceOrPush_of_split {a old : α} {xs ys : List α}
    (hnodup : ((xs ++ old :: ys).map key).Nodup) (hkey : key old = key a) :
    replaceOrPush key a (xs ++ old :: ys) = xs ++ a :: ys := by
  induction xs with
  | nil => rw [List.nil_append, replaceOrPush, if_pos hkey, List.nil_append]
  | cons b xs ih =>
      obtain ⟨hnew, hnodup⟩ := List.nodup_cons.mp hnodup
      have hne : key b ≠ key a := by
        rintro heq
        refine hnew ?_
        rw [heq, ← hkey]
        exact List.mem_map_of_mem (List.mem_append_right xs List.mem_cons_self)
      rw [List.cons_append, replaceOrPush, if_neg hne, ih hnodup, List.cons_append]

/-- What is there already is not added again. -/
theorem replaceOrPush_self [DecidableEq α] {l : List α} {a : α} (h : a ∈ l) :
    replaceOrPush id a l = l := by
  induction l with
  | nil => contradiction
  | cons b l ih =>
      rw [replaceOrPush]
      split
      · next heq => rw [show b = a from heq]
      · next hne => rw [ih ((List.mem_cons.mp h).resolve_left fun heq ↦ hne heq.symm)]

theorem find?_replaceOrPush (a : α) (l : List α) (k : κ) :
    (replaceOrPush key a l).find? (key · = k) =
      if key a = k then some a else l.find? (key · = k) := by
  induction l with
  | nil => by_cases h : key a = k <;> simp [replaceOrPush, h]
  | cons b l ih =>
      rw [replaceOrPush]
      by_cases hb : key b = key a
      · by_cases h : key a = k <;> simp [hb, h]
      · by_cases h : key b = k
        · subst h
          simp [hb, Ne.symm hb]
        · simp [hb, h, ih]

/-- What is removed is the only element with its key. -/
theorem eraseP_eq_filter (h : (l.map key).Nodup) (k : κ) :
    l.eraseP (key · = k) = l.filter (key · ≠ k) := by
  induction l with
  | nil => rfl
  | cons b l ih =>
      obtain ⟨hnew, hnodup⟩ := List.nodup_cons.mp h
      by_cases hb : key b = k
      · have hrest : ∀ c ∈ l, decide (key c ≠ k) = true := fun c hc ↦ decide_eq_true fun heq ↦
          hnew (hb.trans heq.symm ▸ List.mem_map_of_mem hc)
        rw [List.eraseP_cons_of_pos (by simpa using hb),
          List.filter_cons_of_neg (by simpa using hb), List.filter_eq_self.mpr hrest]
      · simpa [hb] using ih hnodup

theorem find?_eraseP (h : (l.map key).Nodup) (k k' : κ) :
    (l.eraseP (key · = k)).find? (key · = k') =
      if k = k' then none else l.find? (key · = k') := by
  rw [eraseP_eq_filter h, List.find?_filter]
  split
  · next heq =>
      subst heq
      simp
  · next hne =>
      congr 1
      funext b
      by_cases hb : key b = k'
      · simp [hb, Ne.symm hne]
      · simp [hb]

end ReplaceOrPush

/-! ## Operations -/

/-- Add an element under its key, or remove what is under a key. -/
inductive KeyOp (α : Type u) (κ : Type v)
  | add (a : α)
  | remove (k : κ)

namespace KeyOp

variable {α : Type u} {κ : Type v}

/-- The key an operation is about. -/
def about (key : α → κ) : KeyOp α κ → κ
  | add a => key a
  | remove k => k

/-- The element that is added. -/
def added : KeyOp α κ → Option α
  | add a => some a
  | remove _ => none

variable [DecidableEq κ] (key : α → κ)

/-- The list after an operation. -/
def apply (l : List α) : KeyOp α κ → List α
  | add a => replaceOrPush key a l
  | remove k => l.eraseP (key · = k)

/-- What was added under a key last, unless it was removed since. -/
def latest (ops : List (KeyOp α κ)) (k : κ) : Option α :=
  (ops.reverse.find? fun op ↦ op.about key = k).bind added

variable {key}

theorem latest_snoc (ops : List (KeyOp α κ)) (op : KeyOp α κ) (k : κ) :
    latest key (ops ++ [op]) k = if op.about key = k then op.added else latest key ops k := by
  rw [latest, List.reverse_append, List.reverse_singleton, List.singleton_append]
  by_cases h : op.about key = k
  · rw [List.find?_cons_of_pos (by simpa using h), Option.bind_some, if_pos h]
  · rw [List.find?_cons_of_neg (by simpa using h), if_neg h, latest]

/-- Keys stay distinct. -/
theorem nodup_apply {l : List α} (h : (l.map key).Nodup) (op : KeyOp α κ) :
    ((apply key l op).map key).Nodup := by
  cases op with
  | add a => exact nodup_map_replaceOrPush a h
  | remove k => exact h.sublist (List.eraseP_sublist.map key)

theorem nodup_foldl (ops : List (KeyOp α κ)) : ((ops.foldl (apply key) []).map key).Nodup := by
  induction ops using List.reverseRecOn with
  | nil => exact List.nodup_nil
  | append_singleton ops op ih =>
      rw [List.foldl_append]
      exact nodup_apply ih op

theorem find?_apply {l : List α} (h : (l.map key).Nodup) (op : KeyOp α κ) (k : κ) :
    (apply key l op).find? (key · = k) =
      if op.about key = k then op.added else l.find? (key · = k) := by
  cases op with
  | add a => exact find?_replaceOrPush a l k
  | remove k' => exact find?_eraseP h k' k

/-- **What is found** is what was added last. -/
theorem find?_foldl (ops : List (KeyOp α κ)) (k : κ) :
    (ops.foldl (apply key) []).find? (key · = k) = latest key ops k := by
  induction ops using List.reverseRecOn with
  | nil => rfl
  | append_singleton ops op ih =>
      rw [List.foldl_append, List.foldl_cons, List.foldl_nil, latest_snoc,
        find?_apply (nodup_foldl ops), ih]

/-- What is there was added. -/
theorem mem_foldl {ops : List (KeyOp α κ)} {l : List α} {a : α}
    (h : a ∈ ops.foldl (apply key) l) : a ∈ l ∨ add a ∈ ops := by
  induction ops generalizing l with
  | nil => exact .inl h
  | cons op ops ih =>
      rcases ih h with h | h
      · cases op with
        | add b =>
            rcases mem_replaceOrPush h with rfl | h
            · exact .inr List.mem_cons_self
            · exact .inl h
        | remove k => exact .inl (List.mem_of_mem_eraseP h)
      · exact .inr (List.mem_cons_of_mem op h)

/-- A part of a state is run by the operations that concern it. -/
theorem foldl_part {σ : Type w} {ω : Type*} {step : σ → ω → σ} (items : σ → List α)
    (asOp : ω → Option (KeyOp α κ))
    (h : ∀ s o, items (step s o) = ((asOp o).map (apply key (items s))).getD (items s))
    (s : σ) (ops : List ω) :
    items (ops.foldl step s) = (ops.filterMap asOp).foldl (apply key) (items s) := by
  induction ops generalizing s with
  | nil => rfl
  | cons o ops ih =>
      rw [List.foldl_cons, ih, h, List.filterMap_cons]
      cases asOp o with
      | none => rfl
      | some op => rfl

end KeyOp

/-! ## The laws -/

/-- The laws of an insertion-ordered map, for a list `l` on which some operations were made, and
functions that look up an element, add one, if it may be added, and remove one. -/
structure InsertionOrdered {α : Type u} {κ : Type v} [DecidableEq κ] (key : α → κ)
    (ops : List (KeyOp α κ)) (l : List α) (lookup : κ → Option α) (add : α → Option (List α))
    (remove : κ → List α) : Prop where
  /-- The keys are distinct, -/
  nodup : (l.map key).Nodup
  /-- what was added last and not removed since is found, -/
  lookup : ∀ k, lookup k = KeyOp.latest key ops k
  /-- an element with an old key takes the place of the old element, -/
  replace : ∀ a xs old ys l', l = xs ++ old :: ys → key old = key a → add a = some l' →
    l' = xs ++ a :: ys
  /-- one with a new key comes last, -/
  push : ∀ a l', key a ∉ l.map key → add a = some l' → l' = l ++ [a]
  /-- and the others stay in order when one is removed. -/
  remove : ∀ k, remove k = l.filter (key · ≠ k)

/-- **After every sequence of operations the laws hold.** -/
theorem KeyOp.insertionOrdered {α : Type u} {κ : Type v} [DecidableEq κ] {key : α → κ}
    {ops : List (KeyOp α κ)} {l : List α} (hl : l = ops.foldl (apply key) [])
    {lookup : κ → Option α} {add : α → Option (List α)} {remove : κ → List α}
    (hlookup : ∀ k, lookup k = l.find? (key · = k))
    (hadd : ∀ a l', add a = some l' → l' = replaceOrPush key a l)
    (hremove : ∀ k, remove k = l.eraseP (key · = k)) :
    InsertionOrdered key ops l lookup add remove := by
  have hnodup : (l.map key).Nodup := hl ▸ nodup_foldl ops
  exact {
    nodup := hnodup
    lookup := fun k ↦ by rw [hlookup, hl, find?_foldl]
    replace := fun a xs old ys l' hsplit hkey h ↦ by
      rw [hadd a l' h, hsplit, replaceOrPush_of_split (hsplit ▸ hnodup) hkey]
    push := fun a l' hnew h ↦ (hadd a l' h).trans (replaceOrPush_of_notMem hnew)
    remove := fun k ↦ (hremove k).trans (eraseP_eq_filter hnodup k) }
