import Mathlib.Data.List.AList
import Mathlib.Data.List.Nodup

/-!
# Keyed collections

A `HashMap` is an association list with distinct keys.  The order of its entries is
the order of iteration, which nothing may rely on.  A list of things that carry their
key is kept free of duplicates by `replaceOrPush`.
-/

universe u v w

/-- A hash map: the order of the entries is the one they are iterated in. -/
abbrev HashMap (κ : Type u) (ν : Type v) := AList fun _ : κ ↦ ν

namespace AList

variable {κ : Type u} {ν : Type v}

/-- The entries, in the order of iteration. -/
def iter (m : HashMap κ ν) : List (κ × ν) := m.entries.map fun e ↦ (e.1, e.2)

theorem mem_iter_iff [DecidableEq κ] {m : HashMap κ ν} {k : κ} {a : ν} :
    (k, a) ∈ m.iter ↔ m.lookup k = some a := by
  rw [iter, List.mem_map]
  constructor
  · rintro ⟨⟨k', a'⟩, hmem, heq⟩
    obtain ⟨rfl, rfl⟩ := Prod.mk.inj heq
    exact AList.mem_lookup_iff.mpr hmem
  · exact fun h ↦ ⟨⟨k, a⟩, AList.mem_lookup_iff.mp h, rfl⟩

theorem map_fst_iter (m : HashMap κ ν) : m.iter.map Prod.fst = m.keys := by
  rw [iter, List.map_map]
  rfl

/-- No key is iterated twice. -/
theorem nodup_fst_iter (m : HashMap κ ν) : (m.iter.map Prod.fst).Nodup := by
  rw [map_fst_iter]
  exact m.nodupKeys

variable [DecidableEq κ]

/-- Insert entries in order: of several values for a key the last one stays. -/
def ofEntries (es : List (Sigma fun _ : κ ↦ ν)) : HashMap κ ν := es.reverse.toAList

/-- An entry of a map after an insertion is the new one or was there before. -/
theorem mem_entries_insert {m : HashMap κ ν} {k : κ} {a : ν} {e : Sigma fun _ : κ ↦ ν}
    (h : e ∈ (m.insert k a).entries) : e = ⟨k, a⟩ ∨ e ∈ m.entries := by
  rw [AList.entries_insert] at h
  exact (List.mem_cons.mp h).imp_right ((List.kerase_sublist k m.entries).subset ·)

/-- Changing the values of a map changes what is found under a key. -/
theorem lookup_ofEntries {ν' : Type v} (m : HashMap κ ν) (f : ν → ν') (k : κ) :
    (ofEntries (m.entries.map fun e ↦ ⟨e.1, f e.2⟩)).lookup k = (m.lookup k).map f := by
  have hnodup : (m.entries.map fun e ↦ (⟨e.1, f e.2⟩ : Sigma fun _ : κ ↦ ν')).NodupKeys :=
    List.NodupKeys.map₂ (fun _ ↦ f) _ m.nodupKeys
  rw [ofEntries, AList.lookup_to_alist, ← List.perm_dlookup k hnodup (List.reverse_perm _).symm]
  exact List.dlookup_map₂ (f := fun _ ↦ f) k

/-! ## Insertions in a row -/

/-- Insert one entry after the other. -/
def insertAll (m : HashMap κ ν) (es : List (κ × ν)) : HashMap κ ν :=
  es.foldl (fun m e ↦ m.insert e.1 e.2) m

@[simp] theorem insertAll_nil (m : HashMap κ ν) : m.insertAll [] = m := rfl

@[simp] theorem insertAll_cons (m : HashMap κ ν) (e : κ × ν) (es : List (κ × ν)) :
    m.insertAll (e :: es) = (m.insert e.1 e.2).insertAll es := rfl

theorem insertAll_append (m : HashMap κ ν) (es fs : List (κ × ν)) :
    m.insertAll (es ++ fs) = (m.insertAll es).insertAll fs := List.foldl_append

theorem mem_insertAll {m : HashMap κ ν} {es : List (κ × ν)} {k : κ} :
    k ∈ m.insertAll es ↔ k ∈ es.map Prod.fst ∨ k ∈ m := by
  induction es generalizing m with
  | nil => simp
  | cons e es ih =>
      rw [insertAll_cons, ih, AList.mem_insert, List.map_cons, List.mem_cons]
      tauto

/-- What is not inserted is as it was. -/
theorem lookup_insertAll_of_notMem {m : HashMap κ ν} {es : List (κ × ν)} {k : κ}
    (h : k ∉ es.map Prod.fst) : (m.insertAll es).lookup k = m.lookup k := by
  induction es generalizing m with
  | nil => rfl
  | cons e es ih =>
      obtain ⟨hne, hes⟩ := not_or.mp (mt List.mem_cons.mpr h)
      rw [insertAll_cons, ih hes, AList.lookup_insert_ne hne]

/-- A new key is added in front. -/
theorem iter_insert_of_notMem {m : HashMap κ ν} {k : κ} {a : ν} (h : k ∉ m.iter.map Prod.fst) :
    (m.insert k a).iter = (k, a) :: m.iter := by
  rw [map_fst_iter] at h
  rw [iter, AList.entries_insert_of_notMem h, List.map_cons]
  rfl

/-- Insertions lose entries, but add none. -/
theorem iter_insertAll_subperm (m : HashMap κ ν) (es : List (κ × ν)) :
    (m.insertAll es).iter.Subperm (es ++ m.iter) := by
  induction es generalizing m with
  | nil => exact .refl _
  | cons e es ih =>
      have hinsert : (m.insert e.1 e.2).iter.Subperm (e :: m.iter) := by
        rw [iter, AList.entries_insert]
        exact (((List.kerase_sublist e.1 m.entries).map _).cons_cons e).subperm
      refine (ih _).trans ?_
      refine ((List.subperm_append_left es).mpr hinsert).trans ?_
      exact (List.perm_middle).subperm

/-- Entries with distinct keys that are not there yet are all added. -/
theorem iter_insertAll_perm {m : HashMap κ ν} {es : List (κ × ν)}
    (h : ((es ++ m.iter).map Prod.fst).Nodup) : (m.insertAll es).iter.Perm (es ++ m.iter) := by
  induction es generalizing m with
  | nil => exact .refl _
  | cons e es ih =>
      have hsplit := List.nodup_cons.mp h
      have hnew : e.1 ∉ m.iter.map Prod.fst := by
        refine fun hmem ↦ hsplit.1 ?_
        change e.1 ∈ (es ++ m.iter).map Prod.fst
        rw [List.map_append]
        exact List.mem_append_right _ hmem
      have hiter : (m.insert e.1 e.2).iter = e :: m.iter := iter_insert_of_notMem hnew
      have hperm : (es ++ e :: m.iter).Perm (e :: (es ++ m.iter)) := List.perm_middle
      have hnodup : ((es ++ (m.insert e.1 e.2).iter).map Prod.fst).Nodup := by
        rw [hiter]
        exact ((hperm.map Prod.fst).nodup_iff).mpr h
      rw [insertAll_cons]
      exact (ih hnodup).trans (hiter ▸ hperm)

/-- **Nothing is lost by insertions if and only if no two of them have the same key.** -/
theorem iter_insertAll_perm_iff {es : List (κ × ν)} :
    ((∅ : HashMap κ ν).insertAll es).iter.Perm es ↔ (es.map Prod.fst).Nodup := by
  constructor
  · intro h
    exact ((h.map Prod.fst).nodup_iff).mp (nodup_fst_iter _)
  · intro h
    have hempty : es ++ (∅ : HashMap κ ν).iter = es := List.append_nil es
    have hnodup : ((es ++ (∅ : HashMap κ ν).iter).map Prod.fst).Nodup := by rwa [hempty]
    have hperm := iter_insertAll_perm hnodup
    rwa [hempty] at hperm

/-- A value is found under its key if the keys of what was inserted differ. -/
theorem lookup_insertAll_iff {es : List (κ × ν)} (h : (es.map Prod.fst).Nodup) {k : κ} {a : ν} :
    ((∅ : HashMap κ ν).insertAll es).lookup k = some a ↔ (k, a) ∈ es := by
  rw [← (iter_insertAll_perm_iff.mpr h).mem_iff]
  exact mem_iter_iff.symm

/-- Values that depend on the key only: of several insertions under a key it is no matter which
comes last. -/
theorem lookup_insertAll_map (f : κ → ν) (ks : List κ) (m : HashMap κ ν) (k : κ) :
    (m.insertAll (ks.map fun k ↦ (k, f k))).lookup k =
      if k ∈ ks then some (f k) else m.lookup k := by
  induction ks generalizing m with
  | nil => rfl
  | cons k' ks ih =>
      rw [List.map_cons, insertAll_cons, ih]
      by_cases hk : k = k'
      · subst hk
        rw [AList.lookup_insert, if_pos List.mem_cons_self, ite_self]
      · rw [AList.lookup_insert_ne hk]
        simp only [List.mem_cons, hk, false_or]

/-! ## Maps with the same entries -/

/-- Two maps with the same entries, in whatever order these are iterated. -/
def Same (m m' : HashMap κ ν) : Prop := ∀ k, m.lookup k = m'.lookup k

/-- Two maps with the same keys, and values related by `r`. -/
def SameUpTo (r : ν → ν → Prop) (m m' : HashMap κ ν) : Prop :=
  ∀ k, Option.Rel r (m.lookup k) (m'.lookup k)

/-- **Maps over one list of keys are the same if and only if the values are, key by key.** -/
theorem sameUpTo_insertAll_map_iff {r : ν → ν → Prop} {f g : κ → ν} {ks : List κ} :
    SameUpTo r ((∅ : HashMap κ ν).insertAll (ks.map fun k ↦ (k, f k)))
      ((∅ : HashMap κ ν).insertAll (ks.map fun k ↦ (k, g k))) ↔ ∀ k ∈ ks, r (f k) (g k) := by
  simp only [SameUpTo, lookup_insertAll_map, AList.lookup_empty]
  refine forall_congr' fun k ↦ ?_
  by_cases hk : k ∈ ks
  · simp only [hk, if_true, true_imp_iff]
    constructor
    · rintro ⟨h⟩
      exact h
    · exact .some
  · simp only [hk, if_false, false_imp_iff, iff_true]
    exact .none

/-! ## Changing a value in place -/

/-- Change the value under a key, if there is one. -/
def modify (m : HashMap κ ν) (k : κ) (f : ν → ν) : HashMap κ ν where
  entries := m.entries.map fun e ↦ ⟨e.1, if e.1 = k then f e.2 else e.2⟩
  nodupKeys := List.NodupKeys.map₂ (fun k' a ↦ if k' = k then f a else a) _ m.nodupKeys

theorem lookup_modify (m : HashMap κ ν) (k : κ) (f : ν → ν) (k' : κ) :
    (m.modify k f).lookup k' = (m.lookup k').map fun a ↦ if k' = k then f a else a :=
  List.dlookup_map₂ (f := fun k' a ↦ if k' = k then f a else a) k'

theorem mem_modify {m : HashMap κ ν} {k k' : κ} {f : ν → ν} : k' ∈ m.modify k f ↔ k' ∈ m := by
  rw [← AList.lookup_isSome, ← AList.lookup_isSome, lookup_modify, Option.isSome_map]

/-- A change is determined by what it does to the value that is there. -/
theorem modify_congr {m : HashMap κ ν} {k : κ} {a : ν} (h : m.lookup k = some a) {f g : ν → ν}
    (hfg : f a = g a) : m.modify k f = m.modify k g := by
  refine AList.ext (List.map_congr_left fun e he ↦ ?_)
  obtain ⟨k', b⟩ := e
  change (⟨k', if k' = k then f b else b⟩ : Sigma fun _ : κ ↦ ν) = ⟨k', if k' = k then g b else b⟩
  split
  · next hk =>
      subst hk
      obtain rfl := Option.some.inj (h.symm.trans (AList.mem_lookup_iff.mpr he))
      rw [hfg]
  · rfl

/-- A change that does not show is none. -/
theorem map_iter_modify {γ : Type w} {g : κ × ν → γ} {f : ν → ν} (k : κ)
    (hg : ∀ k a, g (k, f a) = g (k, a)) (m : HashMap κ ν) :
    (m.modify k f).iter.map g = m.iter.map g := by
  simp only [modify, iter, List.map_map]
  refine List.map_congr_left fun e _ ↦ ?_
  simp only [Function.comp_apply]
  split
  · exact hg e.1 e.2
  · rfl

/-! ## What holds of all entries -/

/-- `P` holds of every key and what is found under it. -/
def Holds (P : κ → ν → Prop) (m : HashMap κ ν) : Prop := ∀ k a, m.lookup k = some a → P k a

namespace Holds

variable {P : κ → ν → Prop} {m : HashMap κ ν}

theorem empty : Holds P (∅ : HashMap κ ν) := by
  intro k a h
  rw [AList.lookup_empty] at h
  contradiction

theorem insert (h : Holds P m) {k : κ} {a : ν} (ha : P k a) : Holds P (m.insert k a) := by
  intro k' a' hlook
  by_cases hk : k' = k
  · subst hk
    rw [AList.lookup_insert] at hlook
    obtain rfl := Option.some.inj hlook
    exact ha
  · rw [AList.lookup_insert_ne hk] at hlook
    exact h k' a' hlook

theorem insertAll (h : Holds P m) {es : List (κ × ν)} (hes : ∀ e ∈ es, P e.1 e.2) :
    Holds P (m.insertAll es) := by
  induction es generalizing m with
  | nil => exact h
  | cons e es ih =>
      rw [insertAll_cons]
      have hinsert := h.insert (hes e List.mem_cons_self)
      exact ih hinsert fun e' he' ↦ hes e' (List.mem_cons_of_mem e he')

theorem modify (h : Holds P m) {k : κ} {f : ν → ν}
    (hf : ∀ a, m.lookup k = some a → P k a → P k (f a)) : Holds P (m.modify k f) := by
  intro k' a' hlook
  rw [lookup_modify] at hlook
  obtain ⟨a, ha, rfl⟩ := Option.map_eq_some_iff.mp hlook
  split
  · next hk =>
      subst hk
      exact hf a ha (h k' a ha)
  · exact h k' a ha

end Holds

end AList

/-- Images of parts are parts of the image. -/
theorem subperm_map {α : Type u} {β : Type v} (f : α → β) {l l' : List α} (h : l.Subperm l') :
    (l.map f).Subperm (l'.map f) :=
  let ⟨m, hperm, hsub⟩ := h
  ⟨m.map f, hperm.map f, hsub.map f⟩

/-! ## Partial functions on lists -/

section MapM

variable {α : Type u} {β : Type v} {f : α → Option β}

/-- A partial function is defined on a list if it is on each of its elements. -/
theorem isSome_mapM_iff {l : List α} : (l.mapM f).isSome ↔ ∀ a ∈ l, (f a).isSome := by
  induction l with
  | nil => exact iff_of_true rfl fun _ h ↦ nomatch h
  | cons a l ih =>
      rw [List.mapM_cons, List.forall_mem_cons, ← ih]
      cases f a with
      | none => exact iff_of_false Bool.false_ne_true fun h ↦ Bool.false_ne_true h.1
      | some b =>
          refine Iff.trans ?_ (and_iff_right Option.isSome_some).symm
          cases l.mapM f with
          | none => exact Iff.rfl
          | some bs => exact Iff.rfl

/-- What it returns, it returns for the elements, in order. -/
theorem mapM_eq_some_iff {l : List α} {bs : List β} :
    l.mapM f = some bs ↔ l.map f = bs.map some := by
  induction l generalizing bs with
  | nil =>
      cases bs with
      | nil => exact iff_of_true rfl rfl
      | cons b bs => exact iff_of_false (fun h ↦ nomatch h) (fun h ↦ nomatch h)
  | cons a l ih =>
      rw [List.mapM_cons, List.map_cons]
      constructor
      · intro h
        obtain ⟨b, hb, h⟩ := Option.bind_eq_some_iff.mp h
        obtain ⟨bs', hbs', h⟩ := Option.bind_eq_some_iff.mp h
        obtain rfl := Option.some.inj h
        rw [hb, ih.mp hbs', List.map_cons]
      · intro h
        cases bs with
        | nil => contradiction
        | cons b bs =>
            obtain ⟨hb, hbs⟩ := List.cons.inj h
            rw [hb, ih.mpr hbs]
            rfl

theorem exists_of_mem_mapM {l : List α} {bs : List β} (h : l.mapM f = some bs) {b : β}
    (hb : b ∈ bs) : ∃ a ∈ l, f a = some b := by
  have hmem : some b ∈ bs.map some := List.mem_map_of_mem hb
  rw [← mapM_eq_some_iff.mp h] at hmem
  exact List.mem_map.mp hmem

/-- What the results of a partial function have in common with what they come from. -/
theorem map_of_mapM {γ : Type w} {g : β → γ} {h : α → γ} {l : List α} {bs : List β}
    (hl : l.mapM f = some bs) (hgh : ∀ a ∈ l, ∀ b, f a = some b → g b = h a) :
    bs.map g = l.map h := by
  induction l generalizing bs with
  | nil =>
      obtain rfl := Option.some.inj hl
      rfl
  | cons a l ih =>
      rw [List.mapM_cons] at hl
      obtain ⟨b, hb, hl⟩ := Option.bind_eq_some_iff.mp hl
      obtain ⟨bs', hbs', hl⟩ := Option.bind_eq_some_iff.mp hl
      obtain rfl := Option.some.inj hl
      rw [List.map_cons, List.map_cons, hgh a List.mem_cons_self b hb,
        ih hbs' fun a' ha' ↦ hgh a' (List.mem_cons_of_mem a ha')]

/-- What is found is found by those who find more. -/
theorem mapM_mono {g : α → Option β} (h : ∀ a b, f a = some b → g a = some b) {l : List α}
    {bs : List β} (hl : l.mapM f = some bs) : l.mapM g = some bs := by
  have hf := mapM_eq_some_iff.mp hl
  refine mapM_eq_some_iff.mpr (Eq.trans ?_ hf)
  refine List.map_congr_left fun a ha ↦ ?_
  have hmem : f a ∈ bs.map some := hf ▸ List.mem_map_of_mem ha
  obtain ⟨b, -, hb⟩ := List.mem_map.mp hmem
  rw [← hb]
  exact h a b hb.symm

end MapM

/-! ## Lists without duplicate keys -/

/-- Lists put one after the other have no duplicates if none of them has, when each
element tells which of them it comes from. -/
theorem nodup_flatMap_iff {α : Type u} {β : Type v} {κ : Type w} {f : α → List β} {key : α → κ}
    (tag : β → κ) (htag : ∀ a, ∀ b ∈ f a, tag b = key a) {l : List α} (hl : (l.map key).Nodup) :
    (l.flatMap f).Nodup ↔ ∀ a ∈ l, (f a).Nodup := by
  rw [List.nodup_flatMap]
  refine and_iff_left ((List.pairwise_map.mp hl).imp fun {a a'} hne b hb hb' ↦ hne ?_)
  rw [← htag a b hb, ← htag a' b hb']

section ReplaceOrPush

variable {α : Type u} {κ : Type v} [DecidableEq κ]

/-- Put `a` in the place of what has its key, or else at the end. -/
def replaceOrPush (key : α → κ) (a : α) : List α → List α
  | [] => [a]
  | b :: l => if key b = key a then a :: l else b :: replaceOrPush key a l

/-- The keys stay, and a new one comes last. -/
theorem map_replaceOrPush (key : α → κ) (a : α) (l : List α) :
    (replaceOrPush key a l).map key =
      if key a ∈ l.map key then l.map key else l.map key ++ [key a] := by
  induction l with
  | nil => rfl
  | cons b l ih =>
      rw [replaceOrPush]
      by_cases hb : key b = key a
      · rw [if_pos hb, List.map_cons, List.map_cons, if_pos (by rw [hb]; exact List.mem_cons_self),
          hb]
      · have hmem : key a ∈ key b :: l.map key ↔ key a ∈ l.map key := by
          rw [List.mem_cons]
          exact or_iff_right fun heq ↦ hb heq.symm
        rw [if_neg hb, List.map_cons, List.map_cons, ih]
        simp only [hmem]
        split <;> rfl

/-- Distinct keys stay distinct. -/
theorem nodup_map_replaceOrPush {key : α → κ} {l : List α} (a : α) (h : (l.map key).Nodup) :
    ((replaceOrPush key a l).map key).Nodup := by
  rw [map_replaceOrPush]
  split
  · exact h
  · next hmem => exact List.nodup_append'.mpr ⟨h, List.nodup_singleton _, by simpa using hmem⟩

theorem mem_replaceOrPush {key : α → κ} {a b : α} {l : List α}
    (h : b ∈ replaceOrPush key a l) : b = a ∨ b ∈ l := by
  induction l with
  | nil => exact .inl (List.mem_singleton.mp h)
  | cons c l ih =>
      rw [replaceOrPush] at h
      split at h
      · exact (List.mem_cons.mp h).imp_right (List.mem_cons_of_mem c)
      · rcases List.mem_cons.mp h with rfl | h
        · exact .inr List.mem_cons_self
        · exact (ih h).imp_right (List.mem_cons_of_mem c)

/-- At most one element is added. -/
theorem length_replaceOrPush_le (key : α → κ) (a : α) (l : List α) :
    (replaceOrPush key a l).length ≤ l.length + 1 := by
  have h := congrArg List.length (map_replaceOrPush key a l)
  rw [List.length_map] at h
  rw [h]
  split
  · rw [List.length_map]
    exact Nat.le_succ _
  · rw [List.length_append, List.length_map]
    exact Nat.le_refl _

end ReplaceOrPush
