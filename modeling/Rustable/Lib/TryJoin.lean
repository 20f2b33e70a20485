import Rustable.Lib.Unordered

/-!
# Futures that are joined

`try_join_all` polls some futures until all of them have completed, and returns their outputs in
the order of the futures.  If one of them fails it returns at once.

It is a loop over the futures, in the order in which they complete, that keeps each output at the
place of its future.  So a join that has returned has returned all outputs, or what one of the
futures has failed with (`tryJoinAll_result`), whatever the order was.
-/

variable {ω : Type} {res : ω → Type} {φ α β γ : Type}

/-! ## Places -/

/-- A program that goes on. -/
theorem Prog.eval_bind (answers : ∀ o, res o) (x : Prog res α) (f : α → Prog res β) :
    (x >>= f).eval answers = (f (x.eval answers)).eval answers := by
  induction x with
  | ret a => rfl
  | op o k ih => exact ih (answers o)

/-- A future, and its place among others. -/
structure Numbered (φ : Type) where
  place : Nat
  fut : φ

namespace Numbered

/-- The output comes with the place. -/
instance [Future res φ α] : Future res (Numbered φ) (Nat × α) where
  poll self := do
    match ← (Future.poll self.fut : Prog res (Poll φ α)) with
    | .ready a => return .ready (self.place, a)
    | .pending rest => return .pending { self with fut := rest }

/-- Futures with their places in a list. -/
def ofList (futs : List φ) : FuturesUnordered (Numbered φ) :=
  .ofList (futs.zipIdx.map fun e ↦ ⟨e.2, e.1⟩)

/-- A future at its place that satisfies `I`. -/
def At (I : Nat → φ → Prop) (k : Nat) (self : Numbered φ) : Prop := self.place = k ∧ I k self.fut

variable {I : Nat → φ → Prop} {futs : List φ}

@[simp] theorem keys_ofList (futs : List φ) : (ofList futs).keys = List.range futs.length := by
  rw [ofList, FuturesUnordered.keys_ofList, List.length_map, List.length_zipIdx]

theorem satisfy_ofList (h : ∀ k fut, futs[k]? = some fut → I k fut) :
    (ofList futs).Satisfy (At I) := by
  intro k self hself
  rw [ofList, FuturesUnordered.lookup_ofList, List.getElem?_map] at hself
  obtain ⟨⟨fut, place⟩, hfut, rfl⟩ := Option.map_eq_some_iff.mp hself
  rw [List.getElem?_zipIdx] at hfut
  obtain ⟨fut', hfut', heq⟩ := Option.map_eq_some_iff.mp hfut
  obtain ⟨rfl, rfl⟩ := Prod.mk.inj heq
  exact ⟨Nat.zero_add k, h k fut' hfut'⟩

section Polls

variable [Future res φ α] {w : Wake res} {out : Nat → α}

/-- A poll at a place is a poll of the future. -/
theorem poll_eq (w : Wake res) (self : Numbered φ) :
    (w.poll self : Poll (Numbered φ) (Nat × α)) = match (w.poll self.fut : Poll φ α) with
      | .ready a => .ready (self.place, a)
      | .pending rest => .pending { self with fut := rest } := by
  refine (Prog.eval_bind w.answers _ _).trans ?_
  rw [Wake.poll]
  generalize (Future.poll self.fut : Prog res (Poll φ α)).eval w.answers = x
  cases x with
  | ready a => rfl
  | pending rest => rfl

theorem leads (h : w.Leads I out) : w.Leads (At I) fun k ↦ (k, out k) := by
  rintro ⟨place, fut⟩ ⟨rfl, hfut⟩
  rcases h fut hfut with hready | ⟨rest, hpending, hrest⟩
  · exact .inl (by rw [poll_eq, hready])
  · exact .inr ⟨⟨w.key, rest⟩, by rw [poll_eq, hpending], rfl, hrest⟩

theorem completes (h : w.Completes I out) : w.Completes (At I) fun k ↦ (k, out k) := by
  rintro ⟨place, fut⟩ ⟨rfl, hfut⟩
  rw [poll_eq, h fut hfut]

end Polls

end Numbered

/-! ## Joins -/

/-- `try_join_all` of `n` futures.  `branch` tells whether an output is a value or what is
returned instead, and `ok` is made of all values. -/
def tryJoinAll (n : Nat) (branch : α → γ ⊕ β) (ok : List γ → β) :
    Loop (Nat × α) (HashMap Nat γ) β where
  body values item := (branch item.2).map (values.insert item.1) id
  done values := ok ((List.range n).filterMap values.lookup)

variable {n : Nat} {branch : α → γ ⊕ β} {ok : List γ → β} {out : Nat → α}

/-- The value of a future, if it gives one. -/
def valueAt (branch : α → γ ⊕ β) (out : Nat → α) (k : Nat) : Option γ := (branch (out k)).getLeft?

/-- Values are kept, up to the first output that is none. -/
theorem fold_tryJoinAll (values : HashMap Nat γ) (order : List Nat) :
    ((∀ k ∈ order, (valueAt branch out k).isSome) ∧
      (tryJoinAll n branch ok).fold values (order.map fun k ↦ (k, out k)) =
        .inl (values.insertAll (order.filterMap fun k ↦ (valueAt branch out k).map (k, ·)))) ∨
      ∃ k ∈ order, ∃ b, branch (out k) = .inr b ∧
        (tryJoinAll n branch ok).fold values (order.map fun k ↦ (k, out k)) = .inr b := by
  induction order generalizing values with
  | nil => exact .inl ⟨by simp, rfl⟩
  | cons k order ih =>
      rw [List.map_cons, Loop.fold]
      cases hb : branch (out k) with
      | inr b =>
          refine .inr ⟨k, List.mem_cons_self, b, hb, ?_⟩
          simp [tryJoinAll, hb]
      | inl v =>
          have hbody :
              (tryJoinAll n branch ok).body values (k, out k) = .inl (values.insert k v) := by
            simp [tryJoinAll, hb]
          have hv : valueAt branch out k = some v := by rw [valueAt, hb]; rfl
          rw [hbody]
          rcases ih (values.insert k v) with ⟨hall, hfold⟩ | ⟨k', hk', b, hb', hfold⟩
          · refine .inl ⟨List.forall_mem_cons.mpr ⟨by rw [hv]; rfl, hall⟩, ?_⟩
            rw [List.filterMap_cons, hv]
            exact hfold
          · exact .inr ⟨k', List.mem_cons_of_mem k hk', b, hb', hfold⟩

/-- What has been kept under a key. -/
theorem lookup_values {order : List Nat} (hnodup : order.Nodup) {k : Nat} (hk : k ∈ order) :
    ((∅ : HashMap Nat γ).insertAll
      (order.filterMap fun k ↦ (valueAt branch out k).map (k, ·))).lookup k =
      valueAt branch out k := by
  have hmem {k : Nat} {v : γ} :
      (k, v) ∈ (order.filterMap fun k ↦ (valueAt branch out k).map (k, ·)) ↔
        k ∈ order ∧ valueAt branch out k = some v := by
    rw [List.mem_filterMap]
    constructor
    · rintro ⟨k', hk', heq⟩
      obtain ⟨v', hv', heq⟩ := Option.map_eq_some_iff.mp heq
      obtain ⟨rfl, rfl⟩ := Prod.mk.inj heq
      exact ⟨hk', hv'⟩
    · rintro ⟨hk, hv⟩
      exact ⟨k, hk, by rw [hv]; rfl⟩
  have hkeys :
      ((order.filterMap fun k ↦ (valueAt branch out k).map (k, ·)).map Prod.fst).Nodup := by
    rw [List.map_filterMap]
    refine hnodup.filterMap fun k k' j hj hj' ↦ ?_
    have hkey {k : Nat} (h : j ∈ ((valueAt branch out k).map (k, ·)).map Prod.fst) : k = j := by
      obtain ⟨x, hx, rfl⟩ := Option.map_eq_some_iff.mp h
      obtain ⟨v, -, rfl⟩ := Option.map_eq_some_iff.mp hx
      rfl
    exact (hkey hj).trans (hkey hj').symm
  refine Option.ext fun v ↦ ?_
  rw [AList.lookup_insertAll_iff hkeys, hmem, and_iff_right hk]

/-- **What a join returns**: all values in the order of the futures, or what one of the futures
gives instead. -/
theorem tryJoinAll_result {order : List Nat} (hperm : order.Perm (List.range n)) :
    ((∀ k < n, (valueAt branch out k).isSome) ∧
      (tryJoinAll n branch ok).result ∅ (order.map fun k ↦ (k, out k)) =
        ok ((List.range n).filterMap (valueAt branch out))) ∨
      ∃ k < n, branch (out k) =
        .inr ((tryJoinAll n branch ok).result ∅ (order.map fun k ↦ (k, out k))) := by
  have hmem {k : Nat} : k ∈ order ↔ k < n := hperm.mem_iff.trans List.mem_range
  rcases fold_tryJoinAll ∅ order with ⟨hall, hfold⟩ | ⟨k, hk, b, hb, hfold⟩
  · refine .inl ⟨fun k hk ↦ hall k (hmem.mpr hk), ?_⟩
    rw [Loop.result, hfold]
    refine congrArg ok (List.filterMap_congr fun k hk ↦ ?_)
    exact lookup_values (hperm.nodup_iff.mpr List.nodup_range) (hperm.mem_iff.mpr hk)
  · refine .inr ⟨k, hmem.mp hk, ?_⟩
    rw [Loop.result, hfold]
    exact hb

/-! ## Runs -/

/-- Join some futures, while some wakes happen. -/
def joinAll [Future res φ α] (branch : α → γ ⊕ β) (ok : List γ → β) (futs : List φ)
    (ws : List (Wake res)) : Looping (Numbered φ) (HashMap Nat γ) β :=
  let join := tryJoinAll futs.length branch ok
  join.run (join.next (Numbered.ofList futs) (.inl ∅)) ws

section Runs

variable [Future res φ α] {I : Nat → φ → Prop} {futs : List φ} {ws : List (Wake res)} {b : β}

/-- **What a join of some futures returns**, in whatever order they complete. -/
theorem joinAll_returned (hI : ∀ k fut, futs[k]? = some fut → I k fut)
    (hws : ∀ w ∈ ws, w.Leads I out) (h : joinAll branch ok futs ws = .returned b) :
    ((∀ k < futs.length, (valueAt branch out k).isSome) ∧
      b = ok ((List.range futs.length).filterMap (valueAt branch out))) ∨
      ∃ k < futs.length, branch (out k) = .inr b := by
  obtain ⟨order, hperm, rfl⟩ := Loop.run_returned (Numbered.satisfy_ofList hI)
    (fun w hw ↦ Numbered.leads (hws w hw)) h
  rw [Numbered.keys_ofList] at hperm
  exact tryJoinAll_result hperm

/-- **When it returns**: at the latest when all of them have completed. -/
theorem joinAll_returns (hI : ∀ k fut, futs[k]? = some fut → I k fut)
    (hws : ∀ w ∈ ws, w.Leads I out)
    (hdone : ∀ k < futs.length, ∃ w ∈ ws, w.key = k ∧ w.Completes I out) :
    ∃ b, joinAll branch ok futs ws = .returned b := by
  refine Loop.run_returns (Numbered.satisfy_ofList hI) (fun w hw ↦ Numbered.leads (hws w hw))
    fun k hk ↦ ?_
  rw [Numbered.keys_ofList, List.mem_range] at hk
  obtain ⟨w, hw, hkey, hcompletes⟩ := hdone k hk
  exact ⟨w, hw, hkey, Numbered.completes hcompletes⟩

end Runs
