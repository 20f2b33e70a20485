import Mathlib.Data.List.ReduceOption
import Rustable.Lib.Future
import Rustable.Lib.Keyed
import Rustable.Lib.Lts

/-!
# Futures in any order

A `FuturesUnordered` is a set of futures.  Whenever one of them is woken it is polled, and once it
is ready its output is the next item of the set as a stream.  So the items come in the order in
which the futures complete.

A `Loop` goes through the items of a stream and may return before the stream is at its end.
`Loop.run` is what becomes of a loop over a set of futures in the course of some wakes.
Whatever these are, it returns what it would return if it were given the outputs of all futures
as a list, in one order or another (`Loop.run_returned`).

## Main results

* `FuturesUnordered.outputs_perm`: the items, and what is still to come
* `Loop.run_next`: how far a loop comes with some wakes
* `Loop.run_returned`, `Loop.run_returns`: what a loop returns, and when it does
* `Loop.run_order`: every order of the outputs may come
-/

variable {ω : Type} {res : ω → Type} {φ α β γ : Type}

/-! ## Polls -/

/-- Run a program.  An operation that is performed twice gets the same answer. -/
def Prog.eval (answers : ∀ o, res o) : Prog res α → α
  | ret a => a
  | op o k => (k (answers o)).eval answers

/-- A future is woken: which one, and what its operations answer when it is polled. -/
structure Wake (res : ω → Type) where
  key : Nat
  answers : ∀ o, res o

namespace Wake

variable [Future res φ α]

/-- Poll a future. -/
def poll (w : Wake res) (fut : φ) : Poll φ α :=
  (Future.poll fut : Prog res (Poll φ α)).eval w.answers

/-- A future that satisfies `I` has completed with the output of its key, or still satisfies `I`. -/
def Leads (I : Nat → φ → Prop) (out : Nat → α) (w : Wake res) : Prop :=
  ∀ fut, I w.key fut → w.poll fut = .ready (out w.key) ∨
    ∃ rest, w.poll fut = .pending rest ∧ I w.key rest

/-- A future that satisfies `I` has completed with the output of its key. -/
def Completes (I : Nat → φ → Prop) (out : Nat → α) (w : Wake res) : Prop :=
  ∀ fut, I w.key fut → w.poll fut = .ready (out w.key)

theorem Completes.leads {I : Nat → φ → Prop} {out : Nat → α} {w : Wake res}
    (h : w.Completes I out) : w.Leads I out := fun fut hfut ↦ .inl (h fut hfut)

end Wake

/-- The futures that have not completed, each with its key. -/
abbrev FuturesUnordered (φ : Type) : Type := HashMap Nat φ

namespace FuturesUnordered

/-- The keys are the positions in the list. -/
def ofList (futs : List φ) : FuturesUnordered φ where
  entries := futs.zipIdx.map fun e ↦ ⟨e.2, e.1⟩
  nodupKeys := by
    rw [List.NodupKeys, List.keys, List.map_map]
    exact List.nodup_zipIdx_map_snd futs

@[simp] theorem keys_ofList (futs : List φ) : (ofList futs).keys = List.range futs.length := by
  rw [AList.keys, ofList, List.keys, List.map_map, List.range_eq_range']
  exact List.zipIdx_map_snd 0 futs

theorem lookup_ofList {futs : List φ} {k : Nat} {fut : φ} :
    (ofList futs).lookup k = some fut ↔ futs[k]? = some fut := by
  rw [← Option.mem_def, AList.mem_lookup_iff, ofList, List.mem_map]
  constructor
  · rintro ⟨⟨fut', k'⟩, hmem, heq⟩
    obtain ⟨rfl, rfl⟩ : k' = k ∧ fut' = fut := by simpa using heq
    exact List.mem_zipIdx_iff_getElem?.mp hmem
  · exact fun h ↦ ⟨(fut, k), List.mem_zipIdx_iff_getElem?.mpr h, rfl⟩

variable [Future res φ α]

/-- Poll the future that is woken.  If it has completed there is nothing to poll. -/
def wake (s : FuturesUnordered φ) (w : Wake res) : Option α × FuturesUnordered φ :=
  match s.lookup w.key with
  | none => (none, s)
  | some fut => match w.poll fut with
    | .ready a => (some a, s.erase w.key)
    | .pending rest => (none, s.insert w.key rest)

/-- Every future satisfies `I`. -/
def Satisfy (I : Nat → φ → Prop) (s : FuturesUnordered φ) : Prop :=
  ∀ k fut, s.lookup k = some fut → I k fut

/-! ## The items of the stream -/

section Items

variable {s : FuturesUnordered φ} {w : Wake res} {ws : List (Wake res)} {fut : φ}
  {I : Nat → φ → Prop} {out : Nat → α}

theorem wake_of_notMem (h : w.key ∉ s) : s.wake w = (none, s) := by
  rw [wake, AList.lookup_eq_none.mpr h]

theorem wake_ready {a : α} (hs : s.lookup w.key = some fut) (h : w.poll fut = .ready a) :
    s.wake w = (some a, s.erase w.key) := by
  simp only [wake, hs, h]

theorem wake_pending {rest : φ} (hs : s.lookup w.key = some fut)
    (h : (w.poll fut : Poll φ α) = .pending rest) :
    s.wake w = (none, s.insert w.key rest) := by
  simp only [wake, hs, h]

/-- What a wake does: nothing, if the future has completed before; otherwise it completes now,
or goes on. -/
theorem wake_cases (hI : s.Satisfy I) (hw : w.Leads I out) :
    (w.key ∉ s ∧ s.wake w = (none, s)) ∨
      (w.key ∈ s ∧ s.wake w = (some (out w.key), s.erase w.key)) ∨
      ∃ rest, w.key ∈ s ∧ I w.key rest ∧ s.wake w = (none, s.insert w.key rest) := by
  cases hs : s.lookup w.key with
  | none =>
      have hnot : w.key ∉ s := AList.lookup_eq_none.mp hs
      exact .inl ⟨hnot, wake_of_notMem hnot⟩
  | some fut =>
      have hmem : w.key ∈ s := AList.lookup_isSome.mp (hs ▸ rfl)
      rcases hw fut (hI _ _ hs) with hready | ⟨rest, hpending, hrest⟩
      · exact .inr (.inl ⟨hmem, wake_ready hs hready⟩)
      · exact .inr (.inr ⟨rest, hmem, hrest, wake_pending hs hpending⟩)

/-- What the futures satisfy they still satisfy afterwards. -/
theorem satisfy_wake (hI : s.Satisfy I) (hw : w.Leads I out) : (s.wake w).2.Satisfy I := by
  intro k fut h
  rcases wake_cases hI hw with ⟨-, heq⟩ | ⟨-, heq⟩ | ⟨rest, -, hrest, heq⟩
  · rw [heq] at h
    exact hI k fut h
  · rw [heq] at h
    by_cases hk : k = w.key
    · subst hk
      rw [AList.lookup_erase] at h
      contradiction
    · rw [AList.lookup_erase_ne hk] at h
      exact hI k fut h
  · rw [heq] at h
    by_cases hk : k = w.key
    · subst hk
      rw [AList.lookup_insert] at h
      obtain rfl := Option.some.inj h
      exact hrest
    · rw [AList.lookup_insert_ne hk] at h
      exact hI k fut h

/-- **The items are the outputs** of the futures that have completed, one each; the others are
still there. -/
theorem outputs_perm (hI : s.Satisfy I)
    (hws : ∀ w ∈ ws, w.Leads I out) :
    ∃ order, (Lts.outputs wake s ws).reduceOption = order.map out ∧
      (order ++ (Lts.final wake s ws).keys).Perm s.keys := by
  induction ws generalizing s with
  | nil => exact ⟨[], rfl, .refl _⟩
  | cons w ws ih =>
      have hw := hws w List.mem_cons_self
      obtain ⟨order, hitems, hperm⟩ :=
        ih (satisfy_wake hI hw) fun w' hw' ↦ hws w' (List.mem_cons_of_mem w hw')
      rw [Lts.outputs, Lts.final]
      rcases wake_cases hI hw with ⟨-, heq⟩ | ⟨hmem, heq⟩ | ⟨rest, hmem, -, heq⟩
      · rw [heq] at hitems hperm ⊢
        exact ⟨order, hitems, hperm⟩
      · rw [heq] at hitems hperm ⊢
        refine ⟨w.key :: order, ?_, ?_⟩
        · rw [List.reduceOption_cons_of_some, hitems, List.map_cons]
        · rw [AList.keys_erase] at hperm
          exact (hperm.cons w.key).trans (List.perm_cons_erase (AList.mem_keys.mp hmem)).symm
      · rw [heq] at hitems hperm ⊢
        refine ⟨order, hitems, ?_⟩
        rw [AList.keys_insert] at hperm
        exact hperm.trans (List.perm_cons_erase (AList.mem_keys.mp hmem)).symm

/-- Woken in some order, with answers that make them complete, the futures complete in it. -/
theorem outputs_order {order : List Nat} (answers : Nat → ∀ o, res o) (hI : s.Satisfy I)
    (hperm : order.Perm s.keys) (hdone : ∀ k ∈ order, Wake.Completes I out ⟨k, answers k⟩) :
    (Lts.outputs wake s (order.map fun k ↦ ⟨k, answers k⟩)).reduceOption = order.map out ∧
      (Lts.final wake s (order.map fun k ↦ ⟨k, answers k⟩)).keys = [] := by
  induction order generalizing s with
  | nil => exact ⟨rfl, hperm.nil_eq.symm⟩
  | cons k order ih =>
      have hk := hdone k List.mem_cons_self
      have hmem : k ∈ s := AList.mem_keys.mpr (hperm.subset List.mem_cons_self)
      obtain ⟨fut, hfut⟩ := Option.isSome_iff_exists.mp (AList.lookup_isSome.mpr hmem)
      have hwake : s.wake ⟨k, answers k⟩ = (some (out k), s.erase k) :=
        wake_ready hfut (hk fut (hI k fut hfut))
      have hrest : order.Perm (s.erase k).keys := by
        rw [AList.keys_erase]
        exact (hperm.trans (List.perm_cons_erase (AList.mem_keys.mp hmem))).cons_inv
      have hI' : Satisfy I (s.erase k) := by
        have h := satisfy_wake hI hk.leads
        rwa [hwake] at h
      obtain ⟨hitems, hempty⟩ := ih hI' hrest fun k' hk' ↦ hdone k' (List.mem_cons_of_mem k hk')
      rw [List.map_cons, Lts.outputs, Lts.final, hwake, List.reduceOption_cons_of_some, hitems]
      exact ⟨rfl, hempty⟩

/-- Futures do not come back. -/
theorem keys_final_subset (hI : s.Satisfy I) (hws : ∀ w ∈ ws, w.Leads I out) :
    (Lts.final wake s ws).keys ⊆ s.keys := by
  obtain ⟨order, -, hperm⟩ := outputs_perm hI hws
  exact fun k hk ↦ hperm.subset (List.mem_append_right order hk)

/-- A future that completes when it is woken has completed in the end. -/
theorem notMem_final (hI : s.Satisfy I)
    (hws : ∀ w ∈ ws, w.Leads I out) (hmem : w ∈ ws) (hw : w.Completes I out) :
    w.key ∉ (Lts.final wake s ws).keys := by
  induction ws generalizing s with
  | nil => contradiction
  | cons w' ws ih =>
      have hw' := hws w' List.mem_cons_self
      have hI' := satisfy_wake hI hw'
      have hrest := fun v hv ↦ hws v (List.mem_cons_of_mem w' hv)
      rcases List.mem_cons.mp hmem with rfl | hmem
      · refine fun h ↦ ?_
        have hkey := keys_final_subset hI' hrest h
        cases hs : s.lookup w.key with
        | none =>
            have hnot : w.key ∉ s := AList.lookup_eq_none.mp hs
            rw [wake_of_notMem hnot] at hkey
            exact hnot (AList.mem_keys.mpr hkey)
        | some fut =>
            rw [wake_ready hs (hw fut (hI _ _ hs)), AList.keys_erase] at hkey
            exact s.keys_nodup.not_mem_erase hkey
      · exact ih hI' hrest hmem

end Items

end FuturesUnordered

/-! ## Loops -/

/-- The body of a loop over a stream goes on in a new state, or returns; what comes behind the
loop returns from its last state. -/
structure Loop (α γ β : Type) where
  body : γ → α → γ ⊕ β
  done : γ → β

/-- A loop over a stream of futures: it waits for the next item, or has returned. -/
inductive Looping (φ γ β : Type)
  | waiting (s : FuturesUnordered φ) (acc : γ)
  | returned (b : β)

namespace Loop

variable (l : Loop α γ β)

/-- The loop over the items of a list. -/
def fold : γ → List α → γ ⊕ β
  | acc, [] => .inl acc
  | acc, a :: items => match l.body acc a with
    | .inl acc => fold acc items
    | .inr b => .inr b

/-- What is returned if there are no more items. -/
def result (acc : γ) (items : List α) : β := (l.fold acc items).elim l.done id

/-- Ask for the next item, unless the body has returned: if all futures have completed there is
none, and the loop ends. -/
def next (s : FuturesUnordered φ) : γ ⊕ β → Looping φ γ β
  | .inl acc => if s.keys = [] then .returned (l.done acc) else .waiting s acc
  | .inr b => .returned b

variable [Future res φ α]

/-- One of the futures is woken. -/
def step : Looping φ γ β → Wake res → Looping φ γ β
  | .waiting s acc, w => match s.wake w with
    | (none, s) => .waiting s acc
    | (some a, s) => l.next s (l.body acc a)
  | .returned b, _ => .returned b

/-- What some wakes lead to. -/
def run (state : Looping φ γ β) (ws : List (Wake res)) : Looping φ γ β := ws.foldl l.step state

variable {l} {s : FuturesUnordered φ} {acc : γ} {b : β} {w : Wake res} {ws : List (Wake res)}

theorem fold_append (acc : γ) (items items' : List α) : l.fold acc (items ++ items') =
    (l.fold acc items).elim (fun acc ↦ l.fold acc items') .inr := by
  induction items generalizing acc with
  | nil => rfl
  | cons a items ih =>
      rw [List.cons_append, fold, fold]
      cases l.body acc a with
      | inl acc => exact ih acc
      | inr b => rfl

/-- What is returned early does not depend on what is left. -/
theorem result_append_of_inr {items : List α} (h : l.fold acc items = .inr b)
    (items' : List α) : l.result acc (items ++ items') = b := by
  rw [result, fold_append, h]
  rfl

/-- Who has returned does not care who is woken. -/
theorem run_of_returned (b : β) (ws : List (Wake res)) :
    l.run (.returned b : Looping φ γ β) ws = .returned b := by
  induction ws with
  | nil => rfl
  | cons w ws ih => exact ih

/-- A wake gives the body the item there is. -/
theorem step_next (s : FuturesUnordered φ) (acc : γ) (w : Wake res) :
    l.step (l.next s (.inl acc)) w =
      l.next (s.wake w).2 ((s.wake w).1.elim (.inl acc) (l.body acc)) := by
  by_cases hempty : s.keys = []
  · have hnot : w.key ∉ s := fun hmem ↦ List.not_mem_nil (hempty ▸ AList.mem_keys.mp hmem)
    rw [FuturesUnordered.wake_of_notMem hnot, next, if_pos hempty, Option.elim_none, next,
      if_pos hempty]
    rfl
  · rw [next, if_neg hempty, step]
    cases hs : s.lookup w.key with
    | none =>
        rw [FuturesUnordered.wake_of_notMem (AList.lookup_eq_none.mp hs), Option.elim_none, next,
          if_neg hempty]
    | some fut =>
        cases hpoll : w.poll fut with
        | ready a =>
            rw [FuturesUnordered.wake_ready hs hpoll]
            rfl
        | pending rest =>
            rw [FuturesUnordered.wake_pending hs hpoll, Option.elim_none, next, if_neg]
            rw [AList.keys_insert]
            exact List.cons_ne_nil _ _

/-- **How far a loop comes**: it has gone through the items there are by now. -/
theorem run_next (s : FuturesUnordered φ) (acc : γ) (ws : List (Wake res)) :
    l.run (l.next s (.inl acc)) ws = l.next (Lts.final FuturesUnordered.wake s ws)
      (l.fold acc (Lts.outputs FuturesUnordered.wake s ws).reduceOption) := by
  induction ws generalizing s acc with
  | nil => rfl
  | cons w ws ih =>
      rw [run, List.foldl_cons, step_next, Lts.final, Lts.outputs]
      cases (s.wake w).1 with
      | none => exact ih _ _
      | some a =>
          rw [List.reduceOption_cons_of_some, fold, Option.elim_some]
          cases l.body acc a with
          | inl acc => exact ih _ _
          | inr b => exact run_of_returned b ws

section Outputs

variable {I : Nat → φ → Prop} {out : Nat → α}

/-- **What a loop returns**: what it does over the outputs of all futures, in one order or
another. -/
theorem run_returned (hI : s.Satisfy I) (hws : ∀ w ∈ ws, w.Leads I out)
    (h : l.run (l.next s (.inl acc)) ws = .returned b) :
    ∃ order : List Nat, order.Perm s.keys ∧ l.result acc (order.map out) = b := by
  obtain ⟨order, hitems, hperm⟩ := FuturesUnordered.outputs_perm hI hws
  refine ⟨_, hperm, ?_⟩
  rw [run_next, hitems] at h
  cases hfold : l.fold acc (order.map out) with
  | inl acc' =>
      rw [hfold, next] at h
      split at h
      · next hempty =>
          rw [hempty, List.append_nil, result, hfold]
          exact Looping.returned.inj h
      · contradiction
  | inr b' =>
      rw [hfold] at h
      rw [List.map_append, result_append_of_inr hfold]
      exact Looping.returned.inj h

/-- **When a loop returns**: at the latest when all futures have completed. -/
theorem run_returns (hI : s.Satisfy I) (hws : ∀ w ∈ ws, w.Leads I out)
    (hdone : ∀ k ∈ s.keys, ∃ w ∈ ws, w.key = k ∧ w.Completes I out) :
    ∃ b, l.run (l.next s (.inl acc)) ws = .returned b := by
  have hempty : (Lts.final FuturesUnordered.wake s ws).keys = [] := by
    refine List.eq_nil_iff_forall_not_mem.mpr fun k hk ↦ ?_
    obtain ⟨w, hmem, rfl, hw⟩ := hdone k (FuturesUnordered.keys_final_subset hI hws hk)
    exact FuturesUnordered.notMem_final hI hws hmem hw hk
  rw [run_next]
  cases l.fold acc (Lts.outputs FuturesUnordered.wake s ws).reduceOption with
  | inl acc' => exact ⟨l.done acc', if_pos hempty⟩
  | inr b => exact ⟨b, rfl⟩

/-- **Every order may come.** -/
theorem run_order {order : List Nat} (answers : Nat → ∀ o, res o) (hI : s.Satisfy I)
    (hperm : order.Perm s.keys) (hdone : ∀ k ∈ order, Wake.Completes I out ⟨k, answers k⟩) :
    l.run (l.next s (.inl acc)) (order.map fun k ↦ ⟨k, answers k⟩) =
      .returned (l.result acc (order.map out)) := by
  obtain ⟨hitems, hempty⟩ := FuturesUnordered.outputs_order answers hI hperm hdone
  rw [run_next, hitems, result]
  cases l.fold acc (order.map out) with
  | inl acc' => exact if_pos hempty
  | inr b => rfl

end Outputs

end Loop
