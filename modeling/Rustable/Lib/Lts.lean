import Mathlib.Data.List.Forall2
import Mathlib.Tactic.Common

/-!
# Runs of labelled transition systems

Two ways of giving a system its behaviour are used in this development, and this
file holds what both of them need.

* A **step relation** `step : σ → ε → σ → Prop`: a state may have any number of
  successors under a label, and some labels may be disabled.  `Run step s es t`
  is a finite run, and `Reachable step s t` forgets its labels.
* A **machine** `f : σ → ε → ρ × σ`: every label is accepted, and answered with
  a result.  `outputs f s es` is what a run answers, `final f s es` the state it
  ends in.

A statement about every run is proved by `Run.invariant`, from what one step
preserves.  A statement about the runs all of whose steps satisfy a condition is
a statement about the runs of `restrict step G`; `Run.restrict_congr` compares two
such conditions.  Where a condition decides whether a step is accepted and does what
it should, `accepted_iff_meets` says the same of a run.  What the labels of a run tell
is kept in a ghost, a value that is updated with each label and that no step looks at:
`Run.ghost` relates it to the states.  For machines the corresponding rule is
`Simulates.run`; what a machine ignores can be left out of its input (`trace_erase`).
-/

universe u v w x y z

namespace Lts

variable {σ : Type u} {ε : Type v} {τ : Type w} {ρ : Type x} {ρ' : Type y} {γ : Type z}

/-! ## Step relations -/

/-- `Run step s es t`: from `s`, steps with the labels `es`, in order, lead to
`t`. -/
inductive Run (step : σ → ε → σ → Prop) : σ → List ε → σ → Prop
  | /-- The empty run. -/
    nil (s : σ) : Run step s [] s
  | /-- A step followed by a run. -/
    cons {s t u : σ} {e : ε} {es : List ε} :
      step s e t → Run step t es u → Run step s (e :: es) u

/-- The steps of `step` that satisfy `G` at their source state. -/
def restrict (step : σ → ε → σ → Prop) (G : σ → ε → Prop) : σ → ε → σ → Prop :=
  fun s e t ↦ step s e t ∧ G s e

/-- Some run leads from `s` to `t`. -/
def Reachable (step : σ → ε → σ → Prop) (s t : σ) : Prop := ∃ es, Run step s es t

variable {step : σ → ε → σ → Prop} {G H : σ → ε → Prop} {s t u : σ} {e : ε} {es fs : List ε}

namespace Run

theorem single (h : step s e t) : Run step s [e] t := .cons h (.nil t)

/-- Runs compose. -/
theorem append (h : Run step s es t) (k : Run step t fs u) : Run step s (es ++ fs) u := by
  induction h with
  | nil s => exact k
  | cons hs _ ih => exact .cons hs (ih k)

/-- **The invariant rule**: what every step preserves holds at the end of every
run from a state where it holds. -/
theorem invariant {Inv : σ → Prop} (hstep : ∀ s e t, Inv s → step s e t → Inv t)
    (h : Run step s es t) (hs : Inv s) : Inv t := by
  induction h with
  | nil s => exact hs
  | cons he _ ih => exact ih (hstep _ _ _ hs he)

/-- A restricted run is a run. -/
theorem of_restrict (h : Run (restrict step G) s es t) : Run step s es t := by
  induction h with
  | nil s => exact .nil s
  | cons he _ ih => exact .cons he.1 ih

/-- A condition that always holds restricts nothing. -/
theorem restrict_of_forall (hG : ∀ s e, G s e) (h : Run step s es t) :
    Run (restrict step G) s es t := by
  induction h with
  | nil s => exact .nil s
  | cons he _ ih => exact .cons ⟨he, hG _ _⟩ ih

/-- The restricted steps of a run that stays inside an invariant may be restricted
by any condition that follows from the first one for the steps there. -/
theorem restrict_mono {Inv : σ → Prop}
    (hstep : ∀ s e t, Inv s → restrict step G s e t → Inv t)
    (himp : ∀ s e t, Inv s → step s e t → G s e → H s e) (h : Run (restrict step G) s es t)
    (hs : Inv s) : Run (restrict step H) s es t := by
  induction h with
  | nil s => exact .nil s
  | cons he _ ih => exact .cons ⟨he.1, himp _ _ _ hs he.1 he.2⟩ (ih (hstep _ _ _ hs he))

/-- Two conditions that agree on the steps from an invariant of the restricted steps
restrict to the same runs. -/
theorem restrict_congr {Inv : σ → Prop}
    (hstep : ∀ s e t, Inv s → restrict step G s e t → Inv t)
    (hiff : ∀ s e t, Inv s → step s e t → (G s e ↔ H s e)) (hs : Inv s) :
    Run (restrict step G) s es t ↔ Run (restrict step H) s es t := by
  constructor
  · exact fun h ↦ h.restrict_mono hstep (fun s e t hi he ↦ (hiff s e t hi he).mp) hs
  · refine fun h ↦ h.restrict_mono ?_ (fun s e t hi he ↦ (hiff s e t hi he).mpr) hs
    exact fun s e t hi he ↦ hstep s e t hi ⟨he.1, (hiff s e t hi he.1).mpr he.2⟩

end Run

/-! ## Ghosts -/

/-- `P` holds of every label of a run and the ghost before it. -/
def Along (next : γ → ε → γ) (P : γ → ε → Prop) : γ → List ε → Prop
  | _, [] => True
  | g, e :: es => P g e ∧ Along next P (next g e) es

section Ghost

variable {R : γ → σ → Prop} {next : γ → ε → γ} {P Q : γ → ε → Prop} {g : γ}

/-- What each step keeps between the ghost and the state holds at the end of a run. -/
theorem Run.ghost (hstep : ∀ g s e t, R g s → step s e t → R (next g e) t)
    (h : Run step s es t) (hs : R g s) : R (es.foldl next g) t := by
  induction h generalizing g with
  | nil s => exact hs
  | cons he _ ih => exact ih (hstep _ _ _ _ hs he)

/-- What holds of each step holds along a run. -/
theorem Run.along (hstep : ∀ g s e t, R g s → step s e t → R (next g e) t)
    (hP : ∀ g s e t, R g s → step s e t → P g e) (h : Run step s es t) (hs : R g s) :
    Along next P g es := by
  induction h generalizing g with
  | nil s => trivial
  | cons he _ ih => exact ⟨hP _ _ _ _ hs he, ih (hstep _ _ _ _ hs he)⟩

/-- Weaken what holds along a run, for the labels of the run. -/
theorem Along.imp (himp : ∀ g, ∀ e ∈ es, P g e → Q g e) (h : Along next P g es) :
    Along next Q g es := by
  induction es generalizing g with
  | nil => trivial
  | cons e es ih =>
      exact ⟨himp g e List.mem_cons_self h.1,
        ih (fun g e' he' ↦ himp g e' (List.mem_cons_of_mem e he')) h.2⟩

/-- Two conditions that agree on each step agree along a run. -/
theorem Run.along_congr (hstep : ∀ g s e t, R g s → step s e t → R (next g e) t)
    (hiff : ∀ g s e t, R g s → step s e t → (P g e ↔ Q g e)) (h : Run step s es t)
    (hs : R g s) : Along next P g es ↔ Along next Q g es := by
  induction h generalizing g with
  | nil s => exact Iff.rfl
  | cons he _ ih => exact and_congr (hiff _ _ _ _ hs he) (ih (hstep _ _ _ _ hs he))

end Ghost

namespace Reachable

theorem refl (s : σ) : Reachable step s s := ⟨[], .nil s⟩

theorem tail (h : Reachable step s t) (hs : step t e u) : Reachable step s u :=
  let ⟨es, hr⟩ := h
  ⟨es ++ [e], hr.append (.single hs)⟩

/-- The invariant rule, for reachability. -/
theorem invariant {Inv : σ → Prop} (hstep : ∀ s e t, Inv s → step s e t → Inv t)
    (h : Reachable step s t) (hs : Inv s) : Inv t :=
  let ⟨_, hr⟩ := h
  hr.invariant hstep hs

end Reachable

/-! ## Termination -/

/-- No step can be taken. -/
def Stuck (step : σ → ε → σ → Prop) (s : σ) : Prop := ∀ e t, ¬step s e t

/-- Whatever steps are taken from `s`, at most `bound` of them can be taken one after another,
and when none can be taken any more `P` holds. -/
structure Settles (step : σ → ε → σ → Prop) (P : σ → Prop) (bound : Nat) (s : σ) : Prop where
  length : ∀ es t, Run step s es t → es.length ≤ bound
  stuck : ∀ es t, Run step s es t → Stuck step t → P t

/-- **The measure rule**: a system settles if each step lowers a measure, in the states of an
invariant. -/
theorem Settles.of_measure {Inv P : σ → Prop} {measure : σ → Nat}
    (hstep : ∀ s e t, Inv s → step s e t → Inv t ∧ measure t < measure s)
    (hstuck : ∀ s, Inv s → Stuck step s → P s) (hs : Inv s) : Settles step P (measure s) s where
  length es t h := by
    induction h with
    | nil s => exact Nat.zero_le _
    | cons he _ ih =>
        obtain ⟨hinv, hlt⟩ := hstep _ _ _ hs he
        exact Nat.le_trans (Nat.succ_le_succ (ih hinv)) hlt
  stuck es t h := hstuck t (h.invariant (fun s e t hs he ↦ (hstep s e t hs he).1) hs)

/-- What settles does so in the end. -/
theorem Settles.exists_run {P : σ → Prop} {bound : Nat} (h : Settles step P bound s) :
    ∃ es t, Run step s es t ∧ P t := by
  -- A run that is as long as possible ends where no step can be taken.
  have hlong (n : Nat) : (∃ es t, Run step s es t ∧ Stuck step t) ∨
      ∃ es t, Run step s es t ∧ es.length = n := by
    induction n with
    | zero => exact .inr ⟨[], s, .nil s, rfl⟩
    | succ n ih =>
        obtain hstuck | ⟨es, t, hrun, rfl⟩ := ih
        · exact .inl hstuck
        · by_cases hstuck : Stuck step t
          · exact .inl ⟨es, t, hrun, hstuck⟩
          · obtain ⟨e, u, he⟩ : ∃ e u, step t e u := by simpa [Stuck] using hstuck
            exact .inr ⟨es ++ [e], u, hrun.append (.single he), List.length_append⟩
  obtain ⟨es, t, hrun, hstuck⟩ | ⟨es, t, hrun, hlength⟩ := hlong (bound + 1)
  · exact ⟨es, t, hrun, h.stuck es t hrun hstuck⟩
  · exact absurd (h.length es t hrun) (by omega)

/-! ## Executable step relations -/

/-- The step relation of a partial function: labels it does not accept are
disabled. -/
def ofNext (next : σ → ε → Option σ) : σ → ε → σ → Prop := fun s e t ↦ next s e = some t

/-- Replay a list of labels. -/
def replay (next : σ → ε → Option σ) : σ → List ε → Option σ
  | s, [] => some s
  | s, e :: es => (next s e).bind fun t ↦ replay next t es

/-- What can be replayed is a run. -/
theorem Run.of_replay {next : σ → ε → Option σ} {s t : σ} {es : List ε}
    (h : replay next s es = some t) : Run (ofNext next) s es t := by
  induction es generalizing s with
  | nil =>
      obtain rfl : s = t := by simpa [replay] using h
      exact .nil s
  | cons e es ih =>
      obtain ⟨u, hu, hrest⟩ := Option.bind_eq_some_iff.mp h
      exact .cons hu (ih hrest)

/-- Replay a list of labels as long as the steps satisfy a condition. -/
def replayIf (next : σ → ε → Option σ) (G : σ → ε → Prop) [∀ s e, Decidable (G s e)] :
    σ → List ε → Option σ := replay fun s e ↦ if G s e then next s e else none

theorem Run.of_replayIf {next : σ → ε → Option σ} [∀ s e, Decidable (G s e)] {s t : σ}
    {es : List ε} (h : replayIf next G s es = some t) :
    Run (restrict (ofNext next) G) s es t := by
  induction es generalizing s with
  | nil =>
      obtain rfl : s = t := by simpa [replayIf, replay] using h
      exact .nil s
  | cons e es ih =>
      obtain ⟨u, hu, hrest⟩ := Option.bind_eq_some_iff.mp h
      obtain ⟨hG, hu⟩ := Option.ite_none_right_eq_some.mp hu
      exact .cons ⟨hu, hG⟩ (ih hrest)

/-- Every label is accepted in its turn, by a step that satisfies `P`. -/
def Accepted (next : σ → ε → Option σ) (P : σ → ε → σ → Prop) : σ → List ε → Prop
  | _, [] => True
  | s, e :: es => ∃ t, next s e = some t ∧ P s e t ∧ Accepted next P t es

/-- `C` holds of every label and the state before it, as long as the labels are accepted. -/
def Meets (next : σ → ε → Option σ) (C : σ → ε → Prop) : σ → List ε → Prop
  | _, [] => True
  | s, e :: es => C s e ∧ ∀ t, next s e = some t → Meets next C t es

/-- **From one step to a run**: if in the states of an invariant `C` decides whether a step is
accepted and satisfies `P`, it decides so for a whole run. -/
theorem accepted_iff_meets {next : σ → ε → Option σ} {P : σ → ε → σ → Prop} {C : σ → ε → Prop}
    {Inv : σ → Prop} (hstep : ∀ s e t, Inv s → next s e = some t → Inv t)
    (hiff : ∀ s e, Inv s → ((∃ t, next s e = some t ∧ P s e t) ↔ C s e)) (hs : Inv s) :
    Accepted next P s es ↔ Meets next C s es := by
  induction es generalizing s with
  | nil => exact Iff.rfl
  | cons e es ih =>
      constructor
      · rintro ⟨t, ht, hP, hrest⟩
        refine ⟨(hiff s e hs).mp ⟨t, ht, hP⟩, fun u hu ↦ ?_⟩
        obtain rfl := Option.some.inj (ht.symm.trans hu)
        exact (ih (hstep s e t hs ht)).mp hrest
      · rintro ⟨hC, hrest⟩
        obtain ⟨t, ht, hP⟩ := (hiff s e hs).mpr hC
        exact ⟨t, ht, hP, (ih (hstep s e t hs ht)).mpr (hrest t ht)⟩

/-- Whatever labels it is given, `next` goes on until it comes to a state in `P`. -/
inductive Inevitable (next : σ → ε → Option σ) (P : σ → Prop) : σ → Prop
  | now {s : σ} : P s → Inevitable next P s
  | later {s : σ} : (∀ e, (next s e).isSome = true) →
      (∀ e t, next s e = some t → Inevitable next P t) → Inevitable next P s

/-- What is inevitable may be reached in stages. -/
theorem Inevitable.bind {next : σ → ε → Option σ} {P Q : σ → Prop} {s : σ}
    (h : Inevitable next Q s) (hQ : ∀ t, Q t → Inevitable next P t) : Inevitable next P s := by
  induction h with
  | now h => exact hQ _ h
  | later hsome _ ih => exact .later hsome ih

/-- Along every sequence of labels, a state in `P` is reached. -/
theorem Inevitable.exists_replay {next : σ → ε → Option σ} {P : σ → Prop} {s : σ}
    (h : Inevitable next P s) (labels : Nat → ε) :
    ∃ n t, replay next s ((List.range n).map labels) = some t ∧ P t := by
  induction h generalizing labels with
  | now h => exact ⟨0, _, rfl, h⟩
  | @later s hsome hnext ih =>
      obtain ⟨t, ht⟩ := Option.isSome_iff_exists.mp (hsome (labels 0))
      obtain ⟨n, u, hu, hP⟩ := ih _ t ht fun i ↦ labels (i + 1)
      refine ⟨n + 1, u, ?_, hP⟩
      rw [List.range_succ_eq_map, List.map_cons, List.map_map, replay, ht]
      exact hu

/-! ## Machines -/

/-- The results a machine answers along a list of labels. -/
def outputs (f : σ → ε → ρ × σ) : σ → List ε → List ρ
  | _, [] => []
  | s, e :: es => (f s e).1 :: outputs f (f s e).2 es

/-- The state a machine ends in. -/
def final (f : σ → ε → ρ × σ) : σ → List ε → σ
  | s, [] => s
  | s, e :: es => final f (f s e).2 es

/-- From `R`-related states, `f` and `g` give `Q`-related answers to every label,
and stay `R`-related. -/
def Simulates (R : σ → τ → Prop) (Q : ρ → ρ' → Prop) (f : σ → ε → ρ × σ)
    (g : τ → ε → ρ' × τ) : Prop :=
  ∀ s t e, R s t → Q (f s e).1 (g t e).1 ∧ R (f s e).2 (g t e).2

/-- **Simulation carries over to runs**: related states give related answers along
every list of labels, and end in related states. -/
theorem Simulates.run {R : σ → τ → Prop} {Q : ρ → ρ' → Prop} {f : σ → ε → ρ × σ}
    {g : τ → ε → ρ' × τ} (h : Simulates R Q f g) {s : σ} {t : τ} (hR : R s t) (es : List ε) :
    List.Forall₂ Q (outputs f s es) (outputs g t es) ∧ R (final f s es) (final g t es) := by
  induction es generalizing s t with
  | nil => exact ⟨.nil, hR⟩
  | cons e es ih =>
      obtain ⟨hout, hnext⟩ := h s t e hR
      obtain ⟨ihout, ihfin⟩ := ih hnext
      exact ⟨.cons hout ihout, ihfin⟩

/-! ### Erasure -/

/-- The run of a machine, with the state before each label and the result. -/
def trace (f : σ → ε → ρ × σ) : σ → List ε → List (σ × ε × ρ)
  | _, [] => []
  | s, e :: es => (s, e, (f s e).1) :: trace f (f s e).2 es

section Erase

variable {f : σ → ε → ρ × σ} {Inv : σ → Prop} {keep : ε → Bool}

/-- The states of a run satisfy an invariant. -/
theorem trace_invariant (hstep : ∀ s e, Inv s → Inv (f s e).2) (hs : Inv s) :
    ∀ x ∈ trace f s es, Inv x.1 ∧ x.2.1 ∈ es ∧ x.2.2 = (f x.1 x.2.1).1 := by
  induction es generalizing s with
  | nil =>
      intro x hx
      contradiction
  | cons e es ih =>
      intro x hx
      rcases List.mem_cons.mp hx with rfl | hx
      · exact ⟨hs, List.mem_cons_self, rfl⟩
      · obtain ⟨hinv, hmem, hout⟩ := ih (hstep s e hs) x hx
        exact ⟨hinv, List.mem_cons_of_mem e hmem, hout⟩

/-- **Labels that do not change the state leave no trace**: without them, a machine goes
through the same states, gives the same results and ends in the same state. -/
theorem trace_erase (hignored : ∀ x ∈ trace f s es, keep x.2.1 = false → (f x.1 x.2.1).2 = x.1) :
    (trace f s es).filter (fun x ↦ keep x.2.1) = trace f s (es.filter keep) ∧
      final f s es = final f s (es.filter keep) := by
  induction es generalizing s with
  | nil => exact ⟨rfl, rfl⟩
  | cons e es ih =>
      obtain ⟨hfirst, hrest⟩ := List.forall_mem_cons.mp hignored
      obtain ⟨htrace, hfinal⟩ := ih hrest
      rw [trace, final, List.filter_cons, List.filter_cons]
      cases hkeep : keep e with
      | true =>
          rw [if_pos rfl, if_pos rfl, htrace, hfinal]
          exact ⟨rfl, rfl⟩
      | false =>
          rw [hfirst hkeep] at htrace hfinal ⊢
          rw [if_neg Bool.false_ne_true, if_neg Bool.false_ne_true]
          exact ⟨htrace, hfinal⟩

end Erase

end Lts
