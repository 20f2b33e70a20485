import Rustable.Lib.Lts

/-!
# Actors with mailboxes

An actor is a task with a mailbox.  Messages are put into the mailbox by others; the task
takes one turn after another, and in some of them the next message.  What a task does in a
turn, and which turns take a message, is its `Behaviour`.

A system is composed of actors if every one of its steps is, for each actor, a step of that
actor or none (`Composed`).  Then whatever the order in which the steps of the system happen,

* each actor takes the turns of its task by itself (`Composed.run`), and
* it takes the messages in the order in which they were sent, each of them once
  (`Actor.run_spec`).
-/

universe u v w x y z

namespace Mailbox

/-- What tasks with states in `σ` do: in a turn `τ` they tell `ρ`, and they take a message
`μ` at most. -/
structure Behaviour (σ : Type u) (μ : Type v) (τ : Type w) (ρ : Type x) where
  /-- A turn, if it can be taken. -/
  turn : σ → τ → Option (ρ × σ)
  /-- The message a turn takes. -/
  takes : τ → Option μ

/-- A task and its mailbox, with the oldest message first. -/
structure Actor (σ : Type u) (μ : Type v) where
  task : σ
  mailbox : List μ

/-- What an actor sees of a step of its system. -/
inductive Seen (μ : Type v) (τ : Type w)
  | idle
  | sent (msg : μ)
  | turn (t : τ)

namespace Seen

variable {μ : Type v} {τ : Type w}

/-- The message that is sent to the actor. -/
def sent? : Seen μ τ → Option μ
  | sent msg => some msg
  | idle | turn _ => none

/-- The turn the actor takes. -/
def turn? : Seen μ τ → Option τ
  | turn t => some t
  | idle | sent _ => none

/-- The messages that are sent. -/
abbrev sents (seen : List (Seen μ τ)) : List μ := seen.filterMap sent?

/-- The turns that are taken. -/
abbrev turns (seen : List (Seen μ τ)) : List τ := seen.filterMap turn?

end Seen

variable {σ : Type u} {μ : Type v} {τ : Type w} {ρ : Type x} {b : Behaviour σ μ τ ρ}

/-! ## A task by itself -/

namespace Behaviour

/-- The turns of a task, one after another, with what it tells in each of them. -/
def told (b : Behaviour σ μ τ ρ) : σ → List τ → Option (List (τ × ρ) × σ)
  | s, [] => some ([], s)
  | s, t :: ts => (b.turn s t).bind fun (r, s) ↦
      (told b s ts).map fun (log, s) ↦ ((t, r) :: log, s)

variable {s s' : σ} {t : τ} {ts ts' : List τ} {log : List (τ × ρ)}

theorem told_cons_iff : b.told s (t :: ts) = some (log, s') ↔
    ∃ r u rest, b.turn s t = some (r, u) ∧ b.told u ts = some (rest, s') ∧
      log = (t, r) :: rest := by
  rw [told]
  constructor
  · intro h
    obtain ⟨⟨r, u⟩, hturn, h⟩ := Option.bind_eq_some_iff.mp h
    obtain ⟨⟨rest, v⟩, hrest, h⟩ := Option.map_eq_some_iff.mp h
    obtain ⟨rfl, rfl⟩ := Prod.mk.inj h
    exact ⟨r, u, rest, hturn, hrest, rfl⟩
  · rintro ⟨r, u, rest, hturn, hrest, rfl⟩
    rw [hturn, Option.bind_some]
    exact Option.map_eq_some_iff.mpr ⟨_, hrest, rfl⟩

/-- The turns of a task can be cut in two. -/
theorem told_append (h : b.told s (ts ++ ts') = some (log, s')) : ∃ first u second,
    b.told s ts = some (first, u) ∧ b.told u ts' = some (second, s') ∧
      log = first ++ second := by
  induction ts generalizing s log with
  | nil => exact ⟨[], s, log, rfl, h, rfl⟩
  | cons t ts ih =>
      obtain ⟨r, u, rest, hturn, hrest, rfl⟩ := told_cons_iff.mp h
      obtain ⟨first, v, second, hfirst, hsecond, rfl⟩ := ih hrest
      exact ⟨(t, r) :: first, v, second, told_cons_iff.mpr ⟨r, u, first, hturn, hfirst, rfl⟩,
        hsecond, rfl⟩

/-- A turn in the middle: the turns before it, the turn and the turns after it. -/
theorem told_middle (h : b.told s (ts ++ t :: ts') = some (log, s')) : ∃ first u r v second,
    b.told s ts = some (first, u) ∧ b.turn u t = some (r, v) ∧
      b.told v ts' = some (second, s') ∧ log = first ++ (t, r) :: second := by
  obtain ⟨first, u, rest, hfirst, hrest, rfl⟩ := told_append h
  obtain ⟨r, v, second, hturn, hsecond, rfl⟩ := told_cons_iff.mp hrest
  exact ⟨first, u, r, v, second, hfirst, hturn, hsecond, rfl⟩

theorem map_fst_told (h : b.told s ts = some (log, s')) : log.map Prod.fst = ts := by
  induction ts generalizing s log with
  | nil =>
      obtain ⟨rfl, -⟩ := Prod.mk.inj (Option.some.inj h)
      rfl
  | cons t ts ih =>
      obtain ⟨r, u, rest, -, hrest, rfl⟩ := told_cons_iff.mp h
      exact congrArg (t :: ·) (ih hrest)

/-- The first entry of a log is that of the first turn. -/
theorem told_entry {e : τ × ρ} {rest : List (τ × ρ)} (h : b.told s ts = some (e :: rest, s')) :
    ∃ ts' u, ts = e.1 :: ts' ∧ b.turn s e.1 = some (e.2, u) ∧ b.told u ts' = some (rest, s') := by
  obtain rfl : e.1 :: rest.map Prod.fst = ts := map_fst_told h
  obtain ⟨r, u, rest', hturn, hrest, heq⟩ := told_cons_iff.mp h
  obtain ⟨he, hlog⟩ := List.cons.inj heq
  refine ⟨_, u, rfl, ?_, hlog ▸ hrest⟩
  rw [hturn, he]

/-- A log can be cut in two. -/
theorem told_split {first second : List (τ × ρ)} (h : b.told s ts = some (first ++ second, s')) :
    ∃ ts₁ ts₂ u, ts = ts₁ ++ ts₂ ∧ b.told s ts₁ = some (first, u) ∧
      b.told u ts₂ = some (second, s') := by
  induction first generalizing s ts with
  | nil => exact ⟨[], ts, s, rfl, rfl, h⟩
  | cons e first ih =>
      obtain ⟨ts', u, rfl, hturn, hrest⟩ := told_entry h
      obtain ⟨ts₁, ts₂, v, rfl, hfirst, hsecond⟩ := ih hrest
      exact ⟨e.1 :: ts₁, ts₂, v, rfl, told_cons_iff.mpr ⟨e.2, u, first, hturn, hfirst, rfl⟩,
        hsecond⟩

/-- The turn that takes the message at some place takes it after the messages before it. -/
theorem takes_middle {m : μ} {before after : List μ}
    (htakes : ts.filterMap b.takes = before ++ m :: after) : ∃ ts₁ t ts₂, ts = ts₁ ++ t :: ts₂ ∧
      b.takes t = some m ∧ ts₁.filterMap b.takes = before ∧ ts₂.filterMap b.takes = after := by
  obtain ⟨us, vs, rfl, hbefore, hafter⟩ := List.filterMap_eq_append_iff.mp htakes
  obtain ⟨us', t, ts₂, rfl, hnone, ht, hrest⟩ := List.filterMap_eq_cons_iff.mp hafter
  refine ⟨us ++ us', t, ts₂, (List.append_assoc ..).symm, ht, ?_, hrest⟩
  rw [List.filterMap_append, hbefore, List.filterMap_eq_nil_iff.mpr hnone, List.append_nil]

/-- What every turn keeps holds after any number of turns. -/
theorem told_invariant {Inv : σ → Prop}
    (hturn : ∀ s, ∀ t ∈ ts, ∀ r s', Inv s → b.turn s t = some (r, s') → Inv s')
    (h : b.told s ts = some (log, s')) (hs : Inv s) : Inv s' := by
  induction ts generalizing s log with
  | nil =>
      obtain ⟨-, rfl⟩ := Prod.mk.inj (Option.some.inj h)
      exact hs
  | cons t ts ih =>
      obtain ⟨r, u, rest, hu, hrest, -⟩ := told_cons_iff.mp h
      refine ih (fun s t' ht' ↦ hturn s t' (List.mem_cons_of_mem t ht')) hrest ?_
      exact hturn s t List.mem_cons_self r u hs hu

end Behaviour

/-! ## An actor -/

/-- The steps of an actor. -/
inductive Actor.Step (b : Behaviour σ μ τ ρ) : Actor σ μ → Seen μ τ → Actor σ μ → Prop
  | idle (a : Actor σ μ) : Step b a .idle a
  | sent (a : Actor σ μ) (msg : μ) : Step b a (.sent msg) { a with mailbox := a.mailbox ++ [msg] }
  | turn {s s' : σ} {t : τ} {r : ρ} (rest : List μ) (h : b.turn s t = some (r, s')) :
      Step b ⟨s, (b.takes t).toList ++ rest⟩ (.turn t) ⟨s', rest⟩

/-- The messages of some kind in a mailbox are those that are sent and not yet taken. -/
theorem Actor.Step.countP (p : μ → Bool) {a a' : Actor σ μ} {seen : Seen μ τ}
    (h : a.Step b seen a') :
    a'.mailbox.countP p + ((seen.turn?.bind b.takes).toList.countP p) =
      a.mailbox.countP p + seen.sent?.toList.countP p := by
  cases h with
  | idle => rfl
  | sent msg => exact List.countP_append
  | turn rest hturn =>
      refine Eq.trans ?_ (Nat.add_zero _).symm
      rw [List.countP_append]
      exact Nat.add_comm ..

/-- **A mailbox is a queue**: an actor takes the turns of its task, and the messages it has
taken followed by those in its mailbox are those that were in the mailbox followed by those
that have been sent. -/
theorem Actor.run_spec {a a' : Actor σ μ} {seen : List (Seen μ τ)}
    (h : Lts.Run (Actor.Step b) a seen a') :
    (∃ log, b.told a.task (Seen.turns seen) = some (log, a'.task)) ∧
      (Seen.turns seen).filterMap b.takes ++ a'.mailbox = a.mailbox ++ Seen.sents seen := by
  induction h with
  | nil a => exact ⟨⟨[], rfl⟩, (List.append_nil _).symm⟩
  | @cons a a₁ a' e seen hstep _ ih =>
      obtain ⟨⟨log, hlog⟩, hmailbox⟩ := ih
      cases hstep with
      | idle => exact ⟨⟨log, hlog⟩, hmailbox⟩
      | sent msg =>
          refine ⟨⟨log, hlog⟩, hmailbox.trans ?_⟩
          exact List.append_assoc ..
      | @turn s s' t r rest hturn =>
          refine ⟨⟨(t, r) :: log, b.told_cons_iff.mpr ⟨r, s', log, hturn, hlog, rfl⟩⟩, ?_⟩
          have hcons : (Seen.turns (Seen.turn t :: seen)).filterMap b.takes =
              (b.takes t).toList ++ (Seen.turns seen).filterMap b.takes := by
            change (t :: Seen.turns seen).filterMap b.takes = _
            rw [List.filterMap_cons]
            cases b.takes t with
            | none | some => rfl
          have hsents : Seen.sents (Seen.turn t :: seen) = Seen.sents seen :=
            List.filterMap_cons_none rfl
          rw [hcons, hsents, List.append_assoc, List.append_assoc, hmailbox]

/-! ## Systems of actors -/

section Systems

variable {S : Type y} {ε : Type z} {ι : Type*}

/-- In the states of an invariant, a system is composed of actors, each of which is found by
`view`: each of them takes a step with what it sees of a step of the system. -/
structure Composed (b : Behaviour σ μ τ ρ) (Inv : S → Prop) (next : S → ε → Option S)
    (view : S → ι → Option (Actor σ μ)) (sees : S → ε → ι → Seen μ τ) : Prop where
  keeps : ∀ s e t, Inv s → next s e = some t → Inv t
  step : ∀ s e t, Inv s → next s e = some t → ∀ i,
    Option.Rel (fun a a' ↦ a.Step b (sees s e i) a') (view s i) (view t i)

/-- What an actor sees of a run. -/
def history (next : S → ε → Option S) (sees : S → ε → ι → Seen μ τ) (i : ι) :
    S → List ε → List (Seen μ τ)
  | _, [] => []
  | s, e :: es => sees s e i :: (next s e).elim [] fun t ↦ history next sees i t es

variable {Inv : S → Prop} {next : S → ε → Option S} {view : S → ι → Option (Actor σ μ)}
  {sees : S → ε → ι → Seen μ τ}

/-- **Each actor runs by itself**, whatever the order of the steps of the system. -/
theorem Composed.run (h : Composed b Inv next view sees) {s t : S} {es : List ε}
    (hrun : Lts.Run (Lts.ofNext next) s es t) (hs : Inv s) (i : ι) :
    Option.Rel (fun a a' ↦ Lts.Run (Actor.Step b) a (history next sees i s es) a')
      (view s i) (view t i) := by
  induction hrun with
  | nil s =>
      cases view s i with
      | none => exact .none
      | some a => exact .some (.nil a)
  | @cons s u t e es hstep _ ih =>
      have hnext : next s e = some u := hstep
      have hfirst := h.step s e u hs hnext i
      have ih := ih (h.keeps s e u hs hnext)
      rw [history, hnext, Option.elim_some]
      cases hs : view s i with
      | none =>
          rw [hs] at hfirst
          generalize view u i = o at hfirst ih
          cases hfirst
          generalize view t i = o at ih ⊢
          cases ih
          exact .none
      | some a =>
          rw [hs] at hfirst
          generalize view u i = o at hfirst ih
          cases hfirst with
          | some hfirst =>
              generalize view t i = o at ih ⊢
              cases ih with
              | some hrest => exact .some (.cons hfirst hrest)

/-- What holds of all that an actor sees of the steps from the states of an invariant, where `G`
allows them, holds of its history. -/
theorem forall_mem_history {G : S → ε → Prop} {P : Seen μ τ → Prop} {i : ι}
    (h : ∀ s e t, Inv s → next s e = some t → G s e → Inv t ∧ P (sees s e i)) {s t : S}
    {es : List ε} (hrun : Lts.Run (Lts.restrict (Lts.ofNext next) G) s es t) (hs : Inv s) :
    ∀ x ∈ history next sees i s es, P x := by
  induction hrun with
  | nil s => exact nofun
  | @cons s u t e es hstep _ ih =>
      have hnext : next s e = some u := hstep.1
      obtain ⟨hu, hsees⟩ := h s e u hs hnext hstep.2
      rw [history, hnext]
      exact List.forall_mem_cons.mpr ⟨hsees, ih hu⟩

end Systems

end Mailbox
