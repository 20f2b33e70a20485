import Mathlib.Tactic.Common

/-!
# Actions on a state

`Act ω ο σ α` is a computation on a state `σ` that sends outputs `ο` on its way and
either returns an `α` or stops for good, for a reason in `ω`.  What has been sent
before it stops has been sent.

The second half bounds what an action does.  An `Effect` says which changes of state,
which outputs and which reasons to stop are allowed, and `Within e x` that `x` keeps to
them; it is proved along the structure of the action.
-/

universe u v

/-- How an action ends: it returns, in a new state, or it stops; with what it has
sent. -/
inductive Ran (ω ο σ : Type) (α : Type u)
  | done (a : α) (s : σ) (out : List ο)
  | stop (why : ω) (out : List ο)

/-- A computation on a state. -/
def Act (ω ο σ : Type) (α : Type u) := σ → Ran ω ο σ α

variable {ω ο σ : Type} {α β : Type u}

/-- The same ending, with earlier outputs in front. -/
def Ran.after (out : List ο) : Ran ω ο σ α → Ran ω ο σ α
  | .done a s out' => .done a s (out ++ out')
  | .stop why out' => .stop why (out ++ out')

/-- The same ending, with another result. -/
def Ran.map (f : α → β) : Ran ω ο σ α → Ran ω ο σ β
  | .done a s out => .done (f a) s out
  | .stop why out => .stop why out

@[simp] theorem Ran.after_nil (r : Ran ω ο σ α) : r.after [] = r := by
  cases r <;> rfl

namespace Act

instance : Monad (Act ω ο σ) where
  pure a := fun s ↦ .done a s []
  bind x f := fun s ↦ match x s with
    | .done a s' out => (f a s').after out
    | .stop why out => .stop why out

/-- Stop. -/
def stop (why : ω) : Act ω ο σ α := fun _ ↦ .stop why []

/-- Send an output. -/
def emit (o : ο) : Act ω ο σ PUnit := fun s ↦ .done ⟨⟩ s [o]

/-- Read the state. -/
def read {σ : Type} : Act ω ο σ σ := fun s ↦ .done s s []

/-- Change the state. -/
def modify (f : σ → σ) : Act ω ο σ PUnit := fun s ↦ .done ⟨⟩ (f s) []

/-- Change the state and return something. -/
def embed (f : σ → α × σ) : Act ω ο σ α := fun s ↦ .done (f s).1 (f s).2 []

/-- Return what is there, or stop. -/
def unwrap (why : ω) : Option α → Act ω ο σ α
  | some a => pure a
  | none => stop why

@[simp] theorem pure_apply (a : α) (s : σ) :
    (pure a : Act ω ο σ α) s = .done a s [] := rfl

@[simp] theorem stop_apply (why : ω) (s : σ) : (stop why : Act ω ο σ α) s = .stop why [] := rfl

@[simp] theorem emit_apply (o : ο) (s : σ) : (emit o : Act ω ο σ PUnit) s = .done ⟨⟩ s [o] := rfl

@[simp] theorem read_apply (s : σ) : (read : Act ω ο σ σ) s = .done s s [] := rfl

@[simp] theorem modify_apply (f : σ → σ) (s : σ) :
    (modify f : Act ω ο σ PUnit) s = .done ⟨⟩ (f s) [] := rfl

@[simp] theorem embed_apply (f : σ → α × σ) (s : σ) :
    (embed f : Act ω ο σ α) s = .done (f s).1 (f s).2 [] := rfl

@[simp] theorem unwrap_some (why : ω) (a : α) :
    (unwrap why (some a) : Act ω ο σ α) = pure a := rfl

@[simp] theorem unwrap_none (why : ω) : (unwrap why none : Act ω ο σ α) = stop why := rfl

theorem bind_apply (x : Act ω ο σ α) (f : α → Act ω ο σ β) (s : σ) :
    (x >>= f) s = match x s with
      | .done a s' out => (f a s').after out
      | .stop why out => .stop why out := rfl

/-- An action of which only the result is used. -/
theorem bind_pure_apply (x : Act ω ο σ α) (f : α → β) (s : σ) :
    (x >>= fun a ↦ pure (f a)) s = (x s).map f := by
  rw [bind_apply]
  cases x s with
  | done a t out => exact congrArg (Ran.done (f a) t) (List.append_nil out)
  | stop why out => rfl

/-- An action that returns at once and sends nothing is followed by the next one. -/
theorem bind_done {x : Act ω ο σ α} {s s' : σ} {a : α} (h : x s = .done a s' [])
    (f : α → Act ω ο σ β) : (x >>= f) s = f a s' := by
  rw [bind_apply, h]
  exact Ran.after_nil _

@[simp] theorem pure_bind (a : α) (f : α → Act ω ο σ β) : (pure a >>= f) = f a :=
  funext fun s ↦ bind_done (pure_apply a s) f

@[simp] theorem stop_bind (why : ω) (f : α → Act ω ο σ β) :
    ((stop why : Act ω ο σ α) >>= f) = stop why := rfl

@[simp] theorem read_bind {σ α : Type} (f : σ → Act ω ο σ α) (s : σ) :
    (read >>= f) s = f s s := bind_done (read_apply s) f

@[simp] theorem modify_bind (g : σ → σ) (f : PUnit → Act ω ο σ α) (s : σ) :
    (modify g >>= f) s = f ⟨⟩ (g s) := bind_done (modify_apply g s) f

@[simp] theorem embed_bind (g : σ → α × σ) (f : α → Act ω ο σ β) (s : σ) :
    (embed g >>= f) s = f (g s).1 (g s).2 := bind_done (embed_apply g s) f

@[simp] theorem emit_bind (o : ο) (f : PUnit → Act ω ο σ α) (s : σ) :
    (emit o >>= f) s = (f ⟨⟩ s).after [o] := rfl

end Act

/-- What has been sent. -/
def Ran.out : Ran ω ο σ α → List ο
  | .done _ _ out => out
  | .stop _ out => out

/-- The same ending, for a state that is part of another one. -/
def Ran.mapState {τ : Type} (f : σ → τ) : Ran ω ο σ α → Ran ω ο τ α
  | .done a s out => .done a (f s) out
  | .stop why out => .stop why out

theorem Ran.map_mapState {τ : Type} (f : σ → τ) (g : α → β) (r : Ran ω ο σ α) :
    (r.mapState f).map g = (r.map g).mapState f := by
  cases r <;> rfl

/-! ## Bounds on what an action does -/

/-- What an action may do: how it may change the state, what it may send and why it may
stop.  Doing nothing is allowed, and so is one allowed change after another. -/
structure Effect (ω ο σ : Type) where
  /-- The changes of state allowed. -/
  changes : σ → σ → Prop
  /-- The outputs allowed. -/
  sends : ο → Prop
  /-- The reasons to stop allowed. -/
  stops : ω → Prop
  /-- The state may stay as it is. -/
  refl : ∀ s, changes s s
  /-- Changes add up. -/
  trans : ∀ {s t u}, changes s t → changes t u → changes s u

/-- An ending, from the state `s`, that keeps within the bounds and returns something
in `R`. -/
def Ran.Within (e : Effect ω ο σ) (R : α → Prop) (s : σ) : Ran ω ο σ α → Prop
  | .done a s' out => R a ∧ e.changes s s' ∧ ∀ o ∈ out, e.sends o
  | .stop why out => e.stops why ∧ ∀ o ∈ out, e.sends o

/-- Nothing is sent but what may be. -/
theorem Ran.Within.sends {e : Effect ω ο σ} {R : α → Prop} {s : σ} {r : Ran ω ο σ α}
    (h : r.Within e R s) : ∀ o ∈ r.out, e.sends o := by
  cases r with
  | done a s' out => exact h.2.2
  | stop why out => exact h.2

namespace Act

variable {e : Effect ω ο σ} {Q : α → Prop} {R : β → Prop}

/-- An action that keeps within the bounds, followed by one that does. -/
theorem within_bind {x : Act ω ο σ α} {f : α → Act ω ο σ β} {s : σ}
    (hx : (x s).Within e Q s) (hf : ∀ a s, Q a → (f a s).Within e R s) :
    ((x >>= f) s).Within e R s := by
  rw [bind_apply]
  cases hrun : x s with
  | stop why out => rwa [hrun] at hx
  | done a s' out =>
      rw [hrun] at hx
      obtain ⟨ha, hchange, hout⟩ := hx
      have hrest := hf a s' ha
      change ((f a s').after out).Within e R s
      cases hfs : f a s' with
      | done b s'' out' =>
          rw [hfs] at hrest
          obtain ⟨hb, hchange', hout'⟩ := hrest
          exact ⟨hb, e.trans hchange hchange', List.forall_mem_append.mpr ⟨hout, hout'⟩⟩
      | stop why out' =>
          rw [hfs] at hrest
          exact ⟨hrest.1, List.forall_mem_append.mpr ⟨hout, hrest.2⟩⟩

/-- From every state the action keeps within the bounds and returns something in `Q`. -/
def Within (e : Effect ω ο σ) (Q : α → Prop) (x : Act ω ο σ α) : Prop :=
  ∀ s, (x s).Within e Q s

namespace Within

variable {x : Act ω ο σ α}

theorem pure {a : α} (h : Q a) : Within e Q (pure a : Act ω ο σ α) :=
  fun s ↦ ⟨h, e.refl s, fun _ ho ↦ nomatch ho⟩

theorem stop {why : ω} (h : e.stops why) : Within e Q (stop why : Act ω ο σ α) :=
  fun _ ↦ ⟨h, fun _ ho ↦ nomatch ho⟩

theorem emit {Q : PUnit → Prop} {o : ο} (ho : e.sends o) (hQ : Q ⟨⟩) :
    Within e Q (emit o : Act ω ο σ PUnit) :=
  fun s ↦ ⟨hQ, e.refl s, fun _ hmem ↦ List.mem_singleton.mp hmem ▸ ho⟩

theorem modify {Q : PUnit → Prop} {f : σ → σ} (hf : ∀ s, e.changes s (f s)) (hQ : Q ⟨⟩) :
    Within e Q (modify f : Act ω ο σ PUnit) :=
  fun s ↦ ⟨hQ, hf s, fun _ ho ↦ nomatch ho⟩

theorem embed {f : σ → α × σ} (hf : ∀ s, e.changes s (f s).2) (hQ : ∀ s, Q (f s).1) :
    Within e Q (embed f : Act ω ο σ α) :=
  fun s ↦ ⟨hQ s, hf s, fun _ ho ↦ nomatch ho⟩

theorem unwrap {why : ω} {o : Option α} (hsome : ∀ a, o = some a → Q a)
    (hnone : o = none → e.stops why) : Within e Q (unwrap why o : Act ω ο σ α) := by
  cases o with
  | some a => exact pure (hsome a rfl)
  | none => exact stop (hnone rfl)

/-- The sequence of two actions. -/
theorem bind {f : α → Act ω ο σ β} (hx : Within e Q x) (hf : ∀ a, Q a → Within e R (f a)) :
    Within e R (x >>= f) := fun s ↦ within_bind (hx s) fun a s' ha ↦ hf a ha s'

/-- The sequence of two actions the first of which may return anything. -/
theorem seq {f : α → Act ω ο σ β} (hx : Within e (fun _ ↦ True) x)
    (hf : ∀ a, Within e R (f a)) : Within e R (x >>= f) := hx.bind fun a _ ↦ hf a

/-- What is read may be anything. -/
theorem read {σ α : Type} {e : Effect ω ο σ} {Q : α → Prop} {f : σ → Act ω ο σ α}
    (hf : ∀ s, Within e Q (f s)) : Within e Q (Act.read >>= f) := by
  intro s
  rw [read_bind]
  exact hf s s

/-- Both branches of a test. -/
theorem ite {c : Prop} [Decidable c] {y : Act ω ο σ α} (hx : c → Within e Q x)
    (hy : ¬c → Within e Q y) : Within e Q (if c then x else y) := by
  split
  · next h => exact hx h
  · next h => exact hy h

end Within

end Act

/-! ## Frames -/

/-- What the view shows of the state stays, and nothing is sent but what may be. -/
def Effect.keeping {γ : Type v} (f : σ → γ) (P : ο → Prop) : Effect ω ο σ where
  changes s s' := f s' = f s
  sends := P
  stops _ := True
  refl _ := rfl
  trans h h' := h'.trans h

/-- The action leaves what the view shows, and sends nothing but what may be sent. -/
abbrev Act.Keeps {γ : Type v} (f : σ → γ) (P : ο → Prop) (x : Act ω ο σ α) : Prop :=
  x.Within (Effect.keeping f P) fun _ ↦ True

section Keeps

variable {γ : Type v} {f : σ → γ} {P : ο → Prop} {x : Act ω ο σ α}

theorem Act.Keeps.unwrap (why : ω) (o : Option α) :
    Act.Keeps f P (Act.unwrap why o : Act ω ο σ α) :=
  Act.Within.unwrap (fun _ _ ↦ trivial) fun _ ↦ trivial

theorem Act.Keeps.of_done (h : x.Keeps f P) {s s' : σ} {a : α} {out : List ο}
    (hrun : x s = .done a s' out) : f s' = f s := by
  have hs := h s
  rw [hrun] at hs
  exact hs.2.1

theorem Act.Keeps.sends (h : x.Keeps f P) (s : σ) : ∀ o ∈ (x s).out, P o := (h s).sends

end Keeps
