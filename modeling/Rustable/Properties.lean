import Rustable.Basic

/-!
# The `Properties` trait

`properties.rs`: an object says which interfaces it has with which properties, how a
property is read and how it is set, and the trait answers the calls `Get`, `Set` and
`GetAll` of `org.freedesktop.DBus.Properties` and collects all properties for the
object manager.

A method takes `&mut self`, since reading a value may run a callback, and may panic:
`MayPanic σ α`.  `Readable path I` is what an implementation has to fulfil on the states
in `I` for none of the `unwrap`s of the trait to fail.
-/

namespace Rustable

open DBus

/-- A computation on a state that may panic (`none`). -/
abbrev MayPanic (σ α : Type) := StateT σ Option α

namespace MayPanic

variable {σ α : Type}

/-- A panic. -/
def panic : MayPanic σ α := fun _ ↦ none

/-- `Option::unwrap` -/
def unwrap (o : Option α) : MayPanic σ α := fun s ↦ o.map (·, s)

/-- `Result::unwrap` -/
def unwrapOk {ε : Type} : Except ε α → MayPanic σ α
  | .ok a => pure a
  | .error _ => panic

theorem bind_some {β : Type} {x : MayPanic σ α} {f : α → MayPanic σ β} {s s' : σ} {a : α}
    (h : x s = some (a, s')) : (x >>= f) s = f a s' := by
  change (x s).bind (fun r ↦ f r.1 r.2) = f a s'
  rw [h, Option.bind_some]

@[simp] theorem pure_apply (a : α) (s : σ) : (pure a : MayPanic σ α) s = some (a, s) := rfl

@[simp] theorem get_bind (f : σ → MayPanic σ α) (s : σ) : (get >>= f) s = f s s := rfl

@[simp] theorem set_bind (t : σ) (f : PUnit → MayPanic σ α) (s : σ) :
    (set t >>= f) s = f ⟨⟩ t := rfl

@[simp] theorem modify_bind (g : σ → σ) (f : PUnit → MayPanic σ α) (s : σ) :
    (modify g >>= f) s = f ⟨⟩ (g s) := rfl

@[simp] theorem unwrap_some_bind {β : Type} (a : β) (f : β → MayPanic σ α) (s : σ) :
    (unwrap (some a) >>= f) s = f a s := rfl

@[simp] theorem panic_apply (s : σ) : (panic : MayPanic σ α) s = none := rfl

end MayPanic

/-- A method that may fail as well, and may panic.  What it has changed before it fails stays
changed. -/
abbrev Fallible (σ α : Type) := ExceptT Error (MayPanic σ) α

namespace Fallible

variable {σ α β : Type} {s s' : σ}

/-- Return what has been computed, or end like it. -/
def ofMayFail (x : MayFail α) : Fallible σ α := fun s ↦ x.run.map (·, s)

/-- `Option::unwrap` -/
def unwrap (o : Option α) : Fallible σ α := fun s ↦ o.map (.ok ·, s)

/-- `Result::unwrap` -/
def unwrapOk (x : MayFail α) : Fallible σ α := fun s ↦ x.run.bind fun
  | .ok a => some (.ok a, s)
  | .error _ => none

theorem bind_ok {x : Fallible σ α} {a : α} (h : x s = some (.ok a, s')) (f : α → Fallible σ β) :
    (x >>= f) s = f a s' := by
  change (x s).bind _ = _
  rw [h]
  rfl

theorem bind_error {x : Fallible σ α} {e : Error} (h : x s = some (.error e, s'))
    (f : α → Fallible σ β) : (x >>= f) s = some (.error e, s') := by
  change (x s).bind _ = _
  rw [h]
  rfl

theorem bind_none {x : Fallible σ α} (h : x s = none) (f : α → Fallible σ β) :
    (x >>= f) s = none := by
  change (x s).bind _ = _
  rw [h]
  rfl

/-- A sequence ends as its first part does, if that fails, or else as the second one. -/
theorem bind_eq_some {x : Fallible σ α} {f : α → Fallible σ β} {r : Except Error β}
    (h : (x >>= f) s = some (r, s')) :
    (∃ e, x s = some (.error e, s') ∧ r = .error e) ∨
      ∃ a t, x s = some (.ok a, t) ∧ f a t = some (r, s') := by
  rcases hx : x s with _ | ⟨e | a, t⟩
  · rw [bind_none hx] at h
    contradiction
  · rw [bind_error hx] at h
    obtain ⟨rfl, rfl⟩ := Prod.mk.inj (Option.some.inj h)
    exact .inl ⟨e, rfl, rfl⟩
  · rw [bind_ok hx] at h
    exact .inr ⟨a, t, rfl, h⟩

/-- A sequence returns if both of its parts do. -/
theorem bind_eq_ok {x : Fallible σ α} {f : α → Fallible σ β} {b : β}
    (h : (x >>= f) s = some (.ok b, s')) :
    ∃ a t, x s = some (.ok a, t) ∧ f a t = some (.ok b, s') := by
  rcases bind_eq_some h with ⟨e, -, he⟩ | hok
  · contradiction
  · exact hok

/-- What a sequence returns, if what it returns after its first part is known. -/
theorem fst_bind_ofMayFail {x : MayFail α} {f : α → Fallible σ β} {g : α → MayFail β}
    (h : ∀ a, (f a s).map Prod.fst = (g a).run) :
    ((ofMayFail x >>= f) s).map Prod.fst = (x >>= g).run := by
  rcases x with _ | _ | a
  · rfl
  · rfl
  · exact h a

/-- However the method ends, what `view` shows of the state is as it was. -/
def Keeps {γ : Type} (view : σ → γ) (x : Fallible σ α) : Prop :=
  ∀ s r s', x s = some (r, s') → view s' = view s

namespace Keeps

variable {γ : Type} {view : σ → γ}

theorem of_same {x : Fallible σ α} (h : ∀ s r s', x s = some (r, s') → s' = s) : Keeps view x :=
  fun s r s' hrun ↦ congrArg view (h s r s' hrun)

theorem pure (a : α) : Keeps view (pure a : Fallible σ α) := by
  refine of_same fun s r s' h ↦ ?_
  exact (Prod.mk.inj (Option.some.inj h)).2.symm

theorem throw (e : Error) : Keeps view (throw e : Fallible σ α) := by
  refine of_same fun s r s' h ↦ ?_
  exact (Prod.mk.inj (Option.some.inj h)).2.symm

theorem ofMayFail (x : MayFail α) : Keeps view (ofMayFail x : Fallible σ α) := by
  refine of_same fun s r s' h ↦ ?_
  obtain ⟨_, -, hr⟩ := Option.map_eq_some_iff.mp h
  exact (Prod.mk.inj hr).2.symm

theorem unwrap (o : Option α) : Keeps view (unwrap o : Fallible σ α) := by
  refine of_same fun s r s' h ↦ ?_
  obtain ⟨_, -, hr⟩ := Option.map_eq_some_iff.mp h
  exact (Prod.mk.inj hr).2.symm

theorem bind {x : Fallible σ α} {f : α → Fallible σ β} (hx : Keeps view x)
    (hf : ∀ a, Keeps view (f a)) : Keeps view (x >>= f) := by
  intro s r s' h
  rcases bind_eq_some h with ⟨e, he, -⟩ | ⟨a, t, ha, h⟩
  · exact hx s _ s' he
  · exact (hf a t r s' h).trans (hx s _ t ha)

end Keeps

end Fallible

/-- `enum PropError` -/
inductive PropError
  | interfaceNotFound
  | propertyNotFound
  | invalidValue
  | permissionDenied
deriving DecidableEq, Repr

/-- `PropError::to_str` -/
def PropError.toStr : PropError → String
  | .invalidValue => "InvalidValue"
  | .propertyNotFound => "PropertyNotFound"
  | .permissionDenied => "PermissionDenied"
  | .interfaceNotFound => "InterfaceNotFound"

/-- What an implementation of `trait Properties` provides. -/
class Properties (σ : Type) where
  /-- `const INTERFACES` -/
  interfaces : List (String × List String)
  /-- `fn get_inner` -/
  getInner : ObjectPath → String → String → MayPanic σ (Except PropError BluezOptions)
  /-- `fn set_inner` -/
  setInner : ObjectPath → String → String → BluezOptions → MayPanic σ (Except PropError Unit)

/-- The properties of one interface. -/
abbrev PropMap := HashMap String BluezOptions

/-- `HashMap<&str, HashMap<&str, BluezOptions>>` -/
abbrev IfAndProps := HashMap String PropMap

namespace Properties

variable {σ : Type} [Properties σ]

/-- The loop of `get_all_inner`. -/
def collect (path : ObjectPath) (interface : String) (props : List String) (m : PropMap) :
    MayPanic σ PropMap :=
  props.foldlM (fun m prop ↦ do
    let val ← MayPanic.unwrapOk (← getInner path interface prop)
    return m.insert prop val) m

/-- `Properties::get_all_inner` -/
def getAllInner (path : ObjectPath) (interface : String) :
    MayPanic σ (Except PropError PropMap) :=
  match (interfaces σ).find? fun i ↦ interface = i.1 with
  | none => pure (.error .interfaceNotFound)
  | some i => do
      let propMap ← collect path interface i.2 ∅
      return .ok propMap

/-- `Properties::get_all` -/
def getAll (msg : MarshalledMessage) : MayPanic σ MarshalledMessage := do
  match msg.body.get String with
  | .error _ => return msg.dynheader.makeErrorResponse "InvalidArgs" none
  | .ok interface =>
      let path ← MayPanic.unwrap msg.dynheader.object
      match ← getAllInner path interface with
      | .ok map =>
          let res := msg.dynheader.makeResponse
          let body ← MayPanic.unwrap (res.body.pushParam map)
          return { res with body := body }
      | .error e => return msg.dynheader.makeErrorResponse e.toStr none

/-- `Properties::get` -/
def get (msg : MarshalledMessage) : MayPanic σ MarshalledMessage := do
  match msg.body.get2 String String with
  | .error _ => return msg.dynheader.makeErrorResponse "InvalidArgs" none
  | .ok (interface, prop) =>
      let path ← MayPanic.unwrap msg.dynheader.object
      match ← getInner path interface prop with
      | .ok var =>
          let reply := msg.dynheader.makeResponse
          let body ← MayPanic.unwrap (reply.body.pushParam var)
          return { reply with body := body }
      | .error e => return msg.dynheader.makeErrorResponse e.toStr none

/-- `Properties::set` -/
def set (msg : MarshalledMessage) : MayPanic σ MarshalledMessage := do
  match msg.body.get3 String String BluezOptions with
  | .error err => return msg.dynheader.makeErrorResponse "InvalidParameters" (some err.debug)
  | .ok (interface, prop, var) =>
      let path ← MayPanic.unwrap msg.dynheader.object
      match ← setInner path interface prop var with
      | .ok _ => return msg.dynheader.makeResponse
      | .error e => return msg.dynheader.makeErrorResponse e.toStr none

/-- `Properties::properties_call` -/
def propertiesCall (msg : MarshalledMessage) : MayPanic σ MarshalledMessage := do
  match ← MayPanic.unwrap msg.dynheader.member with
  | "Get" => get msg
  | "Set" => set msg
  | "GetAll" => getAll msg
  | _ => return msg.dynheader.unknownMethod

/-- The loop of `get_all_interfaces`. -/
def collectAll (path : ObjectPath) (is : List (String × List String)) (ret : IfAndProps) :
    MayPanic σ IfAndProps :=
  is.foldlM (fun ret i ↦ do
    let propMap ← MayPanic.unwrapOk (← getAllInner path i.1)
    return ret.insert i.1 propMap) ret

/-- `Properties::get_all_interfaces` -/
def getAllInterfaces (path : ObjectPath) : MayPanic σ IfAndProps :=
  collectAll path (interfaces σ) ∅

/-! ## Implementations none of whose properties fails -/

/-- On the states in `I`, which reading a property does not leave, no property panics,
what is read can be sent, and every listed property is there. -/
structure Readable (path : ObjectPath) (I : σ → Prop) : Prop where
  getInner_total : ∀ interface prop s, I s → ∃ r s',
    getInner path interface prop s = some (r, s') ∧ I s' ∧ ∀ v, r = .ok v → (marshal v).isSome
  getInner_listed : ∀ i ∈ interfaces σ, ∀ prop ∈ i.2, ∀ s r s', I s →
    getInner path i.1 prop s = some (r, s') → ∃ v, r = .ok v

/-- A property that is not a `Catchall` can be sent. -/
theorem sent {o : BluezOptions} (h : ∀ s, o ≠ .catchall s) :
    ∀ v, (.ok o : Except PropError BluezOptions) = .ok v → (marshal v).isSome := by
  rintro v hv
  obtain rfl := Except.ok.inj hv
  exact BluezOptions.marshal_isSome h

/-- An error is not sent as a property. -/
theorem not_sent {e : PropError} :
    ∀ v, (.error e : Except PropError BluezOptions) = .ok v → (marshal v).isSome :=
  fun _ h ↦ nomatch h

/-- In the state `s` the computation comes to an error or to a property that can be sent, and to
a state in `I`. -/
def Sends (I : σ → Prop) (s : σ) (x : MayPanic σ (Except PropError BluezOptions)) : Prop :=
  ∃ r s', x s = some (r, s') ∧ I s' ∧ ∀ v, r = .ok v → (marshal v).isSome

namespace Sends

variable {I : σ → Prop} {s t : σ}

omit [Properties σ]

theorem ok {o : BluezOptions} (hs : I s) (h : ∀ sig, o ≠ .catchall sig) :
    Sends I s (pure (.ok o)) := ⟨_, s, rfl, hs, sent h⟩

theorem error {e : PropError} (hs : I s) : Sends I s (pure (.error e)) :=
  ⟨_, s, rfl, hs, not_sent⟩

theorem ite {c : Prop} [Decidable c] {x y : MayPanic σ (Except PropError BluezOptions)}
    (hx : Sends I s x) (hy : Sends I s y) : Sends I s (if c then x else y) := by
  by_cases h : c
  · rwa [if_pos h]
  · rwa [if_neg h]

theorem get_bind {f : σ → MayPanic σ (Except PropError BluezOptions)} (h : Sends I s (f s)) :
    Sends I s (MonadState.get >>= f) := h

theorem set_bind {f : PUnit → MayPanic σ (Except PropError BluezOptions)}
    (h : Sends I t (f ⟨⟩)) : Sends I s (MonadStateOf.set t >>= f) := h

theorem unwrap_bind {α : Type} {a : α} {f : α → MayPanic σ (Except PropError BluezOptions)}
    (h : Sends I s (f a)) : Sends I s (MayPanic.unwrap (some a) >>= f) := h

end Sends

omit [Properties σ] in
/-- What is returned as a value is read as one. -/
theorem ok_of_run {v : BluezOptions} {s s' : σ} {r : Except PropError BluezOptions}
    (h : (some (.ok v, s') : Option (Except PropError BluezOptions × σ)) = some (r, s)) :
    ∃ v, r = .ok v := ⟨v, (congrArg Prod.fst (Option.some.inj h)).symm⟩

/-- On the states in `I` the property reads as `v`. -/
def Reads (path : ObjectPath) (I : σ → Prop) (interface prop : String) (v : BluezOptions) : Prop :=
  ∀ s r s', I s → getInner path interface prop s = some (r, s') → r = .ok v

variable {path : ObjectPath} {I : σ → Prop}

/-- The properties listed for an interface. -/
def listed (σ : Type) [Properties σ] (interface : String) : List String :=
  (((interfaces σ).find? fun i ↦ interface = i.1).map (·.2)).getD []

/-- A map all of whose values can be sent. -/
def Sendable {κ ν : Type} [DecidableEq κ] [Signature ν] [Marshal ν] (m : HashMap κ ν) : Prop :=
  ∀ e ∈ m.entries, (marshal e.2).isSome

theorem Sendable.insert {κ ν : Type} [DecidableEq κ] [Signature ν] [Marshal ν] {m : HashMap κ ν}
    (h : Sendable m) {a : ν} (ha : (marshal a).isSome) (k : κ) : Sendable (m.insert k a) := by
  intro e he
  rcases AList.mem_entries_insert he with rfl | he
  · exact ha
  · exact h e he

theorem Sendable.empty {κ ν : Type} [DecidableEq κ] [Signature ν] [Marshal ν] :
    Sendable (∅ : HashMap κ ν) := fun _ h ↦ nomatch h

/-- A property that is read goes into the map. -/
theorem collect_cons {interface prop : String} {v : BluezOptions} {s t : σ}
    (h : getInner path interface prop s = some (.ok v, t)) (props : List String) (m : PropMap) :
    collect path interface (prop :: props) m s =
      collect path interface props (m.insert prop v) t := by
  have hstep : (do
      let val ← MayPanic.unwrapOk (← getInner path interface prop)
      return m.insert prop val : MayPanic σ PropMap) s = some (m.insert prop v, t) := by
    rw [MayPanic.bind_some h]
    rfl
  rw [collect, List.foldlM_cons, MayPanic.bind_some hstep]
  rfl

/-- Listed properties are collected, and those that read the same in every state with
their value. -/
theorem collect_spec (h : Readable path I) {i : String × List String} (hi : i ∈ interfaces σ)
    {props : List String} (hprops : ∀ prop ∈ props, prop ∈ i.2) {m : PropMap} {s : σ} (hs : I s)
    (hm : Sendable m) :
    ∃ m' s', collect path i.1 props m s = some (m', s') ∧ I s' ∧ Sendable m' ∧
      ∀ prop v, Reads path I i.1 prop v → prop ∈ props ∨ m.lookup prop = some v →
        m'.lookup prop = some v := by
  induction props generalizing m s with
  | nil => exact ⟨m, s, rfl, hs, hm, fun prop v _ hor ↦ hor.resolve_left List.not_mem_nil⟩
  | cons p props ih =>
      obtain ⟨r, t, hget, ht, hsend⟩ := h.getInner_total i.1 p s hs
      obtain ⟨val, rfl⟩ := h.getInner_listed i hi p (hprops p List.mem_cons_self) s r t hs hget
      obtain ⟨m', s', hrun, hs', hsend', hlook⟩ :=
        ih (fun q hq ↦ hprops q (List.mem_cons_of_mem _ hq)) ht (hm.insert (hsend val rfl) p)
      refine ⟨m', s', (collect_cons hget props m).trans hrun, hs', hsend',
        fun prop v hreads hor ↦ hlook prop v hreads ?_⟩
      by_cases hp : prop = p
      · subst hp
        rw [AList.lookup_insert]
        exact .inr (congrArg some (Except.ok.inj (hreads s _ t hs hget)))
      · rw [AList.lookup_insert_ne hp]
        exact hor.imp_left fun hmem ↦ (List.mem_cons.mp hmem).resolve_left hp

/-- All properties of an interface: the call fails only if there is no such interface,
and otherwise the listed properties are in the map. -/
theorem getAllInner_spec (h : Readable path I) (interface : String) {s : σ} (hs : I s) :
    ∃ r s', getAllInner path interface s = some (r, s') ∧ I s' ∧
      ((∀ i ∈ interfaces σ, interface ≠ i.1) ∧ r = .error .interfaceNotFound ∨
        ∃ m, r = .ok m ∧ Sendable m ∧ ∀ prop ∈ listed σ interface, ∀ v,
          Reads path I interface prop v → m.lookup prop = some v) := by
  rw [getAllInner]
  cases hfind : (interfaces σ).find? fun i ↦ interface = i.1 with
  | none =>
      refine ⟨_, s, rfl, hs, .inl ⟨fun i hi heq ↦ ?_, rfl⟩⟩
      exact List.find?_eq_none.mp hfind i hi (decide_eq_true heq)
  | some i =>
      obtain rfl : interface = i.1 := by simpa using List.find?_some hfind
      have hi : i ∈ interfaces σ := List.mem_of_find?_eq_some hfind
      have hlisted : listed σ i.1 = i.2 := by rw [listed, hfind]; rfl
      obtain ⟨m, s', hrun, hs', hsend, hlook⟩ :=
        collect_spec h hi (fun _ hp ↦ hp) hs Sendable.empty
      refine ⟨.ok m, s', ?_, hs', .inr ⟨m, rfl, hsend, fun prop hp v hreads ↦ ?_⟩⟩
      · exact MayPanic.bind_some hrun
      · exact hlook prop v hreads (.inl (hlisted ▸ hp))

/-- All properties of all interfaces. -/
theorem getAllInterfaces_spec (h : Readable path I) {s : σ} (hs : I s) :
    ∃ ret s', getAllInterfaces path s = some (ret, s') ∧ I s' ∧ Sendable ret ∧
      ∀ i ∈ interfaces σ, ∃ m, ret.lookup i.1 = some m ∧ ∀ prop ∈ listed σ i.1, ∀ v,
        Reads path I i.1 prop v → m.lookup prop = some v := by
  -- An interface has its map once its turn has come; a later one of that name replaces it.
  let Has (ret : IfAndProps) (interface : String) : Prop :=
    ∃ m, ret.lookup interface = some m ∧ ∀ prop ∈ listed σ interface, ∀ v,
      Reads path I interface prop v → m.lookup prop = some v
  suffices hfold : ∀ (l : List (String × List String)) (ret : IfAndProps) (s : σ),
      (∀ i ∈ l, i ∈ interfaces σ) → I s → Sendable ret →
      ∃ ret' s', collectAll path l ret s = some (ret', s') ∧ I s' ∧ Sendable ret' ∧
        ∀ interface, interface ∈ l.map (·.1) ∨ Has ret interface → Has ret' interface by
    obtain ⟨ret, s', hrun, hs', hsend, hhas⟩ := hfold _ ∅ s (fun _ hi ↦ hi) hs Sendable.empty
    exact ⟨ret, s', hrun, hs', hsend, fun i hi ↦ hhas i.1 (.inl (List.mem_map_of_mem hi))⟩
  intro l
  induction l with
  | nil =>
      exact fun ret s _ hs hret ↦
        ⟨ret, s, rfl, hs, hret, fun interface hor ↦ hor.resolve_left List.not_mem_nil⟩
  | cons i l ih =>
      intro ret s hl hs hret
      obtain ⟨r, t, hget, ht, hr⟩ := getAllInner_spec h i.1 hs
      obtain ⟨m, rfl, hsend, hlook⟩ :=
        hr.resolve_left fun hno ↦ hno.1 i (hl i List.mem_cons_self) rfl
      obtain ⟨ret', s', hrun, hs', hret', hhas⟩ := ih (ret.insert i.1 m) t
        (fun j hj ↦ hl j (List.mem_cons_of_mem _ hj)) ht
        (hret.insert (marshal_map_isSome hsend) i.1)
      refine ⟨ret', s', ?_, hs', hret', fun interface hor ↦ hhas interface ?_⟩
      · have hstep : (do
            let propMap ← MayPanic.unwrapOk (← getAllInner path i.1)
            return ret.insert i.1 propMap : MayPanic σ IfAndProps) s =
              some (ret.insert i.1 m, t) := by
          rw [MayPanic.bind_some hget]
          rfl
        rw [collectAll, List.foldlM_cons, MayPanic.bind_some hstep]
        exact hrun
      · by_cases heq : interface = i.1
        · subst heq
          exact .inr ⟨m, AList.lookup_insert _, hlook⟩
        · refine hor.imp (fun hmem ↦ (List.mem_cons.mp hmem).resolve_left heq) ?_
          rintro ⟨m', hm', hlook'⟩
          exact ⟨m', by rwa [AList.lookup_insert_ne heq], hlook'⟩

omit I in
/-- Properties that are read without changing the object: the map has what they read as. -/
theorem getAllInner_of_reads {interface : String} {i : String × List String} {s : σ}
    (hfind : (interfaces σ).find? (fun i ↦ interface = i.1) = some i) {f : String → BluezOptions}
    (hreads : ∀ prop ∈ i.2, getInner path interface prop s = some (.ok (f prop), s)) :
    getAllInner path interface s =
      some (.ok ((∅ : PropMap).insertAll (i.2.map fun prop ↦ (prop, f prop))), s) := by
  suffices hcollect : ∀ (props : List String) (m : PropMap),
      (∀ prop ∈ props, getInner path interface prop s = some (.ok (f prop), s)) →
      collect path interface props m s =
        some (m.insertAll (props.map fun prop ↦ (prop, f prop)), s) by
    rw [getAllInner, hfind]
    exact MayPanic.bind_some (hcollect i.2 ∅ hreads)
  intro props
  induction props with
  | nil => exact fun m _ ↦ rfl
  | cons p props ih =>
      intro m h
      rw [collect_cons (h p List.mem_cons_self)]
      exact ih _ fun prop hprop ↦ h prop (List.mem_cons_of_mem p hprop)

omit I in
/-- The objects of an object with one interface. -/
theorem getAllInterfaces_single {i : String × List String} (hi : interfaces σ = [i]) {s t : σ}
    {m : PropMap} (h : collect path i.1 i.2 ∅ s = some (m, t)) :
    getAllInterfaces path s = some ((∅ : IfAndProps).insert i.1 m, t) := by
  have hfind : (interfaces σ).find? (fun j ↦ i.1 = j.1) = some i := by
    rw [hi]
    exact List.find?_cons_of_pos (decide_eq_true rfl)
  have hinner : (getAllInner path i.1 : MayPanic σ _) s = some (.ok m, t) := by
    rw [getAllInner, hfind]
    exact MayPanic.bind_some h
  rw [getAllInterfaces, hi, collectAll, List.foldlM_cons, bind_assoc, MayPanic.bind_some hinner]
  rfl

/-! ## Calls are answered -/

section Calls

variable {msg : MarshalledMessage} {s : σ}

/-- A `Get` of a property that reads as `v` is answered with `v`. -/
theorem get_of_reads (msg : MarshalledMessage) {interface prop : String} {v : BluezOptions}
    {w : Val .variant} (h : Readable path I) (hreads : Reads path I interface prop v)
    (hw : marshal v = some w) (hobj : msg.dynheader.object = some path)
    (hbody : msg.body.get2 String String = .ok (interface, prop)) (hs : I s) :
    ∃ s', get msg s =
      some ({ msg.dynheader.makeResponse with body := [⟨.variant, w⟩] }, s') ∧ I s' := by
  obtain ⟨r, s', hget, hs', -⟩ := h.getInner_total interface prop s hs
  obtain rfl := hreads s r s' hs hget
  refine ⟨s', ?_, hs'⟩
  have hpath : (MayPanic.unwrap msg.dynheader.object : MayPanic σ ObjectPath) s =
      some (path, s) := by rw [hobj]; rfl
  simp only [get, hbody, MayPanic.bind_some hpath, MayPanic.bind_some hget]
  have hpush : (MayPanic.unwrap ((msg.dynheader.makeResponse.body).pushParam v) :
      MayPanic σ Body) s' = some ([⟨.variant, w⟩], s') := by
    rw [Body.pushParam_eq hw]; rfl
  rw [MayPanic.bind_some hpush]
  rfl

/-- A call goes to the method it names. -/
theorem propertiesCall_eq (member : String) : msg.dynheader.member = some member →
    (propertiesCall msg : MayPanic σ MarshalledMessage) =
      match member with
      | "Get" => get msg
      | "Set" => set msg
      | "GetAll" => getAll msg
      | _ => pure msg.dynheader.unknownMethod := by
  intro hmember
  funext s
  have hunwrap : (MayPanic.unwrap msg.dynheader.member : MayPanic σ String) s =
      some (member, s) := by rw [hmember]; rfl
  rw [propertiesCall, MayPanic.bind_some hunwrap]

theorem propertiesCall_unknown {member : String} (hmember : msg.dynheader.member = some member)
    (hget : member ≠ "Get") (hset : member ≠ "Set") (hgetAll : member ≠ "GetAll") :
    (propertiesCall msg : MayPanic σ MarshalledMessage) = pure msg.dynheader.unknownMethod := by
  rw [propertiesCall_eq member hmember]
  split
  · contradiction
  · contradiction
  · contradiction
  · rfl

/-- A `GetAll` of an interface is answered with a map that holds what its properties read
as. -/
theorem getAll_of_reads (msg : MarshalledMessage) {i : String × List String} {prop : String}
    {v : BluezOptions} (h : Readable path I) (hi : i ∈ interfaces σ) (hprop : prop ∈ listed σ i.1)
    (hreads : Reads path I i.1 prop v) (hobj : msg.dynheader.object = some path)
    (hbody : msg.body.get String = .ok i.1) (hs : I s) :
    ∃ map w s', getAll msg s =
        some ({ msg.dynheader.makeResponse with body := [⟨sig PropMap, w⟩] }, s') ∧
      I s' ∧ marshal map = some w ∧ map.lookup prop = some v := by
  obtain ⟨r, s', hget, hs', hr⟩ := getAllInner_spec h i.1 hs
  obtain ⟨map, rfl, hsend, hlookup⟩ := hr.resolve_left fun hno ↦ hno.1 i hi rfl
  obtain ⟨w, hw⟩ := Option.isSome_iff_exists.mp (marshal_map_isSome hsend)
  refine ⟨map, w, s', ?_, hs', hw, hlookup prop hprop v hreads⟩
  have hpath : (MayPanic.unwrap msg.dynheader.object : MayPanic σ ObjectPath) s =
      some (path, s) := by rw [hobj]; rfl
  simp only [getAll, hbody, MayPanic.bind_some hpath, MayPanic.bind_some hget, Body.pushParam_eq hw]
  rfl

/-- The reply to a `Set`. -/
def setReply (msg : MarshalledMessage) : Except PropError Unit → MarshalledMessage
  | .ok _ => msg.dynheader.makeResponse
  | .error e => msg.dynheader.makeErrorResponse e.toStr none

/-- A `Set` does what `set_inner` does. -/
theorem set_of_setInner (msg : MarshalledMessage) {interface prop : String} {v : BluezOptions}
    {r : Except PropError Unit} {s' : σ} (hobj : msg.dynheader.object = some path)
    (hbody : msg.body.get3 String String BluezOptions = .ok (interface, prop, v))
    (hset : setInner path interface prop v s = some (r, s')) :
    set msg s = some (setReply msg r, s') := by
  have hpath : (MayPanic.unwrap msg.dynheader.object : MayPanic σ ObjectPath) s =
      some (path, s) := by rw [hobj]; rfl
  simp only [set, hbody, MayPanic.bind_some hpath, MayPanic.bind_some hset]
  cases r with
  | ok u => rfl
  | error e => rfl

/-- Every `Get` is answered. -/
theorem get_answers (h : Readable path I) (hobj : msg.dynheader.object = some path) (hs : I s) :
    ∃ m s', get msg s = some (m, s') ∧ I s' ∧ Answers m msg.dynheader := by
  have hpath : (MayPanic.unwrap msg.dynheader.object : MayPanic σ ObjectPath) s =
      some (path, s) := by rw [hobj]; rfl
  cases hbody : msg.body.get2 String String with
  | error e =>
      simp only [get, hbody]
      exact ⟨_, s, rfl, hs, answers_makeErrorResponse ..⟩
  | ok args =>
      obtain ⟨r, s', hget, hs', hsend⟩ := h.getInner_total args.1 args.2 s hs
      simp only [get, hbody, MayPanic.bind_some hpath, MayPanic.bind_some hget]
      cases r with
      | error e => exact ⟨_, s', rfl, hs', answers_makeErrorResponse ..⟩
      | ok v =>
          obtain ⟨w, hw⟩ := Option.isSome_iff_exists.mp (hsend v rfl)
          simp only [Body.pushParam_eq hw]
          exact ⟨_, s', rfl, hs', (answers_makeResponse _).withBody _⟩

/-- Every `GetAll` is answered. -/
theorem getAll_answers (h : Readable path I) (hobj : msg.dynheader.object = some path)
    (hs : I s) : ∃ m s', getAll msg s = some (m, s') ∧ I s' ∧ Answers m msg.dynheader := by
  have hpath : (MayPanic.unwrap msg.dynheader.object : MayPanic σ ObjectPath) s =
      some (path, s) := by rw [hobj]; rfl
  cases hbody : msg.body.get String with
  | error e =>
      simp only [getAll, hbody]
      exact ⟨_, s, rfl, hs, answers_makeErrorResponse ..⟩
  | ok interface =>
      obtain ⟨r, s', hget, hs', hr⟩ := getAllInner_spec h interface hs
      simp only [getAll, hbody, MayPanic.bind_some hpath, MayPanic.bind_some hget]
      obtain ⟨-, rfl⟩ | ⟨m, rfl, hsend, -⟩ := hr
      · exact ⟨_, s', rfl, hs', answers_makeErrorResponse ..⟩
      · obtain ⟨w, hw⟩ := Option.isSome_iff_exists.mp (marshal_map_isSome hsend)
        simp only [Body.pushParam_eq hw]
        exact ⟨_, s', rfl, hs', (answers_makeResponse _).withBody _⟩

/-- On the states in `I`, which setting a property does not leave, setting does not panic. -/
def Settable (path : ObjectPath) (I : σ → Prop) : Prop :=
  ∀ interface prop v s, I s → ∃ r s', setInner path interface prop v s = some (r, s') ∧ I s'

/-- Every `Set` is answered, if setting a property does not panic. -/
theorem set_answers (hset : Settable path I) (hobj : msg.dynheader.object = some path)
    (hs : I s) : ∃ m s', set msg s = some (m, s') ∧ I s' ∧ Answers m msg.dynheader := by
  cases hbody : msg.body.get3 String String BluezOptions with
  | error e =>
      simp only [set, hbody]
      exact ⟨_, s, rfl, hs, answers_makeErrorResponse ..⟩
  | ok args =>
      obtain ⟨interface, prop, v⟩ := args
      obtain ⟨r, s', hrun, hs'⟩ := hset interface prop v s hs
      refine ⟨_, s', set_of_setInner msg hobj hbody hrun, hs', ?_⟩
      cases r with
      | error e => exact answers_makeErrorResponse ..
      | ok u => exact answers_makeResponse _

/-- **Every property call is answered**, and keeps what reading and setting one property
keeps. -/
theorem propertiesCall_answers (h : Readable path I) (hset : Settable path I)
    (call : MethodCall path) (hs : I s) :
    ∃ m s', propertiesCall call.toMessage s = some (m, s') ∧ I s' ∧
      Answers m call.toMessage.dynheader := by
  have hobj : call.toMessage.dynheader.object = some path := rfl
  rw [propertiesCall_eq call.member rfl]
  generalize call.member = member
  split
  · exact get_answers h hobj hs
  · exact set_answers hset hobj hs
  · exact getAll_answers h hobj hs
  · exact ⟨_, s, rfl, hs, answers_unknownMethod _⟩

end Calls

end Properties

end Rustable
