import Rustable.Advertising
import Rustable.Gatt.Server.Service

/-!
# Which properties there are

An implementation of `Properties` says three times which properties it has: in the table
`INTERFACES`, in `get_inner` and in `set_inner`.  `existence` is what the table says, and
`Agrees` says that reading and setting say the same.

Reading does so for all four implementations.  Setting does not: three of them have slipped,
each in a place of its own (`properties_agree_iff`).
-/

namespace Rustable

open DBus Gatt Gatt.Server

namespace Properties

variable {σ : Type} [Properties σ]

/-- What the table says of a property. -/
def existence (σ : Type) [Properties σ] (interface prop : String) : Except PropError Unit :=
  match (interfaces σ).find? fun i ↦ interface = i.1 with
  | none => .error .interfaceNotFound
  | some i => if prop ∈ i.2 then .ok () else .error .propertyNotFound

/-- What the result of `get_inner` or `set_inner` says of it. -/
def told {α : Type} : Except PropError α → Except PropError Unit
  | .error .interfaceNotFound => .error .interfaceNotFound
  | .error .propertyNotFound => .error .propertyNotFound
  | .error .invalidValue | .error .permissionDenied | .ok _ => .ok ()

/-- A property is read if the table has it, and otherwise the result says what is missing. -/
def Exact (path : ObjectPath) (s : σ) : Prop :=
  ∀ interface prop r s', getInner path interface prop s = some (r, s') →
    r.map (fun _ ↦ ()) = existence σ interface prop

/-- Reading and setting agree with the table.  A map of all properties holds what `get_inner`
returns, if the value is a stored one. -/
structure Agrees (path : ObjectPath) (stored : Prop) (interface prop : String)
    (val : BluezOptions) (s : σ) : Prop where
  get : ∃ r s', getInner path interface prop s = some (r, s') ∧
    r.map (fun _ ↦ ()) = existence σ interface prop
  getAll : ∃ r s', getAllInner path interface s = some (r, s') ∧
    ((∀ i ∈ interfaces σ, interface ≠ i.1) ∧ r = .error .interfaceNotFound ∨
      ∃ m, r = .ok m ∧ (∀ p, p ∈ m ↔ existence σ interface p = .ok ()) ∧
        (stored → ∀ p v, m.lookup p = some v ↔ getInner path interface p s = some (.ok v, s)))
  getAllInterfaces : ∃ ret s', getAllInterfaces path s = some (ret, s') ∧
    ∀ i, i ∈ ret ↔ i ∈ (interfaces σ).map (·.1)
  set : ∃ r s', setInner path interface prop val s = some (r, s') ∧
    told r = existence σ interface prop ∧ ∀ e, r = .error e → s' = s

/-! ## Reading -/

variable {path : ObjectPath} {s s' : σ}

theorem existence_eq_ok {interface prop : String} : existence σ interface prop = .ok () ↔
    prop ∈ listed σ interface := by
  rw [existence, listed]
  cases (interfaces σ).find? fun i ↦ interface = i.1 with
  | none => simp
  | some i => simp

/-- What the loops of the trait do with each item. -/
def insertNext {α ν ε : Type} (f : α → MayPanic σ (Except ε ν)) (key : α → String)
    (m : HashMap String ν) (a : α) : MayPanic σ (HashMap String ν) := do
  let v ← MayPanic.unwrapOk (← f a)
  return m.insert (key a) v

omit [Properties σ] in
theorem insertNext_eq_some {α ν ε : Type} {f : α → MayPanic σ (Except ε ν)} {key : α → String}
    {m m' : HashMap String ν} {a : α} (h : insertNext f key m a s = some (m', s')) :
    ∃ v, m' = m.insert (key a) v := by
  change (f a s).bind (fun r ↦ (MayPanic.unwrapOk r.1 r.2).bind fun v ↦
    some (m.insert (key a) v.1, v.2)) = some (m', s') at h
  obtain ⟨⟨r, t⟩, -, h⟩ := Option.bind_eq_some_iff.mp h
  cases r with
  | error e => contradiction
  | ok v =>
      obtain ⟨rfl, -⟩ := Prod.mk.inj (Option.some.inj h)
      exact ⟨v, rfl⟩

omit [Properties σ] in
/-- The keys of what such a loop collects. -/
theorem mem_foldlM_insertNext {α ν ε : Type} {f : α → MayPanic σ (Except ε ν)}
    {key : α → String} {l : List α} {m m' : HashMap String ν}
    (h : l.foldlM (insertNext f key) m s = some (m', s')) (k : String) :
    k ∈ m' ↔ k ∈ l.map key ∨ k ∈ m := by
  induction l generalizing m s with
  | nil =>
      obtain ⟨rfl, -⟩ := Prod.mk.inj (Option.some.inj h)
      simp
  | cons a l ih =>
      rw [List.foldlM_cons] at h
      obtain ⟨⟨m₁, t⟩, hnext, hrest⟩ := Option.bind_eq_some_iff.mp h
      obtain ⟨v, rfl⟩ := insertNext_eq_some hnext
      rw [ih hrest, List.map_cons, List.mem_cons, AList.mem_insert, or_left_comm, or_assoc]

/-- A map of the properties of an interface has those of the table, -/
theorem mem_getAllInner {interface : String} {m : PropMap}
    (h : getAllInner path interface s = some (.ok m, s')) (p : String) :
    p ∈ m ↔ existence σ interface p = .ok () := by
  rw [existence_eq_ok, listed]
  rw [getAllInner] at h
  cases hfind : (interfaces σ).find? fun i ↦ interface = i.1 with
  | none =>
      rw [hfind] at h
      have herror := congrArg Prod.fst (Option.some.inj h)
      contradiction
  | some i =>
      rw [hfind] at h
      obtain ⟨⟨m', t⟩, hcollect, hdone⟩ := Option.bind_eq_some_iff.mp h
      obtain ⟨rfl, rfl⟩ : m' = m ∧ t = s' := by simpa using hdone
      have hmem : p ∈ m' ↔ p ∈ i.2.map id ∨ p ∈ (∅ : HashMap String BluezOptions) :=
        mem_foldlM_insertNext hcollect p
      simpa using hmem

/-- and what is read of them, in a state that reading does not change. -/
theorem lookup_getAllInner (hstored : Readable path (· = s)) (hexact : Exact path s)
    {interface : String} {m : PropMap} (h : getAllInner path interface s = some (.ok m, s'))
    (p : String) (v : BluezOptions) :
    m.lookup p = some v ↔ getInner path interface p s = some (.ok v, s) := by
  have hget (hp : p ∈ m) :
      ∃ w, getInner path interface p s = some (.ok w, s) ∧ m.lookup p = some w := by
    obtain ⟨r, t, hget, ht, -⟩ := hstored.getInner_total interface p s rfl
    subst t
    have hok := hexact interface p r s hget
    rw [(mem_getAllInner h p).mp hp] at hok
    cases r with
    | error e => contradiction
    | ok w =>
        refine ⟨w, hget, ?_⟩
        obtain ⟨r', s'', hrun, -, hr⟩ := getAllInner_spec hstored interface (s := s) rfl
        obtain ⟨rfl, -⟩ := Prod.mk.inj (Option.some.inj (h.symm.trans hrun))
        obtain ⟨-, hnot⟩ | ⟨m', hm, -, hlook⟩ := hr
        · contradiction
        · obtain rfl := Except.ok.inj hm
          refine hlook p (existence_eq_ok.mp ((mem_getAllInner h p).mp hp)) w ?_
          intro s₀ r t hs₀ hget'
          subst s₀
          exact (Prod.mk.inj (Option.some.inj (hget'.symm.trans hget))).1
  constructor
  · intro hlook
    have hp : p ∈ m := AList.lookup_isSome.mp (by rw [hlook]; rfl)
    obtain ⟨w, hw, hlook'⟩ := hget hp
    obtain rfl := Option.some.inj (hlook.symm.trans hlook')
    exact hw
  · intro hread
    have hok := hexact interface p _ s hread
    obtain ⟨w, hw, hlook⟩ := hget ((mem_getAllInner h p).mpr hok.symm)
    obtain ⟨hv, -⟩ := Prod.mk.inj (Option.some.inj (hread.symm.trans hw))
    obtain rfl := Except.ok.inj hv
    exact hlook

theorem getAllInner_of_exact (hread : Readable path fun _ : σ ↦ True) (hexact : Exact path s)
    {stored : Prop} (hstored : stored → Readable path (· = s)) (interface : String) :
    ∃ r s', getAllInner path interface s = some (r, s') ∧
      ((∀ i ∈ interfaces σ, interface ≠ i.1) ∧ r = .error .interfaceNotFound ∨
        ∃ m, r = .ok m ∧ (∀ p, p ∈ m ↔ existence σ interface p = .ok ()) ∧
          (stored → ∀ p v, m.lookup p = some v ↔
            getInner path interface p s = some (.ok v, s))) := by
  obtain ⟨r, s', hrun, -, hr⟩ := getAllInner_spec hread interface (s := s) trivial
  refine ⟨r, s', hrun, hr.imp_right ?_⟩
  rintro ⟨m, rfl, -, -⟩
  exact ⟨m, rfl, mem_getAllInner hrun, fun h ↦ lookup_getAllInner (hstored h) hexact hrun⟩

/-- **Reading agrees with the table**; what is left is to set a property. -/
theorem agrees_iff_of_exact (hread : Readable path fun _ : σ ↦ True) (hexact : Exact path s)
    {stored : Prop} (hstored : stored → Readable path (· = s)) {interface prop : String}
    {val : BluezOptions} {right : Prop}
    (hset : ∃ r s', setInner path interface prop val s = some (r, s') ∧
      (∀ e, r = .error e → s' = s) ∧ (told r = existence σ interface prop ↔ right)) :
    Agrees path stored interface prop val s ↔ right := by
  obtain ⟨r, s', hset, hsame, htold⟩ := hset
  constructor
  · intro h
    obtain ⟨r', s'', hset', htold', -⟩ := h.set
    obtain ⟨rfl, -⟩ := Prod.mk.inj (Option.some.inj (hset.symm.trans hset'))
    exact htold.mp htold'
  · intro hright
    have hset : ∃ r s', setInner path interface prop val s = some (r, s') ∧
        told r = existence σ interface prop ∧ ∀ e, r = .error e → s' = s :=
      ⟨r, s', hset, htold.mpr hright, hsame⟩
    obtain ⟨r, s', hget, -⟩ := hread.getInner_total interface prop s trivial
    obtain ⟨ret, t, hall, -⟩ := getAllInterfaces_spec hread (s := s) trivial
    have hloop : (interfaces σ).foldlM
        (insertNext (fun i ↦ getAllInner path i.1) Prod.fst) ∅ s = some (ret, t) := hall
    have hkeys := mem_foldlM_insertNext hloop
    exact
      { get := ⟨r, s', hget, hexact interface prop r s' hget⟩
        getAll := getAllInner_of_exact hread hexact hstored interface
        getAllInterfaces := ⟨ret, t, hall, by simpa using hkeys⟩
        set := hset }

end Properties

/-! ## One interface -/

namespace Properties

variable {σ : Type} [Properties σ] {path : ObjectPath} {i : String} {props : List String}

/-- What a table with one interface says. -/
theorem existence_eq (h : interfaces σ = [(i, props)]) (interface prop : String) :
    existence σ interface prop =
      if interface = i then if prop ∈ props then .ok () else .error .propertyNotFound
      else .error .interfaceNotFound := by
  rw [existence, h, List.find?_singleton]
  by_cases hi : interface = i
  · simp [hi]
  · simp [hi]

/-- What is in the table is read; this is what remains. -/
theorem exact_of_readable (h : interfaces σ = [(i, props)]) {s : σ}
    (hread : Readable path fun _ : σ ↦ True)
    (hinterface : ∀ interface prop, interface ≠ i →
      getInner path interface prop s = some (.error .interfaceNotFound, s))
    (hprop : ∀ prop, prop ∉ props →
      getInner path i prop s = some (.error .propertyNotFound, s)) : Exact path s := by
  intro interface prop r s' hget
  rw [existence_eq h]
  by_cases hi : interface = i
  · subst hi
    rw [if_pos rfl]
    by_cases hp : prop ∈ props
    · have hi : (interface, props) ∈ interfaces σ := h ▸ List.mem_singleton_self (interface, props)
      obtain ⟨v, rfl⟩ := hread.getInner_listed _ hi prop hp s r s' trivial hget
      rw [if_pos hp]
      rfl
    · obtain ⟨rfl, -⟩ := Prod.mk.inj (Option.some.inj (hget.symm.trans (hprop prop hp)))
      rw [if_neg hp]
      rfl
  · obtain ⟨rfl, -⟩ := Prod.mk.inj (Option.some.inj (hget.symm.trans (hinterface _ prop hi)))
    rw [if_neg hi]
    rfl

end Properties

namespace Gatt.Server

theorem ServData.exact (path : ObjectPath) (s : ServData) : Properties.Exact path s := by
  apply Properties.exact_of_readable rfl (readable path _)
  · intro interface prop hi
    exact congrFun (if_pos hi) s
  · intro prop hp
    simp only [List.mem_cons, List.not_mem_nil, or_false, not_or] at hp
    obtain ⟨h₁, h₂, h₃, h₄⟩ := hp
    change getInner path bluezSerIf prop s = _
    simp [getInner, h₁, h₂, h₃, h₄]

/-- Setting a property of a service. -/
theorem ServData.told_setInner (path : ObjectPath) (interface prop : String) (val : BluezOptions)
    (s : ServData) : ∃ r s', Properties.setInner path interface prop val s = some (r, s') ∧
      (∀ e, r = .error e → s' = s) ∧
      (Properties.told r = Properties.existence ServData interface prop ↔
        ¬(interface = bluezSerIf ∧ prop = incStr)) := by
  change ∃ r s', setInner path interface prop val s = some (r, s') ∧ _
  rw [Properties.existence_eq rfl]
  unfold setInner
  split
  · next hi => exact ⟨_, s, rfl, fun _ _ ↦ rfl, by simp [hi, Properties.told]⟩
  next hi =>
  have hi : interface = bluezSerIf := not_not.mp hi
  subst hi
  split
  · next hp => exact ⟨_, s, rfl, fun _ _ ↦ rfl, by subst hp; decide⟩
  split
  · next hp => exact ⟨_, s, rfl, fun _ _ ↦ rfl, by subst hp; decide⟩
  split
  · next hp =>
      subst hp
      split
      · refine ⟨.ok (), _, rfl, ?_, by decide⟩
        intro e he
        contradiction
      · exact ⟨_, s, rfl, fun _ _ ↦ rfl, by decide⟩
  · next h₁ h₂ h₃ => exact ⟨_, s, rfl, fun _ _ ↦ rfl, by simp [h₁, h₂, h₃, Properties.told]⟩

theorem ChrcData.exact {path : ObjectPath} (hpath : path ≠ .root) (s : ChrcData) :
    Properties.Exact path s := by
  apply Properties.exact_of_readable rfl (readable hpath fun _ _ ↦ trivial)
  · intro interface prop hi
    exact congrFun (if_pos hi) s
  · intro prop hp
    simp only [List.mem_cons, List.not_mem_nil, or_false, not_or] at hp
    obtain ⟨h₁, h₂, h₃, h₄, h₅, h₆, h₇, h₈⟩ := hp
    change getInner path bluezChrIf prop s = _
    simp [getInner, h₁, h₂, h₃, h₄, h₅, h₆, h₇, h₈]

/-- Setting a property of a characteristic. -/
theorem ChrcData.told_setInner (path : ObjectPath) (interface prop : String)
    (val : BluezOptions) (s : ChrcData) :
    ∃ r s', Properties.setInner path interface prop val s = some (r, s') ∧
      (∀ e, r = .error e → s' = s) ∧
      (Properties.told r = Properties.existence ChrcData interface prop ↔
        ¬(interface = bluezChrIf ∧ prop = waStr)) := by
  change ∃ r s', setInner path interface prop val s = some (r, s') ∧ _
  rw [Properties.existence_eq rfl]
  unfold setInner
  split
  · next hi => exact ⟨_, s, rfl, fun _ _ ↦ rfl, by simp [hi, Properties.told]⟩
  next hi =>
  have hi : interface = bluezChrIf := not_not.mp hi
  subst hi
  split
  · next hp =>
      subst hp
      split
      · refine ⟨.ok (), _, rfl, ?_, by decide⟩
        intro e he
        contradiction
      · exact ⟨_, s, rfl, fun _ _ ↦ rfl, by decide⟩
  split
  · next hp =>
      refine ⟨_, s, rfl, fun _ _ ↦ rfl, ?_⟩
      rcases hp with rfl | rfl | rfl | rfl | rfl | rfl
      all_goals decide
  · next h₁ h₂ =>
      obtain ⟨h₂, h₃, h₄, h₅, h₆, h₇⟩ : ¬_ ∧ ¬_ ∧ ¬_ ∧ ¬_ ∧ ¬_ ∧ ¬_ := by simpa using h₂
      exact ⟨_, s, rfl, fun _ _ ↦ rfl, by simp [h₁, h₂, h₃, h₄, h₅, h₆, h₇, Properties.told]⟩

theorem Descriptor.exact {path : ObjectPath} (hpath : path ≠ .root) (s : Descriptor) :
    Properties.Exact path s := by
  apply Properties.exact_of_readable rfl (readable hpath fun _ _ ↦ trivial)
  · intro interface prop hi
    exact congrFun (if_pos hi) s
  · intro prop hp
    simp only [List.mem_cons, List.not_mem_nil, or_false, not_or] at hp
    obtain ⟨h₁, h₂, h₃, h₄, h₅⟩ := hp
    change getInner path bluezDesIf prop s = _
    simp [getInner, h₁, h₂, h₃, h₄, h₅]

/-- Setting a property of a descriptor.  Whatever its interface is, it is not the one that the
code asks for. -/
theorem Descriptor.told_setInner (path : ObjectPath) (interface prop : String)
    (val : BluezOptions) (s : Descriptor) :
    ∃ r s', Properties.setInner path interface prop val s = some (r, s') ∧
      (∀ e, r = .error e → s' = s) ∧
      (Properties.told r = Properties.existence Descriptor interface prop ↔
        interface ≠ bluezDesIf ∧ interface ≠ bluezChrIf) := by
  change ∃ r s', setInner path interface prop val s = some (r, s') ∧ _
  rw [Properties.existence_eq rfl]
  unfold setInner
  split
  · next hi =>
      refine ⟨_, s, rfl, fun _ _ ↦ rfl, ?_⟩
      by_cases hdes : interface = bluezDesIf
      · rw [if_pos hdes]
        split <;> simp [hdes, Properties.told]
      · simp [hdes, hi, Properties.told]
  next hi =>
  have hi : interface = bluezChrIf := not_not.mp hi
  have hdes : interface ≠ bluezDesIf := by
    rw [hi]
    decide
  -- No result says that the interface is missing.
  simp only [if_neg hdes]
  have hnot (r : Except PropError Unit) (hr : Properties.told r ≠ .error .interfaceNotFound) :
      Properties.told r = .error .interfaceNotFound ↔
        interface ≠ bluezDesIf ∧ interface ≠ bluezChrIf := iff_of_false hr fun h ↦ h.2 hi
  split
  · split
    · refine ⟨.ok (), _, rfl, ?_, hnot (.ok ()) (by simp [Properties.told])⟩
      intro e he
      contradiction
    · exact ⟨_, s, rfl, fun _ _ ↦ rfl, hnot (.error .invalidValue) (by simp [Properties.told])⟩
  split
  · exact ⟨_, s, rfl, fun _ _ ↦ rfl, hnot (.error .permissionDenied) (by simp [Properties.told])⟩
  · exact ⟨_, s, rfl, fun _ _ ↦ rfl, hnot (.error .propertyNotFound) (by simp [Properties.told])⟩

end Gatt.Server

theorem Advertisement.exact (path : ObjectPath) (s : Advertisement) : Properties.Exact path s := by
  apply Properties.exact_of_readable rfl (readable path _)
  · intro interface prop hi
    exact congrFun (if_pos hi) s
  · intro prop hp
    simp only [props, List.mem_cons, List.not_mem_nil, or_false, not_or] at hp
    obtain ⟨h₁, h₂, h₃, h₄, h₅⟩ := hp
    change getInner path bluezAdvIf prop s = _
    simp [getInner, h₁, h₂, h₃, h₄, h₅]

/-- Setting a property of an advertisement. -/
theorem Advertisement.told_setInner (path : ObjectPath) (interface prop : String)
    (val : BluezOptions) (s : Advertisement) :
    ∃ r s', Properties.setInner path interface prop val s = some (r, s') ∧
      (∀ e, r = .error e → s' = s) ∧
      Properties.told r = Properties.existence Advertisement interface prop := by
  refine ⟨_, s, rfl, fun _ _ ↦ rfl, ?_⟩
  rw [Properties.existence_eq rfl]
  by_cases hi : interface = bluezAdvIf
  · by_cases hp : prop ∈ props
    · simp [hi, hp, Properties.told]
    · simp [hi, hp, Properties.told]
  · simp [hi, Properties.told]

/-! ## The implementations -/

/-- The implementations of `Properties`. -/
inductive Implementation
  | service
  | characteristic
  | descriptor
  | advertisement
deriving DecidableEq, Repr

namespace Implementation

/-- `Self` -/
def Self : Implementation → Type
  | service => ServData
  | characteristic => ChrcData
  | descriptor => Descriptor
  | advertisement => Advertisement

instance : (k : Implementation) → Properties k.Self
  | service => inferInstanceAs (Properties ServData)
  | characteristic => inferInstanceAs (Properties ChrcData)
  | descriptor => inferInstanceAs (Properties Descriptor)
  | advertisement => inferInstanceAs (Properties Advertisement)

/-- The value, if there is one, is not computed by a callback. -/
def Stored : (k : Implementation) → k.Self → Prop
  | service, _ | advertisement, _ => True
  | characteristic, (data : ChrcData) => ∃ v, data.value = .value v
  | descriptor, (desc : Descriptor) => ∃ v, desc.value = .value v

/-- Setting this property does what the table says.  A service has forgotten `Includes` and a
characteristic `WriteAcquired`; a descriptor asks for the interface of characteristics. -/
def SetsRight : Implementation → String → String → Prop
  | service, interface, prop => ¬(interface = bluezSerIf ∧ prop = incStr)
  | characteristic, interface, prop => ¬(interface = bluezChrIf ∧ prop = waStr)
  | descriptor, interface, _ => interface ≠ bluezDesIf ∧ interface ≠ bluezChrIf
  | advertisement, _, _ => True

/-- **Reading and setting agree on which properties there are**, but for what three of the
implementations have forgotten or mistaken. -/
theorem properties_agree_iff (k : Implementation) {path : ObjectPath} (hpath : path ≠ .root)
    (s : k.Self) (interface prop : String) (val : BluezOptions) :
    Properties.Agrees path (k.Stored s) interface prop val s ↔ k.SetsRight interface prop := by
  cases k with
  | service =>
      exact Properties.agrees_iff_of_exact (ServData.readable path _) (ServData.exact path s)
        (fun _ ↦ ServData.readable path _) (ServData.told_setInner path interface prop val s)
  | characteristic =>
      refine Properties.agrees_iff_of_exact (ChrcData.readable hpath fun _ _ ↦ trivial)
        (ChrcData.exact hpath s) ?_ (ChrcData.told_setInner path interface prop val s)
      rintro ⟨v, hv⟩
      apply ChrcData.readable hpath
      intro d hd
      rw [hd, hv]
      exact congrArg (fun value ↦ ({ s with value := value } : ChrcData)) hv.symm
  | descriptor =>
      refine Properties.agrees_iff_of_exact (Descriptor.readable hpath fun _ _ ↦ trivial)
        (Descriptor.exact hpath s) ?_ (Descriptor.told_setInner path interface prop val s)
      rintro ⟨v, hv⟩
      apply Descriptor.readable hpath
      intro d hd
      rw [hd, hv]
      exact congrArg (fun value ↦ ({ s with value := value } : Descriptor)) hv.symm
  | advertisement =>
      obtain ⟨r, s', hset, hsame, htold⟩ := Advertisement.told_setInner path interface prop val s
      exact Properties.agrees_iff_of_exact (Advertisement.readable path _)
        (Advertisement.exact path s) (fun _ ↦ Advertisement.readable path _)
        ⟨r, s', hset, hsame, iff_of_true htold trivial⟩

/-- A path with a parent. -/
def belowRoot : ObjectPath := .push .root "char0000".toList (by decide)

/-- A characteristic that is new. -/
def newChrc : characteristic.Self := ChrcData.new { uuid := ⟨1⟩, flags := {} } 0

/-- A handle is set. -/
theorem properties_agree_iff_handle : Properties.Agrees belowRoot (characteristic.Stored newChrc)
    bluezChrIf handleStr (.u16 5) newChrc := by
  have hpath : belowRoot ≠ .root := ObjectPath.push_ne_root _ _
  have hright : characteristic.SetsRight bluezChrIf handleStr := by
    rintro ⟨-, hprop⟩
    exact absurd hprop (by decide)
  exact (properties_agree_iff characteristic hpath newChrc bluezChrIf handleStr (.u16 5)).mpr hright

/-- A service has `Includes`, but denies it when it is set. -/
theorem includes_denied :
    ¬∀ (k : Implementation) (path : ObjectPath) (s : k.Self) (interface prop : String)
      (val : BluezOptions), path ≠ .root →
        Properties.Agrees path (k.Stored s) interface prop val s := by
  intro hall
  have hpath : belowRoot ≠ .root := ObjectPath.push_ne_root _ _
  let serv : ServData := { handle := 0, uuid := ⟨0⟩, children := 0, includes := [], primary := true }
  obtain ⟨r, s', hset, htold, -⟩ :=
    (hall service belowRoot serv bluezSerIf incStr (.ownedPaths []) hpath).set
  obtain ⟨rfl, -⟩ := Prod.mk.inj (Option.some.inj hset)
  contradiction

end Implementation

end Rustable
