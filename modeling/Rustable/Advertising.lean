import Rustable.Properties

/-!
# Advertisements

`advertising.rs`: the advertisement and its properties.

BlueZ reads an advertisement with `GetAll`.  What it gets tells the services, the kind and the
data (`same_propMap_iff`), but not the name, the duration and the timeout: there is no property
for them, although `introspect.rs` lists `LocalName`, `Duration` and `Timeout` on the interface.
-/

namespace Rustable

open DBus

/-- `enum AdType` -/
inductive AdType
  | peripheral
  | broadcast
deriving DecidableEq, Repr

/-- `AdType::to_str` -/
def AdType.toStr : AdType → String
  | .peripheral => "peripheral"
  | .broadcast => "broadcast"

theorem AdType.toStr_injective {t t' : AdType} (h : t.toStr = t'.toStr) : t = t' := by
  cases t <;> cases t' <;> simp [toStr] at h ⊢

/-- `struct Advertisement`.  The connection is left out; `hci` is the path of the adapter. -/
structure Advertisement where
  hci : ObjectPath := .root
  services : List UUID := []
  solicit : List UUID := []
  dest : Option String := none
  name : Option String := none
  typ : AdType := .peripheral
  duration : UInt16 := 0
  timeout : UInt16 := 0
  manuData : HashMap String (List UInt8) := ∅
  servData : HashMap UUID (List UInt8) := ∅

/-- Two values are the same: maps by their entries, anything else as it is. -/
def BluezOptions.Same : BluezOptions → BluezOptions → Prop
  | .dataMap m, .dataMap m' => m.Same m'
  | .uuidMap m, .uuidMap m' => m.Same m'
  | o, o' => o = o'

namespace Advertisement

/-- `INTERFACES[0].1` -/
def props : List String :=
  ["ServiceUUIDs", "Type", "ManufacturerData", "SolicitUUIDs", "ServiceData"]

/-- `Advertisement::get_inner` -/
def getInner (_path : ObjectPath) (interface prop : String) :
    MayPanic Advertisement (Except PropError BluezOptions) := do
  if interface ≠ bluezAdvIf then return .error .interfaceNotFound
  let self ← get
  if prop = "Type" then return .ok (.str self.typ.toStr)
  else if prop = "ServiceUUIDs" then return .ok (.uuids self.services)
  else if prop = "ManufacturerData" then return .ok (.dataMap self.manuData)
  else if prop = "SolicitUUIDs" then return .ok (.uuids self.solicit)
  else if prop = "ServiceData" then return .ok (.uuidMap self.servData)
  else return .error .propertyNotFound

/-- `Advertisement::set_inner` -/
def setInner (_path : ObjectPath) (interface prop : String) (_val : BluezOptions) :
    MayPanic Advertisement (Except PropError Unit) :=
  return .error (
    if interface = bluezAdvIf then
      if prop ∈ props then .permissionDenied else .propertyNotFound
    else .interfaceNotFound)

instance : Properties Advertisement where
  interfaces := [(bluezAdvIf, props)]
  getInner := getInner
  setInner := setInner

/-- No property of an advertisement fails, and reading one changes nothing. -/
theorem readable (path : ObjectPath) (I : Advertisement → Prop) : Properties.Readable path I := by
  constructor
  · intro interface prop d hd
    change Properties.Sends I d (getInner path interface prop)
    rw [getInner]
    refine .ite (.error hd) (.get_bind ?_)
    refine .ite (.ok hd (by simp)) ?_
    refine .ite (.ok hd (by simp)) ?_
    refine .ite (.ok hd (by simp)) ?_
    refine .ite (.ok hd (by simp)) ?_
    refine .ite (.ok hd (by simp)) ?_
    exact .error hd
  · rintro _ hi prop hprop d r d' - hrun
    obtain rfl := List.mem_singleton.mp hi
    change getInner path bluezAdvIf prop d = some (r, d') at hrun
    unfold getInner at hrun
    rw [if_neg (not_not.mpr rfl)] at hrun
    simp only [props, List.mem_cons, List.not_mem_nil, or_false] at hprop
    rcases hprop with rfl | rfl | rfl | rfl | rfl <;> exact Properties.ok_of_run hrun

/-! ## What an advertisement exposes -/

/-- What a property reads as. -/
def property (a : Advertisement) (prop : String) : BluezOptions :=
  if prop = "Type" then .str a.typ.toStr
  else if prop = "ServiceUUIDs" then .uuids a.services
  else if prop = "ManufacturerData" then .dataMap a.manuData
  else if prop = "SolicitUUIDs" then .uuids a.solicit
  else .uuidMap a.servData

/-- All properties. -/
def propMap (a : Advertisement) : PropMap :=
  (∅ : PropMap).insertAll (props.map fun prop ↦ (prop, a.property prop))

/-- `GetAll` returns all properties. -/
theorem getAllInner_eq (path : ObjectPath) (a : Advertisement) :
    Properties.getAllInner path bluezAdvIf a = some (.ok a.propMap, a) := by
  refine Properties.getAllInner_of_reads (i := (bluezAdvIf, props)) rfl fun prop hprop ↦ ?_
  change getInner path bluezAdvIf prop a = some (.ok (a.property prop), a)
  simp only [props, List.mem_cons, List.not_mem_nil, or_false] at hprop
  rcases hprop with rfl | rfl | rfl | rfl | rfl <;> rfl

/-- The fields with a property are the same. -/
structure Exposed (a b : Advertisement) : Prop where
  services : a.services = b.services
  solicit : a.solicit = b.solicit
  typ : a.typ = b.typ
  manuData : a.manuData.Same b.manuData
  servData : a.servData.Same b.servData

/-- The fields an application sets for what is broadcast are the same. -/
structure Configured (a b : Advertisement) : Prop extends Exposed a b where
  name : a.name = b.name
  duration : a.duration = b.duration
  timeout : a.timeout = b.timeout

/-- **The map of all properties tells the fields with a property**, and no others. -/
theorem same_propMap_iff {a b : Advertisement} :
    a.propMap.SameUpTo BluezOptions.Same b.propMap ↔ Exposed a b := by
  rw [propMap, propMap, AList.sameUpTo_insertAll_map_iff]
  simp only [props, List.forall_mem_cons]
  constructor
  · rintro ⟨hservices, htyp, hmanu, hsolicit, hserv, -⟩
    exact ⟨BluezOptions.uuids.inj hservices, BluezOptions.uuids.inj hsolicit,
      AdType.toStr_injective (BluezOptions.str.inj htyp), hmanu, hserv⟩
  · rintro ⟨hservices, hsolicit, htyp, hmanu, hserv⟩
    exact ⟨congrArg BluezOptions.uuids hservices, congrArg BluezOptions.str (congrArg _ htyp),
      hmanu, congrArg BluezOptions.uuids hsolicit, hserv, List.forall_mem_nil _⟩

theorem configured_iff {a b : Advertisement} :
    Configured a b ↔
      Exposed a b ∧ a.name = b.name ∧ a.duration = b.duration ∧ a.timeout = b.timeout := by
  constructor
  · exact fun h ↦ ⟨h.toExposed, h.name, h.duration, h.timeout⟩
  · rintro ⟨hexposed, hname, hduration, htimeout⟩
    exact { hexposed with name := hname, duration := hduration, timeout := htimeout }

/-- **What `GetAll` returns tells two advertisements apart** if they differ in a field with a
property; if they do not, only when the fields without one are the same as well. -/
theorem exposes_configured_iff (path path' : ObjectPath) (a b : Advertisement) :
    ∃ m m', Properties.getAllInner path bluezAdvIf a = some (.ok m, a) ∧
      Properties.getAllInner path' bluezAdvIf b = some (.ok m', b) ∧
      ((m.SameUpTo BluezOptions.Same m' → Configured a b) ↔
        (a.name = b.name ∧ a.duration = b.duration ∧ a.timeout = b.timeout) ∨ ¬Exposed a b) := by
  refine ⟨a.propMap, b.propMap, getAllInner_eq path a, getAllInner_eq path' b, ?_⟩
  rw [same_propMap_iff, configured_iff]
  tauto

/-- An advertisement with a name, and nothing else. -/
def named : Advertisement := { name := some "thermometer" }

/-- An advertisement with a name reads like the one without. -/
theorem name_not_exposed :
    ¬∀ (path : ObjectPath) (a b : Advertisement) (m m' : PropMap),
      Properties.getAllInner path bluezAdvIf a = some (.ok m, a) →
      Properties.getAllInner path bluezAdvIf b = some (.ok m', b) →
      m.SameUpTo BluezOptions.Same m' → Configured a b := by
  intro h
  have hsame : named.propMap.SameUpTo BluezOptions.Same ({} : Advertisement).propMap :=
    same_propMap_iff.mpr ⟨rfl, rfl, rfl, fun _ ↦ rfl, fun _ ↦ rfl⟩
  have hname := (h .root named {} _ _ (getAllInner_eq ..) (getAllInner_eq ..) hsame).name
  contradiction

end Advertisement

end Rustable
