import Rustable.Id

/-!
# The variants BlueZ speaks

`BluezOptions` is the enum that `dbus_variant_var!` declares in `lib.rs`: one
alternative for each type a variant is expected to hold, and `Catchall` with the
signature of anything else.  An alternative is sent as the variant of its value.  A
variant is received as the *first* alternative of its type, so that of two alternatives
with one type the second is never received (`received`).
-/

namespace Rustable

open DBus

/-- `impl Marshal for UUID` and `impl Unmarshal for UUID`: a UUID is sent as its text.
The panics of `from_str` count as failures here: `BluezOptions` never gets to read a
UUID, since `Flags` comes before `UUIDs` and `DataMap` before `UUIDMap`. -/
instance : BaseWire UUID where
  base := .string
  toVal u := String.ofList u.toChars
  ofVal s := (UUID.fromStr s.toList).run.bind Except.toOption
  ofVal_toVal u := by
    rw [String.toList_ofList, UUID.fromStr_toChars]
    rfl

/-- `enum BluezOptions` -/
inductive BluezOptions
  | bool (b : Bool)
  | u16 (n : UInt16)
  | str (s : String)
  | ownedStr (s : String)
  | path (p : ObjectPath)
  | ownedPath (p : ObjectPath)
  | buf (bytes : List UInt8)
  | ownedBuf (bytes : List UInt8)
  | paths (ps : List ObjectPath)
  | ownedPaths (ps : List ObjectPath)
  | flags (names : List String)
  | uuids (us : List UUID)
  | dataMap (m : HashMap String (List UInt8))
  | uuidMap (m : HashMap UUID (List UInt8))
  | catchall (sig : Sig)

namespace BluezOptions

/-- The alternatives, in the order in which they are tried. -/
def alternatives : List (Alternative BluezOptions) :=
  [.of bool, .of u16, .of str, .of ownedStr, .of path, .of ownedPath, .of buf, .of ownedBuf,
    .of paths, .of ownedPaths, .of flags, .of uuids, .of dataMap, .of uuidMap]

instance : Signature BluezOptions := ⟨.variant⟩

/-- The variant of a value. -/
def variantOf {α : Type} [Signature α] [Marshal α] (a : α) : Option (Val .variant) :=
  (marshal a).map .variant

instance : Marshal BluezOptions where
  marshal
    | bool b => variantOf b
    | u16 n => variantOf n
    | str s | ownedStr s => variantOf s
    | path p | ownedPath p => variantOf p
    | buf bytes | ownedBuf bytes => variantOf bytes
    | paths ps | ownedPaths ps => variantOf ps
    | flags names => variantOf names
    | uuids us => variantOf us
    | dataMap m => variantOf m
    | uuidMap m => variantOf m
    | catchall _ => none

/-- Read a variant. -/
def ofVariant : Val .variant → Option BluezOptions
  | .variant v => firstOf catchall alternatives _ v

instance : Unmarshal BluezOptions := ⟨ofVariant⟩

/-- What an alternative that is sent is received as. -/
def received : BluezOptions → BluezOptions
  | ownedStr s => str s
  | ownedPath p => path p
  | ownedBuf bytes => buf bytes
  | ownedPaths ps => paths ps
  | uuids us => flags (us.map fun u ↦ String.ofList u.toChars)
  | o => o

/-- The alternatives that hold a map. -/
def IsMap : BluezOptions → Prop
  | dataMap _ | uuidMap _ => True
  | _ => False

/-! ## What is sent is received -/

/-- **Every alternative but `Catchall` can be sent.** -/
theorem marshal_isSome {o : BluezOptions} (h : ∀ s, o ≠ catchall s) : (marshal o).isSome := by
  have variant {α : Type} [Signature α] [Marshal α] {a : α} (ha : (marshal a).isSome) :
      (variantOf a).isSome := Option.isSome_map.trans ha
  cases o with
  | bool | u16 | str | ownedStr | path | ownedPath => rfl
  | buf l | ownedBuf l => exact variant (marshal_bases_isSome l)
  | paths l | ownedPaths l => exact variant (marshal_bases_isSome l)
  | flags l => exact variant (marshal_bases_isSome l)
  | uuids l => exact variant (marshal_bases_isSome l)
  | dataMap m => exact variant (marshal_map_isSome fun e _ ↦ marshal_bases_isSome e.2)
  | uuidMap m => exact variant (marshal_map_isSome fun e _ ↦ marshal_bases_isSome e.2)
  | catchall s => exact absurd rfl (h s)

/-- A variant is read as the first alternative of its type. -/
theorem unmarshal_variant {α : Type} [Signature α] [Marshal α] [Unmarshal α] [Exact α]
    {f : α → BluezOptions} (hf : ∀ v : Val (sig α),
      firstOf catchall alternatives (sig α) v = (unmarshal v).map f)
    {a : α} {v : Val .variant} (h : variantOf a = some v) : ofVariant v = some (f a) := by
  obtain ⟨w, hw, rfl⟩ := Option.map_eq_some_iff.mp h
  change firstOf catchall alternatives (sig α) w = some (f a)
  rw [hf, unmarshal_marshal hw, Option.map_some]

/-- A list of UUIDs is sent as the list of their texts. -/
theorem variantOf_uuids (us : List UUID) :
    variantOf us = variantOf (us.map fun u ↦ String.ofList u.toChars) := by
  have h : us.mapM (marshal : UUID → _) =
      (us.map fun u ↦ String.ofList u.toChars).mapM (marshal : String → _) := by
    rw [List.mapM_map]
    rfl
  exact congrArg (fun vs ↦ Option.map Val.variant (Option.map Val.ofList vs)) h

/-- **Every alternative but the maps is received as it was sent**, with the borrowed
alternative in place of the owned one. -/
theorem unmarshal_marshal {o : BluezOptions} {v : Val .variant} (h : marshal o = some v)
    (ho : ¬o.IsMap) : (unmarshal v : Option BluezOptions) = some o.received := by
  cases o with
  | bool b => exact unmarshal_variant (f := bool) (fun _ ↦ rfl) h
  | u16 n => exact unmarshal_variant (f := u16) (fun _ ↦ rfl) h
  | str s | ownedStr s => exact unmarshal_variant (f := str) (fun _ ↦ rfl) h
  | path p | ownedPath p => exact unmarshal_variant (f := path) (fun _ ↦ rfl) h
  | buf bytes | ownedBuf bytes => exact unmarshal_variant (f := buf) (fun _ ↦ rfl) h
  | paths ps | ownedPaths ps => exact unmarshal_variant (f := paths) (fun _ ↦ rfl) h
  | flags names => exact unmarshal_variant (f := flags) (fun _ ↦ rfl) h
  | uuids us =>
      rw [show marshal (uuids us) = _ from variantOf_uuids us] at h
      exact unmarshal_variant (f := flags) (fun _ ↦ rfl) h
  | dataMap m => exact absurd trivial ho
  | uuidMap m => exact absurd trivial ho
  | catchall s => contradiction

end BluezOptions

end Rustable
