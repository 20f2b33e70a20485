import Rustable.Basic
import Rustable.Gatt.AttValue

/-!
# Values, flags and property names of attributes

What the client and the server side of `gatt` share.  An `AttValue` is the `AttBytes`
it represents; a callback is the function from the number of its call to what that
call returns.
-/

namespace Rustable.Gatt

open DBus

def uuidStr := "UUID"
def pryStr := "Primary"
def handleStr := "Handle"
def incStr := "Includes"
def servStr := "Service"
def charStr := "Characteristic"
def noStr := "Notifying"
def naStr := "NotifyAcquired"
def valStr := "Value"
def waStr := "WriteAcquired"
def flagStr := "Flags"

/-! ## Values -/

/-- `impl Signature for AttValue` -/
instance : Signature AttBytes := ⟨sig (List UInt8)⟩

/-- `impl Marshal for AttValue` -/
instance : Marshal AttBytes := ⟨fun v ↦ (marshal v.bytes : Option (Val (sig (List UInt8))))⟩

/-- `impl Unmarshal for AttValue`: longer arrays are of an invalid type. -/
instance : Unmarshal AttBytes := ⟨fun v ↦ (unmarshal v : Option (List UInt8)).bind fits⟩

instance : Exact AttBytes where
  unmarshal_marshal {a v} h := by
    have hsent : (marshal a.bytes : Option (Val (sig (List UInt8)))) = some v := h
    have hbytes : (unmarshal v : Option (List UInt8)) = some a.bytes := unmarshal_marshal hsent
    change (unmarshal v : Option (List UInt8)).bind fits = some a
    rw [hbytes, Option.bind_some, fits_of_le a.length_le]

/-- `enum ValOrFn`: a callback is an `FnMut`, so it may return something else at each
call; `calls` counts the calls so far. -/
inductive ValOrFn
  | value (v : AttBytes)
  | function (f : Nat → AttBytes) (calls : Nat)

instance : Inhabited ValOrFn := ⟨.value AttBytes.empty⟩

/-- `ValOrFn::to_value` -/
def ValOrFn.toValue : ValOrFn → AttBytes × ValOrFn
  | .value v => (v, .value v)
  | .function f calls => (f calls, .function f (calls + 1))

/-- `NonZeroU16` -/
abbrev NonZeroU16 := { h : UInt16 // h ≠ 0 }

/-- `NonZeroU16::new` -/
def nonZeroU16 (h : UInt16) : Option NonZeroU16 := if hh : h ≠ 0 then some ⟨h, hh⟩ else none

theorem nonZeroU16_eq_none {h : UInt16} : nonZeroU16 h = none ↔ h = 0 := by
  rw [nonZeroU16]
  split
  · next hh => exact iff_of_false (Option.some_ne_none _) hh
  · next hh => exact iff_of_true rfl (not_not.mp hh)

theorem nonZeroU16_of_ne {h : UInt16} (hh : h ≠ 0) : nonZeroU16 h = some ⟨h, hh⟩ := dif_pos hh

/-! ## Flags -/

/-- `if flag { ret.push(name) }` -/
def pushIf (flag : Bool) (name : String) : List String := if flag then [name] else []

@[simp] theorem mem_pushIf {flag : Bool} {name s : String} :
    s ∈ pushIf flag name ↔ flag = true ∧ s = name := by
  cases flag <;> simp [pushIf]

/-- `struct CharFlags` -/
structure CharFlags where
  broadcast : Bool := false
  read : Bool := false
  writeWoResponse : Bool := false
  write : Bool := false
  notify : Bool := false
  indicate : Bool := false
  authSignedWrites : Bool := false
  extendedProperties : Bool := false
  reliableWrite : Bool := false
  writableAuxiliaries : Bool := false
  encryptRead : Bool := false
  encryptWrite : Bool := false
  encryptAuthRead : Bool := false
  encryptAuthWrite : Bool := false
  secureRead : Bool := false
  secureWrite : Bool := false
  authorize : Bool := false
deriving DecidableEq

namespace CharFlags

/-- `CharFlags::to_strings` -/
def toStrings (f : CharFlags) : List String :=
  pushIf f.broadcast "broadcast" ++ pushIf f.read "read" ++ pushIf f.write "write" ++
    pushIf f.writeWoResponse "write-without-response" ++ pushIf f.notify "notify" ++
    pushIf f.indicate "indicate" ++
    pushIf f.authSignedWrites "authenticated-signed-writes" ++
    pushIf f.extendedProperties "extended-properties" ++
    pushIf f.reliableWrite "reliable-write" ++
    pushIf f.writableAuxiliaries "writable-auxiliaries" ++
    pushIf f.encryptRead "encrypt-read" ++ pushIf f.encryptWrite "encrypt-write" ++
    pushIf f.encryptAuthRead "encrypt-authenticated-read" ++
    pushIf f.encryptAuthWrite "encrypt-authenticated-write" ++
    pushIf f.secureWrite "secure-write" ++ pushIf f.secureRead "secure-read" ++
    pushIf f.authorize "authorize"

/-- The body of the loop of `CharFlags::from_strings`: an unknown name is
`unreachable!()`. -/
def addFlag (ret : CharFlags) : String → Option CharFlags
  | "broadcast" => some { ret with broadcast := true }
  | "read" => some { ret with read := true }
  | "write" => some { ret with write := true }
  | "write-without-response" => some { ret with writeWoResponse := true }
  | "notify" => some { ret with notify := true }
  | "indicate" => some { ret with indicate := true }
  | "authenticated-signed-writes" => some { ret with authSignedWrites := true }
  | "extended-properties" => some { ret with extendedProperties := true }
  | "reliable-write" => some { ret with reliableWrite := true }
  | "writable-auxiliaries" => some { ret with writableAuxiliaries := true }
  | "encrypt-read" => some { ret with encryptRead := true }
  | "encrypt-write" => some { ret with encryptWrite := true }
  | "encrypt-authenticated-read" => some { ret with encryptAuthRead := true }
  | "encrypt-authenticated-write" => some { ret with encryptAuthWrite := true }
  | "secure-write" => some { ret with secureWrite := true }
  | "secure-read" => some { ret with secureRead := true }
  | "authorize" => some { ret with authorize := true }
  | _ => none

/-- `CharFlags::from_strings` -/
def fromStrings (flags : List String) : Option CharFlags := flags.foldlM addFlag {}

end CharFlags

/-- `struct DescFlags` -/
structure DescFlags where
  read : Bool := false
  write : Bool := false
  encryptRead : Bool := false
  encryptWrite : Bool := false
  encryptAuthRead : Bool := false
  encryptAuthWrite : Bool := false
  secureRead : Bool := false
  secureWrite : Bool := false
  authorize : Bool := false
deriving DecidableEq

/-- `DescFlags::to_strings` -/
def DescFlags.toStrings (f : DescFlags) : List String :=
  pushIf f.read "read" ++ pushIf f.write "write" ++ pushIf f.encryptRead "encrypt-read" ++
    pushIf f.encryptWrite "encrypt-write" ++
    pushIf f.encryptAuthRead "encrypt-authenticated-read" ++
    pushIf f.encryptAuthWrite "encrypt-authenticated-write" ++
    pushIf f.secureWrite "secure-write" ++ pushIf f.secureRead "secure-read" ++
    pushIf f.authorize "authorize"

end Rustable.Gatt
