import Rustable.Gatt.Server.Serving

/-!
# Attributes with a value

Characteristics and descriptors are read and written by calls of the same names, and each
handles them by itself.  An `Attribute` is one of them; `handleCall_readValue` and
`handleCall_writeValue` say of both what the handlers do.

Whether a call is permitted is decided by the flags, of which the property `Flags` advertises
a list.  The decisions match the list (`matchesFlags_iff`), except that neither handler has
thought of `secure-write`.
-/

namespace Rustable.Gatt.Server

open DBus

/-! ## What is received -/

/-- The options with an offset, as they are sent. -/
def offsetOptions (offset : UInt16) : Val (sig Options) :=
  .ofEntries [("offset", .variant (.base offset : Val (sig UInt16)))]

theorem unmarshal_offsetOptions (offset : UInt16) :
    ∃ options : Options, unmarshal (offsetOptions offset) = some options ∧
      offsetOption options = offset.toNat := ⟨_, rfl, rfl⟩

/-- The body of a `WriteValue`: the slice and the options, in a struct. -/
def writeBody (slice : AttBytes) (offset : UInt16) : Body :=
  [⟨sig (AttBytes × Options), .struct (.cons (.ofList (slice.bytes.map .base))
    (.one (offsetOptions offset)))⟩]

theorem get_writeBody (slice : AttBytes) (offset : UInt16) :
    ∃ options, (writeBody slice offset).get (AttBytes × Options) = .ok (slice, options) ∧
      offsetOption options = offset.toNat := by
  obtain ⟨options, hread, hoffset⟩ := unmarshal_offsetOptions offset
  have hsent : marshal slice = some (.ofList (slice.bytes.map .base) : Val (sig AttBytes)) := by
    have hbytes (l : List UInt8) : l.mapM marshal = some (l.map .base : List (Val (sig UInt8))) := by
      induction l with
      | nil => rfl
      | cons b l ih =>
          rw [List.mapM_cons, ih]
          rfl
    change (slice.bytes.mapM marshal).map Val.ofList = _
    rw [hbytes]
    rfl
  refine ⟨options, ?_, hoffset⟩
  have hpair : (unmarshal (.struct (.cons (.ofList (slice.bytes.map .base))
      (.one (offsetOptions offset))) : Val (sig (AttBytes × Options)))) = some (slice, options) := by
    change (unmarshal (.ofList (slice.bytes.map .base) : Val (sig AttBytes))).bind
      (fun a : AttBytes ↦ (unmarshal (offsetOptions offset)).bind fun b ↦ some (a, b)) = _
    rw [unmarshal_marshal hsent, Option.bind_some, hread, Option.bind_some]
  rw [Body.get, writeBody, Body.next_cons hpair]
  rfl

/-! ## Both kinds -/

/-- A characteristic or a descriptor. -/
inductive Attribute
  | chrc (data : ChrcData)
  | desc (data : Descriptor)

namespace Attribute

/-- The interface of its methods. -/
def interface : Attribute → String
  | chrc _ => bluezChrIf
  | desc _ => bluezDesIf

def value : Attribute → ValOrFn
  | chrc data => data.value
  | desc data => data.value

/-- What the property `Flags` reads as. -/
def flags : Attribute → List String
  | chrc data => data.flags.toStrings
  | desc data => data.flags.toStrings

/-- `handle_call` -/
def handleCall (io : Io) (call : MarshalledMessage) : Turn Attribute MarshalledMessage
  | chrc data => (ChrcData.handleCall io call data).mapState chrc
  | desc data => (Turn.ofMayPanic (Descriptor.handleCall call) data).mapState desc

/-- A peer may read the value. -/
def readable : Attribute → Bool
  | chrc data => data.readable?
  | desc data => data.readable?

/-- A peer may write the value. -/
def writable : Attribute → Bool
  | chrc data => data.writable
  | desc data => data.writable

/-- `self.value.to_value()` -/
def read : Attribute → AttBytes × Attribute
  | chrc data => (data.value.toValue.1, chrc { data with value := data.value.toValue.2 })
  | desc data => (data.value.toValue.1, desc { data with value := data.value.toValue.2 })

/-- What a write at an offset makes of the stored value, and the attribute then. -/
def updated (a : Attribute) (slice : AttBytes) (offset : Nat) : Option (AttBytes × Attribute) :=
  if offset ≠ 0 then (a.read.1.update slice.bytes offset).map (·, a.read.2) else some (slice, a)

/-- What is done with a value that is written: a characteristic passes it to its write
callback, a descriptor stores it. -/
def accept (io : Io) (path : ObjectPath) (v : AttBytes) : Turn Attribute Unit
  | chrc data => (ChrcData.handleWrite io path v data).mapState chrc
  | desc data => .done () (desc { data with value := .value v }) []

section Calls

variable {path : ObjectPath} {io : Io} {a : Attribute} {c : MethodCall path}

theorem handleCall_readValue (hinterface : c.interface = some a.interface)
    (hmember : c.member = "ReadValue") : handleCall io c.toMessage a =
      if a.readable then
        match c.toMessage.body.get Options with
        | .error _ => .done (c.toMessage.dynheader.makeErrorResponse "UnknownType" none) a []
        | .ok options =>
            .done (valueReply c.toMessage (a.read.1.bytes.drop (offsetOption options))) a.read.2 []
      else .done (refusal c.toMessage) a [] := by
  cases a with
  | chrc data =>
      rw [handleCall, ChrcData.handleCall_method hinterface rfl, hmember, readable]
      change (ChrcData.readValue c.toMessage data).mapState chrc = _
      rw [ChrcData.readValue_eq]
      split
      · cases c.toMessage.body.get Options with
        | error e => rfl
        | ok options => rfl
      · rfl
  | desc data =>
      rw [handleCall, Descriptor.handleCall_method hinterface rfl, hmember, readable]
      change (Turn.ofMayPanic (Descriptor.readValue c.toMessage) data).mapState desc = _
      rw [Turn.ofMayPanic, Turn.onPart, id_eq, Descriptor.readValue_eq]
      cases data.readable? with
      | false => rfl
      | true =>
          cases c.toMessage.body.get Options with
          | error e => rfl
          | ok options => rfl

theorem handleCall_writeValue (hinterface : c.interface = some a.interface)
    (hmember : c.member = "WriteValue") : handleCall io c.toMessage a =
      if a.writable then
        match c.toMessage.body.get (AttBytes × Options) with
        | .error _ => .done (c.toMessage.dynheader.makeErrorResponse "UnknownType" none) a []
        | .ok (slice, options) => match a.updated slice (offsetOption options) with
          | none => .stop .panic []
          | some (v, t) => (t.accept io path v).map fun _ ↦ c.toMessage.dynheader.makeResponse
      else .done (refusal c.toMessage) a [] := by
  cases a with
  | chrc data =>
      rw [handleCall, ChrcData.handleCall_method hinterface rfl, hmember, writable]
      change (ChrcData.writeValue io c.toMessage data).mapState chrc = _
      rw [ChrcData.writeValue_eq rfl, ChrcData.accepted]
      cases data.writable with
      | false => rfl
      | true =>
          rw [if_pos rfl, if_pos rfl]
          cases c.toMessage.body.get (AttBytes × Options) with
          | error e => rfl
          | ok args =>
              obtain ⟨slice, options⟩ := args
              dsimp only
              have hread : (chrc data).read.1 = data.value.toValue.1 := rfl
              rw [ChrcData.updatedValue, updated, hread]
              by_cases hzero : offsetOption options = 0
              · rw [if_neg (not_not.mpr hzero), if_neg (not_not.mpr hzero)]
                exact (Ran.map_mapState chrc _ _).symm
              · rw [if_pos hzero, if_pos hzero]
                cases data.value.toValue.1.update slice.bytes (offsetOption options) with
                | none => rfl
                | some v => exact (Ran.map_mapState chrc _ _).symm
  | desc data =>
      rw [handleCall, Descriptor.handleCall_method hinterface rfl, hmember, writable]
      change (Turn.ofMayPanic (Descriptor.writeValue c.toMessage) data).mapState desc = _
      rw [Turn.ofMayPanic, Turn.onPart, id_eq, Descriptor.writeValue_eq]
      cases data.writable with
      | false => rfl
      | true =>
          rw [if_pos rfl, if_pos rfl]
          cases c.toMessage.body.get (AttBytes × Options) with
          | error e => rfl
          | ok args =>
              obtain ⟨slice, options⟩ := args
              dsimp only
              have hread : (desc data).read.1 = data.value.toValue.1 := rfl
              rw [updated, hread]
              by_cases hzero : offsetOption options = 0
              · rw [if_neg (not_not.mpr hzero), if_neg (not_not.mpr hzero)]
                rfl
              · rw [if_pos hzero, if_pos hzero]
                cases data.value.toValue.1.update slice.bytes (offsetOption options) with
                | none => rfl
                | some v => rfl

end Calls

/-! ## Flags and decisions -/

/-- The property `prop`, where it can be read. -/
def property (path : ObjectPath) (prop : String) : Attribute → Option (Except PropError BluezOptions)
  | chrc data => (ChrcData.getInner path bluezChrIf prop data).map Prod.fst
  | desc data => (Descriptor.getInner path bluezDesIf prop data).map Prod.fst

theorem property_flags (path : ObjectPath) (a : Attribute) :
    a.property path flagStr = some (.ok (.flags a.flags)) := by
  cases a with
  | chrc data => rfl
  | desc data => rfl

end Attribute

/-- The flags that let a peer read. -/
def readFlags : List String :=
  ["read", "secure-read", "encrypt-read", "encrypt-authenticated-read"]

/-- The flags that let a peer write. -/
def writeFlags : List String :=
  ["write", "write-without-response", "secure-write", "encrypt-write",
    "encrypt-authenticated-write"]

/-- A call has been refused for want of permission. -/
def Denied {σ : Type} (ran : Ran Stop Out σ MarshalledMessage) : Prop :=
  ∃ m s out, ran = .done m s out ∧ m.typ = .error ∧
    m.dynheader.errorName = some "PermissionDenied"

theorem denied_refusal {σ : Type} (call : MarshalledMessage) (s : σ) :
    Denied (.done (refusal call) s []) := ⟨_, s, [], rfl, rfl, rfl⟩

theorem not_denied_error {σ : Type} (call : MarshalledMessage) (s : σ) :
    ¬Denied (.done (call.dynheader.makeErrorResponse "UnknownType" none) s []) := by
  rintro ⟨m, t, out, hrun, -, hname⟩
  obtain ⟨rfl, -, -⟩ := Ran.done.inj hrun
  simp [DynHeader.makeErrorResponse] at hname

/-- A reply that is no error denies nothing. -/
theorem not_denied_map {σ α : Type} {m : MarshalledMessage} (hm : m.typ = .reply)
    (ran : Ran Stop Out σ α) : ¬Denied (ran.map fun _ ↦ m) := by
  rintro ⟨m', t, out, hrun, htyp, -⟩
  cases ran with
  | stop why sent => simp [Ran.map] at hrun
  | done r u sent =>
      obtain ⟨rfl, -, -⟩ := Ran.done.inj hrun
      simp [hm] at htyp

namespace Attribute

variable {path : ObjectPath} {io : Io} {a : Attribute} {c : MethodCall path}

theorem readable_iff : a.readable = true ↔ ∃ flag ∈ readFlags, flag ∈ a.flags := by
  cases a with
  | chrc data => simp [readable, ChrcData.readable?, readFlags, flags, CharFlags.toStrings, or_assoc]
  | desc data =>
      simp [readable, Descriptor.readable?, readFlags, flags, DescFlags.toStrings, or_assoc]

/-- A peer that may write securely may not write. -/
theorem writable_iff : a.writable = true ↔
    ∃ flag ∈ writeFlags, flag ≠ "secure-write" ∧ flag ∈ a.flags := by
  cases a with
  | chrc data =>
      simp [writable, ChrcData.writable, writeFlags, flags, CharFlags.toStrings, or_assoc]
  | desc data =>
      simp [writable, Descriptor.writable, writeFlags, flags, DescFlags.toStrings, or_assoc]

/-- A call is denied if and only if none of the flags that would permit it is advertised, and
then it leaves the attribute as it is and nothing is sent. -/
structure Decides (a : Attribute) (ran : Ran Stop Out Attribute MarshalledMessage)
    (permitting advertised : List String) : Prop where
  denied_iff : Denied ran ↔ ∀ flag ∈ permitting, flag ∉ advertised
  unchanged : Denied ran → ∃ m, ran = .done m a []

/-- What the attribute decides on a call is what the flags advertise. -/
structure MatchesFlags (a : Attribute) (io : Io) (c : MethodCall path)
    (advertised : List String) : Prop where
  readValue : c.member = "ReadValue" →
    a.Decides (a.handleCall io c.toMessage) readFlags advertised
  writeValue : c.member = "WriteValue" →
    a.Decides (a.handleCall io c.toMessage) writeFlags advertised

/-- A read is denied where it is not permitted. -/
theorem denied_readValue_iff (hinterface : c.interface = some a.interface)
    (hmember : c.member = "ReadValue") :
    Denied (a.handleCall io c.toMessage) ↔ a.readable = false := by
  rw [handleCall_readValue hinterface hmember]
  cases a.readable with
  | false => exact iff_of_true (denied_refusal ..) rfl
  | true =>
      refine iff_of_false ?_ Bool.false_ne_true.symm
      rw [if_pos rfl]
      cases c.toMessage.body.get Options with
      | error e => exact not_denied_error c.toMessage a
      | ok options => exact not_denied_map rfl (.done () a.read.2 [])

theorem denied_writeValue_iff (hinterface : c.interface = some a.interface)
    (hmember : c.member = "WriteValue") :
    Denied (a.handleCall io c.toMessage) ↔ a.writable = false := by
  rw [handleCall_writeValue hinterface hmember]
  cases a.writable with
  | false => exact iff_of_true (denied_refusal ..) rfl
  | true =>
      refine iff_of_false ?_ Bool.false_ne_true.symm
      rw [if_pos rfl]
      cases c.toMessage.body.get (AttBytes × Options) with
      | error e => exact not_denied_error c.toMessage a
      | ok args =>
          dsimp only
          cases a.updated args.1 (offsetOption args.2) with
          | none =>
              rintro ⟨m, t, out, hrun, -, -⟩
              contradiction
          | some r => exact not_denied_map rfl _

/-- **The decisions match the list that is advertised**, unless it names secure writes and no
other kind of write: then a write is denied that the list permits. -/
theorem matchesFlags_iff {advertised : List String}
    (hflags : a.property path flagStr = some (.ok (.flags advertised)))
    (hinterface : c.interface = some a.interface) :
    a.MatchesFlags io c advertised ↔
      (c.member = "WriteValue" → "secure-write" ∈ advertised →
        ∃ flag ∈ writeFlags, flag ≠ "secure-write" ∧ flag ∈ advertised) := by
  obtain rfl : a.flags = advertised := by
    rw [property_flags] at hflags
    simpa using hflags
  constructor
  · intro h hmember hsecure
    apply writable_iff.mp
    by_contra hwritable
    have hdenied : Denied (a.handleCall io c.toMessage) :=
      (denied_writeValue_iff hinterface hmember).mpr (Bool.eq_false_of_not_eq_true hwritable)
    exact (h.writeValue hmember).denied_iff.mp hdenied _ (by simp [writeFlags]) hsecure
  · intro h
    constructor
    · intro hmember
      have hdenied : Denied (a.handleCall io c.toMessage) ↔ _ :=
        denied_readValue_iff hinterface hmember
      constructor
      · rw [hdenied, ← Bool.not_eq_true, readable_iff]
        simp
      · intro h
        rw [handleCall_readValue hinterface hmember, hdenied.mp h]
        exact ⟨_, rfl⟩
    · intro hmember
      have hdenied : Denied (a.handleCall io c.toMessage) ↔ _ :=
        denied_writeValue_iff hinterface hmember
      constructor
      · rw [hdenied, ← Bool.not_eq_true, writable_iff]
        constructor
        · intro hnone flag hwrite hflag
          by_cases hsecure : flag = "secure-write"
          · exact hnone (h hmember (hsecure ▸ hflag))
          · exact hnone ⟨flag, hwrite, hsecure, hflag⟩
        · rintro hnone ⟨flag, hwrite, -, hflag⟩
          exact hnone flag hwrite hflag
      · intro h
        rw [handleCall_writeValue hinterface hmember, hdenied.mp h]
        exact ⟨_, rfl⟩

/-- A descriptor that may also be written insecurely. -/
theorem matchesFlags_iff_write :
    (desc { uuid := ⟨1⟩, flags := { write := true, secureWrite := true } }).MatchesFlags
      {} ({ member := "WriteValue", interface := some bluezDesIf, body := writeBody .empty 0 } :
        MethodCall .root)
      ["write", "secure-write"] :=
  (matchesFlags_iff rfl rfl).mpr fun _ _ ↦ ⟨"write", by simp [writeFlags], by simp, by simp⟩

/-- One that may only be written securely cannot be written at all. -/
theorem secureWrite_denied : ¬∀ (path : ObjectPath) (a : Attribute) (io : Io)
    (c : MethodCall path) (advertised : List String),
    a.property path flagStr = some (.ok (.flags advertised)) →
      c.interface = some a.interface → a.MatchesFlags io c advertised := by
  intro hall
  have hmatches := hall .root (desc { uuid := ⟨1⟩, flags := { secureWrite := true } }) {}
    { member := "WriteValue", interface := some bluezDesIf, body := writeBody .empty 0 }
    ["secure-write"] rfl rfl
  have hdenied := (hmatches.writeValue rfl).denied_iff.mp
    ((denied_writeValue_iff rfl rfl).mpr rfl)
  exact hdenied "secure-write" (by simp [writeFlags]) List.mem_cons_self

end Attribute

end Rustable.Gatt.Server
