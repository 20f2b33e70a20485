import Rustable.Gatt.Client
import Rustable.Gatt.Server.Service

/-!
# Reading properties back

`Properties::get` answers with one value, a variant that holds the property.  The client
has eight readers of such replies; `Reader` lists them, with the value each is to return
and the alternative of `BluezOptions` that holds this value.

Six of them read the variant and return what it holds.  Two, `Characteristic::flags` and
`Adapter::get_powered`, ask for the bare type of the property instead, which is not the
type of a variant, and so fail on every such reply (`reader_exact_iff`).
-/

namespace Rustable.Gatt

open DBus Client Server

/-- The readers of a `Properties.Get` reply.  The lookups of UUIDs are of a child object
with the right kind of name. -/
inductive Reader
  | /-- `Service::get_service` -/
    serviceUuid (child : ObjectPath) (h : namedLike "service" child = true)
  | /-- `Characteristic::get_char` -/
    characteristicUuid (child : ObjectPath) (h : namedLike "char" child = true)
  | /-- `Descriptor::get_desc` -/
    descriptorUuid (child : ObjectPath) (h : namedLike "desc" child = true)
  | /-- `Service::get_includes` -/
    includes
  | /-- `Characteristic::flags` -/
    flags
  | /-- `Adapter::addr` -/
    addr
  | /-- `Adapter::get_powered` -/
    getPowered
  | /-- `Device::connected` -/
    connected

namespace Reader

/-- What a reader returns. -/
def Value : Reader → Type
  | serviceUuid .. | characteristicUuid .. | descriptorUuid .. => UUID
  | includes => List ObjectPath
  | flags => CharFlags
  | addr => MAC
  | getPowered | connected => Bool

/-- The alternative that holds the value. -/
def option : (r : Reader) → r.Value → BluezOptions
  | serviceUuid .., u | characteristicUuid .., u | descriptorUuid .., u =>
      .ownedStr (String.ofList u.toChars)
  | includes, ps => .ownedPaths ps
  | flags, f => .flags f.toStrings
  | addr, m => .ownedStr (String.ofList m.toChars)
  | getPowered, b | connected, b => .bool b

/-- What a reader makes of a reply.  A lookup may find no attribute. -/
def read : (r : Reader) → MarshalledMessage → MayFail (Option r.Value)
  | serviceUuid child _, res => do return (← getService child res).map (·.uuid)
  | characteristicUuid child _, res => do return (← getChar child res).map (·.uuid)
  | descriptorUuid child _, res => do return (← getDesc child res).map (·.uuid)
  | includes, res => do return some (← includesOfReply res)
  | flags, res => do return some (← flagsOfReply res)
  | addr, res => do return some (← addrOfReply res)
  | getPowered, res => do return some (← poweredOfReply res)
  | connected, res => do return some (← connectedOfReply res)

/-- The readers that ask for the bare type of the property. -/
def bare : Reader → Bool
  | flags | getPowered => true
  | _ => false

end Reader

/-- The reply `Properties::get` builds for a property. -/
def variantReply (h : DynHeader) (var : BluezOptions) : Option MarshalledMessage :=
  (h.makeResponse.body.pushParam var).map fun body ↦ { h.makeResponse with body := body }

/-- A response that carries one variant. -/
structure CarriesVariant (msg : MarshalledMessage) (o : BluezOptions) : Prop where
  typ : msg.typ = .reply
  body : ∃ w, marshal o = some w ∧ msg.body = [⟨sig BluezOptions, w⟩]

namespace CarriesVariant

variable {msg : MarshalledMessage} {o : BluezOptions}

/-- It is read as the alternative it was sent as, or the borrowed one in its place. -/
theorem isMsgErr_eq (h : CarriesVariant msg o) (ho : ¬o.IsMap) :
    isMsgErr BluezOptions msg = pure o.received := by
  obtain ⟨w, hw, hbody⟩ := h.body
  exact isMsgErr_reply h.typ hbody (BluezOptions.unmarshal_marshal hw ho)

/-- It cannot be read as anything but a variant. -/
theorem isMsgErr_bare (h : CarriesVariant msg o) {α : Type} [Signature α] [Unmarshal α]
    (hα : sig BluezOptions ≠ sig α) :
    isMsgErr α msg = throw (unmarshalFailed .wrongSignature) := by
  obtain ⟨w, -, hbody⟩ := h.body
  exact isMsgErr_of_ne h.typ hbody hα

theorem uuidOfReply_eq {u : UUID}
    (h : CarriesVariant msg (.ownedStr (String.ofList u.toChars))) :
    uuidOfReply msg = pure (some u) := by
  have hstr : (isMsgErr BluezOptions msg).run =
      some (.ok (.str (String.ofList u.toChars))) := h.isMsgErr_eq not_false
  rw [uuidOfReply, hstr]
  simp only [String.toList_ofList, UUID.fromStr_toChars]
  rfl

theorem lookupAttribute_eq {kind : String} {child : ObjectPath} {u : UUID}
    (hchild : namedLike kind child = true)
    (h : CarriesVariant msg (.ownedStr (String.ofList u.toChars))) :
    lookupAttribute kind child msg = pure (some ⟨child, u⟩) := by
  rw [lookupAttribute]
  split
  · next hname => rw [namedLike, hname] at hchild; contradiction
  · rw [if_pos hchild, h.uuidOfReply_eq]
    rfl

theorem addrOfReply_eq {m : MAC} (h : CarriesVariant msg (.ownedStr (String.ofList m.toChars))) :
    addrOfReply msg = pure m := by
  rw [addrOfReply, h.isMsgErr_eq not_false]
  simp only [BluezOptions.received, pure_bind, String.toList_ofList, MAC.fromStr_toChars]
  rfl

end CarriesVariant

/-- A reader returns the value a variant holds, unless it asks for the bare type. -/
theorem Reader.read_iff (r : Reader) (v : r.Value) {msg : MarshalledMessage}
    (h : CarriesVariant msg (r.option v)) : r.read msg = pure (some v) ↔ r.bare = false := by
  cases r with
  | serviceUuid child hchild =>
      refine iff_of_true ?_ rfl
      rw [read, getService, h.lookupAttribute_eq hchild]
      rfl
  | characteristicUuid child hchild =>
      refine iff_of_true ?_ rfl
      rw [read, getChar, h.lookupAttribute_eq hchild]
      rfl
  | descriptorUuid child hchild =>
      refine iff_of_true ?_ rfl
      rw [read, getDesc, h.lookupAttribute_eq hchild]
      rfl
  | includes =>
      refine iff_of_true ?_ rfl
      rw [read, includesOfReply, h.isMsgErr_eq not_false]
      rfl
  | flags =>
      refine iff_of_false ?_ (by decide)
      rw [read, flagsOfReply, h.isMsgErr_bare (by decide)]
      intro heq
      exact nomatch Option.some.inj heq
  | addr =>
      refine iff_of_true ?_ rfl
      rw [read, h.addrOfReply_eq]
      rfl
  | getPowered =>
      refine iff_of_false ?_ (by decide)
      rw [read, poweredOfReply, h.isMsgErr_bare (by decide)]
      intro heq
      exact nomatch Option.some.inj heq
  | connected =>
      refine iff_of_true ?_ rfl
      rw [read, connectedOfReply, h.isMsgErr_eq not_false]
      rfl

theorem Reader.option_ne_catchall (r : Reader) (v : r.Value) (s : Sig) :
    r.option v ≠ .catchall s := by
  cases r <;> exact fun heq ↦ nomatch heq

/-- Every value of a reader can be sent. -/
theorem variantReply_carries (r : Reader) (v : r.Value) (h : DynHeader) :
    ∃ reply, variantReply h (r.option v) = some reply ∧ CarriesVariant reply (r.option v) := by
  obtain ⟨w, hw⟩ :=
    Option.isSome_iff_exists.mp (BluezOptions.marshal_isSome (r.option_ne_catchall v))
  exact ⟨_, congrArg (Option.map _) (Body.pushParam_eq hw _), rfl, w, hw, rfl⟩

/-! ## Reading from our own server -/

/-- What an attribute of the server holds and the client can ask for. -/
inductive Held
  | /-- The UUID of a service. -/
    serviceUuid (path : ObjectPath) (h : namedLike "service" path = true) (d : ServData)
  | /-- The included services of a service. -/
    serviceIncludes (path : ObjectPath) (d : ServData)
  | /-- The UUID of a characteristic. -/
    characteristicUuid (path : ObjectPath) (h : namedLike "char" path = true) (d : ChrcData)
  | /-- The flags of a characteristic. -/
    characteristicFlags (path : ObjectPath) (h : path ≠ .root) (d : ChrcData)
  | /-- The UUID of a descriptor. -/
    descriptorUuid (path : ObjectPath) (h : namedLike "desc" path = true) (d : Descriptor)

namespace Held

/-- The reader the client uses. -/
def reader : Held → Reader
  | serviceUuid path h _ => .serviceUuid path h
  | serviceIncludes .. => .includes
  | characteristicUuid path h _ => .characteristicUuid path h
  | characteristicFlags .. => .flags
  | descriptorUuid path h _ => .descriptorUuid path h

/-- What the attribute holds. -/
def value : (a : Held) → a.reader.Value
  | serviceUuid _ _ d => d.uuid
  | serviceIncludes _ d => d.includes
  | characteristicUuid _ _ d => d.uuid
  | characteristicFlags _ _ d => d.flags
  | descriptorUuid _ _ d => d.uuid

/-- The reply of an object to a `Get` call as the client builds it. -/
def replyOf {σ : Type} [Properties σ] (d : σ) (path : ObjectPath) (interface prop : String) :
    Option MarshalledMessage :=
  ((Properties.propertiesCall (getPropCall path bluezDest interface prop) : MayPanic σ _) d).map
    Prod.fst

/-- The reply of the attribute to the client's call. -/
def reply : Held → Option MarshalledMessage
  | serviceUuid path _ d => replyOf d path bluezSerIf uuidStr
  | serviceIncludes path d => replyOf d path bluezSerIf incStr
  | characteristicUuid path _ d => replyOf d path bluezChrIf uuidStr
  | characteristicFlags path _ d => replyOf d path bluezChrIf flagStr
  | descriptorUuid path _ d => replyOf d path bluezDesIf uuidStr

/-- A named path is not the root. -/
theorem ne_root {kind : String} {path : ObjectPath} (h : namedLike kind path = true) :
    path ≠ .root := by
  rintro rfl
  contradiction

/-- The reply carries the property. -/
theorem replyOf_carries {σ : Type} [Properties σ] {d : σ} {path : ObjectPath} {I : σ → Prop}
    {interface prop : String} {o : BluezOptions} (hread : Properties.Readable path I)
    (ho : Properties.Reads path I interface prop o) (hcatch : ∀ s, o ≠ .catchall s) (hd : I d) :
    ∃ msg, replyOf d path interface prop = some msg ∧ CarriesVariant msg o := by
  obtain ⟨w, hw⟩ := Option.isSome_iff_exists.mp (BluezOptions.marshal_isSome hcatch)
  obtain ⟨d', hget, -⟩ := Properties.get_of_reads (getPropCall path bluezDest interface prop)
    hread ho hw rfl rfl hd
  exact ⟨_, congrArg (Option.map Prod.fst) hget, rfl, w, hw, rfl⟩

theorem reply_carries (a : Held) :
    ∃ msg, a.reply = some msg ∧ CarriesVariant msg (a.reader.option a.value) := by
  have hcatch := a.reader.option_ne_catchall a.value
  cases a with
  | serviceUuid path h d =>
      exact replyOf_carries (ServData.readable path _) (ServData.reads_uuid path d.uuid)
        hcatch rfl
  | serviceIncludes path d =>
      exact replyOf_carries (ServData.readable path _) (ServData.reads_includes path d.includes)
        hcatch rfl
  | characteristicUuid path h d =>
      exact replyOf_carries (ChrcData.readable (ne_root h) fun _ hu ↦ hu)
        (ChrcData.reads_uuid path d.uuid) hcatch rfl
  | characteristicFlags path h d =>
      exact replyOf_carries (ChrcData.readable h fun _ hf ↦ hf)
        (ChrcData.reads_flags path d.flags) hcatch rfl
  | descriptorUuid path h d =>
      exact replyOf_carries (Descriptor.readable (ne_root h) fun _ hu ↦ hu)
        (Descriptor.reads_uuid path d.uuid) hcatch rfl

end Held

/-- **A reader returns exactly what a `Get` reply carries if and only if it does not ask
for the bare type**: for every value a reply may carry, and for every property of a
server attribute that the client reads with it. -/
theorem reader_exact_iff (r : Reader) (h : DynHeader) :
    (∀ v : r.Value, ∃ reply, variantReply h (r.option v) = some reply ∧
      (r.read reply = pure (some v) ↔ r.bare = false)) ∧
    ∀ a : Held, a.reader = r → ∃ reply, a.reply = some reply ∧
      (a.reader.read reply = pure (some a.value) ↔ r.bare = false) := by
  constructor
  · intro v
    obtain ⟨reply, hreply, hcarries⟩ := variantReply_carries r v h
    exact ⟨reply, hreply, r.read_iff v hcarries⟩
  · rintro a rfl
    obtain ⟨reply, hreply, hcarries⟩ := a.reply_carries
    exact ⟨reply, hreply, a.reader.read_iff a.value hcarries⟩

/-- A powered adapter cannot be told from its `Get` reply. -/
theorem get_powered_not_read :
    ¬∀ (r : Reader) (v : r.Value) (h : DynHeader), ∃ reply,
      variantReply h (r.option v) = some reply ∧ r.read reply = pure (some v) := by
  intro hall
  obtain ⟨reply, hreply, hread⟩ := hall .getPowered true {}
  obtain rfl := Option.some.inj hreply
  exact nomatch Option.some.inj hread

end Rustable.Gatt
