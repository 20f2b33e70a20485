import Rustable.Gatt.Client
import Rustable.Gatt.Server.Service

/-!
# Calling the methods of a characteristic

The client builds the calls on a characteristic and the worker of the characteristic
decodes them, both by hand.  `Method` lists the calls, `Requests` the messages the client
may build for one, and `Agrees` says that the two sides understand each other: the server
does what the client was asked for, and the client reads from the reply what the server
put in it.

They agree on `ReadValue`, `AcquireNotify` and `AcquireWrite`.  They do not on
`WriteValue`: the client sends the value and the options as two values, and the server
reads one struct (`agrees_iff`).
-/

namespace Rustable.Gatt

open DBus Client Server

/-- The calls of the client on a characteristic. -/
inductive Method
  | /-- `Characteristic::read_value` -/
    readValue (offset : UInt16)
  | /-- `Characteristic::write_value` -/
    writeValue (value : AttBytes) (offset : UInt16)
  | /-- `Characteristic::write_value_wo_response` -/
    writeValueWoResponse (value : AttBytes) (offset : UInt16)
  | /-- `Characteristic::acquire_notify` -/
    acquireNotify
  | /-- `Characteristic::acquire_write` -/
    acquireWrite

namespace Method

/-- The calls of `WriteValue`. -/
def isWrite : Method → Bool
  | writeValue .. | writeValueWoResponse .. => true
  | _ => false

/-- The flags of a characteristic permit the call. -/
def permittedBy (flags : CharFlags) : Method → Bool
  | readValue _ => flags.read || flags.secureRead || flags.encryptRead || flags.encryptAuthRead
  | writeValue .. | writeValueWoResponse .. =>
      flags.write || flags.writeWoResponse || flags.encryptWrite || flags.encryptAuthWrite
  | acquireNotify => flags.notify
  | acquireWrite => flags.writeWoResponse

/-- `msg` is a `WriteValue` call with these options, which a hash map iterates in any
order. -/
def RequestsWrite (path : ObjectPath) (msg : MarshalledMessage) (value : AttBytes)
    (offset : UInt16) (kind : String) : Prop :=
  ∃ options : Client.Options, options.entries.Perm (writeOptions offset kind).entries ∧
    writeValueBase path value options = some msg

/-- `msg` is what the client builds for the call. -/
def Requests (path : ObjectPath) (msg : MarshalledMessage) : Method → Prop
  | readValue offset => readValueCall path offset = some msg
  | writeValue value offset => RequestsWrite path msg value offset "request"
  | writeValueWoResponse value offset => RequestsWrite path msg value offset "command"
  | acquireNotify => acquireCall path "AcquireNotify" = some msg
  | acquireWrite => acquireCall path "AcquireWrite" = some msg

end Method

/-- What arrives of a message: the bus fills in who sent it, and the connection has given
it a serial number. -/
def arriving (msg : MarshalledMessage) (sender : Option String) (serial : Option Nat) :
    MarshalledMessage :=
  { msg with dynheader := { msg.dynheader with sender := sender, serial := serial } }

namespace Server.ChrcData

/-- A write of `value` at `offset`, as a characteristic performs it. -/
def performWrite (io : Io) (path : ObjectPath) (value : AttBytes) (offset : Nat) :
    Turn ChrcData Unit := do
  let value ← updated value offset
  handleWrite io path value

/-- No notify session is in the way of a new one. -/
def Idle (io : Io) (self : ChrcData) : Prop :=
  match self.notify with
  | .none => True
  | .socket _ _ => io.isHungUp = .ok true
  | .signal => False

end Server.ChrcData

namespace Method

/-- The two sides understand each other, with the characteristic in the state `self`. -/
def Agrees (io : Io) (path : ObjectPath) (self : ChrcData) (msg : MarshalledMessage) :
    Method → Prop
  | readValue offset => ∃ reply value,
      ChrcData.handleCall io msg self =
        .done reply { self with value := self.value.toValue.2 } [] ∧
      readValueReply reply = pure value ∧
      value.bytes = self.value.toValue.1.bytes.drop offset.toNat
  | writeValue value offset | writeValueWoResponse value offset => ∃ reply,
      ChrcData.handleCall io msg self =
        (do ChrcData.performWrite io path value offset.toNat; return reply : Turn ..) self ∧
      isMsgErrEmpty reply = pure ()
  | acquireNotify => ∀ ours theirs, io.getSockSeqpacket = .ok (ours, theirs) → self.Idle io →
      ∃ reply, ChrcData.handleCall io msg self =
          .done reply { self with notify := .socket ours 517 } [] ∧
        acquireReply reply = pure (theirs, 517)
  | acquireWrite => ∀ ours theirs, io.getSockSeqpacket = .ok (ours, theirs) →
      self.writeFd = none →
      ∃ reply, ChrcData.handleCall io msg self =
          .done reply { self with writeFd := some (ours, 517) } [] ∧
        acquireReply reply = pure (theirs, 517)

end Method

/-! ## What the client sends -/

section Requests

variable {path : ObjectPath} {msg : MarshalledMessage}

/-- Options are received as they were sent. -/
theorem options_received (options : Client.Options)
    (h : ∀ e ∈ options.entries, ¬e.2.IsMap ∧ ∀ s, e.2 ≠ .catchall s) :
    ∃ w options', marshal options = some w ∧ unmarshal w = some options' ∧
      ∀ k, options'.lookup k = (options.lookup k).map BluezOptions.received := by
  obtain ⟨w, hw⟩ := Option.isSome_iff_exists.mp
    (marshal_map_isSome fun e he ↦ BluezOptions.marshal_isSome (h e he).2)
  obtain ⟨options', hread, hlook⟩ := unmarshal_map BluezOptions.received hw
    fun e he v hv ↦ BluezOptions.unmarshal_marshal hv (h e he).1
  exact ⟨w, options', hw, hread, hlook⟩

/-- The call of `ReadValue` carries the offset. -/
theorem readValueCall_eq (path : ObjectPath) (offset : UInt16) :
    ∃ w options, readValueCall path offset =
        some (buildCall path "ReadValue" [⟨sig Client.Options, w⟩]) ∧
      unmarshal w = some options ∧ offsetOption options = offset.toNat := by
  obtain ⟨w, options, hw, hread, hlook⟩ :=
    options_received ((∅ : Client.Options).insert "offset" (.u16 offset)) (by
      intro e he
      obtain rfl := (AList.mem_entries_insert he).resolve_right List.not_mem_nil
      exact ⟨not_false, fun _ heq ↦ nomatch heq⟩)
  refine ⟨w, options, ?_, hread, ?_⟩
  · rw [readValueCall, Body.pushParam_eq hw]
    rfl
  · rw [offsetOption, hlook, AList.lookup_insert]
    rfl

/-- The calls of `AcquireNotify` and `AcquireWrite` carry no options. -/
theorem acquireCall_eq (path : ObjectPath) (member : String) :
    ∃ w options, acquireCall path member =
        some (buildCall path member [⟨sig Client.Options, w⟩]) ∧
      unmarshal w = some options ∧ mtuOption options = 517 := by
  obtain ⟨w, options, hw, hread, hlook⟩ :=
    options_received ∅ fun _ h ↦ nomatch h
  refine ⟨w, options, ?_, hread, ?_⟩
  · rw [acquireCall, Body.pushParam_eq hw]
    rfl
  · rw [mtuOption, hlook, AList.lookup_empty]
    rfl

/-- The call of `WriteValue` carries two values, the first of which is the value. -/
theorem writeValueBase_eq (path : ObjectPath) (value : AttBytes) (options : Client.Options)
    (h : ∀ e ∈ options.entries, ∀ s, e.2 ≠ .catchall s) :
    ∃ v rest, writeValueBase path value options =
      some (buildCall path "WriteValue" (⟨sig AttBytes, v⟩ :: rest)) := by
  obtain ⟨v, hv⟩ := Option.isSome_iff_exists.mp (marshal_bases_isSome value.bytes)
  obtain ⟨w, hw⟩ := Option.isSome_iff_exists.mp
    (marshal_map_isSome fun e he ↦ BluezOptions.marshal_isSome (h e he))
  refine ⟨v, [⟨sig Client.Options, w⟩], ?_⟩
  have hvalue : Body.pushParam [] value = some [⟨sig AttBytes, v⟩] := Body.pushParam_eq hv []
  rw [writeValueBase, hvalue, Option.bind_eq_bind, Option.bind_some, Body.pushParam_eq hw]
  rfl

theorem writeOptions_ne_catchall (offset : UInt16) (kind : String)
    {e : Sigma fun _ ↦ BluezOptions} (he : e ∈ (writeOptions offset kind).entries) (s : Sig) :
    e.2 ≠ .catchall s := by
  intro heq
  rcases AList.mem_entries_insert he with rfl | he
  · exact nomatch heq
  · obtain rfl := (AList.mem_entries_insert he).resolve_right List.not_mem_nil
    exact nomatch heq

/-- Whatever the order of the options, a call of `WriteValue` can be built. -/
theorem requestsWrite_eq {value : AttBytes} {offset : UInt16} {kind : String}
    (h : Method.RequestsWrite path msg value offset kind) :
    ∃ v rest, msg = buildCall path "WriteValue" (⟨sig AttBytes, v⟩ :: rest) := by
  obtain ⟨options, hperm, hmsg⟩ := h
  obtain ⟨v, rest, hbuilt⟩ := writeValueBase_eq path value options
    fun e he ↦ writeOptions_ne_catchall offset kind (hperm.subset he)
  exact ⟨v, rest, Option.some.inj (hmsg.symm.trans hbuilt)⟩

/-- Every call can be built. -/
theorem Method.requested (method : Method) (path : ObjectPath) :
    ∃ msg, method.Requests path msg := by
  have write (value : AttBytes) (offset : UInt16) (kind : String) :
      ∃ msg, RequestsWrite path msg value offset kind := by
    obtain ⟨v, rest, hbuilt⟩ := writeValueBase_eq path value _
      fun e he ↦ writeOptions_ne_catchall offset kind he
    exact ⟨_, _, .refl _, hbuilt⟩
  cases method with
  | readValue offset =>
      obtain ⟨w, options, hcall, -⟩ := readValueCall_eq path offset
      exact ⟨_, hcall⟩
  | writeValue value offset => exact write value offset _
  | writeValueWoResponse value offset => exact write value offset _
  | acquireNotify | acquireWrite =>
      obtain ⟨w, options, hcall, -⟩ := acquireCall_eq path _
      exact ⟨_, hcall⟩

end Requests

/-! ## What the server makes of it -/

section Server

variable {io : Io} {path : ObjectPath} {self : ChrcData} {sender : Option String}
  {serial : Option Nat}

/-- The options of a call are decoded. -/
theorem get_options {w : Val (sig Server.Options)} {options : Server.Options}
    (hw : unmarshal w = some options) :
    Body.get Server.Options [⟨sig Server.Options, w⟩] = .ok options := by
  rw [Body.get, Body.next_cons hw]
  rfl

/-- The call of `ReadValue` is answered with the rest of the value from the offset on, and
the client reads just that. -/
theorem readValue_agrees {offset : UInt16} {msg : MarshalledMessage}
    (hmsg : readValueCall path offset = some msg)
    (hflags : (Method.readValue offset).permittedBy self.flags = true) :
    (Method.readValue offset).Agrees io path self (arriving msg sender serial) := by
  obtain ⟨w, options, hcall, hread, hoffset⟩ := readValueCall_eq path offset
  obtain rfl := Option.some.inj (hcall.symm.trans hmsg)
  have hopts := get_options hread
  have hperm : (!(self.flags.read || self.flags.secureRead || self.flags.encryptRead ||
      self.flags.encryptAuthRead)) = false := by
    rw [Bool.not_eq_false']
    exact hflags
  let bytes := self.value.toValue.1.bytes.drop offset.toNat
  obtain ⟨v, hv⟩ := Option.isSome_iff_exists.mp (marshal_bases_isSome bytes)
  have hlen : bytes.length ≤ 512 := by
    rw [List.length_drop]
    exact (Nat.sub_le _ _).trans self.value.toValue.1.length_le
  refine ⟨{ (arriving (buildCall path "ReadValue" [⟨sig Client.Options, w⟩]) sender
    serial).dynheader.makeResponse with body := [⟨sig (List UInt8), v⟩] }, ⟨bytes, hlen⟩, ?_, ?_,
    rfl⟩
  · rw [ChrcData.handleCall_method rfl rfl]
    change ChrcData.readValue _ self = _
    rw [ChrcData.readValue, Act.read_bind, hperm, if_neg Bool.false_ne_true]
    simp only [arriving, buildCall, hopts]
    rw [ChrcData.toValue, Act.embed_bind, hoffset, Body.pushParam_eq hv, Act.unwrap_some,
      Act.pure_bind]
    rfl
  · rw [readValueReply, isMsgErr_reply rfl rfl (unmarshal_marshal hv)]
    simp only [pure_bind, fits_of_le hlen]

/-- The reply to an acquire call carries a descriptor and an MTU. -/
theorem acquired_eq (call : MarshalledMessage) (fd : UnixFd) (mtu : Nat) :
    ∃ reply, (∀ self, ChrcData.acquired call fd mtu self = .done reply self []) ∧
      acquireReply reply = pure (fd, UInt16.ofNat mtu) := by
  refine ⟨{ call.dynheader.makeResponse with
    body := [⟨sig UnixFd, .base fd⟩, ⟨sig UInt16, .base (UInt16.ofNat mtu)⟩] }, fun _ ↦ rfl, ?_⟩
  exact isMsgErr2_reply rfl rfl rfl rfl

/-- With no session in the way the middle of `acquire_notify` leaves none behind. -/
theorem sessionInTheWay_eq (h : self.Idle io) :
    ChrcData.sessionInTheWay io self = .done false { self with notify := .none } [] := by
  rw [ChrcData.sessionInTheWay, Act.read_bind]
  unfold ChrcData.Idle at h
  split at h
  · next hnotify =>
      have hself : { self with notify := .none } = self := by rw [← hnotify]
      rw [hself, hnotify]
      rfl
  · next hnotify => simp only [hnotify, h]; rfl
  · exact h.elim

theorem acquireNotify_agrees {msg : MarshalledMessage}
    (hmsg : acquireCall path "AcquireNotify" = some msg)
    (hflags : Method.acquireNotify.permittedBy self.flags = true) :
    Method.acquireNotify.Agrees io path self (arriving msg sender serial) := by
  intro ours theirs hsock hidle
  obtain ⟨w, options, hcall, hread, hmtu⟩ := acquireCall_eq path "AcquireNotify"
  obtain rfl := Option.some.inj (hcall.symm.trans hmsg)
  have hopts := get_options hread
  have hperm : (!self.flags.notify) = false := (Bool.not_eq_false' _).mpr hflags
  obtain ⟨reply, hreply, hclient⟩ := acquired_eq (arriving (buildCall path "AcquireNotify"
    [⟨sig Client.Options, w⟩]) sender serial) theirs 517
  refine ⟨reply, ?_, hclient⟩
  rw [ChrcData.handleCall_method rfl rfl]
  change ChrcData.acquireNotify io _ self = _
  rw [ChrcData.acquireNotify, Act.read_bind, hperm, if_neg Bool.false_ne_true,
    Act.bind_done (sessionInTheWay_eq hidle), if_neg Bool.false_ne_true]
  simp only [arriving, buildCall, hopts, hmtu, hsock, Turn.check, Act.pure_bind]
  rw [ChrcData.setNotify, Act.modify_bind]
  exact hreply _

theorem acquireWrite_agrees {msg : MarshalledMessage}
    (hmsg : acquireCall path "AcquireWrite" = some msg)
    (hflags : Method.acquireWrite.permittedBy self.flags = true) :
    Method.acquireWrite.Agrees io path self (arriving msg sender serial) := by
  intro ours theirs hsock hfree
  obtain ⟨w, options, hcall, hread, hmtu⟩ := acquireCall_eq path "AcquireWrite"
  obtain rfl := Option.some.inj (hcall.symm.trans hmsg)
  have hopts := get_options hread
  have hperm : (!self.flags.writeWoResponse) = false := (Bool.not_eq_false' _).mpr hflags
  obtain ⟨reply, hreply, hclient⟩ := acquired_eq (arriving (buildCall path "AcquireWrite"
    [⟨sig Client.Options, w⟩]) sender serial) theirs 517
  refine ⟨reply, ?_, hclient⟩
  rw [ChrcData.handleCall_method rfl rfl]
  change ChrcData.acquireWrite io _ self = _
  rw [ChrcData.acquireWrite, Act.read_bind, hperm, if_neg Bool.false_ne_true, hfree,
    Option.isSome_none, if_neg Bool.false_ne_true]
  simp only [arriving, buildCall, hopts, hmtu, hsock, Turn.check, Act.pure_bind]
  rw [Act.modify_bind]
  exact hreply _

/-- The client's call of `WriteValue` is answered with an error: the body does not start
with a struct. -/
theorem writeValue_eq {value : AttBytes} {offset : UInt16} {kind : String}
    {msg : MarshalledMessage} (hmsg : Method.RequestsWrite path msg value offset kind)
    (hflags : (Method.writeValue value offset).permittedBy self.flags = true) :
    ChrcData.handleCall io (arriving msg sender serial) self =
      .done ((arriving msg sender serial).dynheader.makeErrorResponse "UnknownType" none) self
        [] := by
  obtain ⟨v, rest, rfl⟩ := requestsWrite_eq hmsg
  have hbody : Body.get (AttBytes × Server.Options) (⟨sig AttBytes, v⟩ :: rest) =
      .error .wrongSignature := by
    rw [Body.get, Body.next_of_ne (by decide)]
    rfl
  have hperm : (!(self.flags.write || self.flags.writeWoResponse || self.flags.encryptWrite ||
      self.flags.encryptAuthWrite)) = false := by
    rw [Bool.not_eq_false']
    exact hflags
  rw [ChrcData.handleCall_method rfl rfl]
  change ChrcData.writeValue io _ self = _
  rw [ChrcData.writeValue, Act.read_bind, hperm, if_neg Bool.false_ne_true]
  simp only [arriving, buildCall, hbody]
  rfl

/-- That is no write of the value at the offset. -/
theorem writeValue_disagrees {value : AttBytes} {offset : UInt16} {kind : String}
    {msg : MarshalledMessage} (hmsg : Method.RequestsWrite path msg value offset kind)
    (hflags : (Method.writeValue value offset).permittedBy self.flags = true) :
    ¬(Method.writeValue value offset).Agrees io path self (arriving msg sender serial) := by
  rintro ⟨reply, hrun, hreply⟩
  rw [writeValue_eq hmsg hflags, Act.bind_apply] at hrun
  cases hwrite : ChrcData.performWrite io path value offset.toNat self with
  | stop why out => rw [hwrite] at hrun; contradiction
  | done u self' out =>
      rw [hwrite] at hrun
      injection hrun with heq
      rw [← heq] at hreply
      exact nomatch Option.some.inj hreply

end Server

/-- **Client and server agree on every call but those of `WriteValue`**, whatever the
state of the characteristic, as long as its flags permit the call. -/
theorem agrees_iff (method : Method) (path : ObjectPath) (self : ChrcData) (io : Io)
    (sender : Option String) (serial : Option Nat)
    (hflags : method.permittedBy self.flags = true) :
    (∃ msg, method.Requests path msg) ∧ ∀ msg, method.Requests path msg →
      (method.Agrees io path self (arriving msg sender serial) ↔ method.isWrite = false) := by
  refine ⟨method.requested path, fun msg hmsg ↦ ?_⟩
  cases method with
  | readValue offset => exact iff_of_true (readValue_agrees hmsg hflags) rfl
  | writeValue value offset => exact iff_of_false (writeValue_disagrees hmsg hflags) nofun
  | writeValueWoResponse value offset =>
      exact iff_of_false (writeValue_disagrees hmsg hflags) nofun
  | acquireNotify => exact iff_of_true (acquireNotify_agrees hmsg hflags) rfl
  | acquireWrite => exact iff_of_true (acquireWrite_agrees hmsg hflags) rfl

/-- A characteristic with these flags, as registered. -/
def flagged (flags : CharFlags) : ChrcData := .new { uuid := ⟨1⟩, flags := flags } 0

/-- A characteristic that can be read is read from an offset. -/
theorem agrees_readValue :
    (Method.readValue 2).permittedBy (flagged { read := true }).flags = true ∧
      ∃ msg, (Method.readValue 2).Requests .root msg ∧
        (Method.readValue 2).Agrees {} .root (flagged { read := true })
          (arriving msg none (some 1)) := by
  have hflags : (Method.readValue 2).permittedBy (flagged { read := true }).flags = true := rfl
  obtain ⟨⟨msg, hmsg⟩, hall⟩ := agrees_iff (.readValue 2) .root _ {} none (some 1) hflags
  exact ⟨hflags, msg, hmsg, (hall msg hmsg).mpr rfl⟩

/-- Writing one byte to a characteristic that can be written to does not write it. -/
theorem write_value_not_decoded :
    ¬∀ (method : Method) (path : ObjectPath) (self : ChrcData) (io : Io)
      (sender : Option String) (serial : Option Nat), method.permittedBy self.flags = true →
      ∀ msg, method.Requests path msg →
        method.Agrees io path self (arriving msg sender serial) := by
  intro hall
  let method : Method := .writeValue ⟨[1], by decide⟩ 0
  obtain ⟨msg, hmsg⟩ := method.requested .root
  exact writeValue_disagrees hmsg rfl
    (hall method .root (flagged { write := true }) {} none (some 1) rfl msg hmsg)

end Rustable.Gatt
