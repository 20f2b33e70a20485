import Rustable.Gatt.Server.Worker

/-!
# Descriptors

`server/descriptor.rs`: the descriptor, its properties, the calls it answers and one
turn of its worker.
-/

namespace Rustable.Gatt.Server

open DBus

/-- `struct Descriptor` -/
structure Descriptor where
  value : ValOrFn := default
  uuid : UUID
  flags : DescFlags
  handle : UInt16 := 0

namespace Descriptor

/-- `Descriptor::get_inner` -/
def getInner (path : ObjectPath) (interface prop : String) :
    MayPanic Descriptor (Except PropError BluezOptions) := do
  if interface ≠ bluezDesIf then return .error .interfaceNotFound
  let self ← get
  if prop = uuidStr then return .ok (.ownedStr (String.ofList self.uuid.toChars))
  else if prop = handleStr then return .ok (.u16 self.handle)
  else if prop = charStr then return .ok (.ownedPath (← MayPanic.unwrap path.parent))
  else if prop = valStr then
    let (v, vf) := self.value.toValue
    set { self with value := vf }
    return .ok (.ownedBuf v.bytes)
  else if prop = flagStr then return .ok (.flags self.flags.toStrings)
  else return .error .propertyNotFound

/-- `Descriptor::set_inner`.  The interface asked for is the one of characteristics. -/
def setInner (_path : ObjectPath) (interface prop : String) (val : BluezOptions) :
    MayPanic Descriptor (Except PropError Unit) := do
  if interface ≠ bluezChrIf then return .error .interfaceNotFound
  if prop = handleStr then
    match val with
    | .u16 h =>
        modify fun self ↦ { self with handle := h }
        return .ok ()
    | _ => return .error .invalidValue
  else if prop = uuidStr ∨ prop = charStr ∨ prop = valStr ∨ prop = flagStr then
    return .error .permissionDenied
  else return .error .propertyNotFound

instance : Properties Descriptor where
  interfaces := [(bluezDesIf, [uuidStr, handleStr, charStr, valStr, flagStr])]
  getInner := getInner
  setInner := setInner

/-- Below the root no property of a descriptor fails.  Reading one may only run the value
callback. -/
theorem readable {path : ObjectPath} (hpath : path ≠ .root) {I : Descriptor → Prop}
    (hI : ∀ d, I d → I { d with value := d.value.toValue.2 }) : Properties.Readable path I := by
  obtain ⟨q, hq⟩ := ObjectPath.parent_isSome hpath
  constructor
  · intro interface prop d hd
    change Properties.Sends I d (getInner path interface prop)
    rw [getInner, hq]
    refine .ite (.error hd) (.get_bind ?_)
    refine .ite (.ok hd (by simp)) ?_
    refine .ite (.ok hd (by simp)) ?_
    refine .ite (.unwrap_bind (.ok hd (by simp))) ?_
    refine .ite (.set_bind (.ok (hI d hd) (by simp))) ?_
    refine .ite (.ok hd (by simp)) ?_
    exact .error hd
  · rintro _ hi prop hprop d r d' - hrun
    obtain rfl := List.mem_singleton.mp hi
    change getInner path bluezDesIf prop d = some (r, d') at hrun
    unfold getInner at hrun
    rw [if_neg (not_not.mpr rfl), hq] at hrun
    simp only [List.mem_cons, List.not_mem_nil, or_false] at hprop
    rcases hprop with rfl | rfl | rfl | rfl | rfl <;> exact Properties.ok_of_run hrun

/-- Setting a property either sets the handle, or it fails and changes nothing. -/
theorem setInner_cases (path : ObjectPath) (interface prop : String) (val : BluezOptions)
    (d : Descriptor) :
    (interface = bluezChrIf ∧ prop = handleStr ∧ ∃ h, val = .u16 h) ∨
    ∃ e, setInner path interface prop val d = some (.error e, d) := by
  unfold setInner
  split
  · exact .inr ⟨_, rfl⟩
  next hi =>
  split
  · next hp =>
      split
      · exact .inl ⟨not_not.mp hi, hp, _, rfl⟩
      · exact .inr ⟨_, rfl⟩
  split
  · exact .inr ⟨_, rfl⟩
  · exact .inr ⟨_, rfl⟩

theorem settable (path : ObjectPath) {I : Descriptor → Prop}
    (hI : ∀ d h, I d → I { d with handle := h }) : Properties.Settable path I := by
  intro interface prop val d hd
  rcases setInner_cases path interface prop val d with ⟨rfl, rfl, h, rfl⟩ | ⟨e, he⟩
  · exact ⟨_, _, rfl, hI d h hd⟩
  · exact ⟨_, d, he, hd⟩

theorem reads_uuid (path : ObjectPath) (u : UUID) :
    Properties.Reads path (fun d : Descriptor ↦ d.uuid = u) bluezDesIf uuidStr
      (.ownedStr (String.ofList u.toChars)) := by
  rintro d r d' rfl hrun
  exact (congrArg Prod.fst (Option.some.inj hrun)).symm

theorem reads_handle (path : ObjectPath) (h : UInt16) :
    Properties.Reads path (fun d : Descriptor ↦ d.handle = h) bluezDesIf handleStr (.u16 h) := by
  rintro d r d' rfl hrun
  exact (congrArg Prod.fst (Option.some.inj hrun)).symm

/-- `Descriptor::handle_intro` -/
def handleIntro (call : MarshalledMessage) : MarshalledMessage :=
  introReply call (Introspect.propStr ++ Introspect.descStr) []

/-- The method `ReadValue`. -/
def readValue (call : MarshalledMessage) : MayPanic Descriptor MarshalledMessage := do
  let self ← get
  if !(self.flags.read || self.flags.secureRead || self.flags.encryptRead ||
      self.flags.encryptAuthRead) then
    return call.dynheader.makeErrorResponse "PermissionDenied" none
  match call.body.get Options with
  | .error _ => return call.dynheader.makeErrorResponse "UnknownType" none
  | .ok options =>
      let offset := offsetOption options
      let (attVal, vf) := self.value.toValue
      set { self with value := vf }
      let reply := call.dynheader.makeResponse
      let body ← MayPanic.unwrap (reply.body.pushParam (attVal.bytes.drop offset))
      return { reply with body := body }

/-- The method `WriteValue`. -/
def writeValue (call : MarshalledMessage) : MayPanic Descriptor MarshalledMessage := do
  let self ← get
  if !(self.flags.write || self.flags.encryptWrite || self.flags.encryptAuthWrite) then
    return call.dynheader.makeErrorResponse "PermissionDenied" none
  match call.body.get (AttBytes × Options) with
  | .error _ => return call.dynheader.makeErrorResponse "UnknownType" none
  | .ok (attVal, options) =>
      let offset := offsetOption options
      if offset ≠ 0 then
        let (old, _) := self.value.toValue
        let updated ← MayPanic.unwrap (old.update attVal.bytes offset)
        set { self with value := .value updated }
      else
        set { self with value := .value attVal }
      return call.dynheader.makeResponse

/-- The methods of `org.bluez.GattDescriptor1`. -/
def method (call : MarshalledMessage) : String → MayPanic Descriptor MarshalledMessage
  | "ReadValue" => readValue call
  | "WriteValue" => writeValue call
  | _ => return call.dynheader.makeErrorResponse "UnknownMethod" none

/-- `Descriptor::handle_call` -/
def handleCall (call : MarshalledMessage) : MayPanic Descriptor MarshalledMessage := do
  let interface ← MayPanic.unwrap call.dynheader.interface
  if interface = propsIf then Properties.propertiesCall call
  else if interface = introIf then return handleIntro call
  else if interface = bluezDesIf then
    let member ← MayPanic.unwrap call.dynheader.member
    method call member
  else MayPanic.panic

/-- One turn of the worker, with a worker message. -/
def onMsg (io : Io) (path : ObjectPath) : WorkerMsg → Turn Descriptor Flow
  | .unregister => return .done
  | .update vf _ => do
      Act.modify fun self ↦ { self with value := vf }
      return .next
  | .get sender => do
      let v ← Act.embed fun self ↦
        let (v, vf) := self.value.toValue
        (v, { self with value := vf })
      Turn.answerOrStop io sender (.value v)
      return .next
  | .getHandle sender => do
      let self ← Act.read
      let handle ← Act.unwrap .panic (nonZeroU16 self.handle)
      Turn.answerOrStop io sender (.handle handle)
      return .next
  | .objMgr sender => do
      let map ← Turn.ofMayPanic (Properties.getAllInterfaces path)
      Turn.answerOrStop io sender (.objects path map)
      return .next
  | _ => Act.stop .panic

/-- The answer to the object manager. -/
theorem onMsg_objMgr {io : Io} (hio : io.receiverAlive = true) {path : ObjectPath}
    {s s' : Descriptor} {map : IfAndProps} (h : Properties.getAllInterfaces path s = some (map, s'))
    (sender : ReplyTo) : onMsg io path (.objMgr sender) s =
      .done .next s' [.answer sender (.objects path map)] := by
  rw [onMsg, Turn.ofMayPanic, Turn.bind_onPart h, Turn.answerOrStop_eq hio]
  rfl

/-- One turn of the worker, with a D-Bus call. -/
def onCall (io : Io) (filter : Option String) (call : MarshalledMessage) :
    Turn Descriptor Flow :=
  Turn.replyTo io filter call (Turn.ofMayPanic (handleCall call))

end Descriptor

end Rustable.Gatt.Server
