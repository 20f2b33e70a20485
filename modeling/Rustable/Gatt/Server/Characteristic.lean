import Rustable.Gatt.Server.Descriptor

/-!
# Characteristics

`server/chrc.rs`: the characteristic, the data `ChrcData` its worker keeps, the calls it
answers and one turn of the worker.  A turn takes a worker message, a D-Bus call, what
has been read from the socket acquired for writing, or what the notify callback's future
has resolved to.
-/

namespace Rustable.Gatt.Server

open DBus

/-- `enum Notify` -/
inductive Notify
  | socket (sock : UnixFd) (mtu : Nat)
  | signal
  | none
deriving DecidableEq

/-- `enum ShouldNotify` -/
inductive ShouldNotify
  | yes
  | withSpecialValue (val : AttBytes)
  | no

/-- A write callback, an `FnMut`: what it does with a value may depend on the values it
was called with before, which are kept in `calls`. -/
structure WriteCallback where
  /-- The callback. -/
  run : List AttBytes → AttBytes → Option ValOrFn × Bool
  /-- The values it was called with. -/
  calls : List AttBytes := []

/-- The callback of a new characteristic: store the value, and do not notify. -/
def WriteCallback.store : WriteCallback where
  run _ val := (some (.value val), false)

/-- `struct Characteristic`.  Of the notify callback, whose futures resolve from outside,
only the number of its calls is kept. -/
structure Characteristic where
  descs : List Descriptor := []
  value : ValOrFn := default
  uuid : UUID
  flags : CharFlags
  writeCallback : WriteCallback := .store
  notifyCb : Nat := 0
  handle : UInt16 := 0

namespace Characteristic

/-- `Characteristic::add_desc` -/
def addDesc (self : Characteristic) (desc : Descriptor) : Characteristic :=
  { self with descs := replaceOrPush Descriptor.uuid desc self.descs }

/-- `Characteristic::remove_desc`, and what it returns. -/
def removeDesc (self : Characteristic) (uuid : UUID) : Option Descriptor × Characteristic :=
  (self.descs.find? (·.uuid = uuid), { self with descs := self.descs.eraseP (·.uuid = uuid) })

/-- The descriptors have different UUIDs. -/
structure Distinct (chrc : Characteristic) : Prop where
  nodup : (chrc.descs.map Descriptor.uuid).Nodup

theorem Distinct.addDesc {self : Characteristic} (h : self.Distinct) (desc : Descriptor) :
    (self.addDesc desc).Distinct := ⟨nodup_map_replaceOrPush desc h.nodup⟩

theorem Distinct.removeDesc {self : Characteristic} (h : self.Distinct) (uuid : UUID) :
    (self.removeDesc uuid).2.Distinct :=
  ⟨h.nodup.sublist (List.eraseP_sublist.map _)⟩

end Characteristic

/-- `struct ChrcData` -/
structure ChrcData where
  children : Nat
  value : ValOrFn
  uuid : UUID
  notify : Notify
  flags : CharFlags
  writeCallback : WriteCallback
  notifyCb : Nat
  writeFd : Option (UnixFd × Nat)
  handle : UInt16

namespace ChrcData

/-- `ChrcData::new` -/
def new (chrc : Characteristic) (children : Nat) : ChrcData where
  children := children
  handle := chrc.handle
  value := chrc.value
  uuid := chrc.uuid
  flags := chrc.flags
  writeCallback := chrc.writeCallback
  notifyCb := chrc.notifyCb
  notify := .none
  writeFd := none

/-- The state in which `Characteristic::start_worker` starts: the notify callback has been
called once. -/
def start (chrc : Characteristic) (children : Nat) : ChrcData :=
  { new chrc children with notifyCb := chrc.notifyCb + 1 }

/-- `ChrcData::into_chrc` -/
def intoChrc (self : ChrcData) : Characteristic where
  uuid := self.uuid
  handle := self.handle
  value := self.value
  flags := self.flags
  writeCallback := self.writeCallback
  notifyCb := self.notifyCb
  descs := []

/-- `self.value.to_value()` -/
def toValue : Turn ChrcData AttBytes :=
  Act.embed fun self ↦
    let (v, vf) := self.value.toValue
    (v, { self with value := vf })

/-- Change the notify session. -/
def setNotify (notify : Notify) : Turn ChrcData Unit :=
  Act.modify fun self ↦ { self with notify := notify }

/-- The signal that carries a notification.  The name of the interface is pushed twice,
and no list of invalidated names follows the map. -/
def propertiesChanged (path : ObjectPath) (attVal : AttBytes) : Option MarshalledMessage := do
  let body ← Body.pushParam [] bluezChrIf
  let body ← body.pushParam bluezChrIf
  let body ← body.pushParam ((∅ : PropMap).insert "Value" (.buf attVal.bytes))
  return {
    typ := .signal
    dynheader :=
      { interface := some propsIf
        member := some "PropertiesChanged"
        object := some path
        destination := some "org.bluez" }
    body := body }

/-- `opt_att.unwrap_or_else(|| self.value.to_value())` -/
def valueOr : Option AttBytes → Turn ChrcData AttBytes
  | some v => return v
  | none => toValue

/-- `ChrcData::notify` -/
def sendNotification (io : Io) (path : ObjectPath) (optAtt : Option AttBytes) :
    Turn ChrcData Bool := do
  let attVal ← valueOr optAtt
  match (← Act.read).notify with
  | .none => return false
  | .socket sock _ => match io.sockSend with
    | .ok _ =>
        Act.emit (.datagram sock attVal.bytes)
        return true
    | .error _ =>
        setNotify .none
        return false
  | .signal =>
      let sig ← Act.unwrap .panic (propertiesChanged path attVal)
      Turn.check io.sendSignal
      Act.emit (.signal sig)
      return true

/-- `if notify { self.notify(path, conn, None).await?; }` -/
def notifyIf (io : Io) (path : ObjectPath) (notify : Bool) : Turn ChrcData Unit :=
  if notify then do
    let _ ← sendNotification io path none
    return ()
  else return ()

/-- `(self.write_callback)(att_val)`, with the new value stored. -/
def callWriteCallback (attVal : AttBytes) : Turn ChrcData Bool :=
  Act.embed fun self ↦
    let cb := self.writeCallback
    let (newVal, notify) := cb.run cb.calls attVal
    (notify,
      { self with
        writeCallback := { cb with calls := cb.calls ++ [attVal] }
        value := newVal.getD self.value })

/-- `ChrcData::handle_write` -/
def handleWrite (io : Io) (path : ObjectPath) (attVal : AttBytes) : Turn ChrcData Unit := do
  let notify ← callWriteCallback attVal
  notifyIf io path notify

/-- `ChrcData::handle_intro` -/
def handleIntro (self : ChrcData) (call : MarshalledMessage) : MarshalledMessage :=
  introReply call (Introspect.propStr ++ Introspect.charStr)
    (Introspect.childNames "desc" self.children)

/-- The method `ReadValue`. -/
def readValue (call : MarshalledMessage) : Turn ChrcData MarshalledMessage := do
  let self ← Act.read
  if !(self.flags.read || self.flags.secureRead || self.flags.encryptRead ||
      self.flags.encryptAuthRead) then
    return call.dynheader.makeErrorResponse "PermissionDenied" none
  match call.body.get Options with
  | .error _ => return call.dynheader.makeErrorResponse "UnknownType" none
  | .ok options =>
      let offset := offsetOption options
      let attVal ← toValue
      let reply := call.dynheader.makeResponse
      let body ← Act.unwrap .panic (reply.body.pushParam (attVal.bytes.drop offset))
      return { reply with body := body }

/-- What a write of `att_val` at an offset makes of the stored value. -/
def updated (attVal : AttBytes) (offset : Nat) : Turn ChrcData AttBytes :=
  if offset ≠ 0 then do
    let old ← toValue
    Act.unwrap .panic (old.update attVal.bytes offset)
  else return attVal

/-- The method `WriteValue`. -/
def writeValue (io : Io) (call : MarshalledMessage) : Turn ChrcData MarshalledMessage := do
  let self ← Act.read
  if !(self.flags.write || self.flags.writeWoResponse || self.flags.encryptWrite ||
      self.flags.encryptAuthWrite) then
    return call.dynheader.makeErrorResponse "PermissionDenied" none
  match call.body.get (AttBytes × Options) with
  | .error _ => return call.dynheader.makeErrorResponse "UnknownType" none
  | .ok (attVal, options) =>
      let attVal ← updated attVal (offsetOption options)
      let path ← Act.unwrap .panic call.dynheader.object
      handleWrite io path attVal
      return call.dynheader.makeResponse

/-- The reply with a file descriptor and an MTU. -/
def acquired (call : MarshalledMessage) (fd : UnixFd) (mtu : Nat) :
    Turn ChrcData MarshalledMessage := do
  let reply := call.dynheader.makeResponse
  let body ← Act.unwrap .panic (reply.body.pushParam fd)
  let body ← Act.unwrap .panic (body.pushParam (UInt16.ofNat mtu))
  return { reply with body := body }

/-- The middle of `acquire_notify`: a session that is live is in the way, a socket that
has hung up is dropped. -/
def sessionInTheWay (io : Io) : Turn ChrcData Bool := do
  match (← Act.read).notify with
  | .none => return false
  | .socket _ _ =>
      if ← Turn.check io.isHungUp then
        setNotify .none
        return false
      else return true
  | .signal => return true

/-- `ChrcData::acquire_notify` -/
def acquireNotify (io : Io) (call : MarshalledMessage) : Turn ChrcData MarshalledMessage := do
  if !(← Act.read).flags.notify then
    return call.dynheader.makeErrorResponse "PermissionDenied" none
  if ← sessionInTheWay io then
    return call.dynheader.makeErrorResponse "AlreadyAcquired" none
  match call.body.get Options with
  | .error _ => return call.dynheader.makeErrorResponse "UnknownType" none
  | .ok options =>
      let mtu := mtuOption options
      let (ours, theirs) ← Turn.check io.getSockSeqpacket
      setNotify (.socket ours mtu)
      acquired call theirs mtu

/-- `ChrcData::acquire_write` -/
def acquireWrite (io : Io) (call : MarshalledMessage) : Turn ChrcData MarshalledMessage := do
  let self ← Act.read
  if !self.flags.writeWoResponse then
    return call.dynheader.makeErrorResponse "PermissionDenied" none
  if self.writeFd.isSome then
    return call.dynheader.makeErrorResponse "AlreadyAcquired" none
  match call.body.get Options with
  | .error _ => return call.dynheader.makeErrorResponse "UnknownType" none
  | .ok options =>
      let mtu := mtuOption options
      let (ours, theirs) ← Turn.check io.getSockSeqpacket
      Act.modify fun self ↦ { self with writeFd := some (ours, mtu) }
      acquired call theirs mtu

/-- The method `StartNotify`. -/
def startNotify (call : MarshalledMessage) : Turn ChrcData MarshalledMessage := do
  let self ← Act.read
  if !(self.flags.notify || self.flags.indicate) then
    return call.dynheader.makeErrorResponse "PermissionDenied" none
  match self.notify with
  | .socket _ _ => return call.dynheader.makeErrorResponse "FdAcquired" none
  | .signal => return call.dynheader.makeErrorResponse "org.Bluez.Error.InProgress" none
  | .none =>
      setNotify .signal
      return call.dynheader.makeResponse

/-- The method `StopNotify`. -/
def stopNotify (call : MarshalledMessage) : Turn ChrcData MarshalledMessage := do
  if (← Act.read).notify ≠ .signal then
    return call.dynheader.makeErrorResponse "NotNotifying" none
  setNotify .none
  return call.dynheader.makeResponse

/-- `ChrcData::get_inner` -/
def getInner (path : ObjectPath) (interface prop : String) :
    MayPanic ChrcData (Except PropError BluezOptions) := do
  if interface ≠ bluezChrIf then return .error .interfaceNotFound
  let self ← get
  if prop = uuidStr then return .ok (.ownedStr (String.ofList self.uuid.toChars))
  else if prop = handleStr then return .ok (.u16 self.handle)
  else if prop = servStr then return .ok (.ownedPath (← MayPanic.unwrap path.parent))
  else if prop = valStr then
    let (v, vf) := self.value.toValue
    set { self with value := vf }
    return .ok (.ownedBuf v.bytes)
  else if prop = naStr then return .ok (.bool (self.notify ≠ .none))
  else if prop = noStr then return .ok (.bool (self.notify = .signal))
  else if prop = flagStr then return .ok (.flags self.flags.toStrings)
  else if prop = waStr then return .ok (.bool self.writeFd.isSome)
  else return .error .propertyNotFound

/-- `ChrcData::set_inner` -/
def setInner (_path : ObjectPath) (interface prop : String) (val : BluezOptions) :
    MayPanic ChrcData (Except PropError Unit) := do
  if interface ≠ bluezChrIf then return .error .interfaceNotFound
  if prop = handleStr then
    match val with
    | .u16 h =>
        modify fun self ↦ { self with handle := h }
        return .ok ()
    | _ => return .error .invalidValue
  else if prop = uuidStr ∨ prop = servStr ∨ prop = valStr ∨ prop = naStr ∨ prop = noStr ∨
      prop = flagStr then
    return .error .permissionDenied
  else return .error .propertyNotFound

instance : Properties ChrcData where
  interfaces := [(bluezChrIf,
    [uuidStr, handleStr, servStr, valStr, naStr, noStr, flagStr, waStr])]
  getInner := getInner
  setInner := setInner

/-- Below the root no property of a characteristic fails.  Reading one may only run the
value callback. -/
theorem readable {path : ObjectPath} (hpath : path ≠ .root) {I : ChrcData → Prop}
    (hI : ∀ d, I d → I { d with value := d.value.toValue.2 }) : Properties.Readable path I := by
  obtain ⟨q, hq⟩ := ObjectPath.parent_isSome hpath
  constructor
  · intro interface prop d hd
    change Properties.Sends I d (getInner path interface prop)
    rw [getInner, hq]
    refine .ite (.error hd) (.get_bind ?_)
    refine .ite (.ok hd (by simp)) ?_
    refine .ite (.ok hd (by simp)) ?_
    refine .ite (.unwrap_bind (.ok hd (by simp))) ?_
    refine .ite (.set_bind (.ok (hI d hd) (by simp))) ?_
    refine .ite (.ok hd (by simp)) ?_
    refine .ite (.ok hd (by simp)) ?_
    refine .ite (.ok hd (by simp)) ?_
    refine .ite (.ok hd (by simp)) ?_
    exact .error hd
  · rintro _ hi prop hprop d r d' - hrun
    obtain rfl := List.mem_singleton.mp hi
    change getInner path bluezChrIf prop d = some (r, d') at hrun
    unfold getInner at hrun
    rw [if_neg (not_not.mpr rfl), hq] at hrun
    simp only [List.mem_cons, List.not_mem_nil, or_false] at hprop
    rcases hprop with rfl | rfl | rfl | rfl | rfl | rfl | rfl | rfl <;> exact Properties.ok_of_run hrun

/-- Setting a property either sets the handle, or it fails and changes nothing. -/
theorem setInner_cases (path : ObjectPath) (interface prop : String) (val : BluezOptions)
    (d : ChrcData) :
    (interface = bluezChrIf ∧ prop = handleStr ∧ ∃ h, val = .u16 h) ∨
    ∃ e, setInner path interface prop val d = some (.error e, d) := by
  unfold setInner
  split
  · exact .inr ⟨_, rfl⟩
  next hi =>
  split
  · next hp =>
      split
      · exact .inl ⟨not_not.mp hi, hp, _, rfl⟩
      · exact .inr ⟨_, rfl⟩
  split
  · exact .inr ⟨_, rfl⟩
  · exact .inr ⟨_, rfl⟩

theorem settable (path : ObjectPath) {I : ChrcData → Prop}
    (hI : ∀ d h, I d → I { d with handle := h }) : Properties.Settable path I := by
  intro interface prop val d hd
  rcases setInner_cases path interface prop val d with ⟨rfl, rfl, h, rfl⟩ | ⟨e, he⟩
  · exact ⟨_, _, rfl, hI d h hd⟩
  · exact ⟨_, d, he, hd⟩

theorem reads_uuid (path : ObjectPath) (u : UUID) :
    Properties.Reads path (fun d : ChrcData ↦ d.uuid = u) bluezChrIf uuidStr
      (.ownedStr (String.ofList u.toChars)) := by
  rintro d r d' rfl hrun
  exact (congrArg Prod.fst (Option.some.inj hrun)).symm

theorem reads_handle (path : ObjectPath) (h : UInt16) :
    Properties.Reads path (fun d : ChrcData ↦ d.handle = h) bluezChrIf handleStr (.u16 h) := by
  rintro d r d' rfl hrun
  exact (congrArg Prod.fst (Option.some.inj hrun)).symm

theorem reads_flags (path : ObjectPath) (f : CharFlags) :
    Properties.Reads path (fun d : ChrcData ↦ d.flags = f) bluezChrIf flagStr
      (.flags f.toStrings) := by
  rintro d r d' rfl hrun
  exact (congrArg Prod.fst (Option.some.inj hrun)).symm

/-- The methods of `org.bluez.GattCharacteristic1`. -/
def method (io : Io) (call : MarshalledMessage) : String → Turn ChrcData MarshalledMessage
  | "ReadValue" => readValue call
  | "WriteValue" => writeValue io call
  | "AcquireNotify" => acquireNotify io call
  | "AcquireWrite" => acquireWrite io call
  | "StartNotify" => startNotify call
  | "StopNotify" => stopNotify call
  | _ => return call.dynheader.makeErrorResponse "UnknownMethod" none

/-- `ChrcData::handle_call` -/
def handleCall (io : Io) (call : MarshalledMessage) : Turn ChrcData MarshalledMessage := do
  let interface ← Act.unwrap .panic call.dynheader.interface
  if interface = propsIf then Turn.ofMayPanic (Properties.propertiesCall call)
  else if interface = introIf then return handleIntro (← Act.read) call
  else if interface = bluezChrIf then
    let member ← Act.unwrap .panic call.dynheader.member
    method io call member
  else Act.stop .panic

/-- A call on the interface of characteristics goes to the method it names. -/
theorem handleCall_method {io : Io} {call : MarshalledMessage} {member : String}
    (hinterface : call.dynheader.interface = some bluezChrIf)
    (hmember : call.dynheader.member = some member) :
    handleCall io call = method io call member := by
  have hprops : bluezChrIf ≠ propsIf := by decide
  have hintro : bluezChrIf ≠ introIf := by decide
  rw [handleCall, hinterface, hmember, Act.unwrap_some, Act.pure_bind, if_neg hprops,
    if_neg hintro, if_pos rfl, Act.unwrap_some, Act.pure_bind]

/-- One turn of the worker, with a worker message. -/
def onMsg (io : Io) (path : ObjectPath) : WorkerMsg → Turn ChrcData Flow
  | .unregister => return .done
  | .update vf notify => do
      Act.modify fun self ↦ { self with value := vf }
      notifyIf io path notify
      return .next
  | .objMgr sender => do
      let map ← Turn.ofMayPanic (Properties.getAllInterfaces path)
      Turn.answer io sender (.objects path map)
      return .next
  | .get sender => do
      let v ← toValue
      Turn.answer io sender (.value v)
      return .next
  | .getHandle sender => do
      let handle ← Act.unwrap .panic (nonZeroU16 (← Act.read).handle)
      Turn.answer io sender (.handle handle)
      return .next
  | .notify optAtt => do
      let _ ← sendNotification io path optAtt
      return .next
  | .notifying sender => do
      let isNotifying := (← Act.read).notify ≠ .none
      Turn.answer io sender (.flag isNotifying)
      return .next
  | .notifyAcquired sender => do
      let acquired := match (← Act.read).notify with
        | .socket _ _ => true
        | _ => false
      Turn.answer io sender (.flag acquired)
      return .next
  | .notifyingSignal sender => do
      let signaling := (← Act.read).notify = .signal
      Turn.answer io sender (.flag signaling)
      return .next
  | .includedPaths _ => Act.stop .panic

/-- The answer to the object manager. -/
theorem onMsg_objMgr {io : Io} (hio : io.receiverAlive = true) {path : ObjectPath}
    {s s' : ChrcData} {map : IfAndProps} (h : Properties.getAllInterfaces path s = some (map, s'))
    (sender : ReplyTo) : onMsg io path (.objMgr sender) s =
      .done .next s' [.answer sender (.objects path map)] := by
  rw [onMsg, Turn.ofMayPanic, Turn.bind_onPart h, Turn.answer_eq hio]
  rfl

/-- Notify as the notify callback says. -/
def notifyAs (io : Io) (path : ObjectPath) : ShouldNotify → Turn ChrcData Unit
  | .yes => notifyIf io path true
  | .withSpecialValue val => do
      let _ ← sendNotification io path (some val)
      return ()
  | .no => return ()

/-- One turn of the worker, with the value of the notify future.  The callback is called
again for the next one. -/
def onNotifyFuture (io : Io) (path : ObjectPath) (shouldNot : ShouldNotify) :
    Turn ChrcData Flow := do
  notifyAs io path shouldNot
  Act.modify fun self ↦ { self with notifyCb := self.notifyCb + 1 }
  return .next

/-- What is done with the result of `check_for_write`. -/
def handleWritten (io : Io) (path : ObjectPath) : Except IoError AttBytes → Turn ChrcData Unit
  | .ok val => handleWrite io path val
  | .error .notConnected => Act.modify fun self ↦ { self with writeFd := none }
  | .error e => Act.stop (.error (.io e))

/-- One turn of the worker, with the result of `check_for_write`. -/
def onWrite (io : Io) (path : ObjectPath) (res : Except IoError AttBytes) :
    Turn ChrcData Flow := do
  handleWritten io path res
  return .next

/-- One turn of the worker, with a D-Bus call. -/
def onCall (io : Io) (filter : Option String) (call : MarshalledMessage) : Turn ChrcData Flow :=
  Turn.replyTo io filter call (handleCall io call)

end ChrcData

end Rustable.Gatt.Server
