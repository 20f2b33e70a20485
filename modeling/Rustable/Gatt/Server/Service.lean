import Rustable.Gatt.Server.Characteristic

/-!
# Services

`server/service.rs`: the service, the data `ServData` its worker keeps beside it, the
calls it answers and one turn of the worker.
-/

namespace Rustable.Gatt.Server

open DBus

/-- `struct Service` -/
structure Service where
  chars : List Characteristic := []
  includes : List UUID := []
  handle : UInt16 := 0
  uuid : UUID
  primary : Bool

namespace Service

/-- `Service::add_char` -/
def addChar (self : Service) (character : Characteristic) : Service :=
  { self with chars := replaceOrPush Characteristic.uuid character self.chars }

/-- `Service::add_includes` -/
def addIncludes (self : Service) (service : UUID) : Service :=
  if service ∈ self.includes then self else { self with includes := self.includes ++ [service] }

/-- `Service::remove_includes` -/
def removeIncludes (self : Service) (service : UUID) : Service :=
  { self with includes := self.includes.erase service }

/-- `Service::remove_char`, and what it returns. -/
def removeChar (self : Service) (uuid : UUID) : Option Characteristic × Service :=
  (self.chars.find? (·.uuid = uuid), { self with chars := self.chars.eraseP (·.uuid = uuid) })

/-- The characteristics have different UUIDs, and so have the descriptors of each. -/
structure Distinct (serv : Service) : Prop where
  nodup : (serv.chars.map Characteristic.uuid).Nodup
  each : ∀ chrc ∈ serv.chars, chrc.Distinct

theorem Distinct.addChar {self : Service} (h : self.Distinct) {character : Characteristic}
    (hc : character.Distinct) : (self.addChar character).Distinct where
  nodup := nodup_map_replaceOrPush character h.nodup
  each chrc hchrc := (mem_replaceOrPush hchrc).elim (fun heq ↦ heq ▸ hc) (h.each chrc)

theorem Distinct.removeChar {self : Service} (h : self.Distinct) (uuid : UUID) :
    (self.removeChar uuid).2.Distinct where
  nodup := h.nodup.sublist (List.eraseP_sublist.map _)
  each chrc hchrc := h.each chrc (List.eraseP_sublist.subset hchrc)

end Service

/-- `struct ServData` -/
structure ServData where
  handle : UInt16
  uuid : UUID
  children : Nat
  includes : List ObjectPath
  primary : Bool

namespace ServData

/-- `ServData::get_inner` -/
def getInner (_path : ObjectPath) (interface prop : String) :
    MayPanic ServData (Except PropError BluezOptions) := do
  if interface ≠ bluezSerIf then return .error .interfaceNotFound
  let self ← get
  if prop = uuidStr then return .ok (.ownedStr (String.ofList self.uuid.toChars))
  else if prop = pryStr then return .ok (.bool self.primary)
  else if prop = handleStr then return .ok (.u16 self.handle)
  else if prop = incStr then return .ok (.ownedPaths self.includes)
  else return .error .propertyNotFound

/-- `ServData::set_inner` -/
def setInner (_path : ObjectPath) (interface prop : String) (val : BluezOptions) :
    MayPanic ServData (Except PropError Unit) := do
  if interface ≠ bluezSerIf then return .error .interfaceNotFound
  if prop = uuidStr then return .error .permissionDenied
  else if prop = pryStr then return .error .permissionDenied
  else if prop = handleStr then
    match val with
    | .u16 handle =>
        modify fun self ↦ { self with handle := handle }
        return .ok ()
    | _ => return .error .invalidValue
  else return .error .propertyNotFound

instance : Properties ServData where
  interfaces := [(bluezSerIf, [uuidStr, pryStr, handleStr, incStr])]
  getInner := getInner
  setInner := setInner

/-- No property of a service fails, and reading one changes nothing. -/
theorem readable (path : ObjectPath) (I : ServData → Prop) : Properties.Readable path I := by
  constructor
  · intro interface prop d hd
    change Properties.Sends I d (getInner path interface prop)
    rw [getInner]
    refine .ite (.error hd) (.get_bind ?_)
    refine .ite (.ok hd (by simp)) ?_
    refine .ite (.ok hd (by simp)) ?_
    refine .ite (.ok hd (by simp)) ?_
    refine .ite (.ok hd (by simp)) ?_
    exact .error hd
  · rintro _ hi prop hprop d r d' - hrun
    obtain rfl := List.mem_singleton.mp hi
    change getInner path bluezSerIf prop d = some (r, d') at hrun
    unfold getInner at hrun
    rw [if_neg (not_not.mpr rfl)] at hrun
    simp only [List.mem_cons, List.not_mem_nil, or_false] at hprop
    rcases hprop with rfl | rfl | rfl | rfl <;> exact Properties.ok_of_run hrun

/-- Setting a property either sets the handle, or it fails and changes nothing. -/
theorem setInner_cases (path : ObjectPath) (interface prop : String) (val : BluezOptions)
    (d : ServData) :
    (interface = bluezSerIf ∧ prop = handleStr ∧ ∃ h, val = .u16 h) ∨
    ∃ e, setInner path interface prop val d = some (.error e, d) := by
  unfold setInner
  split
  · exact .inr ⟨_, rfl⟩
  next hi =>
  split
  · exact .inr ⟨_, rfl⟩
  split
  · exact .inr ⟨_, rfl⟩
  split
  · next hp =>
      split
      · exact .inl ⟨not_not.mp hi, hp, _, rfl⟩
      · exact .inr ⟨_, rfl⟩
  · exact .inr ⟨_, rfl⟩

theorem settable (path : ObjectPath) {I : ServData → Prop}
    (hI : ∀ d h, I d → I { d with handle := h }) : Properties.Settable path I := by
  intro interface prop val d hd
  rcases setInner_cases path interface prop val d with ⟨rfl, rfl, h, rfl⟩ | ⟨e, he⟩
  · exact ⟨_, _, rfl, hI d h hd⟩
  · exact ⟨_, d, he, hd⟩

theorem reads_uuid (path : ObjectPath) (u : UUID) :
    Properties.Reads path (fun d : ServData ↦ d.uuid = u) bluezSerIf uuidStr
      (.ownedStr (String.ofList u.toChars)) := by
  rintro d r d' rfl hrun
  exact (congrArg Prod.fst (Option.some.inj hrun)).symm

theorem reads_handle (path : ObjectPath) (h : UInt16) :
    Properties.Reads path (fun d : ServData ↦ d.handle = h) bluezSerIf handleStr (.u16 h) := by
  rintro d r d' rfl hrun
  exact (congrArg Prod.fst (Option.some.inj hrun)).symm

theorem reads_includes (path : ObjectPath) (ps : List ObjectPath) :
    Properties.Reads path (fun d : ServData ↦ d.includes = ps) bluezSerIf incStr
      (.ownedPaths ps) := by
  rintro d r d' rfl hrun
  exact (congrArg Prod.fst (Option.some.inj hrun)).symm

/-- `ServData::handle_intro` -/
def handleIntro (self : ServData) (call : MarshalledMessage) : MarshalledMessage :=
  introReply call (Introspect.propStr ++ Introspect.serviceStr)
    (Introspect.childNames "char" self.children)

/-- `ServData::handle_call` -/
def handleCall (call : MarshalledMessage) : MayPanic ServData MarshalledMessage := do
  let interface ← MayPanic.unwrap call.dynheader.interface
  if interface = propsIf then Properties.propertiesCall call
  else if interface = introIf then return handleIntro (← get) call
  else MayPanic.panic

end ServData

/-- What the worker of a service keeps: the service it was started with, which it gives
back in the end, and the data it answers from. -/
structure ServWorker where
  /-- `self` -/
  self : Service
  /-- `serv_data` -/
  servData : ServData

namespace ServWorker

/-- The state in which `Service::start_worker` starts. -/
def start (serv : Service) (children : Nat) : ServWorker where
  self := serv
  servData :=
    { uuid := serv.uuid
      handle := serv.handle
      primary := serv.primary
      includes := []
      children := children }

/-- A computation on `serv_data`. -/
def onData {α : Type} (x : MayPanic ServData α) : Turn ServWorker α :=
  Turn.onPart servData (fun w d ↦ { w with servData := d }) x

/-- One turn of the worker, with a worker message. -/
def onMsg (io : Io) (path : ObjectPath) : WorkerMsg → Turn ServWorker Flow
  | .unregister => return .done
  | .objMgr sender => do
      let map ← onData (Properties.getAllInterfaces path)
      Turn.answerOrStop io sender (.objects path map)
      return .next
  | .getHandle sender => do
      -- The handle of the service the worker was started with.
      let handle ← Act.unwrap .panic (nonZeroU16 (← Act.read).self.handle)
      Turn.answerOrStop io sender (.handle handle)
      return .next
  | .includedPaths includes => do
      Act.modify fun w ↦ { w with servData := { w.servData with includes := includes } }
      return .next
  | _ => Act.stop .panic

/-- The answer to the object manager. -/
theorem onMsg_objMgr {io : Io} (hio : io.receiverAlive = true) {path : ObjectPath}
    {s : ServWorker} {d : ServData} {map : IfAndProps}
    (h : Properties.getAllInterfaces path s.servData = some (map, d)) (sender : ReplyTo) :
    onMsg io path (.objMgr sender) s =
      .done .next { s with servData := d } [.answer sender (.objects path map)] := by
  rw [onMsg, onData, Turn.bind_onPart h, Turn.answerOrStop_eq hio]
  rfl

/-- One turn of the worker, with a D-Bus call. -/
def onCall (io : Io) (filter : Option String) (call : MarshalledMessage) :
    Turn ServWorker Flow :=
  Turn.replyTo io filter call (onData (ServData.handleCall call))

end ServWorker

end Rustable.Gatt.Server
