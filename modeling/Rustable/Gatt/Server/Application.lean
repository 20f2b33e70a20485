import Rustable.Gatt.Server.Service

/-!
# Applications

`struct Application` and `struct WorkerData` of `server/mod.rs`: the application as it is
put together, and what its worker, which answers for the root of the attributes, keeps and
does.
-/

namespace Rustable.Gatt.Server

open DBus

/-- What a worker goes by: the UUIDs of the service, the characteristic and the
descriptor, with `UUID(0)` where there is none. -/
abbrev Key := UUID × UUID × UUID

/-- `UUID(0)` -/
instance : Zero UUID := ⟨⟨0⟩⟩

/-- `struct Application`, without the connection. -/
structure Application where
  services : List Service := []
  dest : Option String := none
  hci : ObjectPath
  basePath : ObjectPath
  filter : Bool := true

namespace Application

/-- `Application::add_service`, which panics (`none`) on a service without
characteristics. -/
def addService (self : Application) (service : Service) : Option Application :=
  if service.chars.isEmpty then none
  else some { self with services := replaceOrPush Service.uuid service self.services }

/-- `Application::remove_service`, and what it returns. -/
def removeService (self : Application) (uuid : UUID) : Option Service × Application :=
  (self.services.find? (·.uuid = uuid),
    { self with services := self.services.eraseP (·.uuid = uuid) })

/-- Attributes with the same parent have different UUIDs. -/
structure Distinct (app : Application) : Prop where
  nodup : (app.services.map Service.uuid).Nodup
  each : ∀ serv ∈ app.services, serv.Distinct

theorem Distinct.addService {self app : Application} (h : self.Distinct) {service : Service}
    (hs : service.Distinct) (happ : self.addService service = some app) : app.Distinct := by
  rw [Application.addService] at happ
  split at happ
  · contradiction
  · obtain rfl := Option.some.inj happ
    exact
      { nodup := nodup_map_replaceOrPush service h.nodup
        each := fun serv hserv ↦ (mem_replaceOrPush hserv).elim (fun heq ↦ heq ▸ hs) (h.each serv) }

theorem Distinct.removeService {self : Application} (h : self.Distinct) (uuid : UUID) :
    (self.removeService uuid).2.Distinct where
  nodup := h.nodup.sublist (List.eraseP_sublist.map _)
  each serv hserv := h.each serv (List.eraseP_sublist.subset hserv)

/-- No attribute has the UUID that stands for none in a key. -/
structure NonZero (app : Application) : Prop where
  service : ∀ serv ∈ app.services, serv.uuid ≠ 0
  characteristic : ∀ serv ∈ app.services, ∀ chrc ∈ serv.chars, chrc.uuid ≠ 0
  descriptor : ∀ serv ∈ app.services, ∀ chrc ∈ serv.chars, ∀ desc ∈ chrc.descs, desc.uuid ≠ 0

end Application

/-! ## The worker of an application -/

/-- `struct WorkerData`: a sender is known by the key of its worker. -/
structure WorkerData where
  senders : List Key
  servCnt : Nat
  filter : Option String

/-- How the workers of the attributes answer when they are asked for their objects: `none`
is one that has ended. -/
abbrev Asked := Key → Option (ObjectPath × IfAndProps)

namespace WorkerData

/-- `WorkerData::handle_app_intro` -/
def handleAppIntro (self : WorkerData) (call : MarshalledMessage) : MarshalledMessage :=
  introReply call Introspect.mangagerStr (Introspect.childNames "service" self.servCnt)

/-- `WorkerData::handle_obj_mgr` -/
def handleObjMgr (asked : Asked) (call : MarshalledMessage) :
    Turn WorkerData MarshalledMessage := do
  let self ← Act.read
  let objects ← Act.unwrap (.error .threadClosed) (self.senders.mapM asked)
  let map : HashMap ObjectPath IfAndProps := AList.insertAll ∅ objects
  let res := call.dynheader.makeResponse
  let body ← Act.unwrap .panic (res.body.pushParam map)
  return { res with body := body }

/-- What `WorkerData::handle_app` answers to a call that passes the filter. -/
def handleCall (asked : Asked) (call : MarshalledMessage) : Turn WorkerData MarshalledMessage := do
  let interface ← Act.unwrap .panic call.dynheader.interface
  if interface = introIf then return (← Act.read).handleAppIntro call
  else if interface = objmgrIf then handleObjMgr asked call
  else Act.stop .panic

/-- `WorkerData::handle_app`, and the loop goes on. -/
def handleApp (io : Io) (asked : Asked) (call : MarshalledMessage) : Turn WorkerData Flow := do
  let self ← Act.read
  Turn.replyTo io self.filter call (handleCall asked call)

end WorkerData

/-- What the worker of an application keeps: the application, which it gives back in the
end, and the data it answers from. -/
structure AppLoop where
  /-- `self` -/
  self : Application
  /-- `app_data` -/
  appData : WorkerData

namespace AppLoop

/-- One turn of the worker, with a worker message. -/
def onMsg : WorkerMsg → Turn AppLoop Flow
  | .unregister => return .done
  | _ => Act.stop .panic

/-- One turn of the worker, with a D-Bus call. -/
def onCall (io : Io) (asked : Asked) (call : MarshalledMessage) : Turn AppLoop Flow := fun s ↦
  (WorkerData.handleApp io asked call s.appData).mapState fun appData ↦
    { s with appData := appData }

end AppLoop

end Rustable.Gatt.Server
