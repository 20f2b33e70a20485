import Rustable.Gatt.Server.Register

/-!
# One turn of any worker

What wakes the task of a worker is an `Input`, and `WorkerState.turn` is what it does then,
whatever its kind.  No worker changes its kind, and that of an application does not even
change its state.
-/

namespace Rustable.Gatt.Server

open DBus

/-- The kinds of workers. -/
inductive Kind
  | app
  | serv
  | chrc
  | desc
deriving DecidableEq, Repr

/-- What wakes the task of a worker. -/
inductive Input
  | /-- A worker message. -/
    message (msg : WorkerMsg)
  | /-- A D-Bus call. -/
    call (asked : Asked) (msg : MarshalledMessage)
  | /-- The value of the notify callback's future. -/
    notified (shouldNot : ShouldNotify)
  | /-- What was read from the socket acquired for writing. -/
    written (res : Except IoError AttBytes)

namespace WorkerState

/-- The kind of a worker. -/
def kind : WorkerState → Kind
  | app _ => .app
  | serv _ => .serv
  | chrc _ => .chrc
  | desc _ => .desc

/-- One turn, with a worker message. -/
def onMsg (io : Io) (path : ObjectPath) (msg : WorkerMsg) :
    WorkerState → Ran Stop Out WorkerState Flow
  | app s => (AppLoop.onMsg msg s).mapState app
  | serv s => (ServWorker.onMsg io path msg s).mapState serv
  | chrc s => (ChrcData.onMsg io path msg s).mapState chrc
  | desc s => (Descriptor.onMsg io path msg s).mapState desc

theorem onMsg_unregister (io : Io) {path : ObjectPath} {s : WorkerState} :
    s.onMsg io path .unregister = .done .done s [] := by
  cases s <;> rfl

/-- One turn, with a D-Bus call. -/
def onCall (io : Io) (filter : Option String) (asked : Asked) (call : MarshalledMessage) :
    WorkerState → Ran Stop Out WorkerState Flow
  | app s => (AppLoop.onCall io asked call s).mapState app
  | serv s => (ServWorker.onCall io filter call s).mapState serv
  | chrc s => (ChrcData.onCall io filter call s).mapState chrc
  | desc s => (Descriptor.onCall io filter call s).mapState desc

/-- One turn, if the input is one the worker waits for: only characteristics have a notify
callback, and only one that has handed out a socket reads from it. -/
def turn (io : Io) (path : ObjectPath) (filter : Option String) :
    Input → WorkerState → Option (Ran Stop Out WorkerState Flow)
  | .message msg, s => some (s.onMsg io path msg)
  | .call asked msg, s => some (s.onCall io filter asked msg)
  | .notified shouldNot, chrc s =>
      some ((ChrcData.onNotifyFuture io path shouldNot s).mapState chrc)
  | .written res, chrc s =>
      if s.writeFd.isSome then some ((ChrcData.onWrite io path res s).mapState chrc) else none
  | _, _ => none

/-- An ending of a worker of the kind. -/
def EndsAs (k : Kind) : Ran Stop Out WorkerState Flow → Prop
  | .done _ s' _ => s'.kind = k
  | .stop _ _ => True

theorem endsAs_mapState {σ : Type} (f : σ → WorkerState) {k : Kind} (r : Ran Stop Out σ Flow)
    (hf : ∀ s, (f s).kind = k) : EndsAs k (r.mapState f) := by
  cases r with
  | done a s out => exact hf s
  | stop why out => trivial

/-- A message does not change the kind of a worker. -/
theorem onMsg_kind (io : Io) (path : ObjectPath) (msg : WorkerMsg) (s : WorkerState) :
    EndsAs s.kind (s.onMsg io path msg) := by
  cases s with
  | app s => exact endsAs_mapState app _ fun _ ↦ rfl
  | serv s => exact endsAs_mapState serv _ fun _ ↦ rfl
  | chrc s => exact endsAs_mapState chrc _ fun _ ↦ rfl
  | desc s => exact endsAs_mapState desc _ fun _ ↦ rfl

/-- A D-Bus call does not change the kind of a worker. -/
theorem onCall_kind (io : Io) (filter : Option String) (asked : Asked) (call : MarshalledMessage)
    (s : WorkerState) : EndsAs s.kind (s.onCall io filter asked call) := by
  cases s with
  | app s => exact endsAs_mapState app _ fun _ ↦ rfl
  | serv s => exact endsAs_mapState serv _ fun _ ↦ rfl
  | chrc s => exact endsAs_mapState chrc _ fun _ ↦ rfl
  | desc s => exact endsAs_mapState desc _ fun _ ↦ rfl

/-- **No turn changes the kind of a worker.** -/
theorem turn_kind {io : Io} {path : ObjectPath} {filter : Option String} {input : Input}
    {s s' : WorkerState} {flow : Flow} {out : List Out}
    (h : s.turn io path filter input = some (.done flow s' out)) : s'.kind = s.kind := by
  have ends {r : Ran Stop Out WorkerState Flow} (hr : EndsAs s.kind r)
      (heq : some r = some (.done flow s' out)) : s'.kind = s.kind := by
    obtain rfl := Option.some.inj heq
    exact hr
  cases input with
  | message msg => exact ends (onMsg_kind io path msg s) h
  | call asked msg => exact ends (onCall_kind io filter asked msg s) h
  | notified shouldNot =>
      cases s with
      | chrc d => exact ends (endsAs_mapState chrc _ fun _ ↦ rfl) h
      | app | serv | desc => contradiction
  | written res =>
      cases s with
      | chrc d =>
          rw [turn] at h
          split at h
          · exact ends (endsAs_mapState chrc _ fun _ ↦ rfl) h
          · contradiction
      | app | serv | desc => contradiction

end WorkerState

/-! ## The worker of an application -/

section App

variable {io : Io} {msg : MarshalledMessage}

/-- The state stays as it is. -/
def frozen (σ : Type) : Effect Stop Out σ where
  changes s t := t = s
  sends _ := True
  stops _ := True
  refl _ := rfl
  trans h k := k.trans h

/-- Answering changes nothing in the application. -/
theorem WorkerData.within_handleCall (asked : Asked) :
    Act.Within (frozen WorkerData) (fun _ ↦ True) (handleCall asked msg) := by
  refine .bind (.unwrap (fun _ _ ↦ trivial) fun _ ↦ trivial) fun interface _ ↦ ?_
  refine .ite (fun _ ↦ .read fun _ ↦ .pure trivial) fun _ ↦ .ite (fun _ ↦ ?_) fun _ ↦ .stop trivial
  refine .read fun self ↦ .bind (.unwrap (fun _ _ ↦ trivial) fun _ ↦ trivial) fun objects _ ↦ ?_
  exact .bind (.unwrap (fun _ _ ↦ trivial) fun _ ↦ trivial) fun body _ ↦ .pure trivial

theorem WorkerData.within_handleApp (asked : Asked) :
    Act.Within (frozen WorkerData) (fun _ ↦ True) (handleApp io asked msg) := by
  have hsend (m : MarshalledMessage) : Act.Within (frozen WorkerData) (fun _ ↦ True)
      (do Turn.sendReply io m; return Flow.next : Turn WorkerData Flow) := by
    rw [Turn.sendReply, Turn.check.eq_def]
    cases io.send m with
    | ok u =>
        refine .seq (.seq (.pure trivial) fun _ ↦ ?_) fun _ ↦ .pure trivial
        exact .emit trivial trivial
    | error e =>
        refine .seq (.seq (.stop trivial) fun _ ↦ ?_) fun _ ↦ .pure trivial
        exact .emit trivial trivial
  refine .read fun self ↦ .ite (fun _ ↦ ?_) fun _ ↦ hsend _
  exact .seq (within_handleCall asked) fun m ↦ hsend m

/-- **The worker of an application never changes its state.** -/
theorem WorkerState.turn_app {path : ObjectPath} {filter : Option String} {input : Input}
    {s : AppLoop} {s' : WorkerState} {flow : Flow} {out : List Out}
    (h : (app s).turn io path filter input = some (.done flow s' out)) : s' = app s := by
  cases input with
  | notified | written => contradiction
  | message msg =>
      have hrun := Option.some.inj h
      cases msg with
      | unregister =>
          obtain ⟨-, rfl, -⟩ := Ran.done.inj hrun
          rfl
      | _ => contradiction
  | call asked msg =>
      have hrun := Option.some.inj h
      have hwithin := @WorkerData.within_handleApp io msg asked s.appData
      rw [onCall, AppLoop.onCall] at hrun
      cases happ : WorkerData.handleApp io asked msg s.appData with
      | stop why out =>
          rw [happ] at hrun
          contradiction
      | done flow' t out' =>
          rw [happ] at hrun hwithin
          obtain ⟨-, rfl, -⟩ := Ran.done.inj hrun
          rw [hwithin.2.1]

end App

end Rustable.Gatt.Server
