import Rustable.Gatt.Server.Task
import Rustable.Lib.Lts

/-!
# The calls on a registered application

An `AppWorker` routes its calls by the UUIDs they name to the workers, each of which takes
only some of the messages there are and panics on the others.  This file makes a
transition system of it: calls, the messages of the object manager, and the turns of the
workers, in any order.

A call whose last UUID is zero goes to the worker of the parent, and a worker whose handle
is zero panics when it is asked for it.  Other calls are handled as they should be
(`handled_iff`).
-/

namespace Rustable.Gatt.Server

open DBus

/-! ## Sending -/

/-- The capacity of the channel of a worker. -/
def Kind.capacity : Kind → Nat
  | .app => 2
  | .serv | .chrc | .desc => 8

/-- How sending a message to a worker goes. -/
inductive Sent
  | /-- Nothing is sent. -/
    failed (e : Error)
  | /-- The channel is full. -/
    waits
  | /-- The message has been sent. -/
    sent (self : AppWorker)

namespace AppWorker

/-- Replace a worker. -/
def put (self : AppWorker) (key : Key) (worker : Worker) : AppWorker :=
  { self with workers := self.workers.modify key fun _ ↦ worker }

/-- `worker.sender.send(msg).await?`, for the worker that goes by the key. -/
def send (self : AppWorker) (key : Key) (unknown : Error) (msg : WorkerMsg) : Sent :=
  match self.workers.lookup key with
  | none => .failed unknown
  | some worker =>
      if !worker.running then .failed .threadClosed
      else if worker.queue.length < worker.state.kind.capacity then
        .sent (self.put key (worker.push msg))
      else .waits

/-! ## The calls -/

/-- `AppWorker::update_characteristic` -/
def updateCharacteristic (self : AppWorker) (service character : UUID) (val : ValOrFn)
    (notify : Bool) : Sent :=
  self.send (service, character, 0) (.unknownChrc service character) (.update val notify)

/-- `AppWorker::update_descriptor` -/
def updateDescriptor (self : AppWorker) (service character descriptor : UUID) (val : ValOrFn) :
    Sent :=
  self.send (service, character, descriptor) (.unknownDesc service character descriptor)
    (.update val false)

/-- `AppWorker::notify_char` -/
def notifyChar (self : AppWorker) (service character : UUID) (val : Option AttBytes) : Sent :=
  self.send (service, character, 0) (.unknownChrc service character) (.notify val)

/-- `AppWorker::get_char`, up to the wait for the answer. -/
def getChar (self : AppWorker) (serv cha : UUID) (sender : ReplyTo) : Sent :=
  self.send (serv, cha, 0) (.unknownChrc serv cha) (.get sender)

/-- `AppWorker::get_serv_handle` -/
def getServHandle (self : AppWorker) (serv : UUID) (sender : ReplyTo) : Sent :=
  self.send (serv, 0, 0) (.unknownServ serv) (.getHandle sender)

/-- `AppWorker::get_char_handle` -/
def getCharHandle (self : AppWorker) (serv cha : UUID) (sender : ReplyTo) : Sent :=
  self.send (serv, cha, 0) (.unknownChrc serv cha) (.getHandle sender)

/-- `AppWorker::char_notifying` -/
def charNotifying (self : AppWorker) (serv cha : UUID) (sender : ReplyTo) : Sent :=
  self.send (serv, cha, 0) (.unknownChrc serv cha) (.notifying sender)

/-- `AppWorker::char_notify_acquired` -/
def charNotifyAcquired (self : AppWorker) (serv cha : UUID) (sender : ReplyTo) : Sent :=
  self.send (serv, cha, 0) (.unknownChrc serv cha) (.notifyAcquired sender)

/-- `AppWorker::char_notify_signaling` -/
def charNotifySignaling (self : AppWorker) (serv cha : UUID) (sender : ReplyTo) : Sent :=
  self.send (serv, cha, 0) (.unknownChrc serv cha) (.notifyingSignal sender)

/-- `AppWorker::get_desc` -/
def getDesc (self : AppWorker) (serv cha desc : UUID) (sender : ReplyTo) : Sent :=
  self.send (serv, cha, desc) (.unknownDesc serv cha desc) (.get sender)

/-- `AppWorker::get_desc_handle` -/
def getDescHandle (self : AppWorker) (serv cha desc : UUID) (sender : ReplyTo) : Sent :=
  self.send (serv, cha, desc) (.unknownDesc serv cha desc) (.getHandle sender)

end AppWorker

/-- A call on an `AppWorker`, with its arguments; a call that waits for an answer also says
which channel it waits on. -/
inductive Call
  | updateCharacteristic (service character : UUID) (val : ValOrFn) (notify : Bool)
  | updateDescriptor (service character descriptor : UUID) (val : ValOrFn)
  | notifyChar (service character : UUID) (val : Option AttBytes)
  | getChar (serv cha : UUID) (sender : ReplyTo)
  | getServHandle (serv : UUID) (sender : ReplyTo)
  | getCharHandle (serv cha : UUID) (sender : ReplyTo)
  | charNotifying (serv cha : UUID) (sender : ReplyTo)
  | charNotifyAcquired (serv cha : UUID) (sender : ReplyTo)
  | charNotifySignaling (serv cha : UUID) (sender : ReplyTo)
  | getDesc (serv cha desc : UUID) (sender : ReplyTo)
  | getDescHandle (serv cha desc : UUID) (sender : ReplyTo)

/-- What a call names: an attribute of some kind, by the UUIDs of its parents and its own. -/
inductive Named
  | serv (service : UUID)
  | chrc (service character : UUID)
  | desc (service character descriptor : UUID)

namespace Named

/-- The kind of the attribute. -/
def kind : Named → Kind
  | serv _ => .serv
  | chrc _ _ => .chrc
  | desc _ _ _ => .desc

/-- The key of the attribute. -/
def key : Named → Key
  | serv s => (s, 0, 0)
  | chrc s c => (s, c, 0)
  | desc s c d => (s, c, d)

/-- The UUID of the attribute. -/
def uuid : Named → UUID
  | serv s => s
  | chrc _ c => c
  | desc _ _ d => d

/-- The error for an attribute that does not exist. -/
def unknown : Named → Error
  | serv s => .unknownServ s
  | chrc s c => .unknownChrc s c
  | desc s c d => .unknownDesc s c d

theorem unknown_ne (named : Named) : named.unknown ≠ .threadClosed := by
  cases named with
  | serv | chrc | desc => exact Error.noConfusion

end Named

namespace Call

/-- The attribute a call is about. -/
def named : Call → Named
  | getServHandle s _ => .serv s
  | updateCharacteristic s c _ _ | notifyChar s c _ | getChar s c _ | getCharHandle s c _
  | charNotifying s c _ | charNotifyAcquired s c _ | charNotifySignaling s c _ => .chrc s c
  | updateDescriptor s c d _ | getDesc s c d _ | getDescHandle s c d _ => .desc s c d

/-- The message a call is sent as. -/
def msg : Call → WorkerMsg
  | updateCharacteristic _ _ val notify => .update val notify
  | updateDescriptor _ _ _ val => .update val false
  | notifyChar _ _ val => .notify val
  | getChar _ _ sender | getDesc _ _ _ sender => .get sender
  | getServHandle _ sender | getCharHandle _ _ sender | getDescHandle _ _ _ sender =>
      .getHandle sender
  | charNotifying _ _ sender => .notifying sender
  | charNotifyAcquired _ _ sender => .notifyAcquired sender
  | charNotifySignaling _ _ sender => .notifyingSignal sender

end Call

/-- Make a call. -/
def AppWorker.issue (self : AppWorker) : Call → Sent
  | .updateCharacteristic service character val notify =>
      self.updateCharacteristic service character val notify
  | .updateDescriptor service character descriptor val =>
      self.updateDescriptor service character descriptor val
  | .notifyChar service character val => self.notifyChar service character val
  | .getChar serv cha sender => self.getChar serv cha sender
  | .getServHandle serv sender => self.getServHandle serv sender
  | .getCharHandle serv cha sender => self.getCharHandle serv cha sender
  | .charNotifying serv cha sender => self.charNotifying serv cha sender
  | .charNotifyAcquired serv cha sender => self.charNotifyAcquired serv cha sender
  | .charNotifySignaling serv cha sender => self.charNotifySignaling serv cha sender
  | .getDesc serv cha desc sender => self.getDesc serv cha desc sender
  | .getDescHandle serv cha desc sender => self.getDescHandle serv cha desc sender

/-- All calls are sent in the same way. -/
theorem AppWorker.issue_eq (self : AppWorker) (c : Call) :
    self.issue c = self.send c.named.key c.named.unknown c.msg := by
  cases c <;> rfl

/-! ## The transition system -/

/-- What may happen next. -/
inductive Event
  | /-- A call. -/
    call (c : Call)
  | /-- The object manager asks an attribute for its objects. -/
    askObjects (key : Key) (sender : ReplyTo)
  | /-- A worker takes the next message. -/
    receive (key : Key) (io : Io)
  | /-- Something else wakes a worker. -/
    wake (key : Key) (io : Io) (input : Input)

/-- The worker after a turn. -/
def Worker.after (worker : Worker) : Ran Stop Out WorkerState Flow → Worker
  | .done .next s _ => { worker with state := s }
  | .done .done s _ => { worker with state := s, running := false }
  | .stop _ _ => { worker with running := false }

namespace AppWorker

/-- The state after sending, unless it waits. -/
def afterSend (self : AppWorker) : Sent → Option AppWorker
  | .failed _ => some self
  | .waits => none
  | .sent self' => some self'

/-- The worker that goes by the key, if its task has not ended. -/
def awake (self : AppWorker) (key : Key) : Option Worker :=
  (self.workers.lookup key).filter (·.running)

/-- One step, if the event can happen.  The application does not ask itself for objects. -/
def next (self : AppWorker) : Event → Option AppWorker
  | .call c => self.afterSend (self.issue c)
  | .askObjects key sender =>
      if key = (0, 0, 0) then none
      else self.afterSend (self.send key .threadClosed (.objMgr sender))
  | .receive key io => do
      let worker ← self.awake key
      match worker.queue with
      | [] => none
      | msg :: queue =>
          let ran := worker.state.onMsg io worker.path msg
          some (self.put key ({ worker with queue := queue }.after ran))
  | .wake _ _ (.message _) => none
  | .wake key io input => do
      let worker ← self.awake key
      let ran ← worker.state.turn io worker.path self.filter input
      some (self.put key (worker.after ran))

/-- The steps of a registered application. -/
abbrev Step : AppWorker → Event → AppWorker → Prop := Lts.ofNext next

end AppWorker

/-! ## What a step does to a worker -/

/-- The message an event sends, and the key of the worker it is for. -/
def Event.sends : Event → Option (Key × WorkerMsg)
  | .call c => some (c.named.key, c.msg)
  | .askObjects key sender => if key = (0, 0, 0) then none else some (key, .objMgr sender)
  | .receive _ _ | .wake _ _ _ => none

/-- The worker that goes by the key has changed from `worker` to `worker'`, in a step that
has sent `sent`. -/
structure Worker.Follows (sent : Option (Key × WorkerMsg)) (key : Key) (worker worker' : Worker) :
    Prop where
  kind : worker'.state.kind = worker.state.kind
  path : worker'.path = worker.path
  queue : ∀ msg ∈ worker'.queue, msg ∈ worker.queue ∨ sent = some (key, msg)

namespace Worker.Follows

variable {sent : Option (Key × WorkerMsg)} {key : Key} {worker : Worker}

theorem refl : worker.Follows sent key worker := ⟨rfl, rfl, fun _ h ↦ .inl h⟩

theorem push {msg : WorkerMsg} : worker.Follows (some (key, msg)) key (worker.push msg) where
  kind := rfl
  path := rfl
  queue msg' h := by
    rcases List.mem_append.mp h with h | h
    · exact .inl h
    · exact .inr (by rw [List.mem_singleton.mp h])

/-- After a turn that has taken messages from the queue. -/
theorem after {queue : List WorkerMsg} (hqueue : queue ⊆ worker.queue)
    {ran : Ran Stop Out WorkerState Flow} (hran : WorkerState.EndsAs worker.state.kind ran) :
    worker.Follows sent key ({ worker with queue := queue }.after ran) := by
  cases ran with
  | done flow s out =>
      cases flow with
      | next => exact ⟨hran, rfl, fun _ h ↦ .inl (hqueue h)⟩
      | done => exact ⟨hran, rfl, fun _ h ↦ .inl (hqueue h)⟩
  | stop why out => exact ⟨rfl, rfl, fun _ h ↦ .inl (hqueue h)⟩

end Worker.Follows

namespace AppWorker

variable {self self' : AppWorker} {e : Event}

theorem lookup_put (self : AppWorker) (key key' : Key) (worker : Worker) :
    (self.put key worker).workers.lookup key' =
      (self.workers.lookup key').map fun w ↦ if key' = key then worker else w :=
  AList.lookup_modify ..

/-- Each worker follows one that was there before. -/
def Follows (sent : Option (Key × WorkerMsg)) (self self' : AppWorker) : Prop :=
  self'.workers.Holds fun key worker' ↦
    ∃ worker, self.workers.lookup key = some worker ∧ worker.Follows sent key worker'

theorem Follows.refl {sent : Option (Key × WorkerMsg)} : Follows sent self self :=
  fun _ worker h ↦ ⟨worker, h, .refl⟩

theorem Follows.put {sent : Option (Key × WorkerMsg)} {key : Key} {worker worker' : Worker}
    (hworker : self.workers.lookup key = some worker) (h : worker.Follows sent key worker') :
    Follows sent self (self.put key worker') := by
  intro key' w' hw'
  rw [lookup_put] at hw'
  obtain ⟨w, hw, rfl⟩ := Option.map_eq_some_iff.mp hw'
  split
  · next hkey =>
      subst hkey
      exact ⟨worker, hworker, h⟩
  · exact ⟨w, hw, .refl⟩

theorem lookup_of_awake {key : Key} {worker : Worker} (h : self.awake key = some worker) :
    self.workers.lookup key = some worker ∧ worker.running = true :=
  Option.filter_eq_some_iff.mp h

/-- What sending does. -/
theorem afterSend_send {key : Key} {unknown : Error} {msg : WorkerMsg}
    (h : self.afterSend (self.send key unknown msg) = some self') :
    Follows (some (key, msg)) self self' := by
  rw [send] at h
  split at h
  · obtain rfl := Option.some.inj h
    exact .refl
  · next worker hworker =>
      split at h
      · obtain rfl := Option.some.inj h
        exact .refl
      split at h
      · obtain rfl := Option.some.inj h
        exact .put hworker .push
      · contradiction

/-- **What a step does to the workers**: none changes its kind or its path, and a message in
a queue was there before or has been sent by the event. -/
theorem next_follows (h : self.next e = some self') : Follows e.sends self self' := by
  cases e with
  | call c =>
      rw [next, issue_eq] at h
      exact afterSend_send h
  | askObjects key sender =>
      rw [next] at h
      split at h
      · contradiction
      · next hkey =>
          rw [Event.sends, if_neg hkey]
          exact afterSend_send h
  | receive key io =>
      obtain ⟨worker, hworker, h⟩ := Option.bind_eq_some_iff.mp h
      split at h
      · contradiction
      · next msg queue hqueue =>
          obtain rfl := Option.some.inj h
          refine .put (lookup_of_awake hworker).1 (.after ?_ (WorkerState.onMsg_kind ..))
          rw [hqueue]
          exact List.subset_cons_self msg queue
  | wake key io input =>
      cases input with
      | message msg => contradiction
      | call _ _ | notified _ | written _ =>
          obtain ⟨worker, hworker, h⟩ := Option.bind_eq_some_iff.mp h
          obtain ⟨ran, hran, h⟩ := Option.bind_eq_some_iff.mp h
          obtain rfl := Option.some.inj h
          refine .put (lookup_of_awake hworker).1 (.after (List.Subset.refl _) ?_)
          cases ran with
          | done flow s out => exact WorkerState.turn_kind hran
          | stop why out => trivial

/-- What each worker keeps to, all of them keep to. -/
theorem Follows.holds {sent : Option (Key × WorkerMsg)} {P : Key → Worker → Prop}
    (h : Follows sent self self') (hself : self.workers.Holds P)
    (hP : ∀ key worker worker', self.workers.lookup key = some worker →
      worker.Follows sent key worker' → P key worker → P key worker') :
    self'.workers.Holds P := by
  intro key worker' hworker'
  obtain ⟨worker, hworker, hfollows⟩ := h key worker' hworker'
  exact hP key worker worker' hworker hfollows (hself key worker hworker)

end AppWorker

/-! ## What happens to a worker in a step -/

/-- A message that callers and the object manager send. -/
def WorkerMsg.isSent : WorkerMsg → Bool
  | .unregister | .includedPaths _ => false
  | .update _ _ | .get _ | .getHandle _ | .notify _ | .notifying _ | .notifyAcquired _
  | .notifyingSignal _ | .objMgr _ => true

theorem Call.isSent_msg (c : Call) : c.msg.isSent = true := by
  cases c <;> rfl

/-- What may happen to the worker that goes by the key, on an event. -/
inductive Worker.Stepped (filter : Option String) (e : Event) (key : Key) (worker : Worker) :
    Worker → Prop
  | /-- Nothing. -/
    same : Stepped filter e key worker worker
  | /-- It is sent a message. -/
    pushed (msg : WorkerMsg) (hmsg : msg.isSent = true) :
      Stepped filter e key worker (worker.push msg)
  | /-- It takes the next message. -/
    received (io : Io) (msg : WorkerMsg) (queue : List WorkerMsg)
      (hrunning : worker.running = true) (hqueue : worker.queue = msg :: queue) :
      Stepped filter e key worker
        ({ worker with queue := queue }.after (worker.state.onMsg io worker.path msg))
  | /-- Something else wakes it. -/
    woken (io : Io) (input : Input) (ran : Ran Stop Out WorkerState Flow)
      (hevent : e = .wake key io input) (hrunning : worker.running = true)
      (hran : worker.state.turn io worker.path filter input = some ran) :
      Stepped filter e key worker (worker.after ran)

namespace AppWorker

variable {self self' : AppWorker} {e : Event}

/-- Every worker has taken a step on the event, and no worker is new or lost. -/
structure Steps (e : Event) (app app' : AppWorker) : Prop where
  filter : app'.filter = app.filter
  worker : ∀ key, Option.Rel (Worker.Stepped app.filter e key) (app.workers.lookup key)
    (app'.workers.lookup key)

theorem Steps.refl (self : AppWorker) : Steps e self self where
  filter := rfl
  worker key := by
    cases self.workers.lookup key with
    | none => exact .none
    | some worker => exact .some .same

theorem Steps.put {key : Key} {worker worker' : Worker}
    (hworker : self.workers.lookup key = some worker)
    (h : worker.Stepped self.filter e key worker') : Steps e self (self.put key worker') where
  filter := rfl
  worker key' := by
    rw [lookup_put]
    by_cases hkey : key' = key
    · subst hkey
      rw [hworker, Option.map_some, if_pos rfl]
      exact .some h
    · cases self.workers.lookup key' with
      | none => exact .none
      | some w =>
          rw [Option.map_some, if_neg hkey]
          exact .some .same

theorem steps_afterSend {key : Key} {unknown : Error} {msg : WorkerMsg} (hmsg : msg.isSent = true)
    (h : self.afterSend (self.send key unknown msg) = some self') : Steps e self self' := by
  rw [send] at h
  split at h
  · obtain rfl := Option.some.inj h
    exact .refl _
  · next worker hworker =>
      split at h
      · obtain rfl := Option.some.inj h
        exact .refl _
      split at h
      · obtain rfl := Option.some.inj h
        exact .put hworker (.pushed msg hmsg)
      · contradiction

/-- **What a step is**, seen from the workers. -/
theorem next_steps (h : self.next e = some self') : Steps e self self' := by
  cases e with
  | call c =>
      rw [next, issue_eq] at h
      exact steps_afterSend c.isSent_msg h
  | askObjects key sender =>
      rw [next] at h
      split at h
      · contradiction
      · exact steps_afterSend rfl h
  | receive key io =>
      obtain ⟨worker, hworker, h⟩ := Option.bind_eq_some_iff.mp h
      obtain ⟨hlookup, hrunning⟩ := lookup_of_awake hworker
      split at h
      · contradiction
      · next msg queue hqueue =>
          obtain rfl := Option.some.inj h
          exact .put hlookup (.received io msg queue hrunning hqueue)
  | wake key io input =>
      cases input with
      | message msg => contradiction
      | call _ _ | notified _ | written _ =>
          obtain ⟨worker, hworker, h⟩ := Option.bind_eq_some_iff.mp h
          obtain ⟨ran, hran, h⟩ := Option.bind_eq_some_iff.mp h
          obtain rfl := Option.some.inj h
          obtain ⟨hlookup, hrunning⟩ := lookup_of_awake hworker
          exact .put hlookup (.woken io _ ran rfl hrunning hran)

/-- What a step of a worker keeps, a step of the application keeps for all of them. -/
theorem Steps.holds {P : Key → Worker → Prop} (h : Steps e self self')
    (hself : self.workers.Holds P)
    (hP : ∀ key worker worker', self.workers.lookup key = some worker → P key worker →
      worker.Stepped self.filter e key worker' → P key worker') : self'.workers.Holds P := by
  intro key worker' hworker'
  have hrel := h.worker key
  rw [hworker'] at hrel
  cases hworker : self.workers.lookup key with
  | none =>
      rw [hworker] at hrel
      contradiction
  | some worker =>
      rw [hworker] at hrel
      cases hrel with
      | some hstepped => exact hP key worker worker' hworker (hself key worker hworker) hstepped

end AppWorker

/-! ## What registering leaves behind -/

theorem sendIncludes_holds {P : Key → Worker → Prop} {included : List (UUID × List UUID)}
    {workers workers' : Workers} (h : sendIncludes included workers = some workers')
    (hpush : ∀ e ∈ included, ∀ worker paths, P (e.1, 0, 0) worker →
      P (e.1, 0, 0) (worker.push (.includedPaths paths)))
    (hworkers : workers.Holds P) : workers'.Holds P := by
  induction included generalizing workers with
  | nil =>
      obtain rfl := Option.some.inj h
      exact hworkers
  | cons e included ih =>
      obtain ⟨paths, -, h⟩ := Option.bind_eq_some_iff.mp h
      obtain ⟨_, -, h⟩ := Option.bind_eq_some_iff.mp h
      refine ih h (fun e' he' ↦ hpush e' (List.mem_cons_of_mem e he')) (hworkers.modify ?_)
      exact fun worker _ hworker ↦ hpush e List.mem_cons_self worker paths hworker

/-- What fresh workers fulfil, and sending the paths of included services does not change,
holds of the workers of a registered application. -/
theorem Application.register_holds {P : Key → Worker → Prop} {self : Application} {bus : Bus}
    {app : AppWorker} (h : self.register bus = pure app)
    (hown : ∀ e ∈ self.own, ∀ worker : Worker, worker.Fresh → worker.state = e.2 → P e.1 worker)
    (hpush : ∀ serv ∈ self.services, ∀ worker paths, P (serv.uuid, 0, 0) worker →
      P (serv.uuid, 0, 0) (worker.push (.includedPaths paths)))
    (happ : ∀ s path, P (0, 0, 0) { state := .app s, path := path }) : app.workers.Holds P := by
  obtain ⟨-, workers, workers', appData, ⟨es, rfl, hes, hfresh⟩, hincludes, hworkers⟩ :=
    Application.register_eq h
  rw [hworkers]
  refine AList.Holds.insert (sendIncludes_holds hincludes ?_ ?_) (happ _ _)
  · rintro e he
    obtain ⟨serv, hserv, rfl⟩ := List.mem_map.mp he
    exact hpush serv (List.mem_of_mem_filter hserv)
  · refine AList.Holds.empty.insertAll fun e he ↦ ?_
    have hmem : ownState e ∈ self.own := hes ▸ List.mem_map_of_mem he
    exact hown (ownState e) hmem e.2 (hfresh e he) rfl

/-- The worker of the application is there. -/
theorem Application.awake_of_register {self : Application} {bus : Bus} {app : AppWorker}
    (h : self.register bus = pure app) :
    ∃ s, app.awake (0, 0, 0) = some { state := .app s, path := self.basePath } := by
  obtain ⟨-, _, _, appData, -, -, hworkers⟩ := Application.register_eq h
  refine ⟨{ self := { self with services := [] }, appData := appData }, ?_⟩
  rw [AppWorker.awake, hworkers, AList.lookup_insert]
  rfl

end Rustable.Gatt.Server
