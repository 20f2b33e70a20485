import Mathlib.Algebra.Order.BigOperators.Group.List
import Rustable.Gatt.Server.Managed
import Rustable.Gatt.Server.Mailboxes

/-!
# Collecting the managed objects

To answer a call for the managed objects, the worker of the application asks all others for
their objects at once (`handle_obj_mgr`): one future for each of them waits until there is room
in the channel, sends the request, and waits for the answer.  Meanwhile the application makes
calls, and the workers take turns.

Whatever happens, the futures cannot block each other: when there are no more calls they come
to an end after so many steps as a measure tells, with an answer of each worker unless one of
them has ended before (`collecting_settles`).  And whatever has been answered by then describes
the application (`collected_describes`).
-/

namespace Rustable.Gatt.Server

open DBus Mailbox

/-! ## The futures -/

/-- How far the future that asks one worker has come. -/
inductive Stage
  | /-- It waits for room in the channel. -/
    unsent
  | /-- It waits for the answer. -/
    asked
  | /-- It has got the answer. -/
    answered (answer : ObjectPath × IfAndProps)
  | /-- The worker has ended, before it was asked or before it has answered. -/
    failed

/-- The answer that a future has got. -/
def Stage.answer? : Stage → Option (ObjectPath × IfAndProps)
  | answered answer => some answer
  | unsent | asked | failed => none

/-- A registered application while its objects are collected. -/
structure Collection where
  app : AppWorker
  /-- The workers that are asked. -/
  senders : List Key
  stages : Key → Stage

/-- What may happen while objects are collected. -/
inductive Collection.Label
  | /-- A future goes on to send its request. -/
    ask (key : Key)
  | /-- A future finds that the worker has ended, and the request with it. -/
    closed (key : Key)
  | /-- Something else. -/
    other (e : Event)

/-- The message is the request of the collection with that number. -/
def WorkerMsg.isRequest (id : ReplyTo) : WorkerMsg → Bool
  | .objMgr sender => sender = id
  | .unregister | .update _ _ | .get _ | .getHandle _ | .notify _ | .notifying _
  | .notifyAcquired _ | .notifyingSignal _ | .includedPaths _ => false

namespace AppWorker

/-- The next message of a worker that runs. -/
def head? (self : AppWorker) (key : Key) : Option WorkerMsg :=
  (self.awake key).bind (·.queue.head?)

/-- What a worker sends when it receives the next message. -/
def sends (self : AppWorker) (key : Key) (io : Io) : List Out :=
  match self.awake key, self.head? key with
  | some worker, some msg => (worker.state.onMsg io worker.path msg).out
  | _, _ => []

end AppWorker

namespace Collection

/-- The worker is about to receive the request of the collection. -/
def isNext (self : Collection) (id : ReplyTo) (key : Key) : Bool :=
  (self.app.head? key).any (WorkerMsg.isRequest id)

/-- The stage of a future is another one. -/
def put (self : Collection) (key : Key) (stage : Stage) : Collection :=
  { self with stages := Function.update self.stages key stage }

/-- `recv.recv().await?`: the answer, if the worker is about to receive the request and gives
one. -/
def answer (self : Collection) (id : ReplyTo) (key : Key) (io : Io) : Collection :=
  match self.stages key, self.isNext id key, (self.app.sends key io).findSome? Out.objects? with
  | .asked, true, some answer => self.put key (.answered answer)
  | _, _, _ => self

/-- One step, if it can happen. -/
def next (id : ReplyTo) (self : Collection) : Label → Option Collection
  | .ask key => match self.stages key with
    | .unsent => if key ∈ self.senders then
        match self.app.send key .threadClosed (.objMgr id) with
        | .failed _ => some (self.put key .failed)
        | .waits => none
        | .sent app => some { self.put key .asked with app := app }
      else none
    | .asked | .answered _ | .failed => none
  | .closed key => match self.stages key with
    | .asked => if (self.app.awake key).isNone then some (self.put key .failed) else none
    | .unsent | .answered _ | .failed => none
  | .other (.askObjects _ _) => none
  | .other (.receive key io) =>
      -- The futures wait for their answers.
      if self.isNext id key && !io.receiverAlive then none
      else (self.app.next (.receive key io)).map fun app ↦
        { self.answer id key io with app := app }
  | .other (.call c) => (self.app.next (.call c)).map fun app ↦ { self with app := app }
  | .other (.wake key io input) =>
      (self.app.next (.wake key io input)).map fun app ↦ { self with app := app }

/-- The steps of a collection, with calls that are routed. -/
def Step (id : ReplyTo) : Collection → Label → Collection → Prop :=
  Lts.restrict (Lts.ofNext (next id)) fun self l ↦ ∀ e, l = .other e → self.app.Routed e

/-- The steps of the futures and of the workers that are asked, when no more calls are made. -/
def Internal (id : ReplyTo) : Collection → Label → Collection → Prop :=
  Lts.restrict (Step id) fun self l ↦ ∀ e, l = .other e →
    ∃ key ∈ self.senders, ∃ io, e = .receive key io

/-- What has been answered. -/
def asked (self : Collection) : Asked := fun key ↦ (self.stages key).answer?

/-- All futures have got their answers, or the worker that one of them has asked has ended. -/
def Over (self : Collection) : Prop :=
  (∀ key ∈ self.senders, (self.asked key).isSome) ∨
    ∃ key ∈ self.senders, self.app.awake key = none

end Collection

/-- The application when it starts to collect the objects. -/
def AppWorker.collect (self : AppWorker) : Collection where
  app := self
  senders := (self.workers.lookup (0, 0, 0)).elim [] (·.state.senders)
  stages _ := .unsent

/-! ## Requests in the channels -/

namespace AppWorker

variable {self self' : AppWorker} {key : Key} {e : Event}

/-- A worker that has ended stays so. -/
theorem awake_eq_none_of_next (h : self.next e = some self') (hnone : self.awake key = none) :
    self'.awake key = none := by
  have hrel := (next_steps h).worker key
  cases hworker' : self'.workers.lookup key with
  | none => rw [awake, hworker', Option.filter_none]
  | some worker' =>
      rw [hworker'] at hrel
      cases hworker : self.workers.lookup key with
      | none =>
          rw [hworker] at hrel
          contradiction
      | some worker =>
          rw [hworker] at hrel
          have hrunning : worker.running = false := by
            rw [awake, hworker] at hnone
            simpa using hnone
          refine awake_eq_none hworker' ?_
          cases hrel with
          | some hstepped =>
              cases hstepped with
              | same => exact hrunning
              | pushed msg hmsg => exact hrunning
              | received io msg queue hrun =>
                  rw [hrunning] at hrun
                  contradiction
              | woken io input ran he hrun =>
                  rw [hrunning] at hrun
                  contradiction

/-- What goes by the key is a worker that has ended, or there is none. -/
theorem awake_of_send_failed {unknown error : Error} {msg : WorkerMsg}
    (h : self.send key unknown msg = .failed error) : self.awake key = none := by
  rw [send] at h
  split at h
  · next hnone => rw [awake, hnone, Option.filter_none]
  · next worker hworker =>
      split at h
      · next hrunning => exact awake_eq_none hworker (Bool.not_eq_true' _ ▸ hrunning)
      split at h
      · contradiction
      · contradiction

/-- A request that is sent is a step of the application. -/
theorem next_ask {id : ReplyTo} (hkey : key ≠ (0, 0, 0))
    (h : self.send key .threadClosed (.objMgr id) = .sent self') :
    self.next (.askObjects key id) = some self' := by
  rw [next, if_neg hkey, h]
  rfl

theorem awake_of_send_sent {unknown : Error} {msg : WorkerMsg}
    (h : self.send key unknown msg = .sent self') :
    ∃ worker, self.awake key = some worker ∧ self' = self.put key (worker.push msg) := by
  rw [send] at h
  split at h
  · contradiction
  · next worker hworker =>
      split at h
      · contradiction
      · next hrunning =>
          split at h
          · refine ⟨worker, awake_of_lookup hworker ?_, (Sent.sent.inj h).symm⟩
            exact Bool.not_eq_false' _ ▸ Bool.eq_false_iff.mpr hrunning
          · contradiction

end AppWorker

theorem Call.isRequest_msg (c : Call) (id : ReplyTo) : c.msg.isRequest id = false := by
  cases c <;> rfl

/-- Every attribute answers the object manager in the same way, whoever asks. -/
theorem WorkerState.onMsg_objMgr_eq {path : ObjectPath} (hpath : path ≠ .root) {s : WorkerState}
    (hs : s.kind ≠ .app) : ∃ s' map, ∀ io : Io, io.receiverAlive = true → ∀ sender,
      s.onMsg io path (.objMgr sender) = .done .next s' [.answer sender (.objects path map)] := by
  cases s with
  | app s => contradiction
  | serv s =>
      obtain ⟨map, d, hrun, -⟩ := Properties.getAllInterfaces_spec
        (ServData.readable path fun _ ↦ True) (s := s.servData) trivial
      exact ⟨_, map, fun io hio sender ↦
        congrArg (·.mapState serv) (ServWorker.onMsg_objMgr hio hrun sender)⟩
  | chrc s =>
      obtain ⟨map, s', hrun, -⟩ := Properties.getAllInterfaces_spec
        (ChrcData.readable hpath (I := fun _ ↦ True) fun _ _ ↦ trivial) (s := s) trivial
      exact ⟨_, map, fun io hio sender ↦
        congrArg (·.mapState chrc) (ChrcData.onMsg_objMgr hio hrun sender)⟩
  | desc s =>
      obtain ⟨map, s', hrun, -⟩ := Properties.getAllInterfaces_spec
        (Descriptor.readable hpath (I := fun _ ↦ True) fun _ _ ↦ trivial) (s := s) trivial
      exact ⟨_, map, fun io hio sender ↦
        congrArg (·.mapState desc) (Descriptor.onMsg_objMgr hio hrun sender)⟩

/-- An attribute that is about to receive a request answers it with its objects. -/
theorem AppWorker.answers_request {self : AppWorker} {key : Key} {worker : Worker}
    (hworker : self.awake key = some worker) (hattr : worker.IsAttribute) {id : ReplyTo}
    (hhead : self.head? key = some (.objMgr id)) {io : Io} (hio : io.receiverAlive = true) :
    ∃ answer, (self.sends key io).findSome? Out.objects? = some answer ∧
      worker.objects = some answer := by
  obtain ⟨s', map, honMsg⟩ := WorkerState.onMsg_objMgr_eq hattr.path hattr.kind
  refine ⟨(worker.path, map), ?_, ?_⟩
  · rw [sends, hworker, hhead]
    dsimp only
    rw [honMsg io hio id]
    rfl
  · rw [Worker.objects, if_pos (lookup_of_awake hworker).2, honMsg {} rfl 0]
    rfl

namespace AppWorker

variable {self self' : AppWorker} {key : Key} {id : ReplyTo}

/-- The number of messages of some kind in the channel of a worker. -/
def count (self : AppWorker) (p : WorkerMsg → Bool) (key : Key) : Option Nat :=
  (self.actor key).map fun a ↦ a.mailbox.countP p

variable {p : WorkerMsg → Bool}

/-- They are those that are sent and not yet received. -/
theorem count_of_next {e : Event} (h : self.next e = some self') (key : Key) :
    (self'.count p key).map (· + ((self.sees e key).turn?.bind
        (Worker.behaviour self.filter).takes).toList.countP p) =
      (self.count p key).map (· + (self.sees e key).sent?.toList.countP p) := by
  have hrel := parts_of_next h key
  rw [count, count]
  cases ha : self.actor key with
  | none =>
      rw [ha] at hrel
      generalize self'.actor key = o at hrel ⊢
      cases hrel
      rfl
  | some a =>
      rw [ha] at hrel
      generalize self'.actor key = o at hrel ⊢
      cases hrel with
      | some hstep => exact congrArg some (hstep.countP _)

/-- A call sends its own message at most. -/
theorem count_of_call {c : Call} (h : self.next (.call c) = some self') (hmsg : p c.msg = false)
    (key : Key) : self'.count p key = self.count p key := by
  have hcount := count_of_next (p := p) h key
  have hsees : self.sees (.call c) key = self.seesMsg c.named.key c.msg key := rfl
  rw [hsees, seesMsg] at hcount
  split at hcount
  · simpa [Seen.turn?, Seen.sent?, List.countP_singleton, hmsg] using hcount
  · simpa [Seen.turn?, Seen.sent?] using hcount

/-- What else wakes the workers leaves the messages. -/
theorem count_of_wake {woken : Key} {io : Io} {input : Input}
    (h : self.next (.wake woken io input) = some self') (key : Key) :
    self'.count p key = self.count p key := by
  have hcount := count_of_next (p := p) h key
  have hsees : self.sees (.wake woken io input) key =
      if key = woken then .turn (io, input) else .idle := rfl
  have htakes : (Worker.behaviour self.filter).takes (io, input) = none := by
    cases input with
    | message msg => contradiction
    | call | notified | written => rfl
  rw [hsees] at hcount
  split at hcount
  · simpa [Seen.turn?, Seen.sent?, htakes] using hcount
  · simpa [Seen.turn?, Seen.sent?] using hcount

/-- The next message is received. -/
theorem count_of_receive {woken : Key} {io : Io} (h : self.next (.receive woken io) = some self')
    (key : Key) : (self'.count p key).map
      (· + if key = woken ∧ (self.head? woken).any p then 1 else 0) = self.count p key := by
  have hcount := count_of_next (p := p) h key
  have hsees : self.sees (.receive woken io) key =
      if key = woken then (self.head? key).elim .idle fun msg ↦ .turn (io, .message msg)
      else .idle := by
    rw [sees, head?]
    cases (self.awake key).bind (·.queue.head?) <;> rfl
  rw [hsees] at hcount
  by_cases hkey : key = woken
  · subst hkey
    rw [if_pos rfl] at hcount
    cases hhead : self.head? key with
    | none =>
        rw [hhead] at hcount
        simpa [Seen.turn?, Seen.sent?] using hcount
    | some msg =>
        rw [hhead] at hcount
        have htakes : (Worker.behaviour self.filter).takes (io, .message msg) = some msg := rfl
        simpa [Seen.turn?, Seen.sent?, htakes, List.countP_singleton] using hcount
  · rw [if_neg hkey] at hcount
    simpa [Seen.turn?, Seen.sent?, hkey] using hcount

/-- A request that is sent is in the channel. -/
theorem count_of_ask (h : self.next (.askObjects key id) = some self')
    (hawake : (self.awake key).isSome) (other : Key) : self'.count p other =
      (self.count p other).map (· + if other = key ∧ p (.objMgr id) then 1 else 0) := by
  have hcount := count_of_next (p := p) h other
  have hsees : self.sees (.askObjects key id) other = self.seesMsg key (.objMgr id) other := rfl
  rw [hsees, seesMsg] at hcount
  by_cases hkey : other = key
  · subst hkey
    rw [if_pos ⟨rfl, hawake⟩] at hcount
    simpa [Seen.turn?, Seen.sent?, List.countP_singleton] using hcount
  · rw [if_neg (fun h ↦ hkey h.1)] at hcount
    simpa [Seen.turn?, Seen.sent?, hkey] using hcount

/-- A worker that receives a message had one in its channel. -/
theorem count_pos_of_receive {io : Io} (h : self.next (.receive key io) = some self') :
    ∃ n, self.count (fun _ ↦ true) key = some n ∧
      (self.head? key).any (fun _ ↦ true) = true := by
  obtain ⟨worker, hworker, h⟩ := Option.bind_eq_some_iff.mp h
  split at h
  · contradiction
  · next msg queue hqueue =>
      refine ⟨_, by rw [count, actor, (lookup_of_awake hworker).1]; rfl, ?_⟩
      rw [head?, hworker, Option.bind_some, hqueue]
      rfl

theorem isRequest_objMgr (id : ReplyTo) : WorkerMsg.isRequest id (.objMgr id) = true :=
  decide_eq_true rfl

end AppWorker

/-! ## The invariant -/

/-- How many requests there are in the channel of a worker whose future is at the stage. -/
def Stage.requests : Stage → Option Nat
  | unsent | answered _ => some 0
  | asked => some 1
  | failed => none

/-- What holds while the objects of the application `app` are collected. -/
structure Collection.Inv (app : AppWorker) (id : ReplyTo) (c : Collection) : Prop where
  reachable : Lts.Reachable AppWorker.RoutedStep app c.app
  senders : ∀ key ∈ c.senders, key ≠ (0, 0, 0) ∧ ∀ t, Lts.Reachable AppWorker.RoutedStep app t →
    ∃ worker, t.workers.lookup key = some worker ∧ worker.IsAttribute
  asked : ∀ key, c.stages key = .asked → key ∈ c.senders
  requests : ∀ key n m, (c.stages key).requests = some n →
    c.app.count (WorkerMsg.isRequest id) key = some m →
    m = n
  honest : app.Honest c.asked
  failed : ∀ key, c.stages key = .failed → c.app.awake key = none

namespace Collection

variable {app app' : AppWorker} {id : ReplyTo} {self self' : Collection} {key : Key} {stage : Stage}

theorem stages_put (self : Collection) (key : Key) (stage : Stage) (other : Key) :
    (self.put key stage).stages other = if other = key then stage else self.stages other := by
  exact Function.update_apply ..

/-- What a step is. -/
inductive Stepped (id : ReplyTo) (self : Collection) : Label → Collection → Prop
  | /-- A future finds that the worker has ended. -/
    failed {l : Label} (key : Key) (hstage : self.stages key = .unsent ∨ self.stages key = .asked)
      (hkey : self.stages key = .unsent → key ∈ self.senders)
      (hawake : self.app.awake key = none) : Stepped id self l (self.put key .failed)
  | /-- A future sends its request. -/
    asked (key : Key) {app : AppWorker} (hunsent : self.stages key = .unsent)
      (hkey : key ∈ self.senders)
      (hsend : self.app.send key .threadClosed (.objMgr id) = .sent app) :
      Stepped id self (.ask key) { self.put key .asked with app := app }
  | /-- A worker receives the next message. -/
    received (key : Key) (io : Io) {app : AppWorker}
      (happ : self.app.next (.receive key io) = some app)
      (hio : self.isNext id key = true → io.receiverAlive = true) :
      Stepped id self (.other (.receive key io)) { self.answer id key io with app := app }
  | called (c : Call) {app : AppWorker} (happ : self.app.next (.call c) = some app) :
      Stepped id self (.other (.call c)) { self with app := app }
  | woken (key : Key) (io : Io) (input : Input) {app : AppWorker}
      (happ : self.app.next (.wake key io input) = some app) :
      Stepped id self (.other (.wake key io input)) { self with app := app }

theorem next_cases {l : Label} (h : self.next id l = some self') : Stepped id self l self' := by
  cases l with
  | ask key =>
      rw [next] at h
      split at h
      · next hunsent =>
          split at h
          · next hkey =>
              split at h
              · next hsend =>
                  obtain rfl := Option.some.inj h
                  exact .failed key (.inl hunsent) (fun _ ↦ hkey)
                    (AppWorker.awake_of_send_failed hsend)
              · contradiction
              · next hsend =>
                  obtain rfl := Option.some.inj h
                  exact .asked key hunsent hkey hsend
          · contradiction
      all_goals contradiction
  | closed key =>
      rw [next] at h
      split at h
      · next hasked =>
          split at h
          · next hnone =>
              obtain rfl := Option.some.inj h
              refine .failed key (.inr hasked) (fun hunsent ↦ ?_)
                (Option.isNone_iff_eq_none.mp hnone)
              rw [hunsent] at hasked
              contradiction
          · contradiction
      all_goals contradiction
  | other e =>
      cases e with
      | askObjects key sender => contradiction
      | call c =>
          obtain ⟨app', happ, rfl⟩ := Option.map_eq_some_iff.mp h
          exact .called c happ
      | wake key io input =>
          obtain ⟨app', happ, rfl⟩ := Option.map_eq_some_iff.mp h
          exact .woken key io input happ
      | receive key io =>
          rw [next] at h
          split at h
          · contradiction
          · next hio =>
              obtain ⟨app', happ, rfl⟩ := Option.map_eq_some_iff.mp h
              refine .received key io happ fun hnext ↦ ?_
              rw [hnext] at hio
              simpa using hio

theorem senders_answer (self : Collection) (id : ReplyTo) (key : Key) (io : Io) :
    (self.answer id key io).senders = self.senders := by
  rw [answer]
  split
  · rfl
  · rfl

/-- A future that has not got an answer changes nothing in what has been answered. -/
theorem honest_put (h : app.Honest self.asked) (hstage : stage.answer? = none) :
    app.Honest (self.put key stage).asked := by
  intro other answer hanswer
  rw [asked, stages_put] at hanswer
  split at hanswer
  · rw [hstage] at hanswer
    contradiction
  · exact h other answer hanswer

/-- A future that finds that the worker has ended. -/
theorem Inv.fail (h : self.Inv app id) (hawake : self.app.awake key = none) :
    (self.put key .failed).Inv app id where
  reachable := h.reachable
  senders := h.senders
  asked other hother := by
    rw [stages_put] at hother
    split at hother
    · contradiction
    · exact h.asked other hother
  requests other n m hn hm := by
    rw [stages_put] at hn
    split at hn
    · contradiction
    · exact h.requests other n m hn hm
  honest := honest_put h.honest rfl
  failed other hother := by
    rw [stages_put] at hother
    split at hother
    · next heq => exact heq ▸ hawake
    · exact h.failed other hother

/-- A future that sends its request. -/
theorem Inv.ask (h : self.Inv app id) (hunsent : self.stages key = .unsent)
    (hkey : key ∈ self.senders)
    (hsend : self.app.send key .threadClosed (.objMgr id) = .sent app') :
    Inv app id { self.put key .asked with app := app' } := by
  have hnext := AppWorker.next_ask (h.senders key hkey).1 hsend
  have hrouted : self.app.Routed (.askObjects key id) := by
    intro key' io input worker heq
    contradiction
  obtain ⟨worker, hworker, -⟩ := AppWorker.awake_of_send_sent hsend
  have hrequests := AppWorker.count_of_ask (p := WorkerMsg.isRequest id) hnext
    (Option.isSome_of_eq_some hworker)
  constructor
  · exact h.reachable.tail ⟨hnext, hrouted⟩
  · exact h.senders
  · intro other hother
    change (self.put key .asked).stages other = .asked at hother
    rw [stages_put] at hother
    split at hother
    · next heq => exact heq ▸ hkey
    · exact h.asked other hother
  · intro other n m hn hm
    change ((self.put key .asked).stages other).requests = some n at hn
    change app'.count (WorkerMsg.isRequest id) other = some m at hm
    rw [hrequests other] at hm
    obtain ⟨m', hm', rfl⟩ := Option.map_eq_some_iff.mp hm
    rw [stages_put] at hn
    by_cases heq : other = key
    · subst heq
      rw [if_pos rfl] at hn
      rw [if_pos ⟨rfl, AppWorker.isRequest_objMgr id⟩]
      rw [h.requests other 0 m' (by rw [hunsent]; rfl) hm']
      exact Option.some.inj hn
    · rw [if_neg heq] at hn
      rw [if_neg fun hand ↦ heq hand.1]
      exact h.requests other n m' hn hm'
  · exact honest_put h.honest rfl
  · intro other hother
    change (self.put key .asked).stages other = .failed at hother
    rw [stages_put] at hother
    split at hother
    · contradiction
    · exact AppWorker.awake_eq_none_of_next hnext (h.failed other hother)

/-- A step of the application that leaves the requests. -/
theorem Inv.other (h : self.Inv app id) {e : Event} (hstep : AppWorker.RoutedStep self.app e app')
    (hrequests : ∀ key n, (self.stages key).requests = some n →
      app'.count (WorkerMsg.isRequest id) key = self.app.count (WorkerMsg.isRequest id) key) :
    Inv app id { self with app := app' } where
  reachable := h.reachable.tail hstep
  senders := h.senders
  asked := h.asked
  requests key n m hn hm := h.requests key n m hn (hrequests key n hn ▸ hm)
  honest := h.honest
  failed key hkey := AppWorker.awake_eq_none_of_next hstep.1 (h.failed key hkey)

theorem isNext_eq_true (h : self.isNext id key = true) :
    self.app.head? key = some (.objMgr id) := by
  rw [isNext] at h
  cases hhead : self.app.head? key with
  | none =>
      rw [hhead] at h
      contradiction
  | some msg =>
      rw [hhead] at h
      cases msg with
      | objMgr sender => rw [of_decide_eq_true h]
      | _ => contradiction

/-- An attribute that is asked answers the request, if it is the next message. -/
theorem Inv.answers (h : self.Inv app id) (hasked : self.stages key = .asked)
    (hnext : self.isNext id key = true) {io : Io} (hio : io.receiverAlive = true) :
    ∃ answer, (self.app.sends key io).findSome? Out.objects? = some answer ∧
      ∃ t worker sender queue, Lts.Reachable AppWorker.RoutedStep app t ∧
        t.workers.lookup key = some worker ∧ worker.queue = .objMgr sender :: queue ∧
        worker.objects = some answer := by
  have hhead := isNext_eq_true hnext
  obtain ⟨worker, hworker, hqueue⟩ := Option.bind_eq_some_iff.mp hhead
  obtain ⟨queue, hqueue⟩ := List.head?_eq_some_iff.mp hqueue
  have hlookup := (AppWorker.lookup_of_awake hworker).1
  obtain ⟨worker', hworker', hattr⟩ := (h.senders key (h.asked key hasked)).2 _ h.reachable
  obtain rfl := Option.some.inj (hlookup.symm.trans hworker')
  obtain ⟨answer, hsends, hobjects⟩ := AppWorker.answers_request hworker hattr hhead hio
  exact ⟨answer, hsends, self.app, worker, id, queue, h.reachable, hlookup, hqueue, hobjects⟩

/-- A worker that receives the request of a future answers it. -/
theorem Inv.answered (h : self.Inv app id) {io : Io}
    (hstep : AppWorker.RoutedStep self.app (.receive key io) app')
    (hasked : self.stages key = .asked) (hnext : self.isNext id key = true)
    (hio : io.receiverAlive = true) : Inv app id { self.answer id key io with app := app' } := by
  obtain ⟨answer, hsends, hanswer⟩ := h.answers hasked hnext hio
  have hrequests := AppWorker.count_of_receive (p := WorkerMsg.isRequest id) hstep.1
  rw [Collection.answer, hasked, hnext, hsends]
  constructor
  · exact h.reachable.tail hstep
  · exact h.senders
  · intro other hother
    change (self.put key (.answered answer)).stages other = .asked at hother
    rw [stages_put] at hother
    split at hother
    · contradiction
    · exact h.asked other hother
  · intro other n m hn hm
    change ((self.put key (.answered answer)).stages other).requests = some n at hn
    change app'.count (WorkerMsg.isRequest id) other = some m at hm
    have hcount := hrequests other
    rw [hm, Option.map_some] at hcount
    rw [stages_put] at hn
    by_cases heq : other = key
    · subst heq
      rw [if_pos ⟨rfl, hnext⟩] at hcount
      rw [if_pos rfl] at hn
      have hone := h.requests other 1 (m + 1) (by rw [hasked]; rfl) hcount.symm
      exact (Nat.succ.inj hone).trans (Option.some.inj hn)
    · rw [if_neg fun hand ↦ heq hand.1] at hcount
      rw [if_neg heq] at hn
      exact h.requests other n m hn hcount.symm
  · intro other answer' hanswer'
    change (self.put key (.answered answer)).asked other = some answer' at hanswer'
    rw [Collection.asked, stages_put] at hanswer'
    split at hanswer'
    · next heq =>
        obtain rfl := Option.some.inj hanswer'
        exact heq ▸ hanswer
    · exact h.honest other answer' hanswer'
  · intro other hother
    change (self.put key (.answered answer)).stages other = .failed at hother
    rw [stages_put] at hother
    split at hother
    · contradiction
    · exact AppWorker.awake_eq_none_of_next hstep.1 (h.failed other hother)

/-- A worker that receives the next message. -/
theorem Inv.receive (h : self.Inv app id) {io : Io}
    (hstep : AppWorker.RoutedStep self.app (.receive key io) app')
    (hio : self.isNext id key = true → io.receiverAlive = true) :
    Inv app id { self.answer id key io with app := app' } := by
  by_cases hboth : self.stages key = .asked ∧ self.isNext id key = true
  · exact h.answered hstep hboth.1 hboth.2 (hio hboth.2)
  · have hself : self.answer id key io = self := by
      rw [Collection.answer]
      split
      · next hasked hnext _ => exact absurd ⟨hasked, hnext⟩ hboth
      · rfl
    rw [hself]
    refine h.other hstep fun other n hn ↦ ?_
    have hcount := AppWorker.count_of_receive (p := WorkerMsg.isRequest id) hstep.1 other
    split at hcount
    · next hother =>
        obtain ⟨rfl, hnext⟩ := hother
        cases hm : app'.count (WorkerMsg.isRequest id) other with
        | none =>
            rw [hm] at hcount
            exact hcount
        | some m =>
            -- There is no request of a future that does not wait for an answer.
            rw [hm] at hcount
            have hsome := h.requests other n (m + 1) hn hcount.symm
            have hstage : self.stages other ≠ .asked := fun hasked ↦ hboth ⟨hasked, hnext⟩
            cases hs : self.stages other with
            | asked => exact absurd hs hstage
            | unsent | answered | failed =>
                rw [hs] at hn
                simp [Stage.requests, ← hsome] at hn
    · simpa using hcount

/-- **Every step keeps the invariant.** -/
theorem Inv.next {l : Label} (h : self.Inv app id) (hstep : Step id self l self') :
    self'.Inv app id := by
  obtain ⟨hnext, hrouted⟩ := hstep
  cases next_cases hnext with
  | failed key hstage hkey hawake => exact h.fail hawake
  | asked key hunsent hkey hsend => exact h.ask hunsent hkey hsend
  | received key io happ hio => exact h.receive ⟨happ, hrouted _ rfl⟩ hio
  | called c happ =>
      refine h.other ⟨happ, hrouted _ rfl⟩ fun key n _ ↦ ?_
      exact AppWorker.count_of_call happ (c.isRequest_msg id) key
  | woken key io input happ =>
      exact h.other ⟨happ, hrouted _ rfl⟩ fun key n _ ↦ AppWorker.count_of_wake happ key

end Collection

/-! ## The end -/

/-- How many steps a future has left: to send the request, to have it received and to get the
answer. -/
def Stage.weight : Stage → Nat
  | unsent => 3
  | asked => 1
  | answered _ | failed => 0

theorem Kind.capacity_pos (kind : Kind) : 0 < kind.capacity := by
  cases kind <;> decide

namespace Collection

variable {app : AppWorker} {id : ReplyTo} {self self' : Collection} {key : Key}

/-- How many steps there are left for a future and for the worker it asks. -/
def left (self : Collection) (key : Key) : Nat :=
  (self.stages key).weight + ((self.app.count (fun _ ↦ true) key).getD 0)

/-- How many steps there are left, at most. -/
def measure (self : Collection) : Nat := (self.senders.map self.left).sum

/-- A step of one future, or of the worker it asks, brings the end nearer. -/
theorem measure_lt (hsenders : self'.senders = self.senders) (hkey : key ∈ self.senders)
    (hlt : self'.left key < self.left key) (hothers : ∀ other, other ≠ key →
      self'.left other = self.left other) : self'.measure < self.measure := by
  rw [measure, measure, hsenders]
  refine List.sum_lt_sum _ _ (fun other _ ↦ ?_) ⟨key, hkey, hlt⟩
  by_cases heq : other = key
  · exact heq ▸ hlt.le
  · exact (hothers other heq).le

theorem measure_put_lt (hkey : key ∈ self.senders) {stage : Stage}
    (hlt : stage.weight < (self.stages key).weight) :
    (self.put key stage).measure < self.measure := by
  refine measure_lt rfl hkey ?_ fun other hother ↦ ?_
  · rw [left, stages_put, if_pos rfl]
    exact Nat.add_lt_add_right hlt _
  · rw [left, stages_put, if_neg hother]
    rfl

theorem stages_answer (self : Collection) (id : ReplyTo) (key : Key) (io : Io) (other : Key) :
    (other ≠ key → (self.answer id key io).stages other = self.stages other) ∧
      ((self.answer id key io).stages key).weight ≤ (self.stages key).weight := by
  rw [answer]
  split
  · next answer hasked _ _ =>
      refine ⟨fun hother ↦ ?_, ?_⟩
      · rw [stages_put, if_neg hother]
      · rw [stages_put, if_pos rfl]
        exact Nat.zero_le _
  · exact ⟨fun _ ↦ rfl, Nat.le_refl _⟩

/-- **Every step of a future, or of a worker that is asked, brings the end nearer.** -/
theorem Inv.measure_lt {l : Label} (h : self.Inv app id) (hstep : Internal id self l self') :
    self'.measure < self.measure := by
  obtain ⟨⟨hnext, -⟩, hinternal⟩ := hstep
  cases next_cases hnext with
  | failed key hstage hkey hawake =>
      refine measure_put_lt (hstage.elim hkey (h.asked key)) ?_
      rcases hstage with hstage | hstage
      · rw [hstage]
        exact Nat.zero_lt_succ 2
      · rw [hstage]
        exact Nat.zero_lt_succ 0
  | @asked key app' hunsent hkey hsend =>
      obtain ⟨worker, hworker, -⟩ := AppWorker.awake_of_send_sent hsend
      have hcount := AppWorker.count_of_ask (p := fun _ ↦ true)
        (AppWorker.next_ask (h.senders key hkey).1 hsend) (Option.isSome_of_eq_some hworker)
      refine Collection.measure_lt rfl hkey ?_ fun other hother ↦ ?_
      · change ((self.put key .asked).stages key).weight +
          ((app'.count (fun _ ↦ true) key).getD 0) < _
        rw [stages_put, if_pos rfl, hcount key, left, hunsent]
        -- There is one more message in the channel, and two steps less for the future.
        cases self.app.count (fun _ ↦ true) key with
        | none => exact Nat.lt_of_sub_eq_succ rfl
        | some n =>
            simp only [Option.map_some, Option.getD_some, Stage.weight, and_self, if_true]
            omega
      · change ((self.put key .asked).stages other).weight +
          ((app'.count (fun _ ↦ true) other).getD 0) = _
        rw [stages_put, if_neg hother, hcount other, left]
        simp [hother]
  | @received key io app' happ hio =>
      obtain ⟨key', hkey, io', heq⟩ := hinternal _ rfl
      obtain ⟨rfl, rfl⟩ := Event.receive.inj heq
      obtain ⟨hothers, hweight⟩ := self.stages_answer id key io key
      have hcount := AppWorker.count_of_receive (p := fun _ ↦ true) happ
      refine Collection.measure_lt (self.senders_answer id key io) hkey ?_ fun other hother ↦ ?_
      · change ((self.answer id key io).stages key).weight +
          ((app'.count (fun _ ↦ true) key).getD 0) < _
        obtain ⟨n, hn, hone⟩ := AppWorker.count_pos_of_receive happ
        have hkey' := hcount key
        rw [hn, hone, if_pos ⟨rfl, rfl⟩] at hkey'
        obtain ⟨n', hn', rfl⟩ := Option.map_eq_some_iff.mp hkey'
        rw [left, hn, hn']
        exact Nat.add_lt_add_of_le_of_lt hweight (Nat.lt_succ_self n')
      · change ((self.answer id key io).stages other).weight +
          ((app'.count (fun _ ↦ true) other).getD 0) = _
        rw [(self.stages_answer id key io other).1 hother, left, ← hcount other]
        simp [hother]
  | called c happ =>
      obtain ⟨key, -, io, heq⟩ := hinternal _ rfl
      contradiction
  | woken key io input happ =>
      obtain ⟨key, -, io, heq⟩ := hinternal _ rfl
      contradiction

/-- A worker that is asked and has a message can receive it. -/
theorem not_stuck_of_queue (hkey : key ∈ self.senders) {worker : Worker}
    (hworker : self.app.awake key = some worker) (hqueue : worker.queue ≠ []) :
    ¬Lts.Stuck (Internal id) self := by
  intro hstuck
  obtain ⟨msg, queue, hqueue⟩ := List.exists_cons_of_ne_nil hqueue
  have hsome : (self.next id (.other (.receive key {}))).isSome = true := by
    rw [next, AppWorker.next_receive hworker hqueue {}, Bool.not_true, Bool.and_false,
      if_neg Bool.false_ne_true]
    rfl
  obtain ⟨c, hnext⟩ := Option.isSome_iff_exists.mp hsome
  have hrouted (e : Event) (he : Label.other (.receive key {}) = .other e) :
      self.app.Routed e ∧ ∃ key ∈ self.senders, ∃ io, e = .receive key io := by
    obtain rfl := Label.other.inj he
    exact ⟨AppWorker.routed_receive _ _ _, key, hkey, {}, rfl⟩
  exact hstuck _ c ⟨⟨hnext, fun e he ↦ (hrouted e he).1⟩, fun e he ↦ (hrouted e he).2⟩

/-- A future that has not come to an end can go on, or the worker it asks can. -/
theorem Inv.answered_of_stuck (h : self.Inv app id) (hstuck : Lts.Stuck (Internal id) self)
    (hkey : key ∈ self.senders) (hawake : self.app.awake key ≠ none) :
    (self.asked key).isSome := by
  obtain ⟨worker, hworker⟩ := Option.ne_none_iff_exists'.mp hawake
  cases hstage : self.stages key with
  | answered answer =>
      rw [Collection.asked, hstage]
      rfl
  | failed => exact absurd (h.failed key hstage) hawake
  | asked =>
      refine absurd hstuck (not_stuck_of_queue hkey hworker fun hnil ↦ ?_)
      have hcount : self.app.count (WorkerMsg.isRequest id) key = some 0 := by
        rw [AppWorker.count, AppWorker.actor, (AppWorker.lookup_of_awake hworker).1]
        exact congrArg
          (fun queue : List WorkerMsg ↦ some (queue.countP (WorkerMsg.isRequest id))) hnil
      have hone := h.requests key 1 0 (by rw [hstage]; rfl) hcount
      contradiction
  | unsent =>
      by_cases hroom : worker.queue.length < worker.state.kind.capacity
      · have hsend : self.app.send key .threadClosed (.objMgr id) =
            .sent (self.app.put key (worker.push (.objMgr id))) := by
          obtain ⟨hlookup, hrunning⟩ := AppWorker.lookup_of_awake hworker
          rw [AppWorker.send, hlookup]
          dsimp only
          rw [hrunning, Bool.not_true, if_neg Bool.false_ne_true, if_pos hroom]
        have hnext : self.next id (.ask key) = some
            { self.put key .asked with app := self.app.put key (worker.push (.objMgr id)) } := by
          rw [Collection.next, hstage]
          dsimp only
          rw [if_pos hkey, hsend]
        exact absurd ⟨⟨hnext, fun e he ↦ by contradiction⟩, fun e he ↦ by contradiction⟩
          (hstuck (.ask key) _)
      · refine absurd hstuck (not_stuck_of_queue hkey hworker fun hnil ↦ hroom ?_)
        rw [hnil]
        exact Kind.capacity_pos _

/-- **A collection comes to an end.** -/
theorem Inv.settles (h : self.Inv app id) :
    Lts.Settles (Internal id) Over self.measure self := by
  refine .of_measure (fun s l t hs hstep ↦ ⟨hs.next hstep.1, hs.measure_lt hstep⟩)
    (fun s hs hstuck ↦ ?_) h
  by_cases hclosed : ∃ key ∈ s.senders, s.app.awake key = none
  · exact .inr hclosed
  · refine .inl fun key hkey ↦ hs.answered_of_stuck hstuck hkey fun hnone ↦ ?_
    exact hclosed ⟨key, hkey, hnone⟩

/-- The workers that are asked run, and have nothing to do but to answer the requests. -/
def Quiet (id : ReplyTo) (self : Collection) : Prop :=
  ∀ key ∈ self.senders, ∃ worker, self.app.awake key = some worker ∧
    ∀ msg ∈ worker.queue, msg.isRequest id = true

/-- What answers requests goes on to run. -/
theorem Inv.quiet_next {l : Label} (h : self.Inv app id) (hquiet : self.Quiet id)
    (hstep : Internal id self l self') : self'.Quiet id := by
  obtain ⟨⟨hnext, -⟩, hinternal⟩ := hstep
  -- A worker that has changed is one of those that are asked.
  have hput {dest : Key} {worker : Worker} (hdest : dest ∈ self.senders)
      (hrunning : worker.running = true) (hqueue : ∀ msg ∈ worker.queue, msg.isRequest id = true)
      (key : Key) (hkey : key ∈ self.senders) :
      ∃ worker', (self.app.put dest worker).awake key = some worker' ∧
        ∀ msg ∈ worker'.queue, msg.isRequest id = true := by
    obtain ⟨w, hw, -⟩ := hquiet dest hdest
    by_cases heq : key = dest
    · subst heq
      exact ⟨worker, AppWorker.awake_put hw hrunning, hqueue⟩
    · rw [AppWorker.awake_put_of_ne worker heq]
      exact hquiet key hkey
  cases next_cases hnext with
  | failed key hstage hkey hawake =>
      obtain ⟨worker, hworker, -⟩ := hquiet key (hstage.elim hkey (h.asked key))
      rw [hawake] at hworker
      contradiction
  | asked key hunsent hkey hsend =>
      obtain ⟨worker, hworker, rfl⟩ := AppWorker.awake_of_send_sent hsend
      obtain ⟨worker', hworker', hqueue⟩ := hquiet key hkey
      obtain rfl := Option.some.inj (hworker'.symm.trans hworker)
      refine hput hkey (AppWorker.lookup_of_awake hworker).2 fun msg hmsg ↦ ?_
      rcases List.mem_append.mp hmsg with hmsg | hmsg
      · exact hqueue msg hmsg
      · rw [List.mem_singleton.mp hmsg]
        exact AppWorker.isRequest_objMgr id
  | @received key io app' happ hio =>
      obtain ⟨key', hkey, io', heq⟩ := hinternal _ rfl
      obtain ⟨rfl, rfl⟩ := Event.receive.inj heq
      obtain ⟨worker, hworker, hqueue⟩ := hquiet key hkey
      obtain ⟨worker', hlookup, hattr⟩ := (h.senders key hkey).2 _ h.reachable
      obtain ⟨hlookup', hrunning⟩ := AppWorker.lookup_of_awake hworker
      obtain rfl := Option.some.inj (hlookup'.symm.trans hlookup)
      cases hmsgs : worker.queue with
      | nil =>
          rw [AppWorker.next, hworker, Option.bind_eq_bind, Option.bind_some, hmsgs] at happ
          contradiction
      | cons msg queue =>
          have hmsg : msg = .objMgr id := by
            have hrequest := hqueue msg (hmsgs ▸ List.mem_cons_self)
            cases msg with
            | objMgr sender => rw [of_decide_eq_true hrequest]
            | _ => contradiction
          subst hmsg
          have hnext' : self.isNext id key = true := by
            rw [isNext, AppWorker.head?, hworker, Option.bind_some, hmsgs]
            exact AppWorker.isRequest_objMgr id
          obtain ⟨s', map, honMsg⟩ := WorkerState.onMsg_objMgr_eq hattr.path hattr.kind
          rw [AppWorker.next_receive hworker hmsgs, honMsg io (hio hnext') id] at happ
          obtain rfl := Option.some.inj happ
          intro other hother
          rw [senders_answer] at hother
          have hrest : ∀ msg ∈ queue, msg.isRequest id = true := fun msg hmsg ↦
            hqueue msg (hmsgs ▸ List.mem_cons_of_mem _ hmsg)
          exact @hput key { worker with queue := queue, state := s' } hkey hrunning hrest other
            hother
  | called c happ =>
      obtain ⟨key, -, io, heq⟩ := hinternal _ rfl
      contradiction
  | woken key io input happ =>
      obtain ⟨key, -, io, heq⟩ := hinternal _ rfl
      contradiction

/-- If the workers have nothing else to do, they all answer in the end. -/
theorem Inv.exists_answers (h : self.Inv app id) (hquiet : self.Quiet id) :
    ∃ ls c, Lts.Run (Internal id) self ls c ∧ ∃ answers, c.senders.mapM c.asked = some answers := by
  have hstep (s : Collection) (l : Label) (t : Collection) (hs : s.Inv app id ∧ s.Quiet id)
      (hst : Internal id s l t) : (t.Inv app id ∧ t.Quiet id) ∧ t.measure < s.measure :=
    ⟨⟨hs.1.next hst.1, hs.1.quiet_next hs.2 hst⟩, hs.1.measure_lt hst⟩
  have hstuck (s : Collection) (hs : s.Inv app id ∧ s.Quiet id)
      (hst : Lts.Stuck (Internal id) s) : ∀ key ∈ s.senders, (s.asked key).isSome := by
    intro key hkey
    refine hs.1.answered_of_stuck hst hkey fun hnone ↦ ?_
    obtain ⟨worker, hworker, -⟩ := hs.2 key hkey
    rw [hnone] at hworker
    contradiction
  have hsettles := Lts.Settles.of_measure hstep hstuck ⟨h, hquiet⟩
  obtain ⟨ls, c, hrun, hanswered⟩ := hsettles.exists_run
  exact ⟨ls, c, hrun, Option.isSome_iff_exists.mp (isSome_mapM_iff.mpr hanswered)⟩

end Collection

/-! ## Registered applications -/

section Registered

variable {self : Application} {bus : Bus} {app t : AppWorker} {id : ReplyTo} {c : Collection}

/-- The workers of the attributes are asked. -/
theorem Application.Installed.senders_collect (h : self.Installed app) (hbelow : app.Below)
    (ht : Lts.Reachable AppWorker.RoutedStep app t) : t.collect.senders.Nodup ∧
      ∀ key, key ∈ t.collect.senders ↔ ∃ pl st, self.At pl key st := by
  obtain ⟨appData, hroot, -, hnodup, hsenders⟩ := h.root
  obtain ⟨worker, hworker, hkeeps⟩ :=
    (AppWorker.keeps_of_reachable hbelow h.keeps ht).lookup hroot
  have hsame : t.collect.senders = appData.senders := by
    rw [AppWorker.collect, hworker]
    exact hkeeps.tree.senders
  rw [hsame]
  exact ⟨hnodup, hsenders⟩

/-- The invariant holds when the collection starts, with requests that are new. -/
theorem Application.Installed.inv_collect (hself : self.Distinct) (hnz : self.NonZero)
    (h : self.Installed app) (hbelow : app.Below) (ht : Lts.Reachable AppWorker.RoutedStep app t)
    (hnew : ∀ key worker, t.workers.lookup key = some worker → .objMgr id ∉ worker.queue) :
    t.collect.Inv app id where
  reachable := ht
  senders key hkey := by
    obtain ⟨pl, st, hat⟩ := ((h.senders_collect hbelow ht).2 key).mp hkey
    refine ⟨hat.ne_zero hself hnz, fun u hu ↦ ?_⟩
    obtain ⟨before, hbefore, hstate, hpath⟩ := h.lookup hat
    obtain ⟨worker, hworker, hkeeps⟩ :=
      (AppWorker.keeps_of_reachable hbelow h.keeps hu).lookup hbefore
    refine ⟨worker, hworker, ?_, ?_⟩
    · rw [hkeeps.tree.kind, hstate]
      exact hat.kind_ne_app
    · rw [hkeeps.path, hpath]
      exact pl.path_ne_root
  asked key hkey := by contradiction
  requests key n m hn hm := by
    obtain rfl := Option.some.inj hn
    obtain ⟨a, ha, rfl⟩ := Option.map_eq_some_iff.mp hm
    obtain ⟨worker, hworker, rfl⟩ := Option.map_eq_some_iff.mp ha
    refine List.countP_eq_zero.mpr fun msg hmsg hrequest ↦ ?_
    cases msg with
    | objMgr sender =>
        rw [of_decide_eq_true hrequest] at hmsg
        exact hnew key worker hworker hmsg
    | _ => contradiction
  honest key answer hanswer := by contradiction
  failed key hkey := by contradiction

variable (hself : self.Distinct) (hnz : self.NonZero) (h : self.register bus = pure app)
  (ht : Lts.Reachable AppWorker.RoutedStep app t)
  (hnew : ∀ key worker, t.workers.lookup key = some worker → .objMgr id ∉ worker.queue)
  (hc : Lts.Reachable (Collection.Step id) t.collect c)
include hself hnz h ht hnew hc

theorem inv_of_reachable : c.Inv app id :=
  hc.invariant (fun _ _ _ hs hstep ↦ hs.next hstep)
    ((Application.installed_of_register hself hnz h).inv_collect hself hnz
      (Application.below_of_reachable h (.refl app)) ht hnew)

/-- **Collecting the managed objects cannot get stuck.**  Whatever has happened since it was
started, the futures and the workers they ask can take so many steps by themselves as the
measure tells, at most; and when they can take no more, all workers have answered, or one of
them has ended. -/
theorem collecting_settles : Lts.Settles (Collection.Internal id) Collection.Over c.measure c :=
  (inv_of_reachable hself hnz h ht hnew hc).settles

end Registered

/-- Nobody has been asked if nobody has anything to do. -/
theorem objMgr_notMem_of_idle {t : AppWorker} (hidle : ∀ key worker,
    t.workers.lookup key = some worker → worker.running = true ∧ worker.queue = []) (id : ReplyTo)
    (key : Key) (worker : Worker) (hworker : t.workers.lookup key = some worker) :
    .objMgr id ∉ worker.queue := by
  rw [(hidle key worker hworker).2]
  exact List.not_mem_nil

/-- The objects of an application are asked for after a run. -/
theorem collecting_ofUuids : ∃ (app t : AppWorker) (es : List Event),
    (Application.ofUuids ⟨1⟩ ⟨2⟩ ⟨3⟩).register .working = pure app ∧ es ≠ [] ∧
    Lts.Run AppWorker.RoutedStep app es t ∧
    Lts.Settles (Collection.Internal 8) Collection.Over t.collect.measure t.collect := by
  obtain ⟨app, happ⟩ := Application.register_ofUuids ⟨1⟩ ⟨2⟩ ⟨3⟩
  obtain ⟨es, t, hne, hrun, hidle⟩ := Application.exists_run_ofUuids happ .empty
  exact ⟨app, t, es, happ, hne, hrun, collecting_settles (Application.distinct_ofUuids ..)
    Application.nonZero_ofUuids happ ⟨es, hrun⟩ (objMgr_notMem_of_idle hidle 8) (.refl _)⟩

end Rustable.Gatt.Server
