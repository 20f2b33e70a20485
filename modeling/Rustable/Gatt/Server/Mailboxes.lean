import Rustable.Gatt.Server.Introspection
import Rustable.Lib.Mailbox

/-!
# The workers as actors

A registered application is composed of its workers: each is a task with a bounded channel,
and a call puts a message into one of them.  Whatever the order in which calls are made and
workers are scheduled, a worker takes the turns its task would take by itself, and the
messages in the order in which they were sent, each of them once (`mailboxes`).
-/

namespace Rustable.Gatt.Server

open DBus Mailbox

/-! ## The tasks -/

/-- The task of a worker, without the channel. -/
def Worker.alone (worker : Worker) : Worker := { worker with queue := [] }

/-- The worker as an actor. -/
def Worker.actor (worker : Worker) : Actor Worker WorkerMsg := ⟨worker.alone, worker.queue⟩

/-- What a task does that was started with the filter: a turn sends its outputs. -/
def Worker.behaviour (filter : Option String) :
    Behaviour Worker WorkerMsg (Io × Input) (List Out) where
  turn worker t :=
    if worker.running then
      (worker.state.turn t.1 worker.path filter t.2).map fun ran ↦ (ran.out, worker.after ran)
    else none
  takes t := match t.2 with
    | .message msg => some msg
    | .call _ _ | .notified _ | .written _ => none

theorem Worker.behaviour_turn {filter : Option String} {worker : Worker}
    (hrunning : worker.running = true) {io : Io} {input : Input}
    {ran : Ran Stop Out WorkerState Flow}
    (hran : worker.state.turn io worker.path filter input = some ran) :
    (behaviour filter).turn worker (io, input) = some (ran.out, worker.after ran) := by
  rw [behaviour]
  dsimp only
  rw [if_pos hrunning, hran]
  rfl

theorem Worker.actor_after (worker : Worker) (queue : List WorkerMsg)
    (ran : Ran Stop Out WorkerState Flow) :
    ({ worker with queue := queue }.after ran).actor = ⟨worker.alone.after ran, queue⟩ := by
  cases ran with
  | stop why out => rfl
  | done flow s out => cases flow <;> rfl

/-! ## The system -/

namespace AppWorker

/-- The actor that goes by the key. -/
def actor (self : AppWorker) (key : Key) : Option (Actor Worker WorkerMsg) :=
  (self.workers.lookup key).map Worker.actor

/-- What a worker sees of a message for the worker that goes by the key: nothing can be sent
to a task that has ended. -/
def seesMsg (self : AppWorker) (dest : Key) (msg : WorkerMsg) (key : Key) :
    Seen WorkerMsg (Io × Input) :=
  if key = dest ∧ (self.awake key).isSome then .sent msg else .idle

/-- What the worker that goes by the key sees of an event. -/
def sees (self : AppWorker) (e : Event) (key : Key) : Seen WorkerMsg (Io × Input) :=
  match e with
  | .call c => self.seesMsg c.named.key c.msg key
  | .askObjects dest sender => self.seesMsg dest (.objMgr sender) key
  | .receive woken io =>
      if key = woken then
        match (self.awake key).bind (·.queue.head?) with
        | some msg => .turn (io, .message msg)
        | none => .idle
      else .idle
  | .wake woken io input => if key = woken then .turn (io, input) else .idle

/-- What the worker that goes by the key sees of a run. -/
abbrev history (key : Key) : AppWorker → List Event → List (Seen WorkerMsg (Io × Input)) :=
  Mailbox.history next sees key

variable {self self' t : AppWorker} {es : List Event} {key : Key}

theorem actor_put (dest : Key) (worker : Worker) (key : Key) :
    (self.put dest worker).actor key =
      (self.actor key).map fun a ↦ if key = dest then worker.actor else a := by
  rw [actor, actor, lookup_put]
  cases self.workers.lookup key with
  | none => rfl
  | some w => exact congrArg some (apply_ite Worker.actor ..)

theorem awake_of_lookup {worker : Worker} (h : self.workers.lookup key = some worker)
    (hrunning : worker.running = true) : self.awake key = some worker :=
  Option.filter_eq_some_iff.mpr ⟨h, hrunning⟩

theorem awake_eq_none {worker : Worker} (h : self.workers.lookup key = some worker)
    (hrunning : worker.running = false) : self.awake key = none := by
  rw [awake, h, Option.filter_some, hrunning]
  rfl

/-- The steps of all workers, with what they see of a step of the system. -/
def Parts (filter : Option String) (sees : Key → Seen WorkerMsg (Io × Input))
    (self self' : AppWorker) : Prop :=
  ∀ key, Option.Rel (fun a a' ↦ a.Step (Worker.behaviour filter) (sees key) a')
    (self.actor key) (self'.actor key)

theorem Parts.idle {filter : Option String} {sees : Key → Seen WorkerMsg (Io × Input)}
    (h : ∀ key, (self.actor key).isSome → sees key = .idle) : Parts filter sees self self := by
  intro key
  cases ha : self.actor key with
  | none => exact .none
  | some a =>
      refine .some ?_
      rw [h key (Option.isSome_of_eq_some ha)]
      exact .idle a

/-- One worker takes a step, and the others none. -/
theorem Parts.put {filter : Option String} {sees : Key → Seen WorkerMsg (Io × Input)} {dest : Key}
    {worker worker' : Worker} (hworker : self.workers.lookup dest = some worker)
    (hstep : worker.actor.Step (Worker.behaviour filter) (sees dest) worker'.actor)
    (hothers : ∀ key, key ≠ dest → sees key = .idle) :
    Parts filter sees self (self.put dest worker') := by
  intro key
  rw [actor_put]
  by_cases hkey : key = dest
  · subst hkey
    rw [actor, hworker, Option.map_some, Option.map_some, if_pos rfl]
    exact .some hstep
  · cases self.actor key with
    | none => exact .none
    | some a =>
        rw [Option.map_some, if_neg hkey, hothers key hkey]
        exact .some (.idle a)

/-- Sending a message. -/
theorem parts_of_send {filter : Option String} {dest : Key} {unknown : Error} {msg : WorkerMsg}
    (h : self.afterSend (self.send dest unknown msg) = some self') :
    Parts filter (self.seesMsg dest msg) self self' := by
  have hother (key : Key) (hkey : key ≠ dest) : self.seesMsg dest msg key = .idle :=
    if_neg fun h ↦ hkey h.1
  have hasleep (hnone : self.awake dest = none) (key : Key) :
      self.seesMsg dest msg key = .idle := by
    by_cases hkey : key = dest
    · subst hkey
      refine if_neg fun h ↦ ?_
      rw [hnone] at h
      exact Bool.false_ne_true h.2
    · exact hother key hkey
  rw [send] at h
  split at h
  · next hnone =>
      obtain rfl := Option.some.inj h
      refine .idle fun key _ ↦ hasleep ?_ key
      rw [awake, hnone]
      rfl
  · next worker hworker =>
      split at h
      · next hrunning =>
          obtain rfl := Option.some.inj h
          refine .idle fun key _ ↦ hasleep ?_ key
          exact awake_eq_none hworker (Bool.not_eq_true' _ ▸ hrunning)
      split at h
      · next hrunning hfull =>
          obtain rfl := Option.some.inj h
          refine .put hworker ?_ hother
          have hawake := awake_of_lookup hworker
            (Bool.not_eq_false' _ ▸ Bool.eq_false_iff.mpr hrunning)
          rw [seesMsg, if_pos ⟨rfl, by rw [hawake]; rfl⟩]
          exact .sent worker.actor msg
      · contradiction

/-- A turn of one worker. -/
theorem parts_of_turn {woken : Key} {worker : Worker} (hawake : self.awake woken = some worker)
    {io : Io} {input : Input} {queue : List WorkerMsg}
    (hqueue : worker.queue = ((Worker.behaviour self.filter).takes (io, input)).toList ++ queue)
    {ran : Ran Stop Out WorkerState Flow}
    (hran : worker.state.turn io worker.path self.filter input = some ran)
    {sees : Key → Seen WorkerMsg (Io × Input)} (hsees : sees woken = .turn (io, input))
    (hothers : ∀ key, key ≠ woken → sees key = .idle) :
    Parts self.filter sees self (self.put woken ({ worker with queue := queue }.after ran)) := by
  obtain ⟨hlookup, hrunning⟩ := lookup_of_awake hawake
  refine .put hlookup ?_ hothers
  rw [hsees, Worker.actor_after, Worker.actor, hqueue]
  exact .turn queue (@Worker.behaviour_turn _ worker.alone hrunning io input ran hran)

/-- **A step of the application is a step of its workers.** -/
theorem parts_of_next {e : Event} (h : self.next e = some self') :
    Parts self.filter (self.sees e) self self' := by
  cases e with
  | call c =>
      rw [next, issue_eq] at h
      exact parts_of_send h
  | askObjects key sender =>
      rw [next] at h
      split at h
      · contradiction
      · exact parts_of_send h
  | receive woken io =>
      obtain ⟨worker, hworker, h⟩ := Option.bind_eq_some_iff.mp h
      split at h
      · contradiction
      · next msg queue hqueue =>
          obtain rfl := Option.some.inj h
          have hsees : self.sees (.receive woken io) woken = .turn (io, .message msg) := by
            rw [sees, if_pos rfl, hworker, Option.bind_some, hqueue]
            rfl
          exact parts_of_turn hworker hqueue rfl hsees fun key hkey ↦ if_neg hkey
  | wake woken io input =>
      cases input with
      | message msg => contradiction
      | call _ _ | notified _ | written _ =>
          obtain ⟨worker, hworker, h⟩ := Option.bind_eq_some_iff.mp h
          obtain ⟨ran, hran, h⟩ := Option.bind_eq_some_iff.mp h
          obtain rfl := Option.some.inj h
          exact parts_of_turn hworker rfl hran (if_pos rfl) fun key hkey ↦ if_neg hkey

/-- A registered application is composed of its workers. -/
theorem composed (filter : Option String) :
    Composed (Worker.behaviour filter) (fun self : AppWorker ↦ self.filter = filter) next actor
      sees where
  keeps _ _ _ hfilter h := (next_steps h).filter.trans hfilter
  step _ _ _ hfilter h := by
    obtain rfl := hfilter
    exact parts_of_next h

/-! ## What can happen -/

theorem awake_put {worker worker' : Worker} (h : self.awake key = some worker)
    (hrunning : worker'.running = true) : (self.put key worker').awake key = some worker' := by
  refine awake_of_lookup ?_ hrunning
  rw [lookup_put, (lookup_of_awake h).1, Option.map_some, if_pos rfl]

/-- Another worker is as it was. -/
theorem awake_put_of_ne {dest : Key} (worker : Worker) (h : key ≠ dest) :
    (self.put dest worker).awake key = self.awake key := by
  rw [awake, awake, lookup_put]
  cases self.workers.lookup key with
  | none => rfl
  | some w => rw [Option.map_some, if_neg h]

/-- A message can be sent to a worker that runs, if there is room for it. -/
theorem afterSend_of_room {worker : Worker} (h : self.awake key = some worker)
    (hroom : worker.queue.length < worker.state.kind.capacity) (unknown : Error) (msg : WorkerMsg) :
    self.afterSend (self.send key unknown msg) = some (self.put key (worker.push msg)) := by
  obtain ⟨hlookup, hrunning⟩ := lookup_of_awake h
  rw [send, hlookup]
  dsimp only
  rw [hrunning, if_neg (by decide), if_pos hroom]
  rfl

theorem next_call {c : Call} {worker : Worker} (h : self.awake c.named.key = some worker)
    (hroom : worker.queue.length < worker.state.kind.capacity) :
    self.next (.call c) = some (self.put c.named.key (worker.push c.msg)) := by
  rw [next, issue_eq]
  exact afterSend_of_room h hroom _ _

theorem sees_of_awake {worker : Worker} (h : self.awake key = some worker) (msg : WorkerMsg) :
    self.seesMsg key msg key = .sent msg := if_pos ⟨rfl, by rw [h]; rfl⟩

/-- A worker that runs can receive the next message. -/
theorem next_receive {worker : Worker} (h : self.awake key = some worker) {msg : WorkerMsg}
    {queue : List WorkerMsg} (hqueue : worker.queue = msg :: queue) (io : Io) :
    self.next (.receive key io) = some (self.put key
      ({ worker with queue := queue }.after (worker.state.onMsg io worker.path msg))) := by
  rw [next, h, Option.bind_eq_bind, Option.bind_some, hqueue]

theorem sees_receive {worker : Worker} (h : self.awake key = some worker) {msg : WorkerMsg}
    {queue : List WorkerMsg} (hqueue : worker.queue = msg :: queue) (io : Io) :
    self.sees (.receive key io) key = .turn (io, .message msg) := by
  rw [sees, if_pos rfl, h, Option.bind_some, hqueue]
  rfl

/-! ## Bounded channels -/

/-- No channel holds more messages than it has room for. -/
def Bounded (self : AppWorker) : Prop :=
  self.workers.Holds fun _ worker ↦ worker.queue.length ≤ worker.state.kind.capacity

theorem Bounded.put (h : self.Bounded) {dest : Key} {worker : Worker}
    (hworker : worker.queue.length ≤ worker.state.kind.capacity) :
    (self.put dest worker).Bounded := by
  intro key w hw
  rw [lookup_put] at hw
  obtain ⟨w', hw', rfl⟩ := Option.map_eq_some_iff.mp hw
  split
  · exact hworker
  · exact h key w' hw'

/-- A turn changes neither the kind of a worker nor its channel. -/
theorem bounded_after {worker : Worker} {filter : Option String} {io : Io} {input : Input}
    {queue : List WorkerMsg} (hqueue : queue.length ≤ worker.state.kind.capacity)
    {ran : Ran Stop Out WorkerState Flow}
    (hran : worker.state.turn io worker.path filter input = some ran) :
    ({ worker with queue := queue }.after ran).queue.length ≤
      ({ worker with queue := queue }.after ran).state.kind.capacity := by
  obtain ⟨-, hqueue', ⟨flow, out, hdone⟩ | ⟨hsame, -⟩⟩ := Worker.after_spec worker queue ran
  · rw [hdone] at hran
    rwa [hqueue', WorkerState.turn_kind hran]
  · rwa [hqueue', hsame]

/-- A message is sent only if there is room for it. -/
theorem bounded_of_send {dest : Key} {unknown : Error} {msg : WorkerMsg} (hself : self.Bounded)
    (h : self.afterSend (self.send dest unknown msg) = some self') : self'.Bounded := by
  rw [send] at h
  split at h
  · obtain rfl := Option.some.inj h
    exact hself
  · split at h
    · obtain rfl := Option.some.inj h
      exact hself
    split at h
    · next hroom =>
        obtain rfl := Option.some.inj h
        refine hself.put ?_
        rw [Worker.push, List.length_append]
        exact hroom
    · contradiction

theorem bounded_of_next {e : Event} (hself : self.Bounded) (h : self.next e = some self') :
    self'.Bounded := by
  cases e with
  | call c =>
      rw [next, issue_eq] at h
      exact bounded_of_send hself h
  | askObjects key sender =>
      rw [next] at h
      split at h
      · contradiction
      · exact bounded_of_send hself h
  | receive woken io =>
      obtain ⟨worker, hworker, h⟩ := Option.bind_eq_some_iff.mp h
      split at h
      · contradiction
      · next msg queue hqueue =>
          obtain rfl := Option.some.inj h
          have hbound : worker.queue.length ≤ worker.state.kind.capacity :=
            hself woken worker (lookup_of_awake hworker).1
          rw [hqueue] at hbound
          have hran : worker.state.turn io worker.path self.filter (.message msg) =
              some (worker.state.onMsg io worker.path msg) := rfl
          exact hself.put (bounded_after ((Nat.le_succ _).trans hbound) hran)
  | wake woken io input =>
      cases input with
      | message msg => contradiction
      | call _ _ | notified _ | written _ =>
          obtain ⟨worker, hworker, h⟩ := Option.bind_eq_some_iff.mp h
          obtain ⟨ran, hran, h⟩ := Option.bind_eq_some_iff.mp h
          obtain rfl := Option.some.inj h
          exact hself.put (bounded_after (hself woken worker (lookup_of_awake hworker).1) hran)

end AppWorker

/-- What is installed has been sent one message at most. -/
theorem Application.Installed.bounded {self : Application} {app : AppWorker}
    (h : self.Installed app) : app.Bounded := by
  intro key worker hworker
  rcases h.only key (Option.isSome_of_eq_some hworker) with rfl | ⟨pl, st, hat⟩
  · obtain ⟨appData, hroot, -⟩ := h.root
    obtain rfl := Option.some.inj (hroot.symm.trans hworker)
    exact Nat.zero_le _
  · by_cases hkind : st.kind = .serv
    · cases hat with
      | @serv i serv hserv =>
          obtain ⟨paths, -, hserv⟩ := h.serv i serv hserv
          obtain rfl := Option.some.inj (hserv.symm.trans hworker)
          have hlength : (serv.sentPaths paths).length ≤ 1 := by
            rw [Service.sentPaths]
            split
            · exact Nat.zero_le _
            · exact Nat.le_refl _
          exact hlength.trans (Nat.le_add_left 1 7)
      | chrc | desc => contradiction
    · obtain rfl := Option.some.inj ((h.other pl key st hat hkind).symm.trans hworker)
      exact Nat.zero_le _

/-! ## Runs -/

/-- A worker runs as its task does by itself, and its channel is a queue. -/
theorem AppWorker.runs_alone {app t : AppWorker} {es : List Event}
    (hrun : Lts.Run AppWorker.Step app es t) {key : Key} {before : Worker}
    (hbefore : app.workers.lookup key = some before) :
    ∃ worker, t.workers.lookup key = some worker ∧
      (∃ log, (Worker.behaviour app.filter).told before.alone (Seen.turns (app.history key es)) =
        some (log, worker.alone)) ∧
      (Seen.turns (app.history key es)).filterMap (Worker.behaviour app.filter).takes ++
        worker.queue = before.queue ++ Seen.sents (app.history key es) := by
  have hactor := (composed app.filter).run hrun rfl key
  rw [actor, hbefore, Option.map_some] at hactor
  cases hworker : t.workers.lookup key with
  | none =>
      rw [actor, hworker] at hactor
      contradiction
  | some worker =>
      rw [actor, hworker] at hactor
      cases hactor with
      | some hactor => exact ⟨worker, rfl, Actor.run_spec hactor⟩

/-- **Channels are queues.**  In a run of a registered application, each worker takes the turns
that its task takes by itself; the messages it has received, followed by those it has not, are
those that were in its channel from the beginning followed by those that were sent to it; and
the channel never holds more than it has room for. -/
theorem mailboxes {self : Application} {bus : Bus} {app t : AppWorker} {es : List Event}
    (hself : self.Distinct) (hnz : self.NonZero) (h : self.register bus = pure app)
    (hrun : Lts.Run AppWorker.Step app es t) (key : Key) {before : Worker}
    (hbefore : app.workers.lookup key = some before) :
    ∃ worker, t.workers.lookup key = some worker ∧
      (∃ log, (Worker.behaviour app.filter).told before.alone (Seen.turns (app.history key es)) =
        some (log, worker.alone)) ∧
      (Seen.turns (app.history key es)).filterMap (Worker.behaviour app.filter).takes ++
        worker.queue = before.queue ++ Seen.sents (app.history key es) ∧
      worker.queue.length ≤ worker.state.kind.capacity := by
  have hbounded : t.Bounded := hrun.invariant (fun _ _ _ ↦ AppWorker.bounded_of_next)
    (Application.installed_of_register hself hnz h).bounded
  obtain ⟨worker, hworker, hlog, hqueue⟩ := AppWorker.runs_alone hrun hbefore
  exact ⟨worker, hworker, hlog, hqueue, hbounded key worker hworker⟩

/-! ## A run -/

theorem AppWorker.routed_call (self : AppWorker) (c : Call) : self.Routed (.call c) := by
  intro key io input worker heq
  contradiction

theorem AppWorker.routed_receive (self : AppWorker) (key : Key) (io : Io) :
    self.Routed (.receive key io) := by
  intro key' io' input worker heq
  contradiction

theorem AppWorker.lookup_put_of_ne {self : AppWorker} {key key' : Key} {worker : Worker}
    (h : key' ≠ key) : (self.put key worker).workers.lookup key' = self.workers.lookup key' := by
  rw [lookup_put]
  simp only [if_neg h, Option.map_id']

/-- The worker of a characteristic can be sent an update and a request, and receive both. -/
theorem AppWorker.update_get {app : AppWorker} {serv cha : UUID} {path : ObjectPath} {s : ChrcData}
    (h : app.awake (serv, cha, 0) = some { state := .chrc s, path := path }) (v : AttBytes)
    (sender : ReplyTo) : ∃ es t worker, Lts.Run RoutedStep app es t ∧
      t.workers.lookup (serv, cha, 0) = some worker ∧ worker.queue = [] ∧
      Seen.sents (app.history (serv, cha, 0) es) = [.update (.value v) false, .get sender] ∧
      Seen.turns (app.history (serv, cha, 0) es) =
        [({}, .message (.update (.value v) false)), ({}, .message (.get sender))] ∧
      worker.running = true ∧
      ∀ key ≠ (serv, cha, 0), t.workers.lookup key = app.workers.lookup key := by
  let update : Call := .updateCharacteristic serv cha (.value v) false
  let get : Call := .getChar serv cha sender
  let w : Worker := { state := .chrc s, path := path }
  let w₃ : Worker := { w with state := .chrc { s with value := .value v }, queue := [get.msg] }
  let w₄ : Worker := { w₃ with queue := [] }
  let app₁ := app.put (serv, cha, 0) (w.push update.msg)
  let app₂ := app₁.put (serv, cha, 0) ((w.push update.msg).push get.msg)
  let app₃ := app₂.put (serv, cha, 0) w₃
  let app₄ := app₃.put (serv, cha, 0) w₄
  have h₁ : app₁.awake (serv, cha, 0) = some (w.push update.msg) := awake_put h rfl
  have h₂ : app₂.awake (serv, cha, 0) = some ((w.push update.msg).push get.msg) :=
    awake_put h₁ rfl
  have h₃ : app₃.awake (serv, cha, 0) = some w₃ := awake_put h₂ rfl
  have h₄ : app₄.awake (serv, cha, 0) = some w₄ := awake_put h₃ rfl
  have hupdate : app.next (.call update) = some app₁ := next_call h (by decide : 0 < 8)
  have hget : app₁.next (.call get) = some app₂ := next_call h₁ (by decide : 1 < 8)
  have hstored : { (w.push update.msg).push get.msg with queue := [get.msg] }.after
      ((WorkerState.chrc s).onMsg {} path update.msg) = w₃ := rfl
  have hanswered : { w₃ with queue := [] }.after (w₃.state.onMsg {} path get.msg) = w₄ := rfl
  have hfirst : app₂.next (.receive (serv, cha, 0) {}) = some app₃ :=
    (next_receive h₂ rfl {}).trans (congrArg (fun w' ↦ some (app₂.put _ w')) hstored)
  have hsecond : app₃.next (.receive (serv, cha, 0) {}) = some app₄ :=
    (next_receive h₃ rfl {}).trans (congrArg (fun w' ↦ some (app₃.put _ w')) hanswered)
  have hsees : app.sees (.call update) (serv, cha, 0) = .sent update.msg := sees_of_awake h _
  have hsees₁ : app₁.sees (.call get) (serv, cha, 0) = .sent get.msg := sees_of_awake h₁ _
  have hhistory : app.history (serv, cha, 0)
      [.call update, .call get, .receive (serv, cha, 0) {}, .receive (serv, cha, 0) {}] =
        [.sent update.msg, .sent get.msg, .turn ({}, .message update.msg),
          .turn ({}, .message get.msg)] := by
    rw [history, Mailbox.history, hupdate, Option.elim_some, Mailbox.history, hget,
      Option.elim_some, Mailbox.history, hfirst, Option.elim_some, Mailbox.history, hsecond,
      Option.elim_some, Mailbox.history, hsees, hsees₁, sees_receive h₂ rfl, sees_receive h₃ rfl]
  refine ⟨[.call update, .call get, .receive _ {}, .receive _ {}], app₄, w₄,
    .cons ⟨hupdate, routed_call _ _⟩ (.cons ⟨hget, routed_call _ _⟩
      (.cons ⟨hfirst, routed_receive _ _ _⟩ (.cons ⟨hsecond, routed_receive _ _ _⟩ (.nil _)))),
    (lookup_of_awake h₄).1, rfl, congrArg Seen.sents hhistory, congrArg Seen.turns hhistory, rfl,
    fun key hkey ↦ ?_⟩
  rw [lookup_put_of_ne hkey, lookup_put_of_ne hkey, lookup_put_of_ne hkey, lookup_put_of_ne hkey]

/-- The worker of the characteristic. -/
theorem Application.lookup_chrc_ofUuids {app : AppWorker}
    (h : (ofUuids ⟨1⟩ ⟨2⟩ ⟨3⟩).register .working = pure app) : ∃ s path,
    app.workers.lookup (⟨1⟩, ⟨2⟩, 0) = some { state := .chrc s, path := path } := by
  have hinstalled := installed_of_register (distinct_ofUuids ..) nonZero_ofUuids h
  have hat := @At.chrc (ofUuids ⟨1⟩ ⟨2⟩ ⟨3⟩) 0 0 _ _ rfl rfl
  exact ⟨_, _, hinstalled.other (.chrc 0 0) (⟨1⟩, ⟨2⟩, 0) _ hat (by intro; contradiction)⟩

/-- The workers of an application without included services have nothing to do at first. -/
theorem Application.Installed.idle {self : Application} {app : AppWorker} (h : self.Installed app)
    (hincludes : ∀ serv ∈ self.services, serv.includes = []) {key : Key} {worker : Worker}
    (hworker : app.workers.lookup key = some worker) :
    worker.running = true ∧ worker.queue = [] := by
  rcases h.only key (Option.isSome_of_eq_some hworker) with rfl | ⟨pl, st, hat⟩
  · obtain ⟨appData, hroot, -⟩ := h.root
    obtain rfl := Option.some.inj (hroot.symm.trans hworker)
    exact ⟨rfl, rfl⟩
  · cases hat with
    | @serv i serv hserv =>
        obtain ⟨paths, -, hlookup⟩ := h.serv i serv hserv
        obtain rfl := Option.some.inj (hlookup.symm.trans hworker)
        exact ⟨rfl, if_pos (hincludes serv (List.mem_of_getElem? hserv))⟩
    | chrc hserv hchrc =>
        have hlookup := h.other _ _ _ (.chrc hserv hchrc) (by intro; contradiction)
        obtain rfl := Option.some.inj (hlookup.symm.trans hworker)
        exact ⟨rfl, rfl⟩
    | desc hserv hchrc hdesc =>
        have hlookup := h.other _ _ _ (.desc hserv hchrc hdesc) (by intro; contradiction)
        obtain rfl := Option.some.inj (hlookup.symm.trans hworker)
        exact ⟨rfl, rfl⟩

theorem Application.idle_ofUuids {app : AppWorker}
    (h : (ofUuids ⟨1⟩ ⟨2⟩ ⟨3⟩).register .working = pure app) {key : Key} {worker : Worker}
    (hworker : app.workers.lookup key = some worker) :
    worker.running = true ∧ worker.queue = [] := by
  have hinstalled := installed_of_register (distinct_ofUuids ..) nonZero_ofUuids h
  refine hinstalled.idle (fun serv hserv ↦ ?_) hworker
  obtain rfl := List.mem_singleton.mp hserv
  rfl

/-- A value is stored and asked for, and then nobody has anything to do. -/
theorem Application.exists_run_ofUuids {app : AppWorker}
    (h : (ofUuids ⟨1⟩ ⟨2⟩ ⟨3⟩).register .working = pure app) (v : AttBytes) :
    ∃ es t, es ≠ [] ∧ Lts.Run AppWorker.RoutedStep app es t ∧
      ∀ key worker, t.workers.lookup key = some worker →
        worker.running = true ∧ worker.queue = [] := by
  obtain ⟨s, path, hbefore⟩ := lookup_chrc_ofUuids h
  obtain ⟨es, t, worker, hrun, hworker, hqueue, hsents, -, hrunning, hother⟩ :=
    AppWorker.update_get (AppWorker.awake_of_lookup hbefore rfl) v 7
  refine ⟨es, t, ?_, hrun, fun key worker' hworker' ↦ ?_⟩
  · rintro rfl
    contradiction
  · by_cases hkey : key = (⟨1⟩, ⟨2⟩, 0)
    · subst hkey
      obtain rfl := Option.some.inj (hworker.symm.trans hworker')
      exact ⟨hrunning, hqueue⟩
    · exact idle_ofUuids h ((hother key hkey).symm.trans hworker')

/-- It holds of an application that stores the empty value, and asks for it. -/
theorem mailboxes_ofUuids : ∃ (app t : AppWorker) (es : List Event) (before worker : Worker),
    (Application.ofUuids ⟨1⟩ ⟨2⟩ ⟨3⟩).register .working = pure app ∧
    Seen.sents (app.history (⟨1⟩, ⟨2⟩, 0) es) = [.update (.value .empty) false, .get 7] ∧
    app.workers.lookup (⟨1⟩, ⟨2⟩, 0) = some before ∧
    t.workers.lookup (⟨1⟩, ⟨2⟩, 0) = some worker ∧
    (∃ log, (Worker.behaviour app.filter).told before.alone
      (Seen.turns (app.history (⟨1⟩, ⟨2⟩, 0) es)) = some (log, worker.alone)) ∧
    (Seen.turns (app.history (⟨1⟩, ⟨2⟩, 0) es)).filterMap (Worker.behaviour app.filter).takes ++
      worker.queue = before.queue ++ Seen.sents (app.history (⟨1⟩, ⟨2⟩, 0) es) ∧
    worker.queue.length ≤ worker.state.kind.capacity := by
  obtain ⟨app, happ⟩ := Application.register_ofUuids ⟨1⟩ ⟨2⟩ ⟨3⟩
  obtain ⟨s, path, hbefore⟩ := Application.lookup_chrc_ofUuids happ
  obtain ⟨es, t, -, hrun, -, -, hsents, -⟩ :=
    AppWorker.update_get (AppWorker.awake_of_lookup hbefore rfl) .empty 7
  obtain ⟨worker, hworker, hspec⟩ := mailboxes (Application.distinct_ofUuids ..)
    Application.nonZero_ofUuids happ hrun.of_restrict _ hbefore
  exact ⟨app, t, es, _, worker, happ, hsents, hbefore, hworker, hspec⟩

end Rustable.Gatt.Server
