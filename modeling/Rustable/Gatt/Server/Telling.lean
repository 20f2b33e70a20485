import Rustable.Gatt.Server.Moves
import Rustable.Gatt.Server.Tree

/-!
# What the workers tell of the tree

A worker knows its path and the number of its children, the worker of a service the paths of
the services it includes as soon as it has been told them, and the worker of the application
whom to ask for objects.  None of this changes while the application is registered
(`keeps_of_reachable`).
-/

namespace Rustable.Gatt.Server

open DBus

/-! ## One turn -/

namespace WorkerState

/-- The names of the children that a worker reports. -/
def childNames : WorkerState → List String
  | app s => Introspect.childNames "service" s.appData.servCnt
  | serv s => Introspect.childNames "char" s.servData.children
  | chrc s => Introspect.childNames "desc" s.children
  | desc _ => []

/-- The paths of the services that a service shows as included. -/
def included : WorkerState → List ObjectPath
  | serv s => s.servData.includes
  | app _ | chrc _ | desc _ => []

/-- Two states in which the same is told of the tree, up to the included services. -/
structure SameTree (s s' : WorkerState) : Prop where
  kind : s'.kind = s.kind
  names : s'.childNames = s.childNames
  senders : s'.senders = s.senders

theorem SameTree.refl (s : WorkerState) : s.SameTree s := ⟨rfl, rfl, rfl⟩

theorem SameTree.trans {s t u : WorkerState} (h : s.SameTree t) (k : t.SameTree u) :
    s.SameTree u :=
  ⟨k.kind.trans h.kind, k.names.trans h.names, k.senders.trans h.senders⟩

end WorkerState

/-- The paths of the included services after the message. -/
def WorkerMsg.included (now : List ObjectPath) : WorkerMsg → List ObjectPath
  | .includedPaths paths => paths
  | .unregister | .update _ _ | .get _ | .getHandle _ | .notify _ | .notifying _
  | .notifyAcquired _ | .notifyingSignal _ | .objMgr _ => now

/-- The paths of the included services after a turn. -/
def Input.included (now : List ObjectPath) : Input → List ObjectPath
  | .message msg => msg.included now
  | .call _ _ | .notified _ | .written _ => now

/-- A call has the path as its object. -/
def Input.Routed (path : ObjectPath) (input : Input) : Prop :=
  ∀ asked msg, input = .call asked msg → ∃ c : MethodCall path, msg = c.toMessage

section Turns

variable {io : Io} {path : ObjectPath} {filter : Option String}

/-- What may be set by a call stays as it is otherwise. -/
theorem ServData.handleCall_keeps {I : ServData → Prop}
    (hI : ∀ d h, I d → I { d with handle := h }) {call : MethodCall path} {d d' : ServData}
    {m : MarshalledMessage} (hd : I d) (h : handleCall call.toMessage d = some (m, d')) :
    I d' := by
  have hinterface : call.toMessage.dynheader.interface = call.interface := rfl
  rw [handleCall, hinterface] at h
  cases hi : call.interface with
  | none =>
      rw [hi] at h
      contradiction
  | some i =>
      rw [hi, MayPanic.unwrap_some_bind] at h
      split at h
      · obtain ⟨m', d'', hrun, hd'', -⟩ := Properties.propertiesCall_answers
          (readable path I) (settable path hI) call hd
        obtain ⟨-, rfl⟩ := Prod.mk.inj (Option.some.inj (hrun.symm.trans h))
        exact hd''
      split at h
      · obtain ⟨-, rfl⟩ := Prod.mk.inj (Option.some.inj h)
        exact hd
      · contradiction

theorem ServWorker.onCall_keeps {I : ServData → Prop}
    (hI : ∀ d h, I d → I { d with handle := h }) {call : MethodCall path} {s s' : ServWorker}
    {flow : Flow} {out : List Out} (hs : I s.servData)
    (h : onCall io filter call.toMessage s = .done flow s' out) : I s'.servData := by
  rw [onCall] at h
  cases hfilter : isMsgBluez call.toMessage filter with
  | false =>
      rw [Turn.replyTo_refused hfilter] at h
      obtain ⟨m, out', heq, -⟩ := Turn.done_of_replied h
      obtain ⟨-, rfl, -⟩ := Ran.done.inj heq
      exact hs
  | true =>
      rw [Turn.replyTo_passed hfilter] at h
      obtain ⟨m, out', heq, -⟩ := Turn.done_of_replied h
      cases hcall : ServData.handleCall call.toMessage s.servData with
      | none =>
          rw [onData, Turn.onPart_none hcall] at heq
          contradiction
      | some r =>
          obtain ⟨m', d⟩ := r
          rw [onData, Turn.onPart_some hcall] at heq
          obtain ⟨-, rfl, -⟩ := Ran.done.inj heq
          exact ServData.handleCall_keeps hI hs hcall

/-- A message to a service changes the paths of the included services at most, to those it
carries. -/
theorem ServWorker.onMsg_keeps {msg : WorkerMsg} {s s' : ServWorker} {flow : Flow} {out : List Out}
    (h : onMsg io path msg s = .done flow s' out) :
    s'.servData.children = s.servData.children ∧
      s'.servData.includes = msg.included s.servData.includes := by
  let e : Effect Stop Out ServWorker :=
    quiet (fun w ↦ (w.servData.children, w.servData.includes)) fun _ ↦ True
  have hanswer (sender : ReplyTo) (a : Answer) :
      Act.Within e (fun _ ↦ True) (Turn.answerOrStop io sender a) :=
    within_answerOrStop (Out.isQuiet_answer sender a) fun _ ↦ trivial
  -- Only the message with the paths changes what is told.
  have hsame (hwithin : (onMsg io path msg s).Within e (fun _ ↦ True) s) :
      s'.servData.children = s.servData.children ∧
        s'.servData.includes = s.servData.includes := by
    rw [h] at hwithin
    exact Prod.mk.inj hwithin.2.1
  cases msg with
  | unregister =>
      obtain ⟨-, rfl, -⟩ := Ran.done.inj h
      exact ⟨rfl, rfl⟩
  | includedPaths paths =>
      obtain ⟨-, rfl, -⟩ := Ran.done.inj h
      exact ⟨rfl, rfl⟩
  | objMgr sender =>
      apply hsame
      refine Act.Within.seq (within_getAllInterfaces (fun s ↦ ServData.readable path _) fun _ ↦ rfl)
        (fun _ ↦ ?_) s
      exact .seq (hanswer sender _) fun _ ↦ .pure trivial
  | getHandle sender =>
      apply hsame
      refine within_getHandle (fun w : ServWorker ↦ w.self.handle) (fun _ ↦ trivial) fun h ↦ ?_
      exact .seq (hanswer sender _) fun _ ↦ .pure trivial
  | update _ _ | get _ | notify _ | notifying _ | notifyAcquired _ | notifyingSignal _ =>
      contradiction

/-- No turn changes the number of children of a characteristic. -/
theorem ChrcData.turn_children (hpath : path ≠ .root) {found : Found path} {s s' : ChrcData}
    {flow : Flow} {out : List Out} (h : turn io filter found s = some (.done flow s' out)) :
    s'.children = s.children := (turn_spec hpath h).took.children

namespace WorkerState

theorem done_of_mapState {σ : Type} {f : σ → WorkerState} {ran : Ran Stop Out σ Flow} {flow : Flow}
    {s' : WorkerState} {out : List Out} (h : ran.mapState f = .done flow s' out) :
    ∃ t, s' = f t ∧ ran = .done flow t out := by
  cases ran with
  | stop why out => contradiction
  | done flow' t out' =>
      obtain ⟨rfl, rfl, rfl⟩ := Ran.done.inj h
      exact ⟨t, rfl, rfl⟩

/-- Only a service survives being told paths. -/
theorem included_of_turn {input : Input} {s s' : WorkerState} {flow : Flow} {out : List Out}
    (hs : s.kind ≠ .serv) (h : s.turn io path filter input = some (.done flow s' out)) :
    input.included [] = [] := by
  have hstop (paths : List ObjectPath) :
      s.onMsg io path (.includedPaths paths) = .stop .panic [] := by
    cases s with
    | serv s => contradiction
    | app | chrc | desc => rfl
  cases input with
  | message msg =>
      cases msg with
      | includedPaths paths =>
          have hrun := (hstop paths).symm.trans (Option.some.inj h)
          contradiction
      | _ => rfl
  | call | notified | written => rfl

/-- **What a turn changes of what is told of the tree**: nothing but the included paths. -/
theorem turn_sameTree {input : Input} {s s' : WorkerState} {flow : Flow} {out : List Out}
    (hpath : s.kind ≠ .app → path ≠ .root) (hrouted : input.Routed path)
    (h : s.turn io path filter input = some (.done flow s' out)) :
    s.SameTree s' ∧ s'.included = input.included s.included := by
  have hkind := turn_kind h
  cases s with
  | app s =>
      have hincluded := included_of_turn (s := app s) (by intro; contradiction) h
      obtain rfl := turn_app h
      exact ⟨.refl _, hincluded.symm⟩
  | serv s =>
      have hchildren (t : ServWorker) (ht : t.servData.children = s.servData.children) :
          (serv s).SameTree (serv t) :=
        ⟨rfl, congrArg (Introspect.childNames "char") ht, rfl⟩
      cases input with
      | message msg =>
          obtain ⟨t, rfl, hrun⟩ := done_of_mapState (Option.some.inj h)
          have hkeeps := ServWorker.onMsg_keeps hrun
          exact ⟨hchildren t hkeeps.1, hkeeps.2⟩
      | call asked msg =>
          obtain ⟨c, rfl⟩ := hrouted asked msg rfl
          obtain ⟨t, rfl, hrun⟩ := done_of_mapState (Option.some.inj h)
          have hkeeps := ServWorker.onCall_keeps
            (I := fun d ↦ d.children = s.servData.children ∧ d.includes = s.servData.includes)
            (fun d h hd ↦ hd) ⟨rfl, rfl⟩ hrun
          exact ⟨hchildren t hkeeps.1, hkeeps.2⟩
      | notified | written => contradiction
  | chrc s =>
      have hincluded := included_of_turn (s := chrc s) (by intro; contradiction) h
      have hroot : path ≠ .root := hpath (by intro; contradiction)
      have hturn (found : Found path) {ran : Ran Stop Out ChrcData Flow}
          (hfound : ChrcData.turn io filter found s = some ran)
          (hran : ran.mapState chrc = .done flow s' out) :
          (chrc s).SameTree s' ∧ s'.included = input.included [] := by
        obtain ⟨t, rfl, rfl⟩ := done_of_mapState hran
        have hchildren := ChrcData.turn_children hroot hfound
        exact ⟨⟨rfl, congrArg (Introspect.childNames "desc") hchildren, rfl⟩, hincluded.symm⟩
      cases input with
      | message msg => exact hturn (.message msg) rfl (Option.some.inj h)
      | call asked msg =>
          obtain ⟨c, rfl⟩ := hrouted asked msg rfl
          exact hturn (.call c) rfl (Option.some.inj h)
      | notified shouldNot => exact hturn (.notified shouldNot) rfl (Option.some.inj h)
      | written res =>
          rw [turn] at h
          split at h
          · next hfd => exact hturn (.written res) (if_pos hfd) (Option.some.inj h)
          · contradiction
  | desc s =>
      have hincluded := included_of_turn (s := desc s) (by intro; contradiction) h
      cases s' with
      | app | serv | chrc => contradiction
      | desc s' => exact ⟨⟨rfl, rfl, rfl⟩, hincluded.symm⟩

end WorkerState

end Turns

/-! ## Runs -/

namespace Worker

/-- The paths of the included services once all messages in the queue have been received. -/
def announced (worker : Worker) : List ObjectPath :=
  worker.queue.foldl WorkerMsg.included worker.state.included

/-- A worker tells the same of the tree as it did, or will once it has received what is in its
queue. -/
structure Keeps (before worker : Worker) : Prop where
  path : worker.path = before.path
  tree : before.state.SameTree worker.state
  announced : worker.announced = before.announced
  /-- Only services are told paths. -/
  told : ∀ paths, .includedPaths paths ∈ worker.queue → worker.state.kind = .serv
  /-- Whatever is behind the first message in the queue carries no paths. -/
  behind : ∀ paths, .includedPaths paths ∉ worker.queue.tail

theorem announced_push {msg : WorkerMsg} (hmsg : msg.isSent = true) (worker : Worker) :
    (worker.push msg).announced = worker.announced := by
  have hincluded (now : List ObjectPath) : msg.included now = now := by
    cases msg with
    | includedPaths paths => contradiction
    | _ => rfl
  rw [announced, push, List.foldl_append]
  exact hincluded _

/-- When it is asked for its objects, a worker shows the paths it has been told. -/
theorem Keeps.included {before worker : Worker} (h : before.Keeps worker) {msg : WorkerMsg}
    {queue : List WorkerMsg} (hqueue : worker.queue = msg :: queue)
    (hmsg : ∀ now, msg.included now = now) : worker.state.included = before.announced := by
  have hbehind := h.behind
  rw [hqueue, List.tail_cons] at hbehind
  have hrest (now : List ObjectPath) : queue.foldl WorkerMsg.included now = now := by
    clear hqueue
    induction queue with
    | nil => rfl
    | cons msg queue ih =>
        obtain ⟨hne, hqueue⟩ := forall_and.mp fun paths ↦
          not_or.mp (mt List.mem_cons.mpr (hbehind paths))
        have hnow : msg.included now = now := by
          cases msg with
          | includedPaths paths => exact absurd rfl (hne paths)
          | _ => rfl
        rw [List.foldl_cons, hnow]
        exact ih hqueue
  rw [← h.announced, Worker.announced, hqueue, List.foldl_cons, hmsg, hrest]

/-- What is left of a worker after a turn. -/
theorem after_spec (worker : Worker) (queue : List WorkerMsg)
    (ran : Ran Stop Out WorkerState Flow) :
    ({ worker with queue := queue }.after ran).path = worker.path ∧
      ({ worker with queue := queue }.after ran).queue = queue ∧
      ((∃ flow out, ran = .done flow ({ worker with queue := queue }.after ran).state out) ∨
        ({ worker with queue := queue }.after ran).state = worker.state ∧
          ∃ why out, ran = .stop why out) := by
  cases ran with
  | stop why out => exact ⟨rfl, rfl, .inr ⟨rfl, why, out, rfl⟩⟩
  | done flow s out =>
      cases flow with
      | next => exact ⟨rfl, rfl, .inl ⟨.next, out, rfl⟩⟩
      | done => exact ⟨rfl, rfl, .inl ⟨.done, out, rfl⟩⟩

section Keeps

variable {before worker : Worker} {io : Io} {filter : Option String}

/-- A message that is taken from the queue. -/
theorem Keeps.received (h : before.Keeps worker)
    (hpath : worker.state.kind ≠ .app → worker.path ≠ .root) {msg : WorkerMsg}
    {queue : List WorkerMsg} (hqueue : worker.queue = msg :: queue) :
    before.Keeps ({ worker with queue := queue }.after (worker.state.onMsg io worker.path msg)) := by
  obtain ⟨hpath', hqueue', hstate⟩ :=
    after_spec worker queue (worker.state.onMsg io worker.path msg)
  generalize { worker with queue := queue }.after (worker.state.onMsg io worker.path msg) =
    worker' at hpath' hqueue' hstate ⊢
  have htree : worker.state.SameTree worker'.state ∧
      worker'.state.included = msg.included worker.state.included := by
    obtain ⟨flow, out, hran⟩ | ⟨hsame, why, out, hran⟩ := hstate
    · have hturn : worker.state.turn io worker.path none (.message msg) =
          some (.done flow worker'.state out) := congrArg some hran
      refine WorkerState.turn_sameTree hpath ?_ hturn
      intro asked m hcall
      contradiction
    · rw [hsame]
      refine ⟨.refl _, ?_⟩
      cases msg with
      | includedPaths paths =>
          -- A service takes the paths, and nobody else is sent any.
          have hserv := h.told paths (hqueue ▸ List.mem_cons_self)
          cases hs : worker.state with
          | serv s =>
              rw [hs] at hran
              contradiction
          | app | chrc | desc =>
              rw [hs] at hserv
              contradiction
      | _ => rfl
  have hbehind := h.behind
  rw [hqueue, List.tail_cons] at hbehind
  refine ⟨hpath'.trans h.path, h.tree.trans htree.1, ?_, ?_, ?_⟩
  · rw [← h.announced, Worker.announced, Worker.announced, hqueue', hqueue, htree.2]
    rfl
  · intro paths hmem
    rw [hqueue'] at hmem
    exact absurd hmem (hbehind paths)
  · intro paths hmem
    rw [hqueue'] at hmem
    exact hbehind paths (List.mem_of_mem_tail hmem)

/-- Something else that wakes the worker. -/
theorem Keeps.woken (h : before.Keeps worker)
    (hpath : worker.state.kind ≠ .app → worker.path ≠ .root) {input : Input}
    (hrouted : input.Routed worker.path) (hinput : ∀ now, input.included now = now)
    {ran : Ran Stop Out WorkerState Flow}
    (hran : worker.state.turn io worker.path filter input = some ran) :
    before.Keeps (worker.after ran) := by
  obtain ⟨hpath', hqueue', hstate⟩ := after_spec worker worker.queue ran
  generalize { worker with queue := worker.queue }.after ran = worker' at hpath' hqueue' hstate ⊢
  have htree : worker.state.SameTree worker'.state ∧
      worker'.state.included = worker.state.included := by
    obtain ⟨flow, out, rfl⟩ | ⟨hsame, -⟩ := hstate
    · obtain ⟨htree, hincluded⟩ := WorkerState.turn_sameTree hpath hrouted hran
      exact ⟨htree, hincluded.trans (hinput _)⟩
    · rw [hsame]
      exact ⟨.refl _, rfl⟩
  refine ⟨hpath'.trans h.path, h.tree.trans htree.1, ?_, ?_, ?_⟩
  · rw [← h.announced, Worker.announced, Worker.announced, hqueue', htree.2]
  · rw [hqueue', htree.1.kind]
    exact h.told
  · rw [hqueue']
    exact h.behind

/-- A message that is put into the queue. -/
theorem Keeps.push (h : before.Keeps worker) {msg : WorkerMsg} (hmsg : msg.isSent = true) :
    before.Keeps (worker.push msg) := by
  have hne (paths : List ObjectPath) : .includedPaths paths ≠ msg := by
    rintro rfl
    contradiction
  refine ⟨h.path, h.tree, (announced_push hmsg worker).trans h.announced, ?_, ?_⟩
  · intro paths hmem
    rcases List.mem_append.mp hmem with hmem | hmem
    · exact h.told paths hmem
    · exact absurd (List.mem_singleton.mp hmem) (hne paths)
  · intro paths hmem
    rw [Worker.push] at hmem
    cases hqueue : worker.queue with
    | nil =>
        rw [hqueue] at hmem
        contradiction
    | cons m queue =>
        have hbehind := h.behind paths
        rw [hqueue] at hmem hbehind
        rcases List.mem_append.mp hmem with hmem | hmem
        · exact hbehind hmem
        · exact hne paths (List.mem_singleton.mp hmem)

end Keeps

end Worker

namespace AppWorker

variable {app t t' : AppWorker} {e : Event}

/-- A call reaches the worker whose path is its object. -/
def Routed (self : AppWorker) (e : Event) : Prop :=
  ∀ key io input worker, e = .wake key io input → self.workers.lookup key = some worker →
    input.Routed worker.path

/-- The steps on events that are routed. -/
abbrev RoutedStep : AppWorker → Event → AppWorker → Prop := Lts.restrict Step Routed

/-- All workers tell the same of the tree as they did. -/
def Keeps (app t : AppWorker) : Prop :=
  ∀ key, Option.Rel Worker.Keeps (app.workers.lookup key) (t.workers.lookup key)

theorem Keeps.next (h : app.Keeps t) (hbelow : app.Below) (hstep : RoutedStep t e t') :
    app.Keeps t' := by
  obtain ⟨hnext, hrouted⟩ := hstep
  intro key
  have hkeeps := h key
  have hstep := (next_steps hnext).worker key
  generalize hbefore : app.workers.lookup key = x, hworker : t.workers.lookup key = y,
    t'.workers.lookup key = z at hkeeps hstep ⊢
  cases hkeeps with
  | none =>
      cases hstep with
      | none => exact .none
  | @some before worker hkeeps =>
      cases hstep with
      | some hstepped =>
          have hpath : worker.state.kind ≠ .app → worker.path ≠ .root := by
            rw [hkeeps.tree.kind, hkeeps.path]
            exact hbelow key before hbefore
          refine .some ?_
          cases hstepped with
          | same => exact hkeeps
          | pushed msg hmsg => exact hkeeps.push hmsg
          | received io msg queue hrunning hqueue => exact hkeeps.received hpath hqueue
          | woken io input ran hevent hrunning hran =>
              refine hkeeps.woken hpath (hrouted key io input worker hevent hworker) ?_ hran
              cases input with
              | message msg =>
                  subst hevent
                  contradiction
              | call | notified | written => exact fun _ ↦ rfl

/-- What the workers tell when they are started, they tell ever after. -/
theorem keeps_of_reachable (hbelow : app.Below)
    (hfirst : app.workers.Holds fun _ worker ↦ worker.Keeps worker)
    (ht : Lts.Reachable RoutedStep app t) : app.Keeps t := by
  refine ht.invariant (fun s e s' hs hstep ↦ hs.next hbelow hstep) fun key ↦ ?_
  cases hworker : app.workers.lookup key with
  | none => exact .none
  | some worker => exact .some (hfirst key worker hworker)

end AppWorker

end Rustable.Gatt.Server
