import Rustable.Gatt.Server.Answering
import Rustable.Gatt.Server.Turns
import Rustable.Gatt.Server.Unregister

/-!
# Calls that do not pass the filter

An application that is filtered answers a call only if it comes from the Bluetooth daemon or
from the owner of the daemon's name.  All others are to be refused before anything is looked at.
But the name of the refusal has no dot, so that it cannot be sent, and the worker that wants to
refuse the call ends instead (`onCall_foreign`).  Whoever can reach a worker can stop it; foreign
calls leave no trace only in the runs in which none of them reaches one
(`foreign_calls_erased_iff`).
-/

namespace Rustable.Gatt.Server

open DBus

variable {owner : String} {io : Io} {msg : MarshalledMessage}

/-- The sender is absent, or neither the Bluetooth daemon nor the owner of its name. -/
def Foreign (owner : String) (msg : MarshalledMessage) : Bool :=
  msg.dynheader.sender ≠ some bluezDest ∧ msg.dynheader.sender ≠ some owner

theorem isMsgBluez_of_foreign (h : Foreign owner msg = true) :
    isMsgBluez msg (some owner) = false := by
  obtain ⟨hbluez, howner⟩ := of_decide_eq_true h
  rw [isMsgBluez]
  cases hsender : msg.dynheader.sender with
  | none => rfl
  | some d =>
      rw [hsender] at hbluez howner
      simp only [Bool.or_eq_false_iff, decide_eq_false_iff_not]
      exact ⟨fun heq ↦ hbluez (congrArg some heq), fun heq ↦ howner (congrArg some heq)⟩

/-! ## One turn -/

/-- A call that does not pass the filter is refused by any worker. -/
theorem WorkerState.onCall_refused {s : WorkerState} {given : Option String} (asked : Asked)
    (hrefused : isMsgBluez msg (s.filter given) = false) :
    s.onCall io given asked msg = Turn.replied io (.done (refusal msg) s []) := by
  cases s with
  | app s =>
      have hturn : WorkerData.handleApp io asked msg s.appData =
          Turn.replied io (.done (refusal msg) s.appData []) := by
        rw [WorkerData.handleApp, Act.read_bind]
        exact Turn.replyTo_refused hrefused _ _
      rw [onCall, AppLoop.onCall, hturn, Turn.replied_mapState, Turn.replied_mapState]
  | serv s =>
      refine (congrArg (Ran.mapState serv) (Turn.replyTo_refused hrefused _ s)).trans ?_
      exact Turn.replied_mapState serv _ s
  | chrc s =>
      refine (congrArg (Ran.mapState chrc) (Turn.replyTo_refused hrefused _ s)).trans ?_
      exact Turn.replied_mapState chrc _ s
  | desc s =>
      refine (congrArg (Ran.mapState desc) (Turn.replyTo_refused hrefused _ s)).trans ?_
      exact Turn.replied_mapState desc _ s

/-! ## The filter of a worker -/

/-- No turn changes the filter that a worker goes by. -/
theorem WorkerState.turn_filter {path : ObjectPath} {given given' : Option String} {input : Input}
    {s s' : WorkerState} {flow : Flow} {out : List Out}
    (h : s.turn io path given input = some (.done flow s' out)) :
    s'.filter given' = s.filter given' := by
  have hkind := turn_kind h
  cases s with
  | app s =>
      obtain rfl := turn_app h
      rfl
  | serv | chrc | desc =>
      cases s' with
      | app s' => contradiction
      | serv | chrc | desc => rfl

/-! ## The filter of an application -/

/-- All workers go by the filter for the owner. -/
structure AppWorker.FilteredBy (owner : String) (app : AppWorker) : Prop where
  filter : app.filter = some owner
  workers : app.workers.Holds fun _ worker ↦ worker.state.filter (some owner) = some owner

namespace AppWorker

variable {self self' : AppWorker}

/-- Every step keeps the filter. -/
theorem FilteredBy.next {e : Event} (h : self.FilteredBy owner) (hself' : self.next e = some self') :
    self'.FilteredBy owner := by
  have hsteps := next_steps hself'
  refine ⟨hsteps.filter.trans h.filter, hsteps.holds h.workers ?_⟩
  intro key worker worker' _ hworker hstepped
  have hafter {queue : List WorkerMsg} {input : Input} {io : Io} {ran : Ran Stop Out WorkerState Flow}
      (hran : worker.state.turn io worker.path self.filter input = some ran) :
      ({ worker with queue := queue }.after ran).state.filter (some owner) = some owner := by
    cases ran with
    | stop why out => exact hworker
    | done flow s out =>
        have hs := (WorkerState.turn_filter hran).trans hworker
        cases flow with
        | next => exact hs
        | done => exact hs
  cases hstepped with
  | same => exact hworker
  | pushed msg => exact hworker
  | received io msg queue =>
      have hran : worker.state.turn io worker.path self.filter (.message msg) =
          some (worker.state.onMsg io worker.path msg) := rfl
      exact hafter hran
  | woken io input ran hevent hrunning hran => exact hafter hran

end AppWorker

/-! ## Runs -/

/-- The event is a call by a foreign sender. -/
def Event.foreign (owner : String) : Event → Bool
  | .wake _ _ (.call _ msg) => Foreign owner msg
  | .wake _ _ (.message _) | .wake _ _ (.notified _) | .wake _ _ (.written _)
  | .call _ | .askObjects _ _ | .receive _ _ => false

namespace AppWorker

/-- The turn that an event is. -/
def ran (self : AppWorker) : Event → Option (Ran Stop Out WorkerState Flow)
  | .call _ | .askObjects _ _ | .wake _ _ (.message _) => none
  | .receive key io => do
      let worker ← self.awake key
      let msg ← worker.queue.head?
      return worker.state.onMsg io worker.path msg
  | .wake key io input => do
      let worker ← self.awake key
      worker.state.turn io worker.path self.filter input

/-- What is sent on an event, and the application after it; an event that cannot happen is
ignored. -/
def react (self : AppWorker) (e : Event) : List Out × AppWorker :=
  (((self.ran e).map Ran.out).getD [], (self.next e).getD self)

variable {self : AppWorker}

theorem FilteredBy.react (h : self.FilteredBy owner) (e : Event) :
    (self.react e).2.FilteredBy owner := by
  rw [AppWorker.react]
  cases hnext : self.next e with
  | none => exact h
  | some self' => exact h.next hnext

/-- What a step of a worker keeps, holds of all workers after an event. -/
theorem react_holds {P : Key → Worker → Prop} {e : Event} (h : self.workers.Holds P)
    (hP : ∀ key worker worker', self.workers.lookup key = some worker → P key worker →
      worker.Stepped self.filter e key worker' → P key worker') :
    (self.react e).2.workers.Holds P := by
  rw [react]
  cases hnext : self.next e with
  | none => exact h
  | some self' => exact (next_steps hnext).holds h hP

/-- What a worker that runs does with a call. -/
theorem react_of_awake {key : Key} {worker : Worker} {asked : Asked} {s : WorkerState}
    {out : List Out} (hawake : self.awake key = some worker)
    (hturn : worker.state.turn io worker.path self.filter (.call asked msg) =
      some (.done .next s out)) :
    self.react (.wake key io (.call asked msg)) =
      (out, self.put key { worker with state := s }) := by
  have hran : self.ran (.wake key io (.call asked msg)) = some (.done .next s out) := by
    change (self.awake key).bind _ = _
    rw [hawake]
    exact hturn
  have hnext : self.next (.wake key io (.call asked msg)) =
      some (self.put key { worker with state := s }) := by
    change (self.awake key).bind _ = _
    rw [hawake]
    exact congrArg (Option.map fun ran ↦ self.put key (worker.after ran)) hturn
  rw [react, hran, hnext]
  rfl

/-- A call for which no worker runs is ignored. -/
theorem react_of_not_awake {key : Key} (hawake : self.awake key = none) (io : Io) (asked : Asked) :
    self.react (.wake key io (.call asked msg)) = ([], self) := by
  have hran : self.ran (.wake key io (.call asked msg)) = none := by
    change (self.awake key).bind _ = none
    rw [hawake]
    rfl
  have hnext : self.next (.wake key io (.call asked msg)) = none := by
    change (self.awake key).bind _ = none
    rw [hawake]
    rfl
  rw [react, hran, hnext]
  rfl

/-- **A foreign call that reaches a worker ends it**, and nothing is sent. -/
theorem onCall_foreign (h : self.FilteredBy owner) (hforeign : Foreign owner msg = true)
    {key : Key} {worker : Worker} (hawake : self.awake key = some worker) (io : Io)
    (asked : Asked) :
    worker.state.onCall io self.filter asked msg = .stop (.error (.io .other)) [] := by
  have hrefused : isMsgBluez msg (worker.state.filter self.filter) = false := by
    rw [h.filter, h.workers key worker (lookup_of_awake hawake).1]
    exact isMsgBluez_of_foreign hforeign
  rw [WorkerState.onCall_refused asked hrefused]
  exact Turn.replied_unsendable (isSendable_refusal msg) _ _

/-- It is not answered, and afterwards there is nobody who answers. -/
theorem react_foreign (h : self.FilteredBy owner) (hforeign : Foreign owner msg = true)
    {key : Key} {worker : Worker} (hawake : self.awake key = some worker) (io : Io)
    (asked : Asked) : (self.react (.wake key io (.call asked msg))).1 = [] ∧
      (self.react (.wake key io (.call asked msg))).2.awake key = none := by
  have hturn : worker.state.turn io worker.path self.filter (.call asked msg) =
      some (.stop (.error (.io .other)) []) :=
    congrArg some (onCall_foreign h hforeign hawake io asked)
  have hran : self.ran (.wake key io (.call asked msg)) =
      some (.stop (.error (.io .other)) []) :=
    Option.bind_eq_some_iff.mpr ⟨worker, hawake, hturn⟩
  let ended := worker.after (.stop (.error (.io .other)) [])
  have hnext : self.next (.wake key io (.call asked msg)) = some (self.put key ended) :=
    Option.bind_eq_some_iff.mpr ⟨worker, hawake, Option.bind_eq_some_iff.mpr ⟨_, hturn, rfl⟩⟩
  rw [react, hran, hnext]
  refine ⟨rfl, ?_⟩
  change ((self.put key ended).workers.lookup key).filter Worker.running = none
  rw [lookup_put, (lookup_of_awake hawake).1, Option.map_some, if_pos rfl]
  rfl

/-- The event is a foreign call that reaches a worker. -/
def Refuses (owner : String) (self : AppWorker) : Event → Prop
  | .wake key _ (.call _ msg) => Foreign owner msg = true ∧ (self.awake key).isSome
  | .wake _ _ (.message _) | .wake _ _ (.notified _) | .wake _ _ (.written _)
  | .call _ | .askObjects _ _ | .receive _ _ => False

/-- Foreign calls leave no trace: without them, the application goes through the same states,
sends the same on each of the other events and ends in the same state.  Each of them that
reaches a worker is answered with one refusal, and ends nothing. -/
structure Erased (owner : String) (self : AppWorker) (es : List Event) : Prop where
  trace : (Lts.trace react self es).filter (fun x ↦ !x.2.1.foreign owner) =
    Lts.trace react self (es.filter fun e ↦ !e.foreign owner)
  final : Lts.final react self es = Lts.final react self (es.filter fun e ↦ !e.foreign owner)
  refused : ∀ x ∈ Lts.trace react self es, ∀ key io asked msg,
    x.2.1 = .wake key io (.call asked msg) → Foreign owner msg = true →
      (x.1.react x.2.1).2 = x.1 ∧
      ∀ worker, x.1.awake key = some worker → x.2.2 = [.reply (refusal msg)]

/-- **Foreign calls leave no trace in exactly those runs in which none of them reaches a worker.**
-/
theorem foreign_calls_erased_iff (h : self.FilteredBy owner) (es : List Event) :
    self.Erased owner es ↔ ∀ x ∈ Lts.trace react self es, ¬x.1.Refuses owner x.2.1 := by
  have hruns : ∀ x ∈ Lts.trace react self es,
      x.1.FilteredBy owner ∧ x.2.1 ∈ es ∧ x.2.2 = (x.1.react x.2.1).1 :=
    Lts.trace_invariant (fun s e hs ↦ hs.react e) h
  constructor
  · rintro ⟨-, -, hrefused⟩ ⟨s, e, out⟩ hx hrefuses
    rw [Refuses.eq_def] at hrefuses
    split at hrefuses
    · next key io asked msg he =>
        obtain ⟨hforeign, hawake⟩ := hrefuses
        obtain ⟨worker, hworker⟩ := Option.isSome_iff_exists.mp hawake
        obtain ⟨hs, -, hout⟩ := hruns _ hx
        have hreply := (hrefused _ hx key io asked msg he hforeign).2 worker hworker
        rw [hout, he, (react_foreign hs hforeign hworker io asked).1] at hreply
        contradiction
    all_goals contradiction
  · intro hnone
    let keep (e : Event) : Bool := !e.foreign owner
    have hignored (x) (hx : x ∈ Lts.trace react self es) (key io asked msg)
        (he : x.2.1 = .wake key io (.call asked msg)) (hforeign : Foreign owner msg = true) :
        x.1.awake key = none ∧ (x.1.react x.2.1).2 = x.1 := by
      have hawake : x.1.awake key = none := by
        have hno := hnone x hx
        rw [he, Refuses, not_and, Option.not_isSome_iff_eq_none] at hno
        exact hno hforeign
      rw [he, react_of_not_awake hawake io asked]
      exact ⟨hawake, rfl⟩
    have hdropped : ∀ x ∈ Lts.trace react self es, keep x.2.1 = false →
        (x.1.react x.2.1).2 = x.1 := by
      intro x hx hforeign
      rw [Bool.not_eq_false', Event.foreign.eq_def] at hforeign
      split at hforeign
      · next key io asked msg he => exact (hignored x hx key io asked msg he hforeign).2
      all_goals contradiction
    obtain ⟨htrace, hfinal⟩ := Lts.trace_erase hdropped
    refine ⟨htrace, hfinal, fun x hx key io asked msg he hforeign ↦ ?_⟩
    obtain ⟨hawake, hsame⟩ := hignored x hx key io asked msg he hforeign
    refine ⟨hsame, fun worker hworker ↦ ?_⟩
    rw [hawake] at hworker
    contradiction

end AppWorker

/-- A filtered application is registered with the filter for the owner of the daemon's name. -/
theorem Application.filteredBy_of_register {self : Application} {bus : Bus} {app : AppWorker}
    (h : self.register bus = pure app) (hself : self.filter = true)
    (howner : bus.owner = .ok owner) : app.FilteredBy owner := by
  obtain ⟨-, filter, workers, workers', hfilter, hservs, hincludes, rfl⟩ := register_spec h
  obtain rfl : filter = some owner := by
    rw [filterOf, if_pos hself, howner] at hfilter
    by_cases hempty : owner = ""
    · rw [hempty] at hfilter
      contradiction
    · have hsome : (ExceptT.mk (some (.ok owner)) >>= fun name ↦
          if name = "" then .panic else pure (some name) : MayFail (Option String)) =
            pure (some owner) := if_neg hempty
      exact (Except.ok.inj (Option.some.inj (hsome.symm.trans hfilter))).symm
  refine ⟨rfl, AList.Holds.insert (sendIncludes_holds hincludes ?_ ?_) rfl⟩
  · exact fun e _ worker paths hworker ↦ hworker
  · obtain ⟨es, rfl, hes, -⟩ := startServs_started hservs
    refine AList.Holds.empty.insertAll fun e he ↦ ?_
    have hmem : ownState e ∈ self.own := by
      rw [own, ← hes]
      exact List.mem_map_of_mem he
    have hkind : e.2.state.kind ≠ .app := kind_own hmem
    cases hs : e.2.state with
    | app s =>
        rw [hs] at hkind
        exact absurd rfl hkind
    | serv | chrc | desc => rfl

/-- A call without a sender. -/
def anonymousCall : MethodCall (Application.ofUuids ⟨1⟩ ⟨2⟩ ⟨3⟩).basePath where
  member := "Introspect"
  interface := some introIf

namespace AppWorker

/-- The call without a sender, for an attribute. -/
def anonymousEvent (key : Key) : Event := .wake key {} (.call (fun _ ↦ none) anonymousCall.toMessage)

/-- The daemon's call, for an attribute. -/
def daemonEvent (key : Key) : Event := .wake key {} (.call (fun _ ↦ none)
  (introspectCall (Application.ofUuids ⟨1⟩ ⟨2⟩ ⟨3⟩).basePath).toMessage)

/-- A call for an attribute that an application does not have leaves no trace, whatever the daemon
asks before it. -/
theorem foreign_calls_erased_ofUuids : ∃ app,
    (Application.ofUuids ⟨1⟩ ⟨2⟩ ⟨3⟩).register .working = pure app ∧
      app.Erased ":1.4" [daemonEvent (0, 0, 0), anonymousEvent (⟨7⟩, 0, 0)] := by
  obtain ⟨app, happ⟩ := Application.register_ofUuids ⟨1⟩ ⟨2⟩ ⟨3⟩
  have hfiltered : app.FilteredBy ":1.4" := Application.filteredBy_of_register happ rfl rfl
  have hown : ∀ e ∈ (Application.ofUuids ⟨1⟩ ⟨2⟩ ⟨3⟩).own, e.1 ≠ (⟨7⟩, 0, 0) := by decide
  have hkeys : app.workers.Holds fun key _ ↦ key ≠ (⟨7⟩, 0, 0) :=
    Application.register_holds happ (fun e he _ _ _ ↦ hown e he) (fun _ _ _ _ h ↦ h)
      fun _ _ ↦ by decide
  refine ⟨app, happ, (foreign_calls_erased_iff hfiltered _).mpr fun x hx ↦ ?_⟩
  rcases List.mem_cons.mp hx with rfl | hx
  · rintro ⟨hforeign, -⟩
    exact absurd hforeign (by decide)
  obtain rfl := List.mem_singleton.mp hx
  rintro ⟨-, hawake⟩
  obtain ⟨worker, hworker⟩ := Option.isSome_iff_exists.mp hawake
  have hkeys' : (app.react (daemonEvent (0, 0, 0))).2.workers.Holds fun key _ ↦ key ≠ (⟨7⟩, 0, 0) :=
    react_holds hkeys fun _ _ _ _ hkey _ ↦ hkey
  exact hkeys' _ worker (lookup_of_awake hworker).1 rfl

/-- If it is for the application itself, it ends the application's worker. -/
theorem foreign_calls_stop_ofUuids : ∃ app,
    (Application.ofUuids ⟨1⟩ ⟨2⟩ ⟨3⟩).register .working = pure app ∧
      ¬app.Erased ":1.4" [anonymousEvent (0, 0, 0)] := by
  obtain ⟨app, happ⟩ := Application.register_ofUuids ⟨1⟩ ⟨2⟩ ⟨3⟩
  obtain ⟨s, hawake⟩ := Application.awake_of_register happ
  have hfiltered : app.FilteredBy ":1.4" := Application.filteredBy_of_register happ rfl rfl
  have hforeign : Foreign ":1.4" anonymousCall.toMessage = true := by decide
  refine ⟨app, happ, fun ⟨_, _, hrefused⟩ ↦ ?_⟩
  have hreply := (hrefused _ List.mem_cons_self _ _ _ _ rfl hforeign).2 _ hawake
  have hnothing : (app.react (anonymousEvent (0, 0, 0))).1 = [] :=
    (react_foreign hfiltered hforeign hawake _ _).1
  exact absurd (hnothing.symm.trans hreply) (by simp)

end AppWorker

end Rustable.Gatt.Server
