import Rustable.Gatt.Server.Serving

/-!
# Registering without a panic

`Application::register` unwraps the paths it formats and indexes the map of workers with
the UUIDs of included services, none of which has been checked before: below the root path
no formatted path is valid, and a UUID that was added to `includes` need not belong to a
service.  It unwraps what becomes of the message with the included services, too, which is lost
if the worker of the service has ended: the attributes can be called from the moment on at which
their workers are started.  While it waits for BlueZ it answers the calls that arrive for the
application, by `handle_app`, which knows two interfaces.

## Main results

* `Arrival.outcome_handleApp`, `serveCalls_cases`: what becomes of one call, and of all of
  them
* `isSome_startServs_iff`, `isSome_includes_iff`: the paths and the included services
* `serveEarly_cases`: which calls the worker of a service survives
* `Application.register_returns_iff`: when `register` comes back
-/

namespace Rustable.Gatt.Server

open DBus

/-! ## The loop of `register` -/

/-- A call that arrives before the reply to `RegisterApplication`. -/
structure Arrival where
  call : MarshalledMessage
  /-- How sending the answer ends. -/
  io : Io := {}
  /-- The workers of the attributes, when they are asked for their objects. -/
  later : Key → Worker
  /-- They are workers of attributes. -/
  isAttribute : ∀ key, (later key).IsAttribute

/-- What the workers answer. -/
def Arrival.asked (a : Arrival) : Asked := fun key ↦ (a.later key).objects

/-- The loop of `register`, up to the reply. -/
def WorkerData.serveCalls : List Arrival → Turn WorkerData Unit
  | [] => return ()
  | a :: arrivals => do
      let _ ← handleApp a.io a.asked a.call
      serveCalls arrivals

/-- A call that the worker of a service handles before it is sent the paths of the services that
it includes. -/
structure Early (path : ObjectPath) where
  call : MethodCall path
  /-- How sending the reply ends. -/
  io : Io := {}

/-- The calls that are handled before the messages of the loop over `includes`: before each of
them, by the worker at each path. -/
abbrev EarlyCalls := Nat → ∀ path : ObjectPath, List (Early path)

/-- A worker that handles calls, unless it ends. -/
def WorkerState.serveEarly {path : ObjectPath} (filter : Option String) (s : WorkerState) :
    List (Early path) → Option WorkerState
  | [] => some s
  | c :: cs => match s.onCall c.io filter (fun _ ↦ none) c.call.toMessage with
    | .done .next s _ => s.serveEarly filter cs
    | .done .done _ _ | .stop _ _ => none

/-- The worker after its calls, with the message it is sent. -/
def Worker.sent (filter : Option String) (early : ∀ path : ObjectPath, List (Early path))
    (msg : WorkerMsg) (worker : Worker) : Option Worker :=
  (worker.state.serveEarly filter (early worker.path)).map fun s ↦
    { worker with state := s }.push msg

/-- The loop over `includes`, which panics if a worker has ended that it sends to. -/
def sendIncludesServing (filter : Option String) (early : EarlyCalls) :
    List (UUID × List UUID) → Workers → Option Workers
  | [], workers => some workers
  | (uuid, included) :: rest, workers => do
      let paths ← included.mapM fun u ↦ (workers.lookup (u, 0, 0)).map (·.path)
      let worker ← workers.lookup (uuid, 0, 0)
      let worker ← worker.sent filter (early 0) (.includedPaths paths)
      sendIncludesServing filter (fun n ↦ early (n + 1)) rest
        (workers.modify (uuid, 0, 0) fun _ ↦ worker)

/-- What an action of a worker is to the function that runs it itself. -/
def ofRan {σ α : Type} : Ran Stop Out σ α → MayFail σ
  | .done _ s _ => pure s
  | .stop .panic _ => .panic
  | .stop (.error e) _ => throw e

/-- `Application::register`, with the calls that are answered on its way: those of the workers of
services, and those it answers itself. -/
def Application.registerServing (self : Application) (bus : Bus) (early : EarlyCalls)
    (arrivals : List Arrival) : MayFail AppWorker := do
  if self.services.length = 0 then .panic
  let filter ← self.filterOf bus
  let some workers := startServs self.basePath 0 self.services ∅ | .panic
  let some workers := sendIncludesServing filter early (includes self.services) workers | .panic
  let appData ← ofRan (WorkerData.serveCalls arrivals (self.appData filter workers))
  ExceptT.mk (some bus.registerApplication)
  let app : Worker :=
    { state := .app { self := { self with services := [] }, appData := appData }
      path := self.basePath }
  return { workers := workers.insert (0, 0, 0) app, filter := filter }

/-- No calls. -/
def EarlyCalls.none : EarlyCalls := fun _ _ ↦ []

theorem sendIncludesServing_none (filter : Option String) (included : List (UUID × List UUID))
    (workers : Workers) :
    sendIncludesServing filter .none included workers = sendIncludes included workers := by
  induction included generalizing workers with
  | nil => rfl
  | cons e included ih =>
      rw [sendIncludesServing, sendIncludes]
      refine Option.bind_congr fun paths _ ↦ Option.bind_congr fun worker hworker ↦ ?_
      have hmodify : (workers.modify (e.1, 0, 0) fun _ ↦ worker.push (.includedPaths paths)) =
          workers.modify (e.1, 0, 0) (Worker.push (.includedPaths paths)) :=
        AList.modify_congr hworker rfl
      exact (ih _).trans (congrArg _ hmodify)

/-- Without calls on its way it is the function of before. -/
theorem Application.registerServing_none (self : Application) (bus : Bus) :
    self.registerServing bus .none [] = self.register bus := by
  rw [registerServing, register]
  simp only [sendIncludesServing_none]
  rfl

/-! ## One call -/

section Calls

variable {filter : Option String} {keys : List Key} {a : Arrival}

/-- The call is one `handle_app` has an answer to: it is refused, or for one of the two
interfaces. -/
def Arrival.CanAnswer (filter : Option String) (a : Arrival) : Prop :=
  isMsgBluez a.call filter = true →
    a.call.dynheader.interface = some introIf ∨ a.call.dynheader.interface = some objmgrIf

/-- Nothing gets in the way of the answer: the call is not refused, the reply is sent, and no
worker has ended that the object manager asks. -/
def Arrival.Answered (filter : Option String) (keys : List Key) (a : Arrival) : Prop :=
  isMsgBluez a.call filter = true ∧ a.io.sendReply = .ok () ∧
    (a.call.dynheader.interface = some objmgrIf → ∀ key ∈ keys, (a.later key).running = true)

/-- Every call that is reached has an answer. -/
def Serves (filter : Option String) (keys : List Key) : List Arrival → Prop
  | [] => True
  | a :: arrivals => a.CanAnswer filter ∧ (a.Answered filter keys → Serves filter keys arrivals)

theorem serves_congr {keys' : List Key} (h : ∀ key, key ∈ keys ↔ key ∈ keys')
    (arrivals : List Arrival) : Serves filter keys arrivals ↔ Serves filter keys' arrivals := by
  induction arrivals with
  | nil => exact Iff.rfl
  | cons a arrivals ih => simp only [Serves, Arrival.Answered, h, ih]

/-- How the answer to a call comes out. -/
inductive Arrival.Outcome (self : WorkerData) (a : Arrival) (ran : Ran Stop Out WorkerData Flow) :
    Prop
  | panic (h : ¬a.CanAnswer self.filter) (hran : ran = .stop .panic [])
  | error (h : a.CanAnswer self.filter) (hnot : ¬a.Answered self.filter self.senders) (e : Error)
      (hran : ran = .stop (.error e) [])
  | next (h : a.CanAnswer self.filter) (ha : a.Answered self.filter self.senders)
      (m : MarshalledMessage) (hran : ran = .done .next self [.reply m])

variable {self : WorkerData}

/-- A message that is there to be sent. -/
theorem Arrival.outcome_replied (hfilter : isMsgBluez a.call self.filter = true)
    (h : a.CanAnswer self.filter)
    (hrunning : a.call.dynheader.interface = some objmgrIf →
      ∀ key ∈ self.senders, (a.later key).running = true)
    {m : MarshalledMessage} (hm : m.isSendable = true) :
    a.Outcome self (Turn.replied a.io (.done m self [])) := by
  cases hio : a.io.sendReply with
  | ok u =>
      rw [Turn.replied_sendable hm hio]
      exact .next h ⟨hfilter, hio, hrunning⟩ m rfl
  | error e =>
      rw [Turn.replied, Io.send_eq hm, hio]
      exact .error h (fun ha ↦ by rw [ha.2.1] at hio; contradiction) _ rfl

/-- The workers answer as long as all of them run. -/
theorem Arrival.isSome_asked (a : Arrival) (keys : List Key) :
    (keys.mapM a.asked).isSome ↔ ∀ key ∈ keys, (a.later key).running = true := by
  rw [isSome_mapM_iff]
  exact forall₂_congr fun key _ ↦ (a.isAttribute key).isSome_objects_iff

/-- The object manager asks the workers, and sends what they answer. -/
theorem Arrival.outcome_objMgr (hfilter : isMsgBluez a.call self.filter = true)
    (hinterface : a.call.dynheader.interface = some objmgrIf) :
    a.Outcome self (Turn.replied a.io (WorkerData.handleObjMgr a.asked a.call self)) := by
  have hcan : a.CanAnswer self.filter := fun _ ↦ .inr hinterface
  rw [WorkerData.handleObjMgr, Act.read_bind]
  cases hobjects : self.senders.mapM a.asked with
  | none =>
      refine .error hcan (fun ha ↦ ?_) .threadClosed rfl
      have hsome := (a.isSome_asked _).mpr (ha.2.2 hinterface)
      rw [hobjects] at hsome
      contradiction
  | some objects =>
      have hrunning := (a.isSome_asked self.senders).mp (by rw [hobjects]; rfl)
      obtain ⟨v, hv⟩ := Option.isSome_iff_exists.mp
        (marshal_map_isSome ((sendableAnswers_objects a.isAttribute).insertAll hobjects))
      simp only [Act.unwrap_some, Act.pure_bind, Body.pushParam_eq hv]
      exact outcome_replied hfilter hcan (fun _ ↦ hrunning) rfl

/-- **What becomes of one call.** -/
theorem Arrival.outcome_handleApp (self : WorkerData) (a : Arrival) :
    a.Outcome self (WorkerData.handleApp a.io a.asked a.call self) := by
  rw [WorkerData.handleApp, Act.read_bind]
  cases hfilter : isMsgBluez a.call self.filter with
  | false =>
      rw [Turn.replyTo_refused hfilter, Turn.replied_unsendable (isSendable_refusal _)]
      refine .error (fun h ↦ ?_) (fun ha ↦ ?_) _ rfl
      · rw [hfilter] at h
        contradiction
      · exact Bool.false_ne_true (hfilter.symm.trans ha.1)
  | true =>
      rw [Turn.replyTo_passed hfilter, WorkerData.handleCall]
      cases hinterface : a.call.dynheader.interface with
      | none =>
          refine .panic (fun h ↦ ?_) rfl
          rcases h hfilter with h | h
          · rw [hinterface] at h
            contradiction
          · rw [hinterface] at h
            contradiction
      | some interface =>
          rw [Act.unwrap_some, Act.pure_bind]
          by_cases hintro : interface = introIf
          · subst hintro
            rw [if_pos rfl, Act.read_bind]
            refine outcome_replied hfilter (fun _ ↦ .inl hinterface) (fun h ↦ ?_) rfl
            rw [hinterface] at h
            contradiction
          · by_cases hobj : interface = objmgrIf
            · subst hobj
              rw [if_neg hintro, if_pos rfl]
              exact outcome_objMgr hfilter hinterface
            · rw [if_neg hintro, if_neg hobj]
              refine .panic (fun h ↦ ?_) rfl
              rcases h hfilter with h | h
              · exact hintro (Option.some.inj (hinterface.symm.trans h))
              · exact hobj (Option.some.inj (hinterface.symm.trans h))

/-- The loop comes back if every call that is reached has an answer, and changes nothing. -/
theorem serveCalls_cases (self : WorkerData) (arrivals : List Arrival) :
    (¬Serves self.filter self.senders arrivals ∧
        ∃ out, WorkerData.serveCalls arrivals self = .stop .panic out) ∨
      Serves self.filter self.senders arrivals ∧
        ((∃ e out, WorkerData.serveCalls arrivals self = .stop (.error e) out) ∨
          ∃ out, WorkerData.serveCalls arrivals self = .done () self out) := by
  induction arrivals with
  | nil => exact .inr ⟨trivial, .inr ⟨[], rfl⟩⟩
  | cons a arrivals ih =>
      rw [WorkerData.serveCalls, Act.bind_apply]
      cases a.outcome_handleApp self with
      | panic h hran =>
          rw [hran]
          exact .inl ⟨fun hs ↦ h hs.1, [], rfl⟩
      | error h hnot e hran =>
          rw [hran]
          exact .inr ⟨⟨h, fun ha ↦ absurd ha hnot⟩, .inl ⟨e, [], rfl⟩⟩
      | next h ha m hran =>
          rw [hran]
          rcases ih with ⟨hnot, out, hrest⟩ | ⟨hs, ⟨e, out, hrest⟩ | ⟨out, hrest⟩⟩
          · simp only [hrest]
            exact .inl ⟨fun hs ↦ hnot (hs.2 ha), _, rfl⟩
          · simp only [hrest]
            exact .inr ⟨⟨h, fun _ ↦ hs⟩, .inl ⟨e, _, rfl⟩⟩
          · simp only [hrest]
            exact .inr ⟨⟨h, fun _ ↦ hs⟩, .inr ⟨_, rfl⟩⟩

/-- Whether the loop comes back to `register`. -/
theorem isSome_serveCalls_iff {arrivals : List Arrival} :
    (ofRan (WorkerData.serveCalls arrivals self)).run.isSome ↔
      Serves self.filter self.senders arrivals := by
  rcases serveCalls_cases self arrivals with ⟨hnot, out, h⟩ | ⟨hs, ⟨e, out, h⟩ | ⟨out, h⟩⟩
  · rw [h]
    exact ⟨fun hsome ↦ by contradiction, fun hs ↦ absurd hs hnot⟩
  · rw [h]
    exact ⟨fun _ ↦ hs, fun _ ↦ rfl⟩
  · rw [h]
    exact ⟨fun _ ↦ hs, fun _ ↦ rfl⟩

end Calls

/-! ## Calls of services -/

/-- The worker of a service goes on after the call. -/
def Early.Withstood {path : ObjectPath} (filter : Option String) (c : Early path) : Prop :=
  c.io.sendReply = .ok () ∧ isMsgBluez c.call.toMessage filter = true ∧ Kind.serv.Knows c.call ∧
    (c.call.interface = some propsIf → Properties.Grants ServData (SetsHandle bluezSerIf) c.call)

section Early

variable {path : ObjectPath} {filter : Option String}

/-- A worker of the kind of a service is one. -/
theorem WorkerState.exists_serv {st : WorkerState} (h : st.kind = .serv) : ∃ s, st = .serv s := by
  cases st with
  | serv s => exact ⟨s, rfl⟩
  | app | chrc | desc => contradiction

/-- **The worker of a service runs on** if it withstands all of its calls, and ends if not. -/
theorem serveEarly_cases (s : ServWorker) (cs : List (Early path)) :
    ((∀ c ∈ cs, c.Withstood filter) ∧
        ∃ s', (WorkerState.serv s).serveEarly filter cs = some (.serv s')) ∨
      (¬∀ c ∈ cs, c.Withstood filter) ∧ (WorkerState.serv s).serveEarly filter cs = none := by
  induction cs generalizing s with
  | nil => exact .inl ⟨fun c hc ↦ absurd hc List.not_mem_nil, s, rfl⟩
  | cons c cs ih =>
      have hgoes : GoesOn ((WorkerState.serv s).onCall c.io filter (fun _ ↦ none)
          c.call.toMessage) ↔ c.Withstood filter := WorkerState.goesOn_onCall_serv s
      have hkind := WorkerState.onCall_kind c.io filter (fun _ ↦ none) c.call.toMessage (.serv s)
      rw [List.forall_mem_cons, ← hgoes, WorkerState.serveEarly]
      cases hran : (WorkerState.serv s).onCall c.io filter (fun _ ↦ none) c.call.toMessage with
      | stop why out => exact .inr ⟨fun h ↦ not_goesOn_stop h.1, rfl⟩
      | done flow s' out =>
          rw [hran] at hkind
          obtain ⟨s', rfl⟩ := WorkerState.exists_serv hkind
          cases flow with
          | next =>
              have hnext : GoesOn (.done .next (WorkerState.serv s') out) := ⟨_, _, rfl⟩
              rcases ih s' with ⟨hall, hrun⟩ | ⟨hnot, hrun⟩
              · exact .inl ⟨⟨hnext, hall⟩, hrun⟩
              · exact .inr ⟨fun h ↦ hnot h.2, hrun⟩
          | done =>
              refine .inr ⟨?_, rfl⟩
              rintro ⟨⟨_, _, h⟩, -⟩
              obtain ⟨hflow, -⟩ := Ran.done.inj h
              contradiction

end Early

/-! ## Paths and included services -/

variable {workers workers' : Workers}

/-- **The paths**: below any path but the root they are valid. -/
theorem isSome_startServs_iff {basePath : ObjectPath} {servs : List Service} (hne : servs ≠ []) :
    (startServs basePath 0 servs ∅).isSome ↔ basePath ≠ .root := by
  constructor
  · rintro h rfl
    cases servs with
    | nil => contradiction
    | cons serv servs =>
        rw [startServs, childPath, ObjectPath.tryFrom_root_append] at h
        contradiction
  · intro h
    obtain ⟨workers', hworkers⟩ := startServs_isSome h servs 0 ∅
    rw [hworkers]
    rfl

/-- The services that have a worker. -/
theorem mem_startServs_iff {basePath : ObjectPath} {servs : List Service}
    (h : startServs basePath 0 servs ∅ = some workers) (u : UUID) :
    (u, 0, 0) ∈ workers ↔ ∃ serv ∈ servs, serv.uuid = u := by
  obtain ⟨es, rfl, hown, -⟩ := startServs_started h
  have hkeys : es.map Prod.fst = (servs.flatMap Service.own).map Prod.fst := by
    rw [← hown, List.map_map]
    rfl
  rw [AList.mem_insertAll, or_iff_left (AList.notMem_empty _), hkeys]
  constructor
  · intro hmem
    obtain ⟨e, he, hkey⟩ := List.mem_map.mp hmem
    obtain ⟨serv, hserv, he⟩ := List.mem_flatMap.mp he
    have hfst := Service.fst_own (List.mem_map_of_mem he)
    rw [hkey] at hfst
    exact ⟨serv, hserv, hfst.symm⟩
  · rintro ⟨serv, hserv, rfl⟩
    refine List.mem_map.mpr ⟨((serv.uuid, 0, 0), serv.started), ?_, rfl⟩
    refine List.mem_flatMap.mpr ⟨serv, hserv, ?_⟩
    exact List.mem_append_right _ (List.mem_singleton_self _)

/-- The last of the services with the UUID, and where it is: its worker is the one that goes by the
UUID. -/
def lastWith (u : UUID) (servs : List (Service × Nat)) : Option (Service × Nat) :=
  servs.reverse.find? (·.1.uuid = u)

theorem lastWith_cons (u : UUID) (x : Service × Nat) (servs : List (Service × Nat)) :
    lastWith u (x :: servs) = (lastWith u servs).or (if x.1.uuid = u then some x else none) := by
  rw [lastWith, List.reverse_cons, List.find?_append, List.find?_singleton]
  simp only [decide_eq_true_eq]
  rfl

/-- **The worker of a service**: it goes by the UUID as it has been started. -/
theorem startServs_lookup {basePath : ObjectPath} {servs : List Service} {i : Nat}
    (h : startServs basePath i servs workers = some workers') (u : UUID) :
    match lastWith u (servs.zipIdx i) with
    | some x => ∃ path, childPath basePath "service" x.2 = some path ∧
        workers'.lookup (u, 0, 0) = some { state := x.1.started, path := path }
    | none => workers'.lookup (u, 0, 0) = workers.lookup (u, 0, 0) := by
  induction servs generalizing i workers with
  | nil =>
      obtain rfl := Option.some.inj h
      rfl
  | cons serv servs ih =>
      obtain ⟨path, hpath, h⟩ := Option.bind_eq_some_iff.mp h
      obtain ⟨workers₁, hchrcs, h⟩ := Option.bind_eq_some_iff.mp h
      have hlater := ih h
      rw [List.zipIdx_cons, lastWith_cons]
      cases hlast : lastWith u (servs.zipIdx (i + 1)) with
      | some x =>
          rw [hlast] at hlater
          exact hlater
      | none =>
          rw [hlast] at hlater
          dsimp only at hlater
          rw [Option.none_or]
          by_cases hu : serv.uuid = u
          · rw [if_pos hu]
            subst hu
            exact ⟨path, hpath, hlater.trans (AList.lookup_insert _)⟩
          · rw [if_neg hu]
            obtain ⟨es, rfl, hown, -⟩ := startChrcs_started hchrcs
            have hkey : ((u, 0, 0) : Key) ≠ (serv.uuid, 0, 0) :=
              fun heq ↦ hu (congrArg Prod.fst heq).symm
            refine hlater.trans ((AList.lookup_insert_ne hkey).trans ?_)
            refine AList.lookup_insertAll_of_notMem fun hmem ↦ hu ?_
            obtain ⟨e, he, hkey⟩ := List.mem_map.mp hmem
            have hmem : ownState e ∈ serv.chars.flatMap (Characteristic.own serv.uuid) :=
              hown ▸ List.mem_map_of_mem he
            obtain ⟨chrc, -, hchrc⟩ := List.mem_flatMap.mp hmem
            have hfst := (Characteristic.fst_own (List.mem_map_of_mem hchrc)).1
            exact hfst.symm.trans (congrArg Prod.fst hkey)

/-- The path of the worker that goes by the UUID. -/
def Application.servicePath (self : Application) (u : UUID) : Option ObjectPath :=
  (lastWith u self.services.zipIdx).bind fun x ↦ childPath self.basePath "service" x.2

/-- The path of the worker that goes by the UUID of a service. -/
def Workers.path? (workers : Workers) (u : UUID) : Option ObjectPath :=
  (workers.lookup (u, 0, 0)).map (·.path)

/-- A worker that is changed in place keeps its path. -/
theorem path?_modify {key : Key} {worker worker' : Worker}
    (hworker : workers.lookup key = some worker) (hpath : worker'.path = worker.path) (u : UUID) :
    Workers.path? (workers.modify key fun _ ↦ worker') u = workers.path? u := by
  rw [Workers.path?, Workers.path?, AList.lookup_modify]
  by_cases hkey : (u, 0, 0) = key
  · subst hkey
    rw [hworker]
    simp [hpath]
  · simp [hkey]

theorem forall_getElem?_cons {α : Type} {a : α} {l : List α} {P : Nat → α → Prop} :
    (∀ n b, (a :: l)[n]? = some b → P n b) ↔ P 0 a ∧ ∀ n b, l[n]? = some b → P (n + 1) b := by
  refine ⟨fun h ↦ ⟨h 0 a rfl, fun n b hb ↦ h (n + 1) b hb⟩, fun h n b hb ↦ ?_⟩
  cases n with
  | zero => exact Option.some.inj hb ▸ h.1
  | succ n => exact h.2 n b hb

theorem mem_sendIncludesServing {filter : Option String} {early : EarlyCalls}
    {included : List (UUID × List UUID)}
    (h : sendIncludesServing filter early included workers = some workers') {key : Key} :
    key ∈ workers' ↔ key ∈ workers := by
  induction included generalizing early workers with
  | nil =>
      obtain rfl := Option.some.inj h
      rfl
  | cons e included ih =>
      obtain ⟨paths, -, h⟩ := Option.bind_eq_some_iff.mp h
      obtain ⟨worker, -, h⟩ := Option.bind_eq_some_iff.mp h
      obtain ⟨worker', -, h⟩ := Option.bind_eq_some_iff.mp h
      exact (ih h).trans AList.mem_modify

/-- **The included services**: each has to have a worker, and so has the service itself, which has
to withstand its calls. -/
theorem isSome_sendIncludes_iff {filter : Option String} {early : EarlyCalls}
    {included : List (UUID × List UUID)}
    (hserv : ∀ u worker, workers.lookup (u, 0, 0) = some worker → worker.state.kind = .serv) :
    (sendIncludesServing filter early included workers).isSome ↔
      (∀ e ∈ included, (e.1, 0, 0) ∈ workers ∧ ∀ u ∈ e.2, (u, 0, 0) ∈ workers) ∧
        ∀ n e, included[n]? = some e → ∀ path ∈ workers.path? e.1, ∀ c ∈ early n path,
          c.Withstood filter := by
  induction included generalizing early workers with
  | nil => simp [sendIncludesServing]
  | cons e included ih =>
      have hpaths : (e.2.mapM fun u ↦ (workers.lookup (u, 0, 0)).map (·.path)).isSome ↔
          ∀ u ∈ e.2, (u, 0, 0) ∈ workers := by
        simp only [isSome_mapM_iff, Option.isSome_map, AList.lookup_isSome]
      rw [sendIncludesServing, List.forall_mem_cons, forall_getElem?_cons]
      cases hp : e.2.mapM fun u ↦ (workers.lookup (u, 0, 0)).map (·.path) with
      | none =>
          refine iff_of_false Bool.false_ne_true fun h ↦ ?_
          rw [← hpaths, hp] at h
          exact Bool.false_ne_true h.1.1.2
      | some paths =>
          cases hw : workers.lookup (e.1, 0, 0) with
          | none =>
              refine iff_of_false Bool.false_ne_true fun h ↦ ?_
              have hsome := AList.lookup_isSome.mpr h.1.1.1
              rw [hw] at hsome
              exact Bool.false_ne_true hsome
          | some worker =>
              have hpath : workers.path? e.1 = some worker.path := by rw [Workers.path?, hw]; rfl
              obtain ⟨s, hs⟩ := WorkerState.exists_serv (hserv _ _ hw)
              rw [Option.bind_eq_bind, Option.bind_some, Option.bind_eq_bind, Option.bind_some,
                Worker.sent, hs]
              rcases serveEarly_cases s (early 0 worker.path) with
                ⟨hall, s', hrun⟩ | ⟨hnot, hrun⟩
              · rw [hrun]
                refine (ih ?_).trans ?_
                · intro u w hlook
                  rw [AList.lookup_modify] at hlook
                  obtain ⟨w', hlook', rfl⟩ := Option.map_eq_some_iff.mp hlook
                  split
                  · rfl
                  · exact hserv u w' hlook'
                · have hmem := AList.lookup_isSome.mp (Option.isSome_of_eq_some hw)
                  have hhead : ∀ path ∈ workers.path? e.1, ∀ c ∈ early 0 path,
                      c.Withstood filter := by
                    rintro path hmem
                    obtain rfl := Option.some.inj (hpath.symm.trans hmem)
                    exact hall
                  have hsame (u : UUID) : Workers.path? (workers.modify (e.1, 0, 0) fun _ ↦
                      { worker with state := .serv s' }.push (.includedPaths paths)) u =
                        workers.path? u := path?_modify hw (by rfl) u
                  simp only [AList.mem_modify, hsame]
                  have hfound := hpaths.mp (Option.isSome_of_eq_some hp)
                  exact ⟨fun h ↦ ⟨⟨⟨hmem, hfound⟩, h.1⟩, hhead, h.2⟩, fun h ↦ ⟨h.1.2, h.2.2⟩⟩
              · rw [hrun]
                exact iff_of_false Bool.false_ne_true fun h ↦ hnot (h.2.1 _ hpath)

section Started

variable {self : Application} (h : startServs self.basePath 0 self.services ∅ = some workers)
include h

/-- A worker that goes by the UUID of a service is that of a service. -/
theorem kind_startServs {u : UUID} {worker : Worker}
    (hworker : workers.lookup (u, 0, 0) = some worker) : worker.state.kind = .serv := by
  have hlookup := startServs_lookup h u
  cases hlast : lastWith u (self.services.zipIdx 0) with
  | none =>
      rw [hlast] at hlookup
      rw [hlookup] at hworker
      contradiction
  | some x =>
      rw [hlast] at hlookup
      obtain ⟨path, -, hsome⟩ := hlookup
      obtain rfl := Option.some.inj (hsome.symm.trans hworker)
      rfl

/-- It has the path of the last service with the UUID. -/
theorem path?_startServs (u : UUID) : workers.path? u = self.servicePath u := by
  have hlookup := startServs_lookup h u
  rw [Workers.path?, Application.servicePath]
  cases hlast : lastWith u (self.services.zipIdx 0) with
  | none =>
      rw [hlast] at hlookup
      rw [hlookup]
      rfl
  | some x =>
      rw [hlast] at hlookup
      obtain ⟨path, hpath, hsome⟩ := hlookup
      rw [hsome]
      exact hpath.symm

/-- Every service that is included is one of the application, and every service that includes one
withstands its calls. -/
theorem isSome_includes_iff {filter : Option String} {early : EarlyCalls} :
    (sendIncludesServing filter early (includes self.services) workers).isSome ↔
      (∀ serv ∈ self.services, ∀ u ∈ serv.includes, ∃ s ∈ self.services, s.uuid = u) ∧
        ∀ n e, (includes self.services)[n]? = some e → ∀ path ∈ self.servicePath e.1,
          ∀ c ∈ early n path, c.Withstood filter := by
  rw [isSome_sendIncludes_iff fun u worker hworker ↦ kind_startServs h hworker]
  simp only [mem_startServs_iff h, path?_startServs h]
  refine and_congr_left fun _ ↦ ?_
  constructor
  · intro hall serv hserv u hu
    refine (hall (serv.uuid, serv.includes) ?_).2 u hu
    refine List.mem_map.mpr ⟨serv, List.mem_filter.mpr ⟨hserv, ?_⟩, rfl⟩
    simp [List.ne_nil_of_mem hu]
  · intro hall e he
    obtain ⟨serv, hserv, rfl⟩ := List.mem_map.mp he
    have hserv := List.mem_of_mem_filter hserv
    exact ⟨⟨serv, hserv, rfl⟩, hall serv hserv⟩

end Started

/-! ## Registering -/

namespace Application

/-- The filter, once the owner of the name is known. -/
def filterFor (self : Application) (name : String) : Option String :=
  if self.filter then some name else none

/-- What `register` takes for granted: an owner with a name, a base path that has children,
services for all UUIDs that are included, services that withstand the calls they get before they
are told what they include, and calls that it knows. -/
structure Registrable (app : Application) (name : String) (early : EarlyCalls)
    (arrivals : List Arrival) : Prop where
  named : app.filter = true → name ≠ ""
  path : app.basePath ≠ .root
  included : ∀ serv ∈ app.services, ∀ u ∈ serv.includes, ∃ s ∈ app.services, s.uuid = u
  withstood : ∀ n e, (includes app.services)[n]? = some e → ∀ path ∈ app.servicePath e.1,
    ∀ c ∈ early n path, c.Withstood (app.filterFor name)
  serves : Serves (app.filterFor name) (app.own.map Prod.fst) arrivals

variable {self : Application} {bus : Bus} {name : String} {early : EarlyCalls}
  {arrivals : List Arrival}

/-- The worker of the application asks the workers of all attributes. -/
theorem mem_senders {filter : Option String}
    (hstart : startServs self.basePath 0 self.services ∅ = some workers)
    (hsend : sendIncludesServing filter early (includes self.services) workers = some workers')
    (key : Key) : key ∈ workers'.keys ↔ key ∈ self.own.map Prod.fst := by
  obtain ⟨es, rfl, hown, -⟩ := startServs_started hstart
  have hkeys : es.map Prod.fst = self.own.map Prod.fst := by
    rw [Application.own, ← hown, List.map_map]
    rfl
  rw [← hkeys]
  refine (mem_sendIncludesServing hsend).trans ?_
  exact AList.mem_insertAll.trans (or_iff_left (AList.notMem_empty _))

theorem run_filterOf (howner : self.filter = true → bus.owner = .ok name) :
    (self.filterOf bus = .panic ∧ ¬(self.filter = true → name ≠ "")) ∨
      self.filterOf bus = pure (self.filterFor name) ∧ (self.filter = true → name ≠ "") := by
  rw [filterOf, filterFor]
  by_cases hfilter : self.filter = true
  · rw [if_pos hfilter, if_pos hfilter, howner hfilter]
    by_cases hname : name = ""
    · exact .inl ⟨if_pos hname, fun h ↦ h hfilter hname⟩
    · exact .inr ⟨if_neg hname, fun _ ↦ hname⟩
  · rw [if_neg hfilter, if_neg hfilter]
    exact .inr ⟨rfl, fun h ↦ absurd h hfilter⟩

/-- The steps `register` unwraps, once it has its filter. -/
theorem isSome_registerServing {filter : Option String} (hservs : self.services ≠ [])
    (hfilter : self.filterOf bus = pure filter) :
    (self.registerServing bus early arrivals).run.isSome ↔
      ∃ workers workers', startServs self.basePath 0 self.services ∅ = some workers ∧
        sendIncludesServing filter early (includes self.services) workers = some workers' ∧
        (ofRan (WorkerData.serveCalls arrivals (self.appData filter workers'))).run.isSome := by
  have hlength : self.services.length ≠ 0 := fun h ↦ hservs (List.length_eq_zero_iff.mp h)
  rw [registerServing, if_neg hlength]
  change ((self.filterOf bus >>= _) : MayFail _).run.isSome ↔ _
  rw [hfilter, pure_bind]
  cases hstart : startServs self.basePath 0 self.services ∅ with
  | none => simp [MayFail.panic]
  | some workers =>
      cases hsend : sendIncludesServing filter early (includes self.services) workers with
      | none => simp [hsend, MayFail.panic]
      | some workers' =>
          simp only [hsend, Option.some.injEq, exists_and_left, exists_eq_left']
          rcases ofRan (WorkerData.serveCalls arrivals (self.appData filter workers'))
            with _ | _ | appData
          · exact Iff.rfl
          · exact Iff.rfl
          · cases bus.registerApplication with
            | ok u => exact Iff.rfl
            | error e => exact Iff.rfl

/-- **`register` comes back**, with a worker or an error, exactly on what it takes for
granted. -/
theorem register_returns_iff (hservs : self.services ≠ [])
    (howner : self.filter = true → bus.owner = .ok name) :
    (self.registerServing bus early arrivals).run.isSome ↔ self.Registrable name early arrivals := by
  have hlength : self.services.length ≠ 0 := fun h ↦ hservs (List.length_eq_zero_iff.mp h)
  rcases run_filterOf howner with ⟨hrun, hnot⟩ | ⟨hrun, hnamed⟩
  · rw [registerServing, if_neg hlength]
    change ((self.filterOf bus >>= _) : MayFail _).run.isSome ↔ _
    rw [hrun]
    exact ⟨fun h ↦ by contradiction, fun h ↦ absurd h.named hnot⟩
  rw [isSome_registerServing hservs hrun]
  have hserves {workers workers' : Workers}
      (hstart : startServs self.basePath 0 self.services ∅ = some workers)
      (hsend : sendIncludesServing (self.filterFor name) early (includes self.services) workers =
        some workers') :
      (ofRan (WorkerData.serveCalls arrivals
        (self.appData (self.filterFor name) workers'))).run.isSome ↔
          Serves (self.filterFor name) (self.own.map Prod.fst) arrivals :=
    isSome_serveCalls_iff.trans (serves_congr (mem_senders hstart hsend) arrivals)
  constructor
  · rintro ⟨workers, workers', hstart, hsend, hsome⟩
    obtain ⟨hincluded, hwithstood⟩ :=
      (isSome_includes_iff hstart).mp (Option.isSome_of_eq_some hsend)
    exact
      { named := hnamed
        path := (isSome_startServs_iff hservs).mp (Option.isSome_of_eq_some hstart)
        included := hincluded
        withstood := hwithstood
        serves := (hserves hstart hsend).mp hsome }
  · intro h
    obtain ⟨workers, hstart⟩ :=
      Option.isSome_iff_exists.mp ((isSome_startServs_iff hservs).mpr h.path)
    obtain ⟨workers', hsend⟩ :=
      Option.isSome_iff_exists.mp ((isSome_includes_iff hstart).mpr ⟨h.included, h.withstood⟩)
    exact ⟨workers, workers', hstart, hsend, (hserves hstart hsend).mpr h.serves⟩

/-- A service that includes another one. -/
def ofIncludes (serv included : UUID) : Application :=
  { ofPair serv included ⟨3⟩ ⟨4⟩ with
    services :=
      [{ uuid := serv, primary := true, includes := [included],
         chars := [{ uuid := ⟨3⟩, flags := {} }] },
        { uuid := included, primary := false, chars := [{ uuid := ⟨4⟩, flags := {} }] }] }

theorem withstood_introspectCall (path : ObjectPath) (filter : Option String) :
    ({ call := introspectCall path } : Early path).Withstood filter := by
  refine ⟨rfl, isMsgBluez_of_sender rfl _, (Kind.knows_iff rfl).mpr (by decide), fun h ↦ ?_⟩
  exact absurd (Option.some.inj h) (by decide)

/-- It is registered, although the services are introspected before they are told what they
include, and the application later. -/
theorem register_returns_ofIncludes :
    ((ofIncludes ⟨1⟩ ⟨2⟩).registerServing .working (fun _ path ↦ [{ call := introspectCall path }])
      [{ call := (introspectCall (ofIncludes ⟨1⟩ ⟨2⟩).basePath).toMessage
         later := fun _ ↦ .ofService
         isAttribute := fun _ ↦ Worker.isAttribute_ofService }]).run.isSome := by
  refine (register_returns_iff (List.cons_ne_nil _ _) fun _ ↦ rfl).mpr ?_
  exact
    { named := fun _ ↦ by decide
      path := by decide
      included := by decide
      withstood := by
        rintro n e - path - c hc
        obtain rfl := List.mem_singleton.mp hc
        exact withstood_introspectCall path _
      serves := ⟨fun _ ↦ .inl rfl, fun _ ↦ trivial⟩ }

/-- A service with a characteristic is added, and the application is registered: at the root, and
below it with an included service that has never been added.  It is also registered below the root
with a service that is called without an interface before it is told what it includes. -/
theorem register_panics :
    (∃ app, Application.addService { hci := .root, basePath := .root }
        { uuid := ⟨1⟩, primary := true, chars := [{ uuid := ⟨2⟩, flags := {} }] } = some app ∧
      (app.registerServing .working .none []).run = none) ∧
    (∃ app, Application.addService { hci := .root, basePath := ⟨["app".toList], by decide⟩ }
        (Service.addIncludes { uuid := ⟨1⟩, primary := true, chars :=
          [{ uuid := ⟨2⟩, flags := {} }] } ⟨9⟩) = some app ∧
      (app.registerServing .working .none []).run = none) ∧
    ((ofIncludes ⟨1⟩ ⟨2⟩).registerServing .working
      (fun _ _ ↦ [{ call := { member := "Introspect", sender := some bluezDest } }]) []).run =
        none := by
  refine ⟨⟨_, rfl, ?_⟩, ⟨_, rfl, ?_⟩, ?_⟩
  · refine Option.not_isSome_iff_eq_none.mp fun h ↦ ?_
    obtain ⟨workers, -, hstart, -⟩ := (isSome_registerServing (List.cons_ne_nil _ _) rfl).mp h
    have hpath := (isSome_startServs_iff (List.cons_ne_nil _ _)).mp
      (Option.isSome_of_eq_some hstart)
    exact hpath rfl
  · refine Option.not_isSome_iff_eq_none.mp fun h ↦ ?_
    obtain ⟨workers, workers', hstart, hsend, -⟩ :=
      (isSome_registerServing (List.cons_ne_nil _ _) rfl).mp h
    have hall := ((isSome_includes_iff hstart).mp (Option.isSome_of_eq_some hsend)).1
    obtain ⟨serv, hserv, huuid⟩ := hall _ (List.mem_singleton_self _) ⟨9⟩ (List.mem_singleton_self _)
    obtain rfl := List.mem_singleton.mp hserv
    contradiction
  · refine Option.not_isSome_iff_eq_none.mp fun h ↦ ?_
    obtain ⟨workers, workers', hstart, hsend, -⟩ :=
      (isSome_registerServing (List.cons_ne_nil _ _) rfl).mp h
    have hall := ((isSome_includes_iff hstart).mp (Option.isSome_of_eq_some hsend)).2
    obtain ⟨-, -, hknows, -⟩ := hall 0 _ rfl _ rfl _ (List.mem_singleton_self _)
    exact Kind.not_knows rfl hknows

end Application

end Rustable.Gatt.Server
