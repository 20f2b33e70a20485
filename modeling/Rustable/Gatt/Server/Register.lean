import Rustable.Gatt.Server.Application

/-!
# Registering an application

`Application::register` starts a worker for each attribute and one for the application,
and keeps them in a map under the UUIDs of the attribute and its parents, with `UUID(0)`
where there is none.  Each level of the tree has its loop; what a loop adds to the map is
`Started`.

The map has a worker for each attribute, its own, if and only if none of the attributes
has the UUID zero (`register_own_iff`): an attribute with that UUID goes by the key of its
parent.
-/

namespace Rustable.Gatt.Server

open DBus

/-- What the task of a worker keeps: one alternative for each kind of worker. -/
inductive WorkerState
  | app (s : AppLoop)
  | serv (s : ServWorker)
  | chrc (s : ChrcData)
  | desc (s : Descriptor)

/-- `struct Worker`: what is behind the sender and the handle of a worker, with the path
of its object. -/
structure Worker where
  /-- The state of the task. -/
  state : WorkerState
  /-- The path it answers for. -/
  path : ObjectPath
  /-- The messages that were sent and not yet received. -/
  queue : List WorkerMsg := []
  /-- The task has not ended. -/
  running : Bool := true

/-- The map of workers. -/
abbrev Workers := HashMap Key Worker

/-- `struct AppWorker`, with the filter the workers were started with. -/
structure AppWorker where
  workers : Workers
  filter : Option String

/-- How the calls of `register` on the bus end. -/
structure Bus where
  /-- The owner of the name `org.bluez`. -/
  owner : Except Error String
  /-- The reply to `RegisterApplication`. -/
  registerApplication : Except Error Unit

/-! ## The loops -/

/-- `ObjectPathBuf::try_from(format!("{}/{}{:04x}", parent, kind, i)).unwrap()` -/
def childPath (parent : ObjectPath) (kind : String) (i : Nat) : Option ObjectPath :=
  ObjectPath.tryFrom (parent.toChars ++ '/' :: (kind.toList ++ Text.hex .lower 4 i))

/-- The loop over the descriptors of a characteristic. -/
def startDescs (serv chrc : UUID) (chrcPath : ObjectPath) :
    Nat → List Descriptor → Workers → Option Workers
  | _, [], workers => some workers
  | k, desc :: descs, workers => do
      let descPath ← childPath chrcPath "desc" k
      startDescs serv chrc chrcPath (k + 1) descs
        (workers.insert (serv, chrc, desc.uuid) { state := .desc desc, path := descPath })

/-- The worker state a characteristic starts with. -/
def Characteristic.started (chrc : Characteristic) : WorkerState :=
  .chrc (ChrcData.start { chrc with descs := [] } chrc.descs.length)

/-- The loop over the characteristics of a service. -/
def startChrcs (serv : UUID) (servPath : ObjectPath) :
    Nat → List Characteristic → Workers → Option Workers
  | _, [], workers => some workers
  | j, chrc :: chrcs, workers => do
      let chrcPath ← childPath servPath "char" j
      let workers ← startDescs serv chrc.uuid chrcPath 0 chrc.descs workers
      startChrcs serv servPath (j + 1) chrcs
        (workers.insert (serv, chrc.uuid, 0) { state := chrc.started, path := chrcPath })

/-- The worker state a service starts with. -/
def Service.started (serv : Service) : WorkerState :=
  .serv (ServWorker.start { serv with chars := [] } serv.chars.length)

/-- The loop over the services. -/
def startServs (basePath : ObjectPath) : Nat → List Service → Workers → Option Workers
  | _, [], workers => some workers
  | i, serv :: servs, workers => do
      let servPath ← childPath basePath "service" i
      let workers ← startChrcs serv.uuid servPath 0 serv.chars workers
      startServs basePath (i + 1) servs
        (workers.insert (serv.uuid, 0, 0) { state := serv.started, path := servPath })

/-- What the loop over the services collects in `includes`. -/
def includes (services : List Service) : List (UUID × List UUID) :=
  (services.filter fun serv ↦ !serv.includes.isEmpty).map fun serv ↦ (serv.uuid, serv.includes)

/-- Send a message to a worker. -/
def Worker.push (msg : WorkerMsg) (worker : Worker) : Worker :=
  { worker with queue := worker.queue ++ [msg] }

/-- The loop over `includes`. -/
def sendIncludes : List (UUID × List UUID) → Workers → Option Workers
  | [], workers => some workers
  | (uuid, included) :: rest, workers => do
      let paths ← included.mapM fun u ↦ (workers.lookup (u, 0, 0)).map (·.path)
      let _ ← workers.lookup (uuid, 0, 0)
      sendIncludes rest (workers.modify (uuid, 0, 0) (Worker.push (.includedPaths paths)))

/-- The filter the workers are given. -/
def Application.filterOf (self : Application) (bus : Bus) : MayFail (Option String) :=
  if self.filter then do
    let name ← ExceptT.mk (some bus.owner)
    if name = "" then .panic else return some name
  else return none

/-- `Application::register` -/
def Application.register (self : Application) (bus : Bus) : MayFail AppWorker := do
  if self.services.length = 0 then .panic
  let filter ← self.filterOf bus
  let some workers := startServs self.basePath 0 self.services ∅ | .panic
  let some workers := sendIncludes (includes self.services) workers | .panic
  ExceptT.mk (some bus.registerApplication)
  let appData : WorkerData :=
    { senders := workers.keys, servCnt := self.services.length, filter := filter }
  let app : Worker :=
    { state := .app { self := { self with services := [] }, appData := appData }
      path := self.basePath }
  return { workers := workers.insert (0, 0, 0) app, filter := filter }

/-! ## What the loops do -/

/-- The kind and the number of a child make an element of a path. -/
theorem isElement_child {kind : String} (hkind : IsElement kind.toList) (i : Nat) :
    IsElement (kind.toList ++ Text.hex .lower 4 i) := by
  have hdigit : ∀ d < 16, isPathChar (Text.hexDigit .lower d) = true := by decide
  refine ⟨List.append_ne_nil_of_left_ne_nil hkind.1 _, fun c hc ↦ ?_⟩
  rcases List.mem_append.mp hc with hc | hc
  · exact hkind.2 c hc
  · obtain ⟨d, hd, rfl⟩ := Text.mem_hex hc
    exact hdigit d hd

/-- Below the root a path has children. -/
theorem childPath_eq {parent : ObjectPath} (hparent : parent ≠ .root) {kind : String}
    (hkind : IsElement kind.toList) (i : Nat) :
    childPath parent kind i = some (parent.push _ (isElement_child hkind i)) :=
  ObjectPath.tryFrom_toChars_append hparent (isElement_child hkind i)

theorem childPath_isSome {parent : ObjectPath} (hparent : parent ≠ .root) (kind : String)
    (hkind : IsElement kind.toList) (i : Nat) : ∃ path, childPath parent kind i = some path :=
  ⟨_, childPath_eq hparent hkind i⟩

/-- What has the path of a child is not the root. -/
theorem childPath_ne_root {parent path : ObjectPath} {kind : String} {i : Nat}
    (h : childPath parent kind i = some path) : path ≠ .root := by
  refine ObjectPath.ne_root_of_tryFrom (fun heq ↦ ?_) h
  rw [ObjectPath.toChars, List.cons_append] at heq
  exact List.append_ne_nil_of_right_ne_nil _ (List.cons_ne_nil _ _) (List.cons.inj heq).2

/-- A worker as it is started, for an attribute below the root. -/
structure Worker.Fresh (worker : Worker) : Prop where
  path : worker.path ≠ .root
  queue : worker.queue = []
  running : worker.running = true

/-- The key and the state of an entry of the map. -/
def ownState (e : Key × Worker) : Key × WorkerState := (e.1, e.2.state)

/-- `workers'` is `workers` after the insertion of fresh workers, with the keys and states
listed in `own`. -/
def Started (own : List (Key × WorkerState)) (workers workers' : Workers) : Prop :=
  ∃ es : List (Key × Worker), workers' = workers.insertAll es ∧ es.map ownState = own ∧
    ∀ e ∈ es, e.2.Fresh

namespace Started

variable {own own' : List (Key × WorkerState)} {workers workers' workers'' : Workers}

theorem nil : Started [] workers workers := ⟨[], rfl, rfl, fun _ h ↦ nomatch h⟩

theorem append (h : Started own workers workers') (h' : Started own' workers' workers'') :
    Started (own ++ own') workers workers'' := by
  obtain ⟨es, rfl, rfl, hes⟩ := h
  obtain ⟨es', rfl, rfl, hes'⟩ := h'
  refine ⟨es ++ es', (AList.insertAll_append ..).symm, List.map_append, ?_⟩
  exact List.forall_mem_append.mpr ⟨hes, hes'⟩

theorem single (workers : Workers) (key : Key) (state : WorkerState) {path : ObjectPath}
    (h : path ≠ .root) :
    Started [(key, state)] workers (workers.insert key { state := state, path := path }) :=
  ⟨[(key, { state := state, path := path })], rfl, rfl,
    fun _ he ↦ List.mem_singleton.mp he ▸ ⟨h, rfl, rfl⟩⟩

end Started

/-- The workers of the descriptors and of the characteristic itself. -/
def Characteristic.own (serv : UUID) (chrc : Characteristic) : List (Key × WorkerState) :=
  (chrc.descs.map fun desc ↦ ((serv, chrc.uuid, desc.uuid), .desc desc)) ++
    [((serv, chrc.uuid, 0), chrc.started)]

/-- The workers of the characteristics with their descriptors, and of the service. -/
def Service.own (serv : Service) : List (Key × WorkerState) :=
  serv.chars.flatMap (Characteristic.own serv.uuid) ++ [((serv.uuid, 0, 0), serv.started)]

/-- The workers of all attributes. -/
def Application.own (app : Application) : List (Key × WorkerState) :=
  app.services.flatMap Service.own

theorem startDescs_started {serv chrc : UUID} {chrcPath : ObjectPath} {descs : List Descriptor}
    {k : Nat} {workers workers' : Workers}
    (h : startDescs serv chrc chrcPath k descs workers = some workers') :
    Started (descs.map fun desc ↦ ((serv, chrc, desc.uuid), .desc desc)) workers workers' := by
  induction descs generalizing k workers with
  | nil =>
      obtain rfl := Option.some.inj h
      exact .nil
  | cons desc descs ih =>
      obtain ⟨path, hpath, hrest⟩ := Option.bind_eq_some_iff.mp h
      have hdesc := Started.single workers (serv, chrc, desc.uuid) (.desc desc)
        (childPath_ne_root hpath)
      exact hdesc.append (ih hrest)

theorem startChrcs_started {serv : UUID} {servPath : ObjectPath} {chrcs : List Characteristic}
    {j : Nat} {workers workers' : Workers}
    (h : startChrcs serv servPath j chrcs workers = some workers') :
    Started (chrcs.flatMap (Characteristic.own serv)) workers workers' := by
  induction chrcs generalizing j workers with
  | nil =>
      obtain rfl := Option.some.inj h
      exact .nil
  | cons chrc chrcs ih =>
      obtain ⟨path, hpath, h⟩ := Option.bind_eq_some_iff.mp h
      obtain ⟨workers₁, hdescs, hrest⟩ := Option.bind_eq_some_iff.mp h
      have hchrc := Started.single workers₁ (serv, chrc.uuid, 0) chrc.started
        (childPath_ne_root hpath)
      exact ((startDescs_started hdescs).append hchrc).append (ih hrest)

theorem startServs_started {basePath : ObjectPath} {servs : List Service} {i : Nat}
    {workers workers' : Workers} (h : startServs basePath i servs workers = some workers') :
    Started (servs.flatMap Service.own) workers workers' := by
  induction servs generalizing i workers with
  | nil =>
      obtain rfl := Option.some.inj h
      exact .nil
  | cons serv servs ih =>
      obtain ⟨path, hpath, h⟩ := Option.bind_eq_some_iff.mp h
      obtain ⟨workers₁, hchrcs, hrest⟩ := Option.bind_eq_some_iff.mp h
      have hserv := Started.single workers₁ (serv.uuid, 0, 0) serv.started
        (childPath_ne_root hpath)
      exact ((startChrcs_started hchrcs).append hserv).append (ih hrest)

/-- Sending messages changes no key, state or path. -/
theorem sendIncludes_ownState {includes : List (UUID × List UUID)} {workers workers' : Workers}
    (h : sendIncludes includes workers = some workers') :
    workers'.iter.map ownState = workers.iter.map ownState := by
  induction includes generalizing workers with
  | nil =>
      obtain rfl := Option.some.inj h
      rfl
  | cons e includes ih =>
      obtain ⟨paths, -, h⟩ := Option.bind_eq_some_iff.mp h
      obtain ⟨_, -, h⟩ := Option.bind_eq_some_iff.mp h
      rw [ih h, AList.map_iter_modify]
      exact fun _ _ ↦ rfl

theorem startDescs_isSome (serv chrc : UUID) {chrcPath : ObjectPath} (hpath : chrcPath ≠ .root)
    (descs : List Descriptor) (k : Nat) (workers : Workers) :
    ∃ workers', startDescs serv chrc chrcPath k descs workers = some workers' := by
  induction descs generalizing k workers with
  | nil => exact ⟨workers, rfl⟩
  | cons desc descs ih =>
      obtain ⟨path, hchild⟩ := childPath_isSome hpath "desc" (by decide) k
      rw [startDescs, hchild, Option.bind_eq_bind, Option.bind_some]
      exact ih _ _

theorem startChrcs_isSome (serv : UUID) {servPath : ObjectPath} (hpath : servPath ≠ .root)
    (chrcs : List Characteristic) (j : Nat) (workers : Workers) :
    ∃ workers', startChrcs serv servPath j chrcs workers = some workers' := by
  induction chrcs generalizing j workers with
  | nil => exact ⟨workers, rfl⟩
  | cons chrc chrcs ih =>
      obtain ⟨path, hchild⟩ := childPath_isSome hpath "char" (by decide) j
      obtain ⟨workers₁, hdescs⟩ := startDescs_isSome serv chrc.uuid
        (childPath_ne_root hchild) chrc.descs 0 workers
      rw [startChrcs, hchild, Option.bind_eq_bind, Option.bind_some, hdescs, Option.bind_eq_bind,
        Option.bind_some]
      exact ih _ _

theorem startServs_isSome {basePath : ObjectPath} (hpath : basePath ≠ .root)
    (servs : List Service) (i : Nat) (workers : Workers) :
    ∃ workers', startServs basePath i servs workers = some workers' := by
  induction servs generalizing i workers with
  | nil => exact ⟨workers, rfl⟩
  | cons serv servs ih =>
      obtain ⟨path, hchild⟩ := childPath_isSome hpath "service" (by decide) i
      obtain ⟨workers₁, hchrcs⟩ := startChrcs_isSome serv.uuid
        (childPath_ne_root hchild) serv.chars 0 workers
      rw [startServs, hchild, Option.bind_eq_bind, Option.bind_some, hchrcs, Option.bind_eq_bind,
        Option.bind_some]
      exact ih _ _

/-- Below the root and without included services, BlueZ decides how registering ends. -/
theorem Application.register_run {self : Application} {bus : Bus} {name : String}
    (hservs : self.services ≠ []) (hpath : self.basePath ≠ .root)
    (hincludes : includes self.services = []) (howner : bus.owner = .ok name) (hname : name ≠ "") :
    ∃ app, self.register bus = ExceptT.mk (some (bus.registerApplication.map fun _ ↦ app)) := by
  obtain ⟨workers, hworkers⟩ := startServs_isSome hpath self.services 0 ∅
  have hlength : self.services.length ≠ 0 := fun h ↦ hservs (List.length_eq_zero_iff.mp h)
  obtain ⟨filter, hfilter⟩ : ∃ filter, self.filterOf bus = pure filter := by
    rw [filterOf]
    split
    · exact ⟨some name, by rw [howner]; exact if_neg hname⟩
    · exact ⟨none, rfl⟩
  rw [register, if_neg hlength]
  change ∃ app, (self.filterOf bus >>= _) = _
  rw [hfilter, pure_bind, hworkers, hincludes]
  cases bus.registerApplication with
  | ok u => exact ⟨_, rfl⟩
  | error e => exact ⟨⟨∅, none⟩, rfl⟩

/-- Registering an application below the root succeeds if the bus lets it and no service
includes another one. -/
theorem Application.register_isSome {self : Application} {bus : Bus} {name : String}
    (hservs : self.services ≠ []) (hpath : self.basePath ≠ .root)
    (hincludes : includes self.services = []) (howner : bus.owner = .ok name) (hname : name ≠ "")
    (hreg : bus.registerApplication = .ok ()) : ∃ app, self.register bus = pure app := by
  obtain ⟨app, happ⟩ := register_run hservs hpath hincludes howner hname
  rw [hreg] at happ
  exact ⟨app, happ⟩

/-- What the worker of an application answers from, next to the other workers. -/
def Application.appData (self : Application) (filter : Option String) (workers : Workers) :
    WorkerData where
  senders := workers.keys
  servCnt := self.services.length
  filter := filter

/-- The application and its worker, next to the other workers. -/
def Application.registered (self : Application) (filter : Option String) (workers : Workers) :
    AppWorker where
  workers := workers.insert (0, 0, 0)
    { state := .app { self := { self with services := [] }, appData := self.appData filter workers }
      path := self.basePath }
  filter := filter

/-- What `register` does, if it returns. -/
theorem Application.register_spec {self : Application} {bus : Bus} {app : AppWorker}
    (h : self.register bus = pure app) :
    self.services ≠ [] ∧ ∃ filter workers workers', self.filterOf bus = pure filter ∧
      startServs self.basePath 0 self.services ∅ = some workers ∧
      sendIncludes (includes self.services) workers = some workers' ∧
      app = self.registered filter workers' := by
  rw [register] at h
  split at h
  · contradiction
  next hlength =>
  refine ⟨fun hnil ↦ hlength (List.length_eq_zero_iff.mpr hnil), ?_⟩
  obtain ⟨filter, hfilter, h⟩ := MayFail.bind_eq_pure.mp h
  split at h
  · next workers hservs =>
      split at h
      · next workers' hincludes =>
          obtain ⟨_, -, h⟩ := MayFail.bind_eq_pure.mp h
          obtain rfl := Except.ok.inj (Option.some.inj h)
          exact ⟨filter, workers, workers', hfilter, hservs, hincludes, rfl⟩
      · contradiction
  · contradiction

/-- What `register` returns, if it returns. -/
theorem Application.register_eq {self : Application} {bus : Bus} {app : AppWorker}
    (h : self.register bus = pure app) :
    self.services ≠ [] ∧ ∃ workers workers' appData, Started self.own ∅ workers ∧
      sendIncludes (includes self.services) workers = some workers' ∧
      app.workers = workers'.insert (0, 0, 0)
        { state := .app { self := { self with services := [] }, appData := appData }
          path := self.basePath } := by
  obtain ⟨hne, filter, workers, workers', -, hservs, hincludes, rfl⟩ := register_spec h
  exact ⟨hne, workers, workers', _, startServs_started hservs, hincludes, rfl⟩

/-! ## One worker for each attribute -/

/-- The workers an application should have: its own and those of its attributes. -/
def Application.all (self : Application) (appData : WorkerData) : List (Key × WorkerState) :=
  ((0, 0, 0), .app { self := { self with services := [] }, appData := appData }) :: self.own

section Keys

theorem Characteristic.fst_own {serv : UUID} {chrc : Characteristic} {key : Key}
    (h : key ∈ (chrc.own serv).map Prod.fst) : key.1 = serv ∧ key.2.1 = chrc.uuid := by
  obtain ⟨e, he, rfl⟩ := List.mem_map.mp h
  rcases List.mem_append.mp he with he | he
  · obtain ⟨desc, -, rfl⟩ := List.mem_map.mp he
    exact ⟨rfl, rfl⟩
  · obtain rfl := List.mem_singleton.mp he
    exact ⟨rfl, rfl⟩

/-- The keys of a characteristic and its descriptors differ if no descriptor has the UUID
zero. -/
theorem Characteristic.nodup_own_iff {chrc : Characteristic} (h : chrc.Distinct) (serv : UUID) :
    ((chrc.own serv).map Prod.fst).Nodup ↔ ∀ desc ∈ chrc.descs, desc.uuid ≠ 0 := by
  have hdescs : (chrc.descs.map fun desc ↦ ((serv, chrc.uuid, desc.uuid) : Key)).Nodup :=
    List.Nodup.of_map (fun key ↦ key.2.2) (by rw [List.map_map]; exact h.nodup)
  rw [own, List.map_append, List.map_map, List.map_singleton, List.nodup_append',
    List.disjoint_singleton]
  change (chrc.descs.map fun desc ↦ ((serv, chrc.uuid, desc.uuid) : Key)).Nodup ∧ _ ∧
    (serv, chrc.uuid, 0) ∉ chrc.descs.map (fun desc ↦ ((serv, chrc.uuid, desc.uuid) : Key)) ↔ _
  rw [and_iff_right hdescs, and_iff_right (List.nodup_singleton _), List.mem_map]
  constructor
  · exact fun hno desc hdesc hzero ↦ hno ⟨desc, hdesc, by rw [hzero]⟩
  · rintro hall ⟨desc, hdesc, heq⟩
    exact hall desc hdesc (congrArg (fun key : Key ↦ key.2.2) heq)

theorem Service.fst_own {serv : Service} {key : Key} (h : key ∈ serv.own.map Prod.fst) :
    key.1 = serv.uuid := by
  rw [own, List.map_append] at h
  rcases List.mem_append.mp h with h | h
  · obtain ⟨e, he, rfl⟩ := List.mem_map.mp h
    obtain ⟨chrc, -, he⟩ := List.mem_flatMap.mp he
    exact (Characteristic.fst_own (List.mem_map_of_mem he)).1
  · obtain rfl := List.mem_singleton.mp h
    rfl

/-- The keys below a service differ if nothing below it has the UUID zero. -/
theorem Service.nodup_own_iff {serv : Service} (h : serv.Distinct) :
    (serv.own.map Prod.fst).Nodup ↔ ∀ chrc ∈ serv.chars, chrc.uuid ≠ 0 ∧
      ∀ desc ∈ chrc.descs, desc.uuid ≠ 0 := by
  have hchrcs : ((serv.chars.flatMap fun chrc ↦ (chrc.own serv.uuid).map Prod.fst)).Nodup ↔
      ∀ chrc ∈ serv.chars, ∀ desc ∈ chrc.descs, desc.uuid ≠ 0 := by
    rw [nodup_flatMap_iff (fun key : Key ↦ key.2.1)
      (fun _ _ hkey ↦ (Characteristic.fst_own hkey).2) h.nodup]
    exact forall₂_congr fun chrc hchrc ↦ Characteristic.nodup_own_iff (h.each chrc hchrc) serv.uuid
  rw [own, List.map_append, List.map_flatMap, List.nodup_append', hchrcs, List.map_singleton,
    and_iff_right (List.nodup_singleton _), List.disjoint_singleton, List.mem_flatMap]
  constructor
  · rintro ⟨hdescs, hserv⟩ chrc hchrc
    refine ⟨fun hzero ↦ hserv ⟨chrc, hchrc, ?_⟩, hdescs chrc hchrc⟩
    refine List.mem_map.mpr ⟨_, List.mem_append_right _ (List.mem_singleton_self _), ?_⟩
    rw [hzero]
  · refine fun hall ↦ ⟨fun chrc hchrc ↦ (hall chrc hchrc).2, ?_⟩
    rintro ⟨chrc, hchrc, hkey⟩
    exact (hall chrc hchrc).1 (Characteristic.fst_own hkey).2.symm

/-- The keys of all workers differ if and only if no attribute has the UUID zero. -/
theorem Application.nodup_all_iff {self : Application} (h : self.Distinct)
    (appData : WorkerData) : ((self.all appData).map Prod.fst).Nodup ↔ self.NonZero := by
  have hservs : (self.own.map Prod.fst).Nodup ↔ ∀ serv ∈ self.services, ∀ chrc ∈ serv.chars,
      chrc.uuid ≠ 0 ∧ ∀ desc ∈ chrc.descs, desc.uuid ≠ 0 := by
    rw [own, List.map_flatMap, nodup_flatMap_iff (fun key : Key ↦ key.1)
      (fun _ _ hkey ↦ Service.fst_own hkey) h.nodup]
    exact forall₂_congr fun serv hserv ↦ Service.nodup_own_iff (h.each serv hserv)
  rw [all, List.map_cons, List.nodup_cons, hservs]
  constructor
  · rintro ⟨happ, hall⟩
    exact
      { service := by
          refine fun serv hserv hzero ↦ happ (List.mem_map.mpr ?_)
          refine ⟨((serv.uuid, 0, 0), serv.started), List.mem_flatMap.mpr ⟨serv, hserv, ?_⟩, ?_⟩
          · exact List.mem_append_right _ (List.mem_singleton_self _)
          · rw [hzero]
        characteristic := fun serv hserv chrc hchrc ↦ (hall serv hserv chrc hchrc).1
        descriptor := fun serv hserv chrc hchrc ↦ (hall serv hserv chrc hchrc).2 }
  · refine fun hnz ↦ ⟨fun hmem ↦ ?_, fun serv hserv chrc hchrc ↦
      ⟨hnz.characteristic serv hserv chrc hchrc, hnz.descriptor serv hserv chrc hchrc⟩⟩
    rw [own, List.map_flatMap] at hmem
    obtain ⟨serv, hserv, hkey⟩ := List.mem_flatMap.mp hmem
    exact hnz.service serv hserv (Service.fst_own hkey).symm

end Keys

/-- No worker has been replaced only if no attribute has the UUID zero. -/
theorem nonZero_of_perm {self : Application} {app : AppWorker} {appData : WorkerData}
    (hself : self.Distinct) (h : (app.workers.iter.map ownState).Perm (self.all appData)) :
    self.NonZero := by
  refine (Application.nodup_all_iff hself appData).mp ?_
  refine ((h.map Prod.fst).nodup_iff).mp ?_
  rw [List.map_map]
  exact app.workers.nodup_fst_iter

/-- With UUIDs that are not zero, no worker is replaced. -/
theorem perm_of_nonZero {self : Application} {bus : Bus} {app : AppWorker}
    (hself : self.Distinct) (h : self.register bus = pure app) (hnz : self.NonZero) :
    ∃ appData, (app.workers.iter.map ownState).Perm (self.all appData) := by
  obtain ⟨-, workers, workers', appData, ⟨es, rfl, hown, -⟩, hincludes, happ⟩ :=
    Application.register_eq h
  have hstates := sendIncludes_ownState hincludes
  have hnodup := (Application.nodup_all_iff hself appData).mpr hnz
  rw [Application.all, List.map_cons, List.nodup_cons, ← hown, List.map_map] at hnodup
  obtain ⟨hnew, hkeys⟩ := hnodup
  have hperm : (AList.iter (AList.insertAll ∅ es)).Perm es :=
    AList.iter_insertAll_perm_iff.mpr hkeys
  have hperm' : (workers'.iter.map ownState).Perm self.own := by
    rw [hstates, ← hown]
    exact hperm.map _
  have hfst : (0, 0, 0) ∉ workers'.iter.map Prod.fst := by
    intro hmem
    refine hnew ?_
    have hkeys' : (workers'.iter.map Prod.fst).Perm (es.map Prod.fst) := by
      have := hperm'.map Prod.fst
      rwa [List.map_map, ← hown, List.map_map] at this
    exact hkeys'.subset hmem
  refine ⟨appData, ?_⟩
  rw [happ, AList.iter_insert_of_notMem hfst, List.map_cons]
  exact hperm'.cons _

/-- **The map of workers holds the worker of the application and that of each attribute,
each of them once, if and only if no attribute has the UUID zero.** -/
theorem register_own_iff {self : Application} {bus : Bus} {app : AppWorker}
    (hself : self.Distinct) (h : self.register bus = pure app) :
    (∃ appData, (app.workers.iter.map ownState).Perm (self.all appData)) ↔ self.NonZero := by
  constructor
  · rintro ⟨appData, hperm⟩
    exact nonZero_of_perm hself hperm
  · exact perm_of_nonZero hself h

/-! ## An application with one attribute of each kind -/

/-- One service, with one characteristic, with one descriptor. -/
def Application.ofUuids (serv chrc desc : UUID) : Application where
  hci := .root
  basePath := ⟨["app".toList], by decide⟩
  services :=
    [{ uuid := serv, primary := true, chars :=
      [{ uuid := chrc, flags := { read := true, write := true }, descs :=
        [{ uuid := desc, flags := { read := true } }] }] }]

/-- A bus on which everything works. -/
def Bus.working : Bus where
  owner := .ok ":1.4"
  registerApplication := .ok ()

theorem Application.distinct_ofUuids (serv chrc desc : UUID) :
    (ofUuids serv chrc desc).Distinct where
  nodup := List.nodup_singleton _
  each s hs := by
    obtain rfl := List.mem_singleton.mp hs
    refine ⟨List.nodup_singleton _, fun c hc ↦ ?_⟩
    obtain rfl := List.mem_singleton.mp hc
    exact ⟨List.nodup_singleton _⟩

theorem Application.basePath_ofUuids (serv chrc desc : UUID) :
    (ofUuids serv chrc desc).basePath ≠ .root :=
  fun h ↦ List.cons_ne_nil _ _ (congrArg ObjectPath.elements h)

theorem Application.register_ofUuids (serv chrc desc : UUID) :
    ∃ app, (ofUuids serv chrc desc).register .working = pure app :=
  register_isSome (List.cons_ne_nil _ _) (basePath_ofUuids serv chrc desc) rfl rfl (by decide) rfl

theorem Application.nonZero_ofUuids : (ofUuids ⟨1⟩ ⟨2⟩ ⟨3⟩).NonZero where
  service s hs := by
    obtain rfl := List.mem_singleton.mp hs
    decide
  characteristic s hs c hc := by
    obtain rfl := List.mem_singleton.mp hs
    obtain rfl := List.mem_singleton.mp hc
    decide
  descriptor s hs c hc d hd := by
    obtain rfl := List.mem_singleton.mp hs
    obtain rfl := List.mem_singleton.mp hc
    obtain rfl := List.mem_singleton.mp hd
    decide

/-- Two services; the first one has two characteristics, and the second one has one. -/
def Application.ofPair (serv serv' chrc chrc' : UUID) : Application where
  hci := .root
  basePath := ⟨["app".toList], by decide⟩
  services :=
    [{ uuid := serv, primary := true, chars :=
      [{ uuid := chrc, flags := { read := true } }, { uuid := chrc', flags := { write := true } }] },
      { uuid := serv', primary := false, chars := [{ uuid := chrc, flags := { read := true } }] }]

theorem Application.distinct_ofPair : (ofPair ⟨1⟩ ⟨4⟩ ⟨2⟩ ⟨3⟩).Distinct where
  nodup := (by decide : [(⟨1⟩ : UUID), ⟨4⟩].Nodup)
  each := by
    have hchrc (uuid : UUID) (flags : CharFlags) :
        ({ uuid := uuid, flags := flags } : Characteristic).Distinct := ⟨List.nodup_nil⟩
    simp only [ofPair, List.forall_mem_cons]
    refine ⟨⟨(by decide : [(⟨2⟩ : UUID), ⟨3⟩].Nodup), ?_⟩, ⟨List.nodup_singleton _, ?_⟩, by simp⟩
    · simp only [List.forall_mem_cons]
      exact ⟨hchrc _ _, hchrc _ _, by simp⟩
    · simp only [List.forall_mem_cons]
      exact ⟨hchrc _ _, by simp⟩

theorem Application.nonZero_ofPair : (ofPair ⟨1⟩ ⟨4⟩ ⟨2⟩ ⟨3⟩).NonZero where
  service := by
    simp only [ofPair, List.forall_mem_cons]
    exact ⟨by decide, by decide, by simp⟩
  characteristic := by
    simp only [ofPair, List.forall_mem_cons]
    exact ⟨⟨by decide, by decide, by simp⟩, ⟨by decide, by simp⟩, by simp⟩
  descriptor := by
    simp only [ofPair, List.forall_mem_cons]
    exact ⟨⟨by simp, by simp, by simp⟩, ⟨by simp, by simp⟩, by simp⟩

theorem Application.register_ofPair (serv serv' chrc chrc' : UUID) :
    ∃ app, (ofPair serv serv' chrc chrc').register .working = pure app :=
  register_isSome (List.cons_ne_nil _ _) (basePath_ofUuids serv chrc chrc') rfl rfl (by decide) rfl

/-- Three attributes with three UUIDs have their three workers. -/
theorem register_own_ofUuids : ∃ app,
    (Application.ofUuids ⟨1⟩ ⟨2⟩ ⟨3⟩).register .working = pure app ∧ ∃ appData,
      (app.workers.iter.map ownState).Perm ((Application.ofUuids ⟨1⟩ ⟨2⟩ ⟨3⟩).all appData) := by
  obtain ⟨app, happ⟩ := Application.register_ofUuids ⟨1⟩ ⟨2⟩ ⟨3⟩
  have hdistinct := Application.distinct_ofUuids ⟨1⟩ ⟨2⟩ ⟨3⟩
  exact ⟨app, happ, (register_own_iff hdistinct happ).mpr Application.nonZero_ofUuids⟩

/-- The worker of a descriptor with the UUID zero is replaced by that of its
characteristic. -/
theorem register_replaces_worker : ¬∀ (self : Application) (bus : Bus) (app : AppWorker),
    self.Distinct → self.register bus = pure app →
      ∃ appData, (app.workers.iter.map ownState).Perm (self.all appData) := by
  intro hall
  obtain ⟨app, happ⟩ := Application.register_ofUuids ⟨1⟩ ⟨2⟩ 0
  have hdistinct := Application.distinct_ofUuids ⟨1⟩ ⟨2⟩ 0
  obtain ⟨appData, hperm⟩ := hall _ _ app hdistinct happ
  have hnz := nonZero_of_perm hdistinct hperm
  exact hnz.descriptor _ (List.mem_singleton_self _) _ (List.mem_singleton_self _) _
    (List.mem_singleton_self _) rfl

end Rustable.Gatt.Server
