import Rustable.Gatt.Server.AppWorker

/-!
# The tree of attributes

Every attribute of an application has a place in the tree, given by its number among the
children of its parent and by the place of the parent.  Its place determines the path
`register` installs, and no two places share a path (`Place.path_injective`).
-/

namespace Rustable.Gatt.Server

open DBus

/-- The path of the child of the kind with the number. -/
def child (parent : ObjectPath) {kind : String} (hkind : IsElement kind.toList) (i : Nat) :
    ObjectPath := parent.push _ (isElement_child hkind i)

theorem child_ne_root (parent : ObjectPath) {kind : String} (hkind : IsElement kind.toList)
    (i : Nat) : child parent hkind i ≠ .root := ObjectPath.push_ne_root _ _

theorem parent_child (parent : ObjectPath) {kind : String} (hkind : IsElement kind.toList)
    (i : Nat) : (child parent hkind i).parent = some parent := ObjectPath.parent_push _ _

theorem isElement_service : IsElement "service".toList := by decide

theorem isElement_char : IsElement "char".toList := by decide

theorem isElement_desc : IsElement "desc".toList := by decide

/-- The place of an attribute. -/
inductive Place
  | serv (i : Nat)
  | chrc (i j : Nat)
  | desc (i j k : Nat)
deriving DecidableEq

namespace Place

/-- The path below the path of the application. -/
def path (base : ObjectPath) : Place → ObjectPath
  | serv i => child base isElement_service i
  | chrc i j => child (child base isElement_service i) isElement_char j
  | desc i j k => child (child (child base isElement_service i) isElement_char j) isElement_desc k

variable {base : ObjectPath}

theorem path_ne_root (pl : Place) : pl.path base ≠ .root := by
  cases pl with
  | serv i => exact child_ne_root base isElement_service i
  | chrc i j => exact child_ne_root _ isElement_char j
  | desc i j k => exact child_ne_root _ isElement_desc k

theorem child_inj {p q : ObjectPath} {kind : String} {hkind : IsElement kind.toList} {i j : Nat} :
    child p hkind i = child q hkind j ↔ p = q ∧ i = j := by
  rw [child, child, ObjectPath.push_inj, List.append_cancel_left_eq]
  exact and_congr_right fun _ ↦ (Text.hex_injective .lower 4).eq_iff

/-- A path is longer than that of the parent. -/
theorem length_child (p : ObjectPath) {kind : String} (hkind : IsElement kind.toList) (i : Nat) :
    (child p hkind i).elements.length = p.elements.length + 1 := List.length_append

/-- **No two places share a path**, which is not that of the application either. -/
theorem path_injective (base : ObjectPath) : Function.Injective (path base) := by
  intro pl pl' h
  have hlen := congrArg (fun p : ObjectPath ↦ p.elements.length) h
  cases pl <;> cases pl' <;> simp only [path, length_child] at h hlen <;> try omega
  case serv.serv i i' => rw [(child_inj.mp h).2]
  case chrc.chrc i j i' j' =>
    obtain ⟨hserv, rfl⟩ := child_inj.mp h
    rw [(child_inj.mp hserv).2]
  case desc.desc i j k i' j' k' =>
    obtain ⟨hchrc, rfl⟩ := child_inj.mp h
    obtain ⟨hserv, rfl⟩ := child_inj.mp hchrc
    rw [(child_inj.mp hserv).2]

theorem path_ne_base (pl : Place) : pl.path base ≠ base := by
  intro h
  have hlen := congrArg (fun p : ObjectPath ↦ p.elements.length) h
  cases pl with
  | serv | chrc | desc =>
      simp only [path, length_child] at hlen
      omega

end Place

/-! ## The attributes in their places -/

/-- The descriptors of a characteristic, and the characteristic: the place, the key and the
state of the worker of each. -/
def Characteristic.placed (serv : UUID) (i : Nat) (chrc : Characteristic) (j : Nat) :
    List (Place × Key × WorkerState) :=
  (chrc.descs.zipIdx.map fun x ↦ (.desc i j x.2, (serv, chrc.uuid, x.1.uuid), .desc x.1)) ++
    [(.chrc i j, (serv, chrc.uuid, 0), chrc.started)]

/-- The characteristics of a service with their descriptors, and the service. -/
def Service.placed (serv : Service) (i : Nat) : List (Place × Key × WorkerState) :=
  (serv.chars.zipIdx.flatMap fun x ↦ x.1.placed serv.uuid i x.2) ++
    [(.serv i, (serv.uuid, 0, 0), serv.started)]

/-- All attributes. -/
def Application.placed (self : Application) : List (Place × Key × WorkerState) :=
  self.services.zipIdx.flatMap fun x ↦ x.1.placed x.2

/-- The worker of an attribute in its place, as it is started. -/
def entry (base : ObjectPath) (e : Place × Key × WorkerState) : Key × Worker :=
  (e.2.1, { state := e.2.2, path := e.1.path base })

section Loops

variable {base : ObjectPath} {workers workers' : Workers}

/-- The loop over the descriptors starts those that are listed. -/
theorem startDescs_placed {serv chrc : UUID} {i j : Nat} {descs : List Descriptor} {k : Nat}
    (h : startDescs serv chrc ((Place.chrc i j).path base) k descs workers = some workers') :
    workers' = workers.insertAll (((descs.zipIdx k).map fun x ↦
      (Place.desc i j x.2, (serv, chrc, x.1.uuid), WorkerState.desc x.1)).map (entry base)) := by
  induction descs generalizing k workers with
  | nil => exact (Option.some.inj h).symm
  | cons desc descs ih =>
      rw [startDescs, childPath_eq (Place.path_ne_root _) isElement_desc] at h
      exact ih h

/-- So does the loop over the characteristics. -/
theorem startChrcs_placed {serv : UUID} {i : Nat} {chrcs : List Characteristic} {j : Nat}
    (h : startChrcs serv ((Place.serv i).path base) j chrcs workers = some workers') :
    workers' = workers.insertAll (((chrcs.zipIdx j).flatMap fun x ↦
      x.1.placed serv i x.2).map (entry base)) := by
  induction chrcs generalizing j workers with
  | nil => exact (Option.some.inj h).symm
  | cons chrc chrcs ih =>
      obtain ⟨path, hpath, h⟩ := Option.bind_eq_some_iff.mp h
      obtain rfl := Option.some.inj
        ((childPath_eq (Place.path_ne_root _) isElement_char j).symm.trans hpath)
      obtain ⟨workers₁, hdescs, hrest⟩ := Option.bind_eq_some_iff.mp h
      rw [ih hrest, startDescs_placed hdescs, List.zipIdx_cons, List.flatMap_cons, List.map_append,
        AList.insertAll_append, Characteristic.placed, List.map_append, AList.insertAll_append]
      rfl

/-- So does the loop over the services. -/
theorem startServs_placed (hbase : base ≠ .root) {servs : List Service} {i : Nat}
    (h : startServs base i servs workers = some workers') :
    workers' = workers.insertAll (((servs.zipIdx i).flatMap fun x ↦
      x.1.placed x.2).map (entry base)) := by
  induction servs generalizing i workers with
  | nil => exact (Option.some.inj h).symm
  | cons serv servs ih =>
      obtain ⟨path, hpath, h⟩ := Option.bind_eq_some_iff.mp h
      obtain rfl := Option.some.inj ((childPath_eq hbase isElement_service i).symm.trans hpath)
      obtain ⟨workers₁, hchrcs, hrest⟩ := Option.bind_eq_some_iff.mp h
      rw [ih hrest, startChrcs_placed hchrcs, List.zipIdx_cons, List.flatMap_cons, List.map_append,
        AList.insertAll_append, Service.placed, List.map_append, AList.insertAll_append]
      rfl

end Loops

/-- An application that has been registered is below the root. -/
theorem Application.basePath_ne_root {self : Application} {workers : Workers}
    (hne : self.services ≠ []) (h : startServs self.basePath 0 self.services ∅ = some workers) :
    self.basePath ≠ .root := by
  intro hroot
  obtain ⟨serv, servs, hservs⟩ := List.exists_cons_of_ne_nil hne
  rw [hroot, hservs, startServs, childPath, ObjectPath.tryFrom_root_append] at h
  contradiction

/-! ## No attribute is lost -/

/-- The attributes with their keys, at their places. -/
inductive Application.At (self : Application) : Place → Key → WorkerState → Prop
  | serv {i : Nat} {serv : Service} (hserv : self.services[i]? = some serv) :
      At self (.serv i) (serv.uuid, 0, 0) serv.started
  | chrc {i j : Nat} {serv : Service} {chrc : Characteristic}
      (hserv : self.services[i]? = some serv) (hchrc : serv.chars[j]? = some chrc) :
      At self (.chrc i j) (serv.uuid, chrc.uuid, 0) chrc.started
  | desc {i j k : Nat} {serv : Service} {chrc : Characteristic} {desc : Descriptor}
      (hserv : self.services[i]? = some serv) (hchrc : serv.chars[j]? = some chrc)
      (hdesc : chrc.descs[k]? = some desc) :
      At self (.desc i j k) (serv.uuid, chrc.uuid, desc.uuid) (.desc desc)

namespace Application

variable {self : Application}

theorem mem_placed {pl : Place} {key : Key} {st : WorkerState} :
    (pl, key, st) ∈ self.placed ↔ self.At pl key st := by
  constructor
  · intro h
    obtain ⟨⟨serv, i⟩, hserv, h⟩ := List.mem_flatMap.mp h
    have hserv := List.mem_zipIdx_iff_getElem?.mp hserv
    rcases List.mem_append.mp h with h | h
    · obtain ⟨⟨chrc, j⟩, hchrc, h⟩ := List.mem_flatMap.mp h
      have hchrc := List.mem_zipIdx_iff_getElem?.mp hchrc
      rcases List.mem_append.mp h with h | h
      · obtain ⟨⟨desc, k⟩, hdesc, heq⟩ := List.mem_map.mp h
        obtain ⟨rfl, rfl, rfl⟩ := heq
        exact .desc hserv hchrc (List.mem_zipIdx_iff_getElem?.mp hdesc)
      · obtain ⟨rfl, rfl, rfl⟩ := List.mem_singleton.mp h
        exact .chrc hserv hchrc
    · obtain ⟨rfl, rfl, rfl⟩ := List.mem_singleton.mp h
      exact .serv hserv
  · rintro (hserv | ⟨hserv, hchrc⟩ | ⟨hserv, hchrc, hdesc⟩)
    · refine List.mem_flatMap.mpr ⟨_, List.mk_mem_zipIdx_iff_getElem?.mpr hserv, ?_⟩
      exact List.mem_append_right _ (List.mem_singleton_self _)
    · refine List.mem_flatMap.mpr ⟨_, List.mk_mem_zipIdx_iff_getElem?.mpr hserv, ?_⟩
      refine List.mem_append_left _ (List.mem_flatMap.mpr ?_)
      refine ⟨_, List.mk_mem_zipIdx_iff_getElem?.mpr hchrc, ?_⟩
      exact List.mem_append_right _ (List.mem_singleton_self _)
    · refine List.mem_flatMap.mpr ⟨_, List.mk_mem_zipIdx_iff_getElem?.mpr hserv, ?_⟩
      refine List.mem_append_left _ (List.mem_flatMap.mpr ?_)
      refine ⟨_, List.mk_mem_zipIdx_iff_getElem?.mpr hchrc, ?_⟩
      refine List.mem_append_left _ (List.mem_map.mpr ?_)
      exact ⟨_, List.mk_mem_zipIdx_iff_getElem?.mpr hdesc, rfl⟩

theorem map_snd_zipIdx {α β γ : Type} {f : α → Nat → List (β × γ)} {g : α → List γ}
    (h : ∀ a i, (f a i).map Prod.snd = g a) (l : List α) (i : Nat) :
    ((l.zipIdx i).flatMap fun x ↦ f x.1 x.2).map Prod.snd = l.flatMap g := by
  induction l generalizing i with
  | nil => rfl
  | cons a l ih =>
      rw [List.zipIdx_cons, List.flatMap_cons, List.map_append, h, ih, List.flatMap_cons]

/-- The attributes in their places are those that have a worker. -/
theorem map_snd_placed (self : Application) : self.placed.map Prod.snd = self.own := by
  refine map_snd_zipIdx (fun serv i ↦ ?_) self.services 0
  rw [Service.placed, List.map_append, Service.own]
  refine congrArg (· ++ _) (map_snd_zipIdx (fun chrc j ↦ ?_) serv.chars 0)
  rw [Characteristic.placed, List.map_append, Characteristic.own, List.map_map]
  refine congrArg (· ++ _) ?_
  conv_rhs => rw [← List.zipIdx_map_fst 0 chrc.descs, List.map_map]
  rfl

/-- With UUIDs that are distinct and not zero, the keys of the attributes differ from each other
and from that of the application. -/
theorem nodup_keys (hself : self.Distinct) (hnz : self.NonZero) :
    (self.placed.map (·.2.1)).Nodup ∧ (0, 0, 0) ∉ self.placed.map (·.2.1) := by
  have hnodup := (nodup_all_iff hself ⟨[], 0, none⟩).mpr hnz
  rw [all, List.map_cons, List.nodup_cons, ← map_snd_placed, List.map_map] at hnodup
  exact hnodup.symm

/-- A key is that of one attribute. -/
theorem At.unique (hself : self.Distinct) (hnz : self.NonZero) {pl pl' : Place} {key : Key}
    {st st' : WorkerState} (h : self.At pl key st) (h' : self.At pl' key st') :
    pl = pl' ∧ st = st' := by
  have hinj := List.inj_on_of_nodup_map (nodup_keys hself hnz).1 (mem_placed.mpr h)
    (mem_placed.mpr h') rfl
  obtain ⟨rfl, hrest⟩ := Prod.mk.inj hinj
  exact ⟨rfl, (Prod.mk.inj hrest).2⟩

theorem At.ne_zero (hself : self.Distinct) (hnz : self.NonZero) {pl : Place} {key : Key}
    {st : WorkerState} (h : self.At pl key st) : key ≠ (0, 0, 0) := by
  rintro rfl
  exact (nodup_keys hself hnz).2 (List.mem_map.mpr ⟨_, mem_placed.mpr h, rfl⟩)

/-- A place is that of one attribute. -/
theorem At.key_unique {pl : Place} {key key' : Key} {st st' : WorkerState}
    (h : self.At pl key st) (h' : self.At pl key' st') : key = key' ∧ st = st' := by
  cases h with
  | serv hserv =>
      cases h' with
      | serv hserv' =>
          obtain rfl := Option.some.inj (hserv.symm.trans hserv')
          exact ⟨rfl, rfl⟩
  | chrc hserv hchrc =>
      cases h' with
      | chrc hserv' hchrc' =>
          obtain rfl := Option.some.inj (hserv.symm.trans hserv')
          obtain rfl := Option.some.inj (hchrc.symm.trans hchrc')
          exact ⟨rfl, rfl⟩
  | desc hserv hchrc hdesc =>
      cases h' with
      | desc hserv' hchrc' hdesc' =>
          obtain rfl := Option.some.inj (hserv.symm.trans hserv')
          obtain rfl := Option.some.inj (hchrc.symm.trans hchrc')
          obtain rfl := Option.some.inj (hdesc.symm.trans hdesc')
          exact ⟨rfl, rfl⟩

end Application

/-! ## What is registered -/

/-- The path of the object that goes by the key. -/
def AppWorker.pathOf (self : AppWorker) (key : Key) : Option ObjectPath :=
  (self.workers.lookup key).map (·.path)

/-- What the worker of a service is sent while it is registered. -/
def Service.sentPaths (serv : Service) (paths : List ObjectPath) : List WorkerMsg :=
  if serv.includes = [] then [] else [.includedPaths paths]

section Includes

variable {workers workers' : Workers}

/-- A message changes no path. -/
theorem path_push (workers : Workers) (key : Key) (msg : WorkerMsg) (key' : Key) :
    ((workers.modify key (Worker.push msg)).lookup key').map (·.path) =
      (workers.lookup key').map (·.path) := by
  rw [AList.lookup_modify, Option.map_map]
  refine congrArg (Option.map · _) (funext fun worker ↦ ?_)
  simp only [Function.comp_apply]
  split
  · rfl
  · rfl

/-- Sending the paths of included services changes queues only. -/
theorem sendIncludes_path {included : List (UUID × List UUID)}
    (h : sendIncludes included workers = some workers') (key : Key) :
    (workers'.lookup key).map (·.path) = (workers.lookup key).map (·.path) := by
  induction included generalizing workers with
  | nil =>
      obtain rfl := Option.some.inj h
      rfl
  | cons e included ih =>
      obtain ⟨paths, -, h⟩ := Option.bind_eq_some_iff.mp h
      obtain ⟨_, -, h⟩ := Option.bind_eq_some_iff.mp h
      rw [ih h, path_push]

/-- A worker that is not among those that are sent paths stays as it is. -/
theorem sendIncludes_lookup_of_notMem {included : List (UUID × List UUID)}
    (h : sendIncludes included workers = some workers') {key : Key}
    (hkey : ∀ e ∈ included, key ≠ (e.1, 0, 0)) : workers'.lookup key = workers.lookup key := by
  induction included generalizing workers with
  | nil =>
      obtain rfl := Option.some.inj h
      rfl
  | cons e included ih =>
      obtain ⟨paths, -, h⟩ := Option.bind_eq_some_iff.mp h
      obtain ⟨_, -, h⟩ := Option.bind_eq_some_iff.mp h
      rw [ih h fun e' he' ↦ hkey e' (List.mem_cons_of_mem e he'), AList.lookup_modify]
      cases workers.lookup key with
      | none => rfl
      | some worker => rw [Option.map_some, if_neg (hkey e List.mem_cons_self)]

/-- A worker that is sent paths is sent those of the included services, in order. -/
theorem sendIncludes_lookup {included : List (UUID × List UUID)}
    (h : sendIncludes included workers = some workers') (hnodup : (included.map Prod.fst).Nodup)
    {e : UUID × List UUID} (he : e ∈ included) :
    ∃ paths, e.2.mapM (fun u ↦ (workers.lookup (u, 0, 0)).map (·.path)) = some paths ∧
      workers'.lookup (e.1, 0, 0) =
        (workers.lookup (e.1, 0, 0)).map (Worker.push (.includedPaths paths)) := by
  induction included generalizing workers with
  | nil => contradiction
  | cons e' included ih =>
      obtain ⟨hnew, hnodup⟩ := List.nodup_cons.mp hnodup
      obtain ⟨paths, hpaths, h⟩ := Option.bind_eq_some_iff.mp h
      obtain ⟨_, -, h⟩ := Option.bind_eq_some_iff.mp h
      rcases List.mem_cons.mp he with rfl | he
      · refine ⟨paths, hpaths, ?_⟩
        rw [sendIncludes_lookup_of_notMem h fun e' he' heq ↦ ?_, AList.lookup_modify]
        · simp only [if_true]
        · exact hnew (List.mem_map.mpr ⟨e', he', (congrArg Prod.fst heq).symm⟩)
      · have hne : e.1 ≠ e'.1 := fun heq ↦ hnew (heq ▸ List.mem_map_of_mem he)
        obtain ⟨paths', hpaths', hlookup⟩ := ih h hnodup he
        have hkey : ((e.1, 0, 0) : Key) ≠ (e'.1, 0, 0) := fun heq ↦ hne (Prod.mk.inj heq).1
        simp only [path_push] at hpaths'
        refine ⟨paths', hpaths', hlookup.trans ?_⟩
        rw [AList.lookup_modify]
        cases workers.lookup (e.1, 0, 0) with
        | none => rfl
        | some worker => rw [Option.map_some, if_neg hkey]

end Includes

/-- What `register` installs. -/
structure Application.Installed (a : Application) (app : AppWorker) : Prop where
  root : ∃ appData, app.workers.lookup (0, 0, 0) =
      some { state := .app { self := { a with services := [] }, appData := appData }
             path := a.basePath } ∧
    appData.servCnt = a.services.length ∧ appData.senders.Nodup ∧
    ∀ key, key ∈ appData.senders ↔ ∃ pl st, a.At pl key st
  serv : ∀ i serv, a.services[i]? = some serv → ∃ paths,
    serv.includes.mapM (fun u ↦ app.pathOf (u, 0, 0)) = some paths ∧
      app.workers.lookup (serv.uuid, 0, 0) =
        some { state := serv.started
               path := (Place.serv i).path a.basePath
               queue := serv.sentPaths paths }
  other : ∀ pl key st, a.At pl key st → st.kind ≠ .serv →
    app.workers.lookup key = some { state := st, path := pl.path a.basePath }
  only : ∀ key, (app.workers.lookup key).isSome → key = (0, 0, 0) ∨ ∃ pl st, a.At pl key st

namespace Application

variable {self : Application} {bus : Bus} {app : AppWorker}

/-- What is inserted by the loops. -/
theorem lookup_placed (hself : self.Distinct) (hnz : self.NonZero) {key : Key} {worker : Worker} :
    (AList.insertAll ∅ (self.placed.map (entry self.basePath)) : Workers).lookup key =
        some worker ↔
      ∃ pl st, self.At pl key st ∧ worker = { state := st, path := pl.path self.basePath } := by
  have hnodup : ((self.placed.map (entry self.basePath)).map Prod.fst).Nodup := by
    rw [List.map_map]
    exact (nodup_keys hself hnz).1
  rw [AList.lookup_insertAll_iff hnodup, List.mem_map]
  constructor
  · rintro ⟨⟨pl, key, st⟩, hmem, heq⟩
    obtain ⟨rfl, rfl⟩ := Prod.mk.inj heq
    exact ⟨pl, st, mem_placed.mp hmem, rfl⟩
  · rintro ⟨pl, st, hat, rfl⟩
    exact ⟨(pl, key, st), mem_placed.mpr hat, rfl⟩

theorem nodup_includes (hself : self.Distinct) :
    ((includes self.services).map Prod.fst).Nodup := by
  rw [includes, List.map_map]
  exact hself.nodup.sublist (List.filter_sublist.map _)

/-- A service that includes others is sent their paths, -/
theorem mem_includes {i : Nat} {serv : Service} (hserv : self.services[i]? = some serv)
    (hsome : serv.includes ≠ []) : (serv.uuid, serv.includes) ∈ includes self.services := by
  refine List.mem_map.mpr ⟨serv, List.mem_filter.mpr ⟨List.mem_of_getElem? hserv, ?_⟩, rfl⟩
  simpa using hsome

/-- and one that includes none is sent nothing. -/
theorem notMem_includes (hself : self.Distinct) {i : Nat} {serv : Service}
    (hserv : self.services[i]? = some serv) (hnil : serv.includes = []) :
    ∀ e ∈ includes self.services, (serv.uuid, 0, 0) ≠ ((e.1, 0, 0) : Key) := by
  rintro e he heq
  obtain ⟨serv', hserv', rfl⟩ := List.mem_map.mp he
  obtain ⟨hmem, hsome⟩ := List.mem_filter.mp hserv'
  obtain rfl : serv' = serv := List.inj_on_of_nodup_map hself.nodup hmem
    (List.mem_of_getElem? hserv) (Prod.mk.inj heq).1.symm
  rw [hnil] at hsome
  contradiction

/-- **What `register` installs**: a worker for each attribute, at the path of its place. -/
theorem installed_of_register (hself : self.Distinct) (hnz : self.NonZero)
    (h : self.register bus = pure app) : self.Installed app := by
  obtain ⟨hne, filter, workers, workers', -, hservs, hincludes, rfl⟩ := register_spec h
  have hbase := basePath_ne_root hne hservs
  have hworkers : workers = AList.insertAll ∅ (self.placed.map (entry self.basePath)) :=
    startServs_placed hbase hservs
  have hlookup {key : Key} {worker : Worker} : workers.lookup key = some worker ↔
      ∃ pl st, self.At pl key st ∧ worker = { state := st, path := pl.path self.basePath } := by
    rw [hworkers]
    exact lookup_placed hself hnz
  -- The worker of the application is inserted last, under a key that is not taken.
  have hinsert {pl : Place} {key : Key} {st : WorkerState} (hat : self.At pl key st) :
      (self.registered filter workers').workers.lookup key = workers'.lookup key :=
    AList.lookup_insert_ne (hat.ne_zero hself hnz)
  have hpath (key : Key) (path : ObjectPath) (hkey : (workers.lookup key).map (·.path) = some path) :
      (self.registered filter workers').pathOf key = some path := by
    obtain ⟨worker, hworker, -⟩ := Option.map_eq_some_iff.mp hkey
    obtain ⟨pl, st, hat, -⟩ := hlookup.mp hworker
    rw [AppWorker.pathOf, hinsert hat, sendIncludes_path hincludes, hkey]
  have hkeys (key : Key) : (workers'.lookup key).isSome ↔ ∃ pl st, self.At pl key st := by
    have hsome := congrArg Option.isSome (sendIncludes_path hincludes key)
    rw [Option.isSome_map, Option.isSome_map] at hsome
    rw [hsome, Option.isSome_iff_exists]
    constructor
    · rintro ⟨worker, hworker⟩
      obtain ⟨pl, st, hat, -⟩ := hlookup.mp hworker
      exact ⟨pl, st, hat⟩
    · rintro ⟨pl, st, hat⟩
      exact ⟨_, hlookup.mpr ⟨pl, st, hat, rfl⟩⟩
  constructor
  · refine ⟨_, AList.lookup_insert _, rfl, workers'.nodupKeys, fun key ↦ ?_⟩
    rw [← hkeys]
    exact (AList.lookup_isSome).symm
  · intro i serv hserv
    have hat : self.At (.serv i) (serv.uuid, 0, 0) serv.started := .serv hserv
    have hworker := hlookup.mpr ⟨_, _, hat, rfl⟩
    rw [hinsert hat]
    by_cases hnil : serv.includes = []
    · refine ⟨[], by rw [hnil]; rfl, ?_⟩
      rw [sendIncludes_lookup_of_notMem hincludes (notMem_includes hself hserv hnil), hworker,
        Service.sentPaths, if_pos hnil]
    · obtain ⟨paths, hpaths, hsent⟩ :=
        sendIncludes_lookup hincludes (nodup_includes hself) (mem_includes hserv hnil)
      refine ⟨paths, ?_, ?_⟩
      · exact mapM_mono (fun u path ↦ hpath (u, 0, 0) path) hpaths
      · rw [hsent, hworker, Service.sentPaths, if_neg hnil]
        rfl
  · intro pl key st hat hkind
    rw [hinsert hat, sendIncludes_lookup_of_notMem hincludes]
    · exact hlookup.mpr ⟨pl, st, hat, rfl⟩
    · rintro e he rfl
      obtain ⟨serv, hserv, rfl⟩ := List.mem_map.mp he
      obtain ⟨i, hi⟩ := List.mem_iff_getElem?.mp (List.mem_of_mem_filter hserv)
      obtain ⟨-, rfl⟩ := hat.unique hself hnz (.serv hi)
      exact hkind rfl
  · intro key hkey
    by_cases hzero : key = (0, 0, 0)
    · exact .inl hzero
    · refine .inr ((hkeys key).mp ?_)
      have hlook : (self.registered filter workers').workers.lookup key = workers'.lookup key :=
        AList.lookup_insert_ne hzero
      rwa [hlook] at hkey

end Application

end Rustable.Gatt.Server
