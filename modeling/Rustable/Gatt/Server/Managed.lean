import Rustable.Gatt.Server.Identity

/-!
# Managed objects

The object manager lists the objects of all attributes: for each of them, at its path, the one
interface that it has, with all its properties (`WorkerState.listing`).  The paths that `register`
installs, the children that are reported and the objects that are listed describe one tree
(`one_tree`).
-/

namespace Rustable.Gatt.Server

open DBus

/-! ## The objects of one attribute -/

/-- The property of the interface has the value. -/
def HasProp (objects : IfAndProps) (interface prop : String) (v : BluezOptions) : Prop :=
  ∃ props, objects.lookup interface = some props ∧ props.lookup prop = some v

/-- The objects of an attribute with one interface. -/
def oneInterface (interface : String) (props : List (String × BluezOptions)) : IfAndProps :=
  (∅ : IfAndProps).insert interface ((∅ : PropMap).insertAll props)

theorem hasProp_oneInterface {interface prop : String} {props : List (String × BluezOptions)}
    {v : BluezOptions} (hkeys : (props.map Prod.fst).Nodup) (h : (prop, v) ∈ props) :
    HasProp (oneInterface interface props) interface prop v :=
  ⟨_, AList.lookup_insert _, (AList.lookup_insertAll_iff hkeys).mpr h⟩

/-- The properties of a service. -/
def ServData.shown (s : ServData) : List (String × BluezOptions) :=
  [(uuidStr, .ownedStr (String.ofList s.uuid.toChars)), (pryStr, .bool s.primary),
    (handleStr, .u16 s.handle), (incStr, .ownedPaths s.includes)]

/-- The properties of a characteristic of the service at `parent`. -/
def ChrcData.shown (parent : ObjectPath) (s : ChrcData) : List (String × BluezOptions) :=
  [(uuidStr, .ownedStr (String.ofList s.uuid.toChars)), (handleStr, .u16 s.handle),
    (servStr, .ownedPath parent), (valStr, .ownedBuf s.value.toValue.1.bytes),
    (naStr, .bool (s.notify ≠ .none)), (noStr, .bool (s.notify = .signal)),
    (flagStr, .flags s.flags.toStrings), (waStr, .bool s.writeFd.isSome)]

/-- The properties of a descriptor of the characteristic at `parent`. -/
def Descriptor.shown (parent : ObjectPath) (s : Descriptor) : List (String × BluezOptions) :=
  [(uuidStr, .ownedStr (String.ofList s.uuid.toChars)), (handleStr, .u16 s.handle),
    (charStr, .ownedPath parent), (valStr, .ownedBuf s.value.toValue.1.bytes),
    (flagStr, .flags s.flags.toStrings)]

theorem ServData.nodup_shown (s : ServData) : (s.shown.map Prod.fst).Nodup :=
  (by decide : [uuidStr, pryStr, handleStr, incStr].Nodup)

theorem ChrcData.nodup_shown (parent : ObjectPath) (s : ChrcData) :
    ((s.shown parent).map Prod.fst).Nodup :=
  (by decide : [uuidStr, handleStr, servStr, valStr, naStr, noStr, flagStr, waStr].Nodup)

theorem Descriptor.nodup_shown (parent : ObjectPath) (s : Descriptor) :
    ((s.shown parent).map Prod.fst).Nodup :=
  (by decide : [uuidStr, handleStr, charStr, valStr, flagStr].Nodup)

open Properties (collect_cons getAllInterfaces getAllInterfaces_single interfaces)

theorem ServData.getAllInterfaces_eq (path : ObjectPath) (s : ServData) :
    getAllInterfaces path s = some (oneInterface bluezSerIf s.shown, s) := by
  have hinterfaces : interfaces ServData =
      [(bluezSerIf, [uuidStr, pryStr, handleStr, incStr])] := rfl
  refine getAllInterfaces_single hinterfaces ?_
  refine (collect_cons rfl _ _).trans ?_
  refine (collect_cons rfl _ _).trans ?_
  refine (collect_cons rfl _ _).trans ?_
  exact collect_cons rfl _ _

/-- Reading all properties runs the value callback once. -/
theorem ChrcData.getAllInterfaces_eq {path parent : ObjectPath}
    (hparent : path.parent = some parent) (s : ChrcData) : getAllInterfaces path s =
      some (oneInterface bluezChrIf (s.shown parent), { s with value := s.value.toValue.2 }) := by
  have hinterfaces : interfaces ChrcData =
      [(bluezChrIf, [uuidStr, handleStr, servStr, valStr, naStr, noStr, flagStr, waStr])] := rfl
  have hservice : ChrcData.getInner path bluezChrIf servStr s =
      some (.ok (.ownedPath parent), s) := by
    rw [ChrcData.getInner, hparent]
    rfl
  refine getAllInterfaces_single hinterfaces ?_
  refine (collect_cons rfl _ _).trans ?_
  refine (collect_cons rfl _ _).trans ?_
  refine (collect_cons hservice _ _).trans ?_
  refine (collect_cons rfl _ _).trans ?_
  refine (collect_cons rfl _ _).trans ?_
  refine (collect_cons rfl _ _).trans ?_
  refine (collect_cons rfl _ _).trans ?_
  exact collect_cons rfl _ _

theorem Descriptor.getAllInterfaces_eq {path parent : ObjectPath}
    (hparent : path.parent = some parent) (s : Descriptor) : getAllInterfaces path s =
      some (oneInterface bluezDesIf (s.shown parent), { s with value := s.value.toValue.2 }) := by
  have hinterfaces : interfaces Descriptor =
      [(bluezDesIf, [uuidStr, handleStr, charStr, valStr, flagStr])] := rfl
  have hcharacteristic : Descriptor.getInner path bluezDesIf charStr s =
      some (.ok (.ownedPath parent), s) := by
    rw [Descriptor.getInner, hparent]
    rfl
  refine getAllInterfaces_single hinterfaces ?_
  refine (collect_cons rfl _ _).trans ?_
  refine (collect_cons rfl _ _).trans ?_
  refine (collect_cons hcharacteristic _ _).trans ?_
  refine (collect_cons rfl _ _).trans ?_
  exact collect_cons rfl _ _

/-- What an attribute at the path lists: the interface of its kind, with its properties. -/
def WorkerState.listing (path : ObjectPath) : WorkerState → Option IfAndProps
  | app _ => none
  | serv s => some (oneInterface bluezSerIf s.servData.shown)
  | chrc s => path.parent.map fun parent ↦ oneInterface bluezChrIf (s.shown parent)
  | desc s => path.parent.map fun parent ↦ oneInterface bluezDesIf (s.shown parent)

/-- **What an attribute answers the object manager.** -/
theorem WorkerState.onMsg_listing {io : Io} (hio : io.receiverAlive = true) {path : ObjectPath}
    (hpath : path ≠ .root) {s : WorkerState} (hs : s.kind ≠ .app) (sender : ReplyTo) :
    ∃ objects s', s.onMsg io path (.objMgr sender) =
      .done .next s' [.answer sender (.objects path objects)] ∧ s.listing path = some objects := by
  obtain ⟨parent, hparent⟩ := ObjectPath.parent_isSome hpath
  cases s with
  | app s => contradiction
  | serv s =>
      have hrun := ServData.getAllInterfaces_eq path s.servData
      exact ⟨_, _, congrArg (·.mapState serv) (ServWorker.onMsg_objMgr hio hrun sender), rfl⟩
  | chrc s =>
      have hrun := ChrcData.getAllInterfaces_eq hparent s
      refine ⟨_, _, congrArg (·.mapState chrc) (ChrcData.onMsg_objMgr hio hrun sender), ?_⟩
      rw [listing, hparent, Option.map_some]
  | desc s =>
      have hrun := Descriptor.getAllInterfaces_eq hparent s
      refine ⟨_, _, congrArg (·.mapState desc) (Descriptor.onMsg_objMgr hio hrun sender), ?_⟩
      rw [listing, hparent, Option.map_some]

/-- The objects of an attribute are at its path. -/
theorem Worker.objects_listing {worker : Worker} (hkind : worker.state.kind ≠ .app)
    (hpath : worker.path ≠ .root) {p : ObjectPath} {objects : IfAndProps}
    (h : worker.objects = some (p, objects)) :
    p = worker.path ∧ worker.state.listing worker.path = some objects := by
  have hio : ({} : Io).receiverAlive = true := rfl
  obtain ⟨objects', s', hrun, hlisting⟩ := WorkerState.onMsg_listing hio hpath hkind 0
  rw [Worker.objects] at h
  split at h
  · rw [hrun] at h
    obtain ⟨rfl, rfl⟩ := Prod.mk.inj (Option.some.inj h)
    exact ⟨rfl, hlisting⟩
  · contradiction

/-! ## The reply -/

/-- The body of a reply of the object manager holds what the workers have answered. -/
theorem WorkerData.handleObjMgr_done {asked : Asked} {call m : MarshalledMessage}
    {s s' : WorkerData} {out : List Out} (h : handleObjMgr asked call s = .done m s' out) :
    ∃ objects, s.senders.mapM asked = some objects ∧ out = [] ∧
      Body.pushParam [] (AList.insertAll ∅ objects : HashMap ObjectPath IfAndProps) =
        some m.body := by
  rw [handleObjMgr, Act.read_bind] at h
  cases hobjects : s.senders.mapM asked with
  | none =>
      rw [hobjects] at h
      contradiction
  | some objects =>
      rw [hobjects, Act.unwrap_some, Act.pure_bind] at h
      cases hbody : Body.pushParam [] (AList.insertAll ∅ objects : HashMap ObjectPath IfAndProps) with
      | none =>
          have hpush : call.dynheader.makeResponse.body.pushParam
              (AList.insertAll ∅ objects : HashMap ObjectPath IfAndProps) = none := hbody
          simp only [hpush] at h
          contradiction
      | some body =>
          have hpush : call.dynheader.makeResponse.body.pushParam
              (AList.insertAll ∅ objects : HashMap ObjectPath IfAndProps) = some body := hbody
          simp only [hpush, Act.unwrap_some, Act.pure_bind] at h
          obtain ⟨rfl, -, rfl⟩ := Ran.done.inj h
          exact ⟨objects, rfl, rfl, hbody⟩

theorem WorkerData.handleObjMgr_eq {asked : Asked} {call : MarshalledMessage} {s : WorkerData}
    {objects : List (ObjectPath × IfAndProps)} (hobjects : s.senders.mapM asked = some objects)
    {body : Body} (hbody : Body.pushParam []
      (AList.insertAll ∅ objects : HashMap ObjectPath IfAndProps) = some body) :
    handleObjMgr asked call s = .done { call.dynheader.makeResponse with body := body } s [] := by
  have hpush : call.dynheader.makeResponse.body.pushParam
      (AList.insertAll ∅ objects : HashMap ObjectPath IfAndProps) = some body := hbody
  rw [handleObjMgr, Act.read_bind, hobjects, Act.unwrap_some, Act.pure_bind]
  simp only [hpush, Act.unwrap_some, Act.pure_bind]
  rfl

/-- A call for the object manager that passes the filter gets there. -/
theorem WorkerData.handleApp_objMgr {io : Io} {path : ObjectPath} {call : MethodCall path}
    (hinterface : call.interface = some objmgrIf) {s : WorkerData}
    (hfilter : isMsgBluez call.toMessage s.filter = true) (asked : Asked) :
    handleApp io asked call.toMessage s =
      Turn.replied io (handleObjMgr asked call.toMessage s) := by
  have hi : call.toMessage.dynheader.interface = some objmgrIf := hinterface
  have hne : objmgrIf ≠ introIf := by decide
  rw [handleApp, Act.read_bind]
  refine (Turn.replyTo_passed hfilter _ _).trans (congrArg _ ?_)
  rw [handleCall, hi, Act.unwrap_some, Act.pure_bind, if_neg hne, if_pos rfl]

/-- A response to a call for the object manager carries the objects. -/
theorem WorkerState.onCall_objMgr {io : Io} {path : ObjectPath} {given : Option String}
    {asked : Asked} {s : AppLoop} {s' : WorkerState} {flow : Flow} {out : List Out}
    {call : MethodCall path} (hinterface : call.interface = some objmgrIf)
    (h : (app s).onCall io given asked call.toMessage = .done flow s' out) {m : MarshalledMessage}
    (hm : .reply m ∈ out) (htyp : m.typ = .reply) :
    ∃ objects, s.appData.senders.mapM asked = some objects ∧
      Body.pushParam [] (AList.insertAll ∅ objects : HashMap ObjectPath IfAndProps) =
        some m.body := by
  cases hfilter : isMsgBluez call.toMessage ((app s).filter given) with
  | false =>
      rw [WorkerState.onCall_refused asked hfilter, Turn.replied] at h
      split at h
      · obtain ⟨-, -, rfl⟩ := Ran.done.inj h
        obtain rfl := Out.reply.inj (List.mem_singleton.mp hm)
        contradiction
      · contradiction
  | true =>
      rw [onCall, AppLoop.onCall, WorkerData.handleApp_objMgr hinterface hfilter] at h
      cases hobj : WorkerData.handleObjMgr asked call.toMessage s.appData with
      | stop why out' =>
          rw [hobj] at h
          contradiction
      | done m' t out' =>
          obtain ⟨objects, hobjects, rfl, hbody⟩ := WorkerData.handleObjMgr_done hobj
          rw [hobj, Turn.replied] at h
          split at h
          · obtain ⟨-, -, rfl⟩ := Ran.done.inj h
            obtain rfl := Out.reply.inj (List.mem_singleton.mp hm)
            exact ⟨objects, hobjects, hbody⟩
          · contradiction

/-- The answers are those of the workers, each given in some reachable state in which the
request of the object manager is the next message that the worker takes. -/
def AppWorker.Honest (app : AppWorker) (asked : Asked) : Prop :=
  ∀ key answer, asked key = some answer → ∃ t worker sender queue,
    Lts.Reachable RoutedStep app t ∧ t.workers.lookup key = some worker ∧
      worker.queue = .objMgr sender :: queue ∧ worker.objects = some answer

/-- What a map of managed objects says of an application whose objects have been installed. -/
structure Application.Describes (a : Application) (app : AppWorker)
    (map : HashMap ObjectPath IfAndProps) : Prop where
  /-- There is one entry for each attribute, at its path. -/
  entries : (map.iter.map fun x ↦ some x.1).Perm (a.own.map fun e ↦ app.pathOf e.1)
  service : ∀ serv ∈ a.services, ∃ path included objects,
    app.pathOf (serv.uuid, 0, 0) = some path ∧
    serv.includes.mapM (fun u ↦ app.pathOf (u, 0, 0)) = some included ∧
    map.lookup path = some objects ∧ HasProp objects bluezSerIf incStr (.ownedPaths included)
  characteristic : ∀ serv ∈ a.services, ∀ chrc ∈ serv.chars, ∃ path parent objects,
    app.pathOf (serv.uuid, chrc.uuid, 0) = some path ∧
    app.pathOf (serv.uuid, 0, 0) = some parent ∧ parent ∈ map ∧
    map.lookup path = some objects ∧ HasProp objects bluezChrIf servStr (.ownedPath parent)
  descriptor : ∀ serv ∈ a.services, ∀ chrc ∈ serv.chars, ∀ desc ∈ chrc.descs,
    ∃ path parent objects,
    app.pathOf (serv.uuid, chrc.uuid, desc.uuid) = some path ∧
    app.pathOf (serv.uuid, chrc.uuid, 0) = some parent ∧ parent ∈ map ∧
    map.lookup path = some objects ∧ HasProp objects bluezDesIf charStr (.ownedPath parent)
  /-- Everything else is as the worker of the attribute has it at some time in a run; the UUID, the
  flags and whether it is primary are those that were registered. -/
  properties : ∀ pl key st, a.At pl key st → ∃ t worker path objects,
    Lts.Reachable AppWorker.RoutedStep app t ∧ t.workers.lookup key = some worker ∧
    worker.state.known = st.known ∧ app.pathOf key = some path ∧
    map.lookup path = some objects ∧ worker.state.listing path = some objects

namespace Application

variable {self : Application} {app : AppWorker} {pl : Place} {key : Key} {st : WorkerState}

theorem At.kind_ne_app (hat : self.At pl key st) : st.kind ≠ .app := by
  cases hat with
  | serv | chrc | desc => exact nofun

/-- A service is told, or need not be told, the paths of the services it includes. -/
theorem Installed.announced (h : self.Installed app) {i : Nat} {serv : Service}
    (hserv : self.services[i]? = some serv) : ∃ included worker,
      serv.includes.mapM (fun u ↦ app.pathOf (u, 0, 0)) = some included ∧
      app.workers.lookup (serv.uuid, 0, 0) = some worker ∧ worker.announced = included := by
  obtain ⟨paths, hpaths, hworker⟩ := h.serv i serv hserv
  refine ⟨paths, _, hpaths, hworker, ?_⟩
  rw [Worker.announced, Service.sentPaths]
  by_cases hnil : serv.includes = []
  · rw [hnil] at hpaths
    rw [if_pos hnil, ← Option.some.inj hpaths]
    rfl
  · rw [if_neg hnil]
    rfl

/-- How the answers that are collected belong to the attributes. -/
structure Collected (a : Application) (app : AppWorker) (asked : Asked) (senders : List Key)
    (answers : List (ObjectPath × IfAndProps)) : Prop where
  keys : (answers.map Prod.fst).Nodup
  paths : answers.map (fun x ↦ some x.1) = senders.map app.pathOf
  mem : ∀ pl key st, a.At pl key st → ∃ objects,
    asked key = some (pl.path a.basePath, objects) ∧ (pl.path a.basePath, objects) ∈ answers

section Collected

variable {asked : Asked} {senders : List Key} {answers : List (ObjectPath × IfAndProps)}

/-- What has been answered is found at the path of the attribute. -/
theorem Collected.lookup (h : self.Collected app asked senders answers)
    (hat : self.At pl key st) : ∃ objects, asked key = some (pl.path self.basePath, objects) ∧
      (AList.insertAll ∅ answers).lookup (pl.path self.basePath) = some objects := by
  obtain ⟨objects, heq, hmem⟩ := h.mem pl key st hat
  exact ⟨objects, heq, (AList.lookup_insertAll_iff h.keys).mpr hmem⟩

theorem Collected.mem_map (h : self.Collected app asked senders answers)
    (hat : self.At pl key st) :
    pl.path self.basePath ∈ (AList.insertAll ∅ answers : HashMap ObjectPath IfAndProps) := by
  obtain ⟨objects, -, hobjects⟩ := h.lookup hat
  exact AList.lookup_isSome.mp (Option.isSome_of_eq_some hobjects)

end Collected

section Describing

variable {asked : Asked} {p : ObjectPath} {objects : IfAndProps} (h : self.Installed app)
  (hbelow : app.Below) (hasked : app.Honest asked)
include h hbelow hasked

/-- What is answered for an attribute. -/
theorem Installed.answered (hat : self.At pl key st) (hanswer : asked key = some (p, objects)) :
    p = pl.path self.basePath ∧ ∃ t worker before, Lts.Reachable AppWorker.RoutedStep app t ∧
      t.workers.lookup key = some worker ∧ app.workers.lookup key = some before ∧
      st.SameTree worker.state ∧ worker.state.known = st.known ∧
      worker.state.included = before.announced ∧ worker.state.listing p = some objects := by
  obtain ⟨t, worker, sender, queue, ht, hworker, hqueue, hobjects⟩ := hasked key _ hanswer
  obtain ⟨before, hbefore, rfl, hpath⟩ := h.lookup hat
  obtain ⟨worker', hworker', hkeeps⟩ :=
    (AppWorker.keeps_of_reachable hbelow h.keeps ht).lookup hbefore
  obtain rfl := Option.some.inj (hworker'.symm.trans hworker)
  have hkind : worker'.state.kind ≠ .app := by
    rw [hkeeps.tree.kind]
    exact hat.kind_ne_app
  have hroot : before.path ≠ .root := by
    rw [hpath]
    exact Place.path_ne_root pl
  obtain ⟨rfl, hlisting⟩ := Worker.objects_listing hkind (hkeeps.path ▸ hroot) hobjects
  obtain ⟨es, hrun⟩ := id ht
  obtain ⟨worker, hworker, hshows⟩ := AppWorker.shows_of_run hrun hbefore fun _ ↦ hroot
  obtain rfl := Option.some.inj (hworker.symm.trans hworker')
  exact ⟨hkeeps.path.trans hpath, t, worker, before, ht, hworker, hbefore, hkeeps.tree,
    hshows.known, hkeeps.included hqueue fun _ ↦ rfl, hlisting⟩

/-- What is collected for an attribute is found at its path. -/
theorem Installed.entry {senders : List Key} {answers : List (ObjectPath × IfAndProps)}
    (hcollected : self.Collected app asked senders answers) (hat : self.At pl key st) :
    ∃ objects, (AList.insertAll ∅ answers).lookup (pl.path self.basePath) = some objects ∧
      ∃ t worker before, Lts.Reachable AppWorker.RoutedStep app t ∧
        t.workers.lookup key = some worker ∧ app.workers.lookup key = some before ∧
        st.SameTree worker.state ∧ worker.state.known = st.known ∧
        worker.state.included = before.announced ∧
        worker.state.listing (pl.path self.basePath) = some objects := by
  obtain ⟨objects, heq, hobjects⟩ := hcollected.lookup hat
  obtain ⟨-, hanswered⟩ := h.answered hbelow hasked hat heq
  exact ⟨objects, hobjects, hanswered⟩

/-- What the answers have in common with what is installed. -/
theorem Installed.collected {senders : List Key} (hnodup : senders.Nodup)
    (hsenders : ∀ key, key ∈ senders ↔ ∃ pl st, self.At pl key st)
    {answers : List (ObjectPath × IfAndProps)} (hanswers : senders.mapM asked = some answers) :
    self.Collected app asked senders answers := by
  have hmap : senders.map asked = answers.map some := mapM_eq_some_iff.mp hanswers
  have hanswer (pl : Place) (key : Key) (st : WorkerState) (hat : self.At pl key st) :
      ∃ objects, asked key = some (pl.path self.basePath, objects) ∧
        (pl.path self.basePath, objects) ∈ answers := by
    have hmem : asked key ∈ answers.map some :=
      hmap ▸ List.mem_map_of_mem ((hsenders key).mpr ⟨pl, st, hat⟩)
    obtain ⟨⟨p, objects⟩, hmem, heq⟩ := List.mem_map.mp hmem
    obtain ⟨rfl, -⟩ := h.answered hbelow hasked hat heq.symm
    exact ⟨objects, heq.symm, hmem⟩
  have hpaths : answers.map (fun x ↦ some x.1) = senders.map app.pathOf := by
    have hfst : answers.map (fun x ↦ some x.1) = (answers.map some).map (Option.map Prod.fst) := by
      rw [List.map_map]
      rfl
    rw [hfst, ← hmap, List.map_map]
    refine List.map_congr_left fun key hkey ↦ ?_
    obtain ⟨pl, st, hat⟩ := (hsenders key).mp hkey
    obtain ⟨objects, heq, -⟩ := hanswer pl key st hat
    rw [Function.comp_apply, heq]
    exact (h.pathOf_iff.mpr (.inr ⟨pl, st, hat, rfl⟩)).symm
  have hinj : (senders.map app.pathOf).Nodup := by
    refine hnodup.map_on fun key hkey key' _ heq ↦ ?_
    obtain ⟨pl, st, hat⟩ := (hsenders key).mp hkey
    have hpath := h.pathOf_iff.mpr (.inr ⟨pl, st, hat, rfl⟩)
    have hrefl := AppWorker.keeps_of_reachable hbelow h.keeps (.refl app)
    exact h.key_unique hrefl hpath (heq ▸ hpath)
  rw [← hpaths] at hinj
  exact ⟨.of_map some (by rwa [List.map_map]), hpaths, hanswer⟩

/-- **What is collected describes the application.** -/
theorem Installed.describes {senders : List Key} (hnodup : senders.Nodup)
    (hsenders : ∀ key, key ∈ senders ↔ ∃ pl st, self.At pl key st)
    (hown : (self.own.map Prod.fst).Nodup) {answers : List (ObjectPath × IfAndProps)}
    (hanswers : senders.mapM asked = some answers) :
    self.Describes app (AList.insertAll ∅ answers) := by
  have hcollected := h.collected hbelow hasked hnodup hsenders hanswers
  have hpath {pl : Place} {key : Key} {st : WorkerState} (hat : self.At pl key st) :
      app.pathOf key = some (pl.path self.basePath) := h.pathOf_iff.mpr (.inr ⟨pl, st, hat, rfl⟩)
  refine ⟨?_, ?_, ?_, ?_, ?_⟩
  · have hperm : senders.Perm (self.own.map Prod.fst) := by
      refine (List.perm_ext_iff_of_nodup hnodup hown).mpr fun key ↦ (hsenders key).trans ?_
      rw [← map_snd_placed, List.map_map, List.mem_map]
      constructor
      · rintro ⟨pl, st, hat⟩
        exact ⟨_, mem_placed.mpr hat, rfl⟩
      · rintro ⟨⟨pl, key, st⟩, hmem, rfl⟩
        exact ⟨pl, st, mem_placed.mp hmem⟩
    have hentries := (AList.iter_insertAll_perm_iff.mpr hcollected.keys).map fun x ↦ some x.1
    rw [hcollected.paths] at hentries
    have hpaths := hperm.map app.pathOf
    rw [List.map_map] at hpaths
    exact hentries.trans hpaths
  · intro serv hserv
    obtain ⟨i, hi⟩ := List.mem_iff_getElem?.mp hserv
    have hat : self.At (.serv i) (serv.uuid, 0, 0) serv.started := .serv hi
    obtain ⟨objects, hobjects, t, worker, before, -, -, hbefore, htree, -, hincluded, hlisting⟩ :=
      h.entry hbelow hasked hcollected hat
    obtain ⟨included, before', hpaths, hbefore', hannounced⟩ := h.announced hi
    obtain rfl := Option.some.inj (hbefore.symm.trans hbefore')
    refine ⟨_, included, objects, hpath hat, hpaths, hobjects, ?_⟩
    rw [hannounced] at hincluded
    generalize worker.state = state at hincluded hlisting htree
    cases state with
    | serv s =>
        obtain rfl := Option.some.inj hlisting
        obtain rfl : s.servData.includes = included := hincluded
        exact hasProp_oneInterface s.servData.nodup_shown (.tail _ (.tail _ (.tail _ (.head _))))
    | app | chrc | desc => exact nomatch htree.kind
  · intro serv hserv chrc hchrc
    obtain ⟨i, hi⟩ := List.mem_iff_getElem?.mp hserv
    obtain ⟨j, hj⟩ := List.mem_iff_getElem?.mp hchrc
    have hat : self.At (.chrc i j) (serv.uuid, chrc.uuid, 0) chrc.started := .chrc hi hj
    obtain ⟨objects, hobjects, t, worker, before, -, -, -, htree, -, -, hlisting⟩ :=
      h.entry hbelow hasked hcollected hat
    refine ⟨_, _, objects, hpath hat, hpath (.serv hi), hcollected.mem_map (.serv hi), hobjects, ?_⟩
    generalize worker.state = state at hlisting htree
    cases state with
    | chrc s =>
        obtain ⟨parent, hparent, rfl⟩ := Option.map_eq_some_iff.mp hlisting
        obtain rfl := Option.some.inj ((parent_child _ isElement_char j).symm.trans hparent)
        exact hasProp_oneInterface (s.nodup_shown _) (.tail _ (.tail _ (.head _)))
    | app | serv | desc => exact nomatch htree.kind
  · intro serv hserv chrc hchrc desc hdesc
    obtain ⟨i, hi⟩ := List.mem_iff_getElem?.mp hserv
    obtain ⟨j, hj⟩ := List.mem_iff_getElem?.mp hchrc
    obtain ⟨k, hk⟩ := List.mem_iff_getElem?.mp hdesc
    have hat : self.At (.desc i j k) (serv.uuid, chrc.uuid, desc.uuid) (.desc desc) :=
      .desc hi hj hk
    obtain ⟨objects, hobjects, t, worker, before, -, -, -, htree, -, -, hlisting⟩ :=
      h.entry hbelow hasked hcollected hat
    have hparent := hcollected.mem_map (.chrc hi hj)
    refine ⟨_, _, objects, hpath hat, hpath (.chrc hi hj), hparent, hobjects, ?_⟩
    generalize worker.state = state at hlisting htree
    cases state with
    | desc s =>
        obtain ⟨parent, hparent, rfl⟩ := Option.map_eq_some_iff.mp hlisting
        obtain rfl := Option.some.inj ((parent_child _ isElement_desc k).symm.trans hparent)
        exact hasProp_oneInterface (s.nodup_shown _) (.tail _ (.tail _ (.head _)))
    | app | serv | chrc => exact nomatch htree.kind
  · intro pl key st hat
    obtain ⟨objects, hobjects, t, worker, before, ht, hworker, -, -, hknown, -, hlisting⟩ :=
      h.entry hbelow hasked hcollected hat
    exact ⟨t, worker, _, objects, ht, hworker, hknown, hpath hat, hobjects, hlisting⟩

end Describing

/-- **One tree**: whatever has happened to a registered application, the paths that were
installed differ from each other, the names that the objects report lead to these paths and
to no others, and the reply of the object manager describes the attributes at these
paths. -/
theorem one_tree {self : Application} {bus : Bus} {app t : AppWorker} (hself : self.Distinct)
    (hnz : self.NonZero) (h : self.register bus = pure app)
    (ht : Lts.Reachable AppWorker.RoutedStep app t) :
    (app.workers.iter.map fun x ↦ x.2.path).Nodup ∧
    (∀ p, Relation.ReflTransGen t.Reports self.basePath p ↔ ∃ key, app.pathOf key = some p) ∧
    ∀ worker, t.workers.lookup (0, 0, 0) = some worker → ∀ asked, app.Honest asked →
      ∀ io (call : MethodCall worker.path), call.interface = some objmgrIf → ∀ flow s' out,
      worker.state.onCall io t.filter asked call.toMessage = .done flow s' out →
      ∀ m, .reply m ∈ out → m.typ = .reply →
        ∃ map, Body.pushParam [] map = some m.body ∧ self.Describes app map := by
  have hinstalled := installed_of_register hself hnz h
  have hbelow := below_of_reachable h (.refl app)
  have hkeeps := AppWorker.keeps_of_reachable hbelow hinstalled.keeps ht
  have hrefl := AppWorker.keeps_of_reachable hbelow hinstalled.keeps (.refl app)
  have hbase : self.basePath ≠ .root := by
    obtain ⟨hne, _, _, _, -, hservs, -, -⟩ := register_spec h
    exact basePath_ne_root hne hservs
  refine ⟨?_, fun p ↦ ?_, ?_⟩
  · refine List.Nodup.map_on ?_ (.of_map Prod.fst (AList.nodup_fst_iter _))
    rintro ⟨key, worker⟩ hworker ⟨key', worker'⟩ hworker' (heq : worker.path = worker'.path)
    have hlook := AList.mem_iter_iff.mp hworker
    have hlook' := AList.mem_iter_iff.mp hworker'
    have hp : app.pathOf key = some worker.path := by rw [AppWorker.pathOf, hlook]; rfl
    have hp' : app.pathOf key' = some worker'.path := by rw [AppWorker.pathOf, hlook']; rfl
    obtain rfl := hinstalled.key_unique hrefl hp (heq ▸ hp')
    rw [Option.some.inj (hlook.symm.trans hlook')]
  · exact (hinstalled.reaches_iff hkeeps hbase).trans (hinstalled.has_iff hrefl)
  · intro worker hworker asked hasked io call hinterface flow s' out hrun m hm htyp
    obtain ⟨appData, hroot, -, hnodup, hsenders⟩ := hinstalled.root
    obtain ⟨worker', hworker', hkept⟩ := hkeeps.lookup hroot
    obtain rfl := Option.some.inj (hworker'.symm.trans hworker)
    have hown : (self.own.map Prod.fst).Nodup := by
      rw [← map_snd_placed, List.map_map]
      exact (nodup_keys hself hnz).1
    have hsame : worker'.state.senders = appData.senders := hkept.tree.senders
    cases hstate : worker'.state with
    | app s =>
        rw [hstate] at hrun hsame
        obtain ⟨answers, hanswers, hbody⟩ := WorkerState.onCall_objMgr hinterface hrun hm htyp
        have hsenders' : s.appData.senders = appData.senders := hsame
        rw [hsenders'] at hanswers
        exact ⟨_, hbody, hinstalled.describes hbelow hasked hnodup hsenders hown hanswers⟩
    | serv | chrc | desc =>
        have hkind := hkept.tree.kind
        rw [hstate] at hkind
        contradiction

/-- What the attributes answer if they are asked now. -/
def answersNow (t : AppWorker) : Asked := fun key ↦
  if key = (0, 0, 0) then none else (t.workers.lookup key).bind Worker.objects

/-- Workers that have nothing else to do can be asked now. -/
theorem honest_answersNow (ht : Lts.Reachable AppWorker.RoutedStep app t)
    (hidle : ∀ key worker, t.workers.lookup key = some worker →
      worker.running = true ∧ worker.queue = []) : app.Honest (answersNow t) := by
  intro key answer hanswer
  obtain ⟨hkey, hanswer⟩ := Option.ite_none_left_eq_some.mp hanswer
  obtain ⟨worker, hworker, hobjects⟩ := Option.bind_eq_some_iff.mp hanswer
  obtain ⟨hrunning, hqueue⟩ := hidle key worker hworker
  have hawake := AppWorker.awake_of_lookup hworker hrunning
  have hroom : worker.queue.length < worker.state.kind.capacity := by
    rw [hqueue]
    cases worker.state.kind <;> decide
  have hnext : t.next (.askObjects key 0) = some (t.put key (worker.push (.objMgr 0))) := by
    rw [AppWorker.next, if_neg hkey]
    exact AppWorker.afterSend_of_room hawake hroom _ _
  have hrouted : t.Routed (.askObjects key 0) := by
    intro key' io input worker heq
    contradiction
  have hasked : (t.put key (worker.push (.objMgr 0))).awake key = some (worker.push (.objMgr 0)) :=
    AppWorker.awake_put hawake hrunning
  have hqueue' : (worker.push (.objMgr 0)).queue = [.objMgr 0] := by
    change worker.queue ++ [.objMgr 0] = _
    rw [hqueue, List.nil_append]
  obtain ⟨es, hrun⟩ := ht
  exact ⟨_, _, 0, [], ⟨_, hrun.append (.single ⟨hnext, hrouted⟩)⟩,
    (AppWorker.lookup_of_awake hasked).1, hqueue', hobjects⟩

/-- All workers but that of the application are those of attributes. -/
theorem Installed.isAttribute (h : self.Installed app) (hkeeps : app.Keeps t) {worker : Worker}
    (hworker : t.workers.lookup key = some worker) (hkey : key ≠ (0, 0, 0)) :
    worker.IsAttribute := by
  have hpath : t.pathOf key = some worker.path := by
    rw [AppWorker.pathOf, hworker]
    rfl
  obtain ⟨hzero, -⟩ | ⟨pl, st, hat, -⟩ := h.pathOf_iff.mp ((hkeeps.pathOf key).symm.trans hpath)
  · exact absurd hzero hkey
  · obtain ⟨worker', hworker', hpath', htree⟩ := h.told hkeeps hat
    obtain rfl := Option.some.inj (hworker'.symm.trans hworker)
    exact ⟨htree.kind ▸ hat.kind_ne_app, hpath' ▸ Place.path_ne_root pl⟩

theorem Installed.sendable_answersNow (h : self.Installed app) (hkeeps : app.Keeps t)
    (hidle : ∀ key worker, t.workers.lookup key = some worker →
      worker.running = true ∧ worker.queue = []) : SendableAnswers (answersNow t) := by
  intro key path objects hanswer
  obtain ⟨hkey, hanswer⟩ := Option.ite_none_left_eq_some.mp hanswer
  obtain ⟨worker, hworker, hobjects⟩ := Option.bind_eq_some_iff.mp hanswer
  obtain ⟨objects', hobjects', hsendable⟩ :=
    (h.isAttribute hkeeps hworker hkey).objects (hidle key worker hworker).1
  obtain ⟨-, rfl⟩ := Prod.mk.inj (Option.some.inj (hobjects.symm.trans hobjects'))
  exact hsendable

theorem Installed.isSome_answersNow (h : self.Installed app) (hkeeps : app.Keeps t)
    (hidle : ∀ key worker, t.workers.lookup key = some worker →
      worker.running = true ∧ worker.queue = []) (hself : self.Distinct) (hnz : self.NonZero)
    (hat : self.At pl key st) : (answersNow t key).isSome := by
  obtain ⟨worker, hworker, -⟩ := h.told hkeeps hat
  have hkey := hat.ne_zero hself hnz
  obtain ⟨objects, hobjects, -⟩ :=
    (h.isAttribute hkeeps hworker hkey).objects (hidle key worker hworker).1
  rw [answersNow, if_neg hkey, hworker, Option.bind_some, hobjects]
  rfl

/-- A call for the object manager that passes the filter. -/
def objMgrCall (p : ObjectPath) : MethodCall p where
  member := "GetManagedObjects"
  interface := some objmgrIf
  sender := some bluezDest

/-- It holds of an application with one attribute of each kind, whose objects are asked for after
a run. -/
theorem one_tree_ofUuids : ∃ (app t : AppWorker) (es : List Event) (worker : Worker)
    (m : MarshalledMessage) (map : HashMap ObjectPath IfAndProps),
    let self := ofUuids ⟨1⟩ ⟨2⟩ ⟨3⟩
    self.register .working = pure app ∧ es ≠ [] ∧ Lts.Run AppWorker.RoutedStep app es t ∧
    (app.workers.iter.map fun x ↦ x.2.path).Nodup ∧
    (∀ p, Relation.ReflTransGen t.Reports self.basePath p ↔ ∃ key, app.pathOf key = some p) ∧
    t.workers.lookup (0, 0, 0) = some worker ∧
    worker.state.onCall {} t.filter (answersNow t) (objMgrCall worker.path).toMessage =
      .done .next worker.state [.reply m] ∧
    Body.pushParam [] map = some m.body ∧ self.Describes app map := by
  obtain ⟨app, happ⟩ := register_ofUuids ⟨1⟩ ⟨2⟩ ⟨3⟩
  obtain ⟨es, t, hne, hrun, hidle⟩ := exists_run_ofUuids happ .empty
  have hself := distinct_ofUuids ⟨1⟩ ⟨2⟩ ⟨3⟩
  have hinstalled := installed_of_register hself nonZero_ofUuids happ
  have hkeeps := AppWorker.keeps_of_reachable (below_of_reachable happ (.refl app))
    hinstalled.keeps ⟨es, hrun⟩
  obtain ⟨appData, hroot, -, -, hsenders⟩ := hinstalled.root
  obtain ⟨worker, hworker, hkept⟩ := hkeeps.lookup hroot
  obtain ⟨s, hstate⟩ : ∃ s, worker.state = .app s := by
    have hkind := hkept.tree.kind
    cases hstate : worker.state with
    | app s => exact ⟨s, rfl⟩
    | serv | chrc | desc => rw [hstate] at hkind; contradiction
  have hsame : s.appData.senders = appData.senders := by
    have hsenders := hkept.tree.senders
    rwa [hstate] at hsenders
  have hall : (s.appData.senders.mapM (answersNow t)).isSome := by
    refine isSome_mapM_iff.mpr fun key hkey ↦ ?_
    obtain ⟨pl, st, hat⟩ := (hsenders key).mp (hsame ▸ hkey)
    exact hinstalled.isSome_answersNow hkeeps hidle hself nonZero_ofUuids hat
  obtain ⟨answers, hanswers⟩ := Option.isSome_iff_exists.mp hall
  obtain ⟨v, hv⟩ := Option.isSome_iff_exists.mp
    (marshal_map_isSome ((hinstalled.sendable_answersNow hkeeps hidle).insertAll hanswers))
  let call := objMgrCall worker.path
  have hturn : worker.state.onCall {} t.filter (answersNow t) call.toMessage =
      .done .next worker.state [.reply
        { call.toMessage.dynheader.makeResponse with body := [⟨_, v⟩] }] := by
    rw [hstate, WorkerState.onCall, AppLoop.onCall,
      WorkerData.handleApp_objMgr rfl (isMsgBluez_of_sender rfl _),
      WorkerData.handleObjMgr_eq hanswers (Body.pushParam_eq hv []), Turn.replied_sendable rfl rfl]
    rfl
  obtain ⟨hnodup, hreaches, hreplies⟩ := one_tree hself nonZero_ofUuids happ ⟨es, hrun⟩
  obtain ⟨map, hmap, hdescribes⟩ := hreplies worker hworker (answersNow t)
    (honest_answersNow ⟨es, hrun⟩ hidle) {} call rfl _ _ _ hturn _ (List.mem_singleton_self _) rfl
  exact ⟨app, t, es, worker, _, map, happ, hne, hrun, hnodup, hreaches, hworker, hturn, hmap,
    hdescribes⟩

end Application

end Rustable.Gatt.Server
