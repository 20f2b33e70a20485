import Rustable.Gatt.Server.Filtering
import Rustable.Gatt.Server.Telling

/-!
# Introspection

An introspection handler reports the names of the children of an object.  Whatever the
workers of an application have done since it was registered, the names lead from the base
path to the paths that were installed, and only there (`Installed.reaches_iff`).
-/

namespace Rustable.Gatt.Server

open DBus

/-! ## Reports -/

namespace WorkerState

/-- The interfaces that a worker reports. -/
def interfacesText : WorkerState → String
  | app _ => Introspect.mangagerStr
  | serv _ => Introspect.propStr ++ Introspect.serviceStr
  | chrc _ => Introspect.propStr ++ Introspect.charStr
  | desc _ => Introspect.propStr ++ Introspect.descStr

theorem names_interfacesText (s : WorkerState) : Introspect.Names s.interfacesText [] := by
  cases s with
  | app s => exact Introspect.names_mangagerStr
  | serv s => exact Introspect.names_propStr.seq Introspect.names_serviceStr
  | chrc s => exact Introspect.names_propStr.seq Introspect.names_charStr
  | desc s => exact Introspect.names_propStr.seq Introspect.names_descStr

variable {io : Io} {path : ObjectPath} {given : Option String}

/-- **Every worker reports its children**, if the call passes the filter. -/
theorem onCall_intro {s : WorkerState} {call : MethodCall path} (asked : Asked)
    (hinterface : call.interface = some introIf)
    (hfilter : isMsgBluez call.toMessage (s.filter given) = true) :
    s.onCall io given asked call.toMessage =
      Turn.replied io (.done (introReply call.toMessage s.interfacesText s.childNames) s []) := by
  have hi : call.toMessage.dynheader.interface = some introIf := hinterface
  have hne : introIf ≠ propsIf := by decide
  cases s with
  | app s =>
      have hturn : WorkerData.handleApp io asked call.toMessage s.appData = Turn.replied io
          (.done (s.appData.handleAppIntro call.toMessage) s.appData []) := by
        rw [WorkerData.handleApp, Act.read_bind]
        refine (Turn.replyTo_passed hfilter _ _).trans (congrArg _ ?_)
        rw [WorkerData.handleCall, hi, Act.unwrap_some, Act.pure_bind, if_pos rfl, Act.read_bind]
        rfl
      rw [onCall, AppLoop.onCall, hturn, Turn.replied_mapState, Turn.replied_mapState]
      rfl
  | serv s =>
      have hcall : ServData.handleCall call.toMessage s.servData =
          some (s.servData.handleIntro call.toMessage, s.servData) := by
        rw [ServData.handleCall, hi, MayPanic.unwrap_some_bind, if_neg hne, if_pos rfl]
        rfl
      refine (congrArg (Ran.mapState serv) (Turn.replyTo_passed hfilter _ s)).trans ?_
      rw [ServWorker.onData, Turn.onPart_some hcall]
      exact Turn.replied_mapState serv _ s
  | chrc s =>
      refine (congrArg (Ran.mapState chrc) (Turn.replyTo_passed hfilter _ s)).trans ?_
      rw [ChrcData.handleCall, hi, Act.unwrap_some, Act.pure_bind, if_neg hne, if_pos rfl,
        Act.read_bind]
      exact Turn.replied_mapState chrc _ s
  | desc s =>
      have hcall : Descriptor.handleCall call.toMessage s =
          some (Descriptor.handleIntro call.toMessage, s) := by
        rw [Descriptor.handleCall, hi, MayPanic.unwrap_some_bind, if_neg hne, if_pos rfl]
        rfl
      refine (congrArg (Ran.mapState desc) (Turn.replyTo_passed hfilter _ s)).trans ?_
      rw [Turn.ofMayPanic, Turn.onPart_some hcall]
      exact Turn.replied_mapState desc _ s

/-- Whatever is named is an element of a path. -/
theorem isElement_of_mem_childNames {s : WorkerState} {name : String} (h : name ∈ s.childNames) :
    IsElement name.toList := by
  have hkind {kind : String} (hkind : IsElement kind.toList) {count : Nat}
      (h : name ∈ Introspect.childNames kind count) : IsElement name.toList := by
    obtain ⟨i, -, rfl⟩ := List.mem_map.mp h
    rw [String.toList_append, String.toList_ofList]
    exact isElement_child hkind i
  cases s with
  | app s => exact hkind isElement_service h
  | serv s => exact hkind isElement_char h
  | chrc s => exact hkind isElement_desc h
  | desc s => contradiction

end WorkerState

/-- The worker replies to a call for introspection with a text that names the child. -/
def Worker.Reports (filter : Option String) (worker : Worker) (name : String) : Prop :=
  ∃ (io : Io) (asked : Asked) (call : MethodCall worker.path) (s : WorkerState)
    (m : MarshalledMessage) (text : String), call.interface = some introIf ∧
    worker.state.onCall io filter asked call.toMessage = .done .next s [.reply m] ∧
    m.body.get String = .ok text ∧ name ∈ Introspect.nodeNames text

theorem introReply_text (call : MarshalledMessage) (s : WorkerState) :
    ∃ text, (introReply call s.interfacesText s.childNames).body.get String = .ok text ∧
      Introspect.nodeNames text = s.childNames := by
  have helement : ∀ name ∈ s.childNames, IsElement name.toList :=
    fun _ ↦ WorkerState.isElement_of_mem_childNames
  have hnames := Introspect.names_intro s.names_interfacesText helement
  exact ⟨_, rfl, hnames.names⟩

/-- A worker reports the children that it has. -/
theorem Worker.reports_iff {filter : Option String} {worker : Worker} {name : String} :
    worker.Reports filter name ↔ name ∈ worker.state.childNames := by
  constructor
  · rintro ⟨io, asked, call, s, m, text, hinterface, hrun, htext, hname⟩
    have hreply {m' : MarshalledMessage} (h : Turn.replied io (.done m' worker.state []) =
        .done .next s [.reply m]) : m' = m := by
      rw [Turn.replied] at h
      split at h
      · obtain ⟨-, -, hout⟩ := Ran.done.inj h
        exact Out.reply.inj (List.singleton_inj.mp hout)
      · contradiction
    cases hfilter : isMsgBluez call.toMessage (worker.state.filter filter) with
    | false =>
        obtain rfl := hreply ((WorkerState.onCall_refused asked hfilter).symm.trans hrun)
        contradiction
    | true =>
        obtain rfl := hreply ((WorkerState.onCall_intro asked hinterface hfilter).symm.trans hrun)
        obtain ⟨text', htext', hnames⟩ := introReply_text call.toMessage worker.state
        obtain rfl := Except.ok.inj (htext'.symm.trans htext)
        rwa [hnames] at hname
  · intro hname
    let call := introspectCall worker.path
    have hfilter : isMsgBluez call.toMessage (worker.state.filter filter) = true :=
      isMsgBluez_of_sender rfl _
    obtain ⟨text, htext, hnames⟩ := introReply_text call.toMessage worker.state
    refine ⟨{}, fun _ ↦ none, call, worker.state, _, text, rfl, ?_, htext, ?_⟩
    · exact WorkerState.onCall_intro _ rfl hfilter
    · rwa [hnames]

/-- The object at `p` reports a child, which is at `q`. -/
def AppWorker.Reports (self : AppWorker) (p q : ObjectPath) : Prop :=
  ∃ key worker name, self.workers.lookup key = some worker ∧ worker.path = p ∧
    worker.Reports self.filter name ∧ ObjectPath.tryFrom (p.toChars ++ '/' :: name.toList) = some q

/-- The names of the children are those of the places below. -/
theorem exists_name_iff {p q : ObjectPath} (hp : p ≠ .root) {kind : String}
    (hkind : IsElement kind.toList) {count : Nat} :
    (∃ name ∈ Introspect.childNames kind count,
        ObjectPath.tryFrom (p.toChars ++ '/' :: name.toList) = some q) ↔
      ∃ i < count, q = child p hkind i := by
  have hchild (i : Nat) : ObjectPath.tryFrom (p.toChars ++ '/' ::
      (kind ++ String.ofList (Text.hex .lower 4 i)).toList) = some (child p hkind i) := by
    rw [String.toList_append, String.toList_ofList]
    exact childPath_eq hp hkind i
  constructor
  · rintro ⟨name, hname, hq⟩
    obtain ⟨i, hi, rfl⟩ := List.mem_map.mp hname
    exact ⟨i, List.mem_range.mp hi, Option.some.inj (hq.symm.trans (hchild i))⟩
  · rintro ⟨i, hi, rfl⟩
    exact ⟨_, List.mem_map_of_mem (List.mem_range.mpr hi), hchild i⟩

/-! ## What is registered -/

theorem AppWorker.Keeps.lookup {app t : AppWorker} (h : app.Keeps t) {key : Key} {before : Worker}
    (hbefore : app.workers.lookup key = some before) :
    ∃ worker, t.workers.lookup key = some worker ∧ before.Keeps worker := by
  have hkeeps := h key
  rw [hbefore] at hkeeps
  generalize t.workers.lookup key = x at hkeeps ⊢
  cases hkeeps with
  | some hkeeps => exact ⟨_, rfl, hkeeps⟩

theorem AppWorker.Keeps.pathOf {app t : AppWorker} (h : app.Keeps t) (key : Key) :
    t.pathOf key = app.pathOf key := by
  have hkeeps := h key
  rw [AppWorker.pathOf, AppWorker.pathOf]
  generalize app.workers.lookup key = x, t.workers.lookup key = y at hkeeps ⊢
  cases hkeeps with
  | none => rfl
  | some hkeeps => exact congrArg some hkeeps.path

namespace Application

variable {self : Application} {app t : AppWorker} {pl : Place} {key : Key} {st : WorkerState}

/-- A worker goes by the key of each attribute. -/
theorem Installed.lookup (h : self.Installed app) (hat : self.At pl key st) :
    ∃ worker, app.workers.lookup key = some worker ∧ worker.state = st ∧
      worker.path = pl.path self.basePath := by
  cases hat with
  | serv hserv =>
      obtain ⟨paths, -, hworker⟩ := h.serv _ _ hserv
      exact ⟨_, hworker, rfl, rfl⟩
  | chrc hserv hchrc => exact ⟨_, h.other _ _ _ (.chrc hserv hchrc) nofun, rfl, rfl⟩
  | desc hserv hchrc hdesc => exact ⟨_, h.other _ _ _ (.desc hserv hchrc hdesc) nofun, rfl, rfl⟩

/-- The paths are those of the places, and the base path. -/
theorem Installed.pathOf_iff (h : self.Installed app) {p : ObjectPath} :
    app.pathOf key = some p ↔ key = (0, 0, 0) ∧ p = self.basePath ∨
      ∃ pl st, self.At pl key st ∧ p = pl.path self.basePath := by
  obtain ⟨appData, hroot, -⟩ := h.root
  have hbase : app.pathOf (0, 0, 0) = some self.basePath := by
    rw [AppWorker.pathOf, hroot]
    rfl
  have hplace {pl : Place} {st : WorkerState} (hat : self.At pl key st) :
      app.pathOf key = some (pl.path self.basePath) := by
    obtain ⟨worker, hworker, -, hpath⟩ := h.lookup hat
    rw [AppWorker.pathOf, hworker, ← hpath]
    rfl
  constructor
  · intro hp
    have hsome : (app.workers.lookup key).isSome := by
      rw [← Option.isSome_map, ← AppWorker.pathOf, hp]
      rfl
    rcases h.only key hsome with rfl | ⟨pl, st, hat⟩
    · exact .inl ⟨rfl, Option.some.inj (hp.symm.trans hbase)⟩
    · exact .inr ⟨pl, st, hat, Option.some.inj (hp.symm.trans (hplace hat))⟩
  · rintro (⟨rfl, rfl⟩ | ⟨pl, st, hat, rfl⟩)
    · exact hbase
    · exact hplace hat

/-- What is installed has been told paths only if it is a service, and first of all. -/
theorem Installed.keeps (h : self.Installed app) :
    app.workers.Holds fun _ worker ↦ worker.Keeps worker := by
  have hfresh {worker : Worker} (hqueue : worker.queue = []) : worker.Keeps worker := by
    refine ⟨rfl, .refl _, rfl, ?_, ?_⟩ <;> intro paths hmem <;> rw [hqueue] at hmem <;>
      contradiction
  have hother {pl : Place} {key : Key} {st : WorkerState} (hat : self.At pl key st)
      (hkind : st.kind ≠ .serv) {worker : Worker} (hworker : app.workers.lookup key = some worker) :
      worker.Keeps worker := by
    obtain rfl := Option.some.inj ((h.other pl key st hat hkind).symm.trans hworker)
    exact hfresh rfl
  intro key worker hworker
  rcases h.only key (Option.isSome_of_eq_some hworker) with rfl | ⟨pl, st, hat⟩
  · obtain ⟨appData, hroot, -⟩ := h.root
    obtain rfl := Option.some.inj (hroot.symm.trans hworker)
    exact hfresh rfl
  · cases hat with
    | chrc hserv hchrc => exact hother (.chrc hserv hchrc) nofun hworker
    | desc hserv hchrc hdesc => exact hother (.desc hserv hchrc hdesc) nofun hworker
    | serv hserv =>
        obtain ⟨paths, -, hserv⟩ := h.serv _ _ hserv
        obtain rfl := Option.some.inj (hserv.symm.trans hworker)
        refine ⟨rfl, .refl _, rfl, fun _ _ ↦ rfl, fun ps hmem ↦ ?_⟩
        rw [Service.sentPaths] at hmem
        split at hmem <;> contradiction

/-! ## Following the names -/

/-- A worker that goes by the key of an attribute still tells what it was started with. -/
theorem Installed.told (h : self.Installed app) (hkeeps : app.Keeps t) (hat : self.At pl key st) :
    ∃ worker, t.workers.lookup key = some worker ∧ worker.path = pl.path self.basePath ∧
      st.SameTree worker.state := by
  obtain ⟨before, hbefore, rfl, hpath⟩ := h.lookup hat
  obtain ⟨worker, hworker, hkeeps⟩ := hkeeps.lookup hbefore
  exact ⟨worker, hworker, hkeeps.path.trans hpath, hkeeps.tree⟩

theorem Installed.told_root (h : self.Installed app) (hkeeps : app.Keeps t) :
    ∃ worker, t.workers.lookup (0, 0, 0) = some worker ∧ worker.path = self.basePath ∧
      worker.state.childNames = Introspect.childNames "service" self.services.length := by
  obtain ⟨appData, hroot, hcount, -⟩ := h.root
  obtain ⟨worker, hworker, hkeeps⟩ := hkeeps.lookup hroot
  refine ⟨worker, hworker, hkeeps.path, hkeeps.tree.names.trans ?_⟩
  rw [← hcount]
  rfl

/-- The base path, or the path of an attribute. -/
def Has (self : Application) (p : ObjectPath) : Prop :=
  p = self.basePath ∨ ∃ pl key st, self.At pl key st ∧ p = pl.path self.basePath

theorem Installed.has_iff (h : self.Installed app) (hkeeps : app.Keeps t) {p : ObjectPath} :
    self.Has p ↔ ∃ key, t.pathOf key = some p := by
  constructor
  · rintro (rfl | ⟨pl, key, st, hat, rfl⟩)
    · exact ⟨(0, 0, 0), (hkeeps.pathOf _).trans (h.pathOf_iff.mpr (.inl ⟨rfl, rfl⟩))⟩
    · exact ⟨key, (hkeeps.pathOf _).trans (h.pathOf_iff.mpr (.inr ⟨pl, st, hat, rfl⟩))⟩
  · rintro ⟨key, hkey⟩
    rcases h.pathOf_iff.mp ((hkeeps.pathOf key).symm.trans hkey) with ⟨-, rfl⟩ | ⟨pl, st, hat, rfl⟩
    · exact .inl rfl
    · exact .inr ⟨pl, key, st, hat, rfl⟩

/-- Two objects have different paths. -/
theorem Installed.key_unique (h : self.Installed app) (hkeeps : app.Keeps t) {key' : Key}
    {p : ObjectPath} (hp : t.pathOf key = some p) (hp' : t.pathOf key' = some p) : key = key' := by
  rw [hkeeps.pathOf] at hp hp'
  rcases h.pathOf_iff.mp hp with ⟨rfl, rfl⟩ | ⟨pl, st, hat, rfl⟩
  · rcases h.pathOf_iff.mp hp' with ⟨rfl, -⟩ | ⟨pl', st', hat', heq⟩
    · rfl
    · exact absurd heq.symm (Place.path_ne_base pl')
  · rcases h.pathOf_iff.mp hp' with ⟨rfl, heq⟩ | ⟨pl', st', hat', heq⟩
    · exact absurd heq (Place.path_ne_base pl)
    · obtain rfl := Place.path_injective self.basePath heq
      exact (hat.key_unique hat').1

section Following

variable (h : self.Installed app) (hkeeps : app.Keeps t)
include h hkeeps

/-- An object that has so many children reports each of them. -/
theorem Installed.reports_iff {worker : Worker} (hworker : t.workers.lookup key = some worker)
    (hroot : worker.path ≠ .root) {kind : String} (hkind : IsElement kind.toList) {α : Type}
    {children : List α}
    (hnames : worker.state.childNames = Introspect.childNames kind children.length)
    {q : ObjectPath} :
    t.Reports worker.path q ↔ ∃ i a, children[i]? = some a ∧ q = child worker.path hkind i := by
  have hnames' : t.Reports worker.path q ↔ ∃ i < children.length, q = child worker.path hkind i := by
    rw [← exists_name_iff hroot hkind, ← hnames]
    constructor
    · rintro ⟨key', worker', name, hworker', hpath, hname, hq⟩
      have hkey : key' = key := h.key_unique hkeeps (p := worker.path)
        (by rw [AppWorker.pathOf, hworker', ← hpath]; rfl) (by rw [AppWorker.pathOf, hworker]; rfl)
      subst hkey
      obtain rfl := Option.some.inj (hworker'.symm.trans hworker)
      exact ⟨name, Worker.reports_iff.mp hname, hq⟩
    · rintro ⟨name, hname, hq⟩
      exact ⟨key, worker, name, hworker, rfl, Worker.reports_iff.mpr hname, hq⟩
  rw [hnames']
  constructor
  · rintro ⟨i, hi, rfl⟩
    exact ⟨i, children[i], List.getElem?_eq_getElem hi, rfl⟩
  · rintro ⟨i, a, ha, rfl⟩
    exact ⟨i, (List.getElem?_eq_some_iff.mp ha).1, rfl⟩

/-- The children of the application are the services. -/
theorem Installed.reports_base (hbase : self.basePath ≠ .root) {q : ObjectPath} :
    t.Reports self.basePath q ↔
      ∃ i serv, self.services[i]? = some serv ∧ q = (Place.serv i).path self.basePath := by
  obtain ⟨worker, hworker, hpath, hnames⟩ := h.told_root hkeeps
  have hiff := h.reports_iff hkeeps hworker (hpath ▸ hbase) isElement_service hnames (q := q)
  rwa [hpath] at hiff

/-- The children of a service are its characteristics. -/
theorem Installed.reports_serv {i : Nat} {serv : Service} (hserv : self.services[i]? = some serv)
    {q : ObjectPath} : t.Reports ((Place.serv i).path self.basePath) q ↔
      ∃ j chrc, serv.chars[j]? = some chrc ∧ q = (Place.chrc i j).path self.basePath := by
  obtain ⟨worker, hworker, hpath, htree⟩ := h.told hkeeps (.serv hserv)
  have hiff := h.reports_iff hkeeps hworker (hpath ▸ Place.path_ne_root _) isElement_char htree.names
    (q := q)
  rwa [hpath] at hiff

/-- The children of a characteristic are its descriptors. -/
theorem Installed.reports_chrc {i j : Nat} {serv : Service} {chrc : Characteristic}
    (hserv : self.services[i]? = some serv) (hchrc : serv.chars[j]? = some chrc) {q : ObjectPath} :
    t.Reports ((Place.chrc i j).path self.basePath) q ↔
      ∃ k desc, chrc.descs[k]? = some desc ∧ q = (Place.desc i j k).path self.basePath := by
  obtain ⟨worker, hworker, hpath, htree⟩ := h.told hkeeps (.chrc hserv hchrc)
  have hiff := h.reports_iff hkeeps hworker (hpath ▸ Place.path_ne_root _) isElement_desc htree.names
    (q := q)
  rwa [hpath] at hiff

/-- A descriptor has no children. -/
theorem Installed.not_reports_desc {i j k : Nat} {serv : Service} {chrc : Characteristic}
    {desc : Descriptor} (hserv : self.services[i]? = some serv)
    (hchrc : serv.chars[j]? = some chrc) (hdesc : chrc.descs[k]? = some desc) (q : ObjectPath) :
    ¬t.Reports ((Place.desc i j k).path self.basePath) q := by
  obtain ⟨worker, hworker, hpath, htree⟩ := h.told hkeeps (.desc hserv hchrc hdesc)
  have hnames : worker.state.childNames =
      Introspect.childNames "desc" ([] : List Descriptor).length := htree.names
  have hiff := h.reports_iff hkeeps hworker (hpath ▸ Place.path_ne_root _) isElement_desc hnames
    (q := q)
  rw [hpath] at hiff
  intro hreports
  obtain ⟨i, a, ha, -⟩ := hiff.mp hreports
  contradiction

/-- **The names lead from the base path to the paths that are registered, and only there.** -/
theorem Installed.reaches_iff (hbase : self.basePath ≠ .root) {p : ObjectPath} :
    Relation.ReflTransGen t.Reports self.basePath p ↔ self.Has p := by
  constructor
  · intro hreaches
    induction hreaches with
    | refl => exact .inl rfl
    | tail _ hreports ih =>
        rcases ih with rfl | ⟨pl, key, st, hat, rfl⟩
        · obtain ⟨i, serv, hserv, rfl⟩ := (h.reports_base hkeeps hbase).mp hreports
          exact .inr ⟨_, _, _, .serv hserv, rfl⟩
        · cases hat with
          | serv hserv =>
              obtain ⟨j, chrc, hchrc, rfl⟩ := (h.reports_serv hkeeps hserv).mp hreports
              exact .inr ⟨_, _, _, .chrc hserv hchrc, rfl⟩
          | chrc hserv hchrc =>
              obtain ⟨k, desc, hdesc, rfl⟩ := (h.reports_chrc hkeeps hserv hchrc).mp hreports
              exact .inr ⟨_, _, _, .desc hserv hchrc hdesc, rfl⟩
          | desc hserv hchrc hdesc =>
              exact absurd hreports (h.not_reports_desc hkeeps hserv hchrc hdesc _)
  · have hserv {i : Nat} {serv : Service} (hserv : self.services[i]? = some serv) :
        Relation.ReflTransGen t.Reports self.basePath ((Place.serv i).path self.basePath) :=
      .single ((h.reports_base hkeeps hbase).mpr ⟨i, serv, hserv, rfl⟩)
    have hchrc {i j : Nat} {serv : Service} {chrc : Characteristic}
        (hs : self.services[i]? = some serv) (hchrc : serv.chars[j]? = some chrc) :
        Relation.ReflTransGen t.Reports self.basePath ((Place.chrc i j).path self.basePath) :=
      (hserv hs).tail ((h.reports_serv hkeeps hs).mpr ⟨j, chrc, hchrc, rfl⟩)
    rintro (rfl | ⟨pl, key, st, hat, rfl⟩)
    · exact .refl
    · cases hat with
      | serv hs => exact hserv hs
      | chrc hs hc => exact hchrc hs hc
      | desc hs hc hdesc =>
          exact (hchrc hs hc).tail ((h.reports_chrc hkeeps hs hc).mpr ⟨_, _, hdesc, rfl⟩)

end Following

end Application

end Rustable.Gatt.Server
