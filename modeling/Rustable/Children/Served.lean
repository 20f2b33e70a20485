import Rustable.Children.Texts
import Rustable.Gatt.Server.Mailboxes

/-!
# The children of what is served

Whatever has happened since an application was registered, the reply of an object to a call for
introspection spells a document, and `get_children` finds in it the paths at which the children
of the object were put, in their order (`children_introspected`).
-/

namespace Rustable.Gatt.Server

open DBus Xml Introspect

/-- The interfaces of a worker are elements, none of them a node. -/
theorem WorkerState.elements_interfacesText (s : WorkerState) : Elements s.interfacesText := by
  cases s with
  | app s => exact elements_mangagerStr
  | serv s => exact elements_propStr.append elements_serviceStr
  | chrc s => exact elements_propStr.append elements_charStr
  | desc s => exact elements_propStr.append elements_descStr

/-- What a worker replies spells a document, whose nodes are the children. -/
theorem introReply_spells (call : MarshalledMessage) (s : WorkerState) : ∃ (text : String)
    (d : Document), (introReply call s.interfacesText s.childNames).body.get String = .ok text ∧
      Spells text d ∧ d.name = "node" ∧ enteredNames d.content = s.childNames := by
  obtain ⟨d, hname, hnames, hspells⟩ := spells_intro s.elements_interfacesText
    fun _ ↦ WorkerState.isElement_of_mem_childNames
  exact ⟨_, d, rfl, hspells, hname, hnames⟩

/-- The names lead to the paths, one element down. -/
def Joined (p : ObjectPath) (names : List String) (ps : List ObjectPath) : Prop :=
  ∀ pushPathChecked, JoinsElements pushPathChecked →
    joined (pushPathChecked p) [] names = .done ps

/-- Each name of a child is joined to the path below. -/
theorem joined_childNames {p : ObjectPath} (hp : p ≠ .root) {kind : String}
    (hkind : IsElement kind.toList) (count : Nat) :
    Joined p (Introspect.childNames kind count) ((List.range count).map (child p hkind)) := by
  intro pushPathChecked hpush
  have hmap : (Introspect.childNames kind count).mapM (pushPathChecked p) =
      some ((List.range count).map (child p hkind)) := by
    have hname : pushPathChecked p ∘ (fun i ↦ kind ++ String.ofList (Text.hex .lower 4 i)) =
        fun i ↦ pure (child p hkind i) := by
      funext i
      have htext : (kind ++ String.ofList (Text.hex .lower 4 i)).toList =
          kind.toList ++ Text.hex .lower 4 i := by
        rw [String.toList_append, String.toList_ofList]
      rw [Function.comp_apply, hpush p _ (htext ▸ isElement_child hkind i) hp]
      exact congrArg some (ObjectPath.ext (congrArg (p.elements ++ [·]) htext))
    rw [Introspect.childNames, List.mapM_map, hname, List.mapM_pure]
    rfl
  rw [joined, hmap]
  rfl

namespace Application

/-- The object at the path has the children, in their order. -/
inductive Children (a : Application) : ObjectPath → List ObjectPath → Prop
  | base : a.Children a.basePath
      ((List.range a.services.length).map fun i ↦ (Place.serv i).path a.basePath)
  | serv {i : Nat} {serv : Service} (hserv : a.services[i]? = some serv) :
      a.Children ((Place.serv i).path a.basePath)
        ((List.range serv.chars.length).map fun j ↦ (Place.chrc i j).path a.basePath)
  | chrc {i j : Nat} {serv : Service} {chrc : Characteristic}
      (hserv : a.services[i]? = some serv) (hchrc : serv.chars[j]? = some chrc) :
      a.Children ((Place.chrc i j).path a.basePath)
        ((List.range chrc.descs.length).map fun k ↦ (Place.desc i j k).path a.basePath)
  | desc {i j k : Nat} {serv : Service} {chrc : Characteristic} {desc : Descriptor}
      (hserv : a.services[i]? = some serv) (hchrc : serv.chars[j]? = some chrc)
      (hdesc : chrc.descs[k]? = some desc) : a.Children ((Place.desc i j k).path a.basePath) []

variable {self : Application} {app t : AppWorker}

theorem basePath_ne_root_of_register {bus : Bus} (h : self.register bus = pure app) :
    self.basePath ≠ .root := by
  obtain ⟨hne, _, _, _, -, hservs, -, -⟩ := register_spec h
  exact basePath_ne_root hne hservs

/-- The worker of an object names its children. -/
theorem Installed.joined_children (h : self.Installed app) (hkeeps : app.Keeps t)
    (hbase : self.basePath ≠ .root) {p : ObjectPath} {ps : List ObjectPath}
    (hps : self.Children p ps) : ∃ key worker, t.workers.lookup key = some worker ∧
      worker.path = p ∧ Joined p worker.state.childNames ps := by
  cases hps with
  | base =>
      obtain ⟨worker, hworker, hpath, hnames⟩ := h.told_root hkeeps
      refine ⟨_, worker, hworker, hpath, ?_⟩
      rw [hnames]
      exact joined_childNames hbase isElement_service _
  | serv hserv =>
      obtain ⟨worker, hworker, hpath, htree⟩ := h.told hkeeps (.serv hserv)
      refine ⟨_, worker, hworker, hpath, ?_⟩
      rw [htree.names]
      exact joined_childNames (Place.path_ne_root _) isElement_char _
  | chrc hserv hchrc =>
      obtain ⟨worker, hworker, hpath, htree⟩ := h.told hkeeps (.chrc hserv hchrc)
      refine ⟨_, worker, hworker, hpath, ?_⟩
      rw [htree.names]
      exact joined_childNames (Place.path_ne_root _) isElement_desc _
  | desc hserv hchrc hdesc =>
      obtain ⟨worker, hworker, hpath, htree⟩ := h.told hkeeps (.desc hserv hchrc hdesc)
      refine ⟨_, worker, hworker, hpath, ?_⟩
      rw [htree.names]
      exact fun _ _ ↦ rfl

end Application

/-- Whatever reads the text as the document, up to text and white space, and however the names are
joined, `get_children` returns the paths. -/
def FindsPaths (p : ObjectPath) (text : String) (d : Document) (m : MarshalledMessage)
    (ps : List ObjectPath) : Prop :=
  ∀ {ε : Type} (fromStr : String → EventReader ε)
    (pushPathChecked : ObjectPath → String → Option ObjectPath) (d' : Document),
    JoinsElements pushPathChecked → d.Same d' → fromStr text = d'.reader →
      Ends (getChildren fromStr pushPathChecked p m) (.done ps)

/-- The reply to a call for introspection spells a document, in which `get_children` finds the
children that the worker names. -/
theorem WorkerState.introspected {s : WorkerState} {p : ObjectPath} {ps : List ObjectPath}
    (hjoined : Joined p s.childNames ps) {given : Option String}
    (asked : Asked) {call : MethodCall p} (hinterface : call.interface = some introIf)
    (hfilter : isMsgBluez call.toMessage (s.filter given) = true) :
    ∃ (m : MarshalledMessage) (text : String) (d : Document),
      (∀ io, s.onCall io given asked call.toMessage = Turn.replied io (.done m s [])) ∧
      m.body.get String = .ok text ∧ Spells text d ∧
      FindsPaths p text d m ps := by
  obtain ⟨text, d, htext, hspells, hname, hnames⟩ := introReply_spells call.toMessage s
  refine ⟨_, text, d, fun io ↦ WorkerState.onCall_intro asked hinterface hfilter, htext, hspells,
    fun fromStr pushPathChecked d' hpush hsame hread ↦ ?_⟩
  have hends := @getChildren_intro _ fromStr pushPathChecked p _ _ _ _ hname htext hsame hread
  rwa [hnames, hjoined pushPathChecked hpush] at hends

namespace Application

/-- **`get_children` finds the children of what is served**: in any state that a registered
application can get to, the reply of an object to a call for introspection that passes the filter
spells a document, in which `get_children` finds the paths of the children, in their order. -/
theorem children_introspected {self : Application} {bus : Bus} {app t : AppWorker}
    (hself : self.Distinct) (hnz : self.NonZero) (h : self.register bus = pure app)
    (ht : Lts.Reachable AppWorker.RoutedStep app t) {p : ObjectPath} {ps : List ObjectPath}
    (hps : self.Children p ps) :
    ∃ key worker, t.workers.lookup key = some worker ∧ worker.path = p ∧
      ∀ (asked : Asked) (call : MethodCall p), call.interface = some introIf →
        isMsgBluez call.toMessage (worker.state.filter t.filter) = true →
        ∃ (m : MarshalledMessage) (text : String) (d : Document),
          (∀ io, worker.state.onCall io t.filter asked call.toMessage =
            Turn.replied io (.done m worker.state [])) ∧
          m.body.get String = .ok text ∧ Spells text d ∧ FindsPaths p text d m ps := by
  have hinstalled := installed_of_register hself hnz h
  have hkeeps := AppWorker.keeps_of_reachable (below_of_reachable h (.refl app)) hinstalled.keeps ht
  obtain ⟨key, worker, hworker, hpath, hjoined⟩ :=
    hinstalled.joined_children hkeeps (basePath_ne_root_of_register h) hps
  exact ⟨key, worker, hworker, hpath,
    fun asked _ hinterface hfilter ↦ worker.state.introspected hjoined asked hinterface hfilter⟩

/-- It holds of the application, which has one service, and of the service, which has one
characteristic, after a run. -/
theorem children_introspected_ofUuids : ∃ (app t : AppWorker) (es : List Event)
    (worker worker' : Worker) (m m' : MarshalledMessage) (d d' : Document),
    let self := ofUuids ⟨1⟩ ⟨2⟩ ⟨3⟩
    self.register .working = pure app ∧ es ≠ [] ∧ Lts.Run AppWorker.RoutedStep app es t ∧
    worker.state.onCall {} t.filter (fun _ ↦ none) (introspectCall self.basePath).toMessage =
      Turn.replied {} (.done m worker.state []) ∧
    Ends (getChildren (fun _ ↦ d.reader : String → EventReader Unit) pushName self.basePath m)
      (.done [(Place.serv 0).path self.basePath]) ∧
    worker'.state.onCall {} t.filter (fun _ ↦ none)
      (introspectCall ((Place.serv 0).path self.basePath)).toMessage =
        Turn.replied {} (.done m' worker'.state []) ∧
    Ends (getChildren (fun _ ↦ d'.reader : String → EventReader Unit) pushName
      ((Place.serv 0).path self.basePath) m') (.done [(Place.chrc 0 0).path self.basePath]) := by
  obtain ⟨app, happ⟩ := register_ofUuids ⟨1⟩ ⟨2⟩ ⟨3⟩
  obtain ⟨es, t, hne, hrun, -⟩ := exists_run_ofUuids happ .empty
  obtain ⟨key, worker, -, -, hreplies⟩ :=
    children_introspected (distinct_ofUuids ..) nonZero_ofUuids happ ⟨es, hrun⟩ .base
  obtain ⟨key', worker', -, -, hreplies'⟩ :=
    children_introspected (distinct_ofUuids ..) nonZero_ofUuids happ ⟨es, hrun⟩
      (@Children.serv (ofUuids ⟨1⟩ ⟨2⟩ ⟨3⟩) 0 _ rfl)
  obtain ⟨m, text, d, hreply, -, -, hread⟩ := hreplies (fun _ ↦ none) (introspectCall _) rfl
    (isMsgBluez_of_sender rfl _)
  obtain ⟨m', text', d', hreply', -, -, hread'⟩ := hreplies' (fun _ ↦ none) (introspectCall _) rfl
    (isMsgBluez_of_sender rfl _)
  exact ⟨app, t, es, worker, worker', m, m', d, d', happ, hne, hrun, hreply {},
    hread (fun _ ↦ d.reader) pushName d joinsElements_pushName ⟨rfl, rfl, rfl⟩ rfl, hreply' {},
    hread' (fun _ ↦ d'.reader) pushName d' joinsElements_pushName ⟨rfl, rfl, rfl⟩ rfl⟩

end Application

end Rustable.Gatt.Server
