import Rustable.Children.Served
import Rustable.Gatt.Lookups
import Rustable.Gatt.Server.Identity

/-!
# What a client discovers

A client walks a tree of objects from the top: it has an object introspected, asks each child for
its UUID, and goes on below.  If the tree is that of a registered application, it discovers what
was registered: each attribute, at its path, and nothing else (`discovers`).  The replies may have
been given at any times, with anything in between, and may arrive in any order.
-/

namespace Rustable.Gatt.Server

open DBus Xml Introspect

/-- The object at a path accepts the call and answers it with `m`, or would do so: the turn itself
is not taken. -/
def AppWorker.Answers (self : AppWorker) {p : ObjectPath} (call : MethodCall p)
    (m : MarshalledMessage) : Prop :=
  ∃ key worker io asked flow s' out, self.workers.lookup key = some worker ∧ worker.path = p ∧
    isMsgBluez call.toMessage (worker.state.filter self.filter) = true ∧
    worker.state.onCall io self.filter asked call.toMessage = .done flow s' out ∧ .reply m ∈ out

/-- The worker of an attribute has the filter of the application. -/
theorem WorkerState.filter_of_card {s : WorkerState} {card : Card} (h : s.card = some card)
    (given : Option String) : s.filter given = given := by
  cases s with
  | app s => contradiction
  | serv s | chrc s | desc s => rfl

namespace Application

/-- The children of an object: how their names begin, the interface they have, and what a client
is to find. -/
inductive Level (a : Application) : String → String → ObjectPath → List Client.Attribute → Prop
  | base : a.Level "service" bluezSerIf a.basePath
      (a.services.mapIdx fun i serv ↦ ⟨(Place.serv i).path a.basePath, serv.uuid⟩)
  | serv {i : Nat} {serv : Service} (hserv : a.services[i]? = some serv) :
      a.Level "char" bluezChrIf ((Place.serv i).path a.basePath)
        (serv.chars.mapIdx fun j chrc ↦ ⟨(Place.chrc i j).path a.basePath, chrc.uuid⟩)
  | chrc {i j : Nat} {serv : Service} {chrc : Characteristic}
      (hserv : a.services[i]? = some serv) (hchrc : serv.chars[j]? = some chrc) :
      a.Level "desc" bluezDesIf ((Place.chrc i j).path a.basePath)
        (chrc.descs.mapIdx fun k desc ↦ ⟨(Place.desc i j k).path a.basePath, desc.uuid⟩)

variable {self : Application} {app t : AppWorker} {kind interface : String} {p : ObjectPath}
  {attributes : List Client.Attribute}

theorem map_path_mapIdx {α : Type} (path : Nat → ObjectPath) (uuid : α → UUID) (l : List α) :
    (l.mapIdx fun i a ↦ (⟨path i, uuid a⟩ : Client.Attribute)).map (·.path) =
      (List.range l.length).map path := by
  refine List.ext_getElem (by simp) fun i hi _ ↦ ?_
  simp

/-- The children are those that the object names. -/
theorem Level.children (h : self.Level kind interface p attributes) :
    self.Children p (attributes.map (·.path)) := by
  cases h with
  | base =>
      rw [map_path_mapIdx fun i ↦ (Place.serv i).path self.basePath]
      exact .base
  | serv hserv =>
      rw [map_path_mapIdx fun j ↦ (Place.chrc _ j).path self.basePath]
      exact .serv hserv
  | chrc hserv hchrc =>
      rw [map_path_mapIdx fun k ↦ (Place.desc _ _ k).path self.basePath]
      exact .chrc hserv hchrc

/-- A child is an attribute. -/
theorem Level.exists_at (h : self.Level kind interface p attributes) {a : Client.Attribute}
    (ha : a ∈ attributes) : ∃ pl key st card, self.At pl key st ∧
      a.path = pl.path self.basePath ∧ st.card = some card ∧ card.kind = kind ∧
      card.interface = interface ∧ card.uuid = a.uuid := by
  cases h with
  | base =>
      obtain ⟨i, hi, rfl⟩ := List.mem_mapIdx.mp ha
      exact ⟨_, _, _, _, .serv (List.getElem?_eq_getElem hi), rfl, rfl, rfl, rfl, rfl⟩
  | serv hserv =>
      obtain ⟨j, hj, rfl⟩ := List.mem_mapIdx.mp ha
      exact ⟨_, _, _, _, .chrc hserv (List.getElem?_eq_getElem hj), rfl, rfl, rfl, rfl, rfl⟩
  | chrc hserv hchrc =>
      obtain ⟨k, hk, rfl⟩ := List.mem_mapIdx.mp ha
      exact ⟨_, _, _, _, .desc hserv hchrc (List.getElem?_eq_getElem hk), rfl, rfl, rfl, rfl, rfl⟩

theorem below_child (p : ObjectPath) {kind : String} (hkind : IsElement kind.toList) (i : Nat) :
    p.Below (child p hkind i) := p.below_push _

/-- Children are below their parent. -/
theorem Level.below (h : self.Level kind interface p attributes) {a : Client.Attribute}
    (ha : a ∈ attributes) : p.Below a.path := by
  cases h with
  | base =>
      obtain ⟨i, hi, rfl⟩ := List.mem_mapIdx.mp ha
      exact below_child _ isElement_service i
  | serv hserv =>
      obtain ⟨j, hj, rfl⟩ := List.mem_mapIdx.mp ha
      exact below_child _ isElement_char j
  | chrc hserv hchrc =>
      obtain ⟨k, hk, rfl⟩ := List.mem_mapIdx.mp ha
      exact below_child _ isElement_desc k

/-! ## What is answered -/

section Answers

variable {bus : Bus} (hself : self.Distinct) (hnz : self.NonZero) (h : self.register bus = pure app)
  (ht : Lts.Reachable AppWorker.RoutedStep app t)
include hself hnz h ht

/-- There is one worker at a path. -/
theorem worker_unique {key key' : Key} {worker worker' : Worker}
    (hworker : t.workers.lookup key = some worker) (hpath : worker.path = p)
    (hworker' : t.workers.lookup key' = some worker') (hpath' : worker'.path = p) :
    worker' = worker := by
  have hinstalled := installed_of_register hself hnz h
  have hkeeps := AppWorker.keeps_of_reachable (below_of_reachable h (.refl app)) hinstalled.keeps ht
  have hkey : t.pathOf key = some p := by rw [AppWorker.pathOf, hworker, ← hpath]; rfl
  have hkey' : t.pathOf key' = some p := by rw [AppWorker.pathOf, hworker', ← hpath']; rfl
  obtain rfl := hinstalled.key_unique hkeeps hkey hkey'
  exact Option.some.inj (hworker'.symm.trans hworker)

/-- **A call for introspection** is answered with a text in which the children are found. -/
theorem introspected {ps : List ObjectPath} (hps : self.Children p ps) {call : MethodCall p}
    (hinterface : call.interface = some introIf) {m : MarshalledMessage} (hm : t.Answers call m) :
    ∃ text d, m.body.get String = .ok text ∧ Spells text d ∧ FindsPaths p text d m ps := by
  have hinstalled := installed_of_register hself hnz h
  have hkeeps := AppWorker.keeps_of_reachable (below_of_reachable h (.refl app)) hinstalled.keeps ht
  obtain ⟨key, worker, hworker, hpath, hjoined⟩ :=
    hinstalled.joined_children hkeeps (basePath_ne_root_of_register h) hps
  obtain ⟨key', worker', io, asked, flow, s', out, hworker', hpath', hfilter, hrun, hout⟩ := hm
  obtain rfl := worker_unique hself hnz h ht hworker hpath hworker' hpath'
  obtain ⟨m', text, d, hreply, hspelled⟩ :=
    worker'.state.introspected hjoined asked hinterface hfilter
  obtain rfl := eq_of_replied ((hreply io).symm.trans hrun) hout
  exact ⟨text, d, hspelled⟩

/-- The worker of an attribute, at any time. -/
theorem exists_worker {pl : Place} {key : Key} {st : WorkerState} (hat : self.At pl key st)
    {card : Card} (hcard : st.card = some card) : ∃ worker, t.workers.lookup key = some worker ∧
      worker.path = pl.path self.basePath ∧ worker.state.card = some card := by
  obtain ⟨es, hrun⟩ := ht
  obtain ⟨before, hbefore, rfl, hplace⟩ := (installed_of_register hself hnz h).lookup hat
  have hroot : before.path ≠ .root := hplace ▸ Place.path_ne_root pl
  obtain ⟨worker, hworker, hshows⟩ := AppWorker.shows_of_run hrun hbefore fun _ ↦ hroot
  exact ⟨worker, hworker, hshows.path.trans hplace,
    (congrArg Known.card hshows.known).trans hcard⟩

/-- **A request for the UUID** of an attribute is answered with it. -/
theorem carries_of_answers {pl : Place} {key : Key} {st : WorkerState} (hat : self.At pl key st)
    {card : Card} (hcard : st.card = some card) {path : ObjectPath}
    (hpath : path = pl.path self.basePath) {dest : String} {call : MethodCall path}
    (hcall : Delivers call (getPropCall path dest card.interface uuidStr)) {m : MarshalledMessage}
    (hm : t.Answers call m) : CarriesVariant m (.ownedStr (String.ofList card.uuid.toChars)) := by
  obtain ⟨worker, hworker, hplace, hsame⟩ := exists_worker hself hnz h ht hat hcard
  obtain ⟨key', worker', io, asked, flow, s', out, hworker', hpath', hfilter, hturn, hout⟩ := hm
  obtain rfl := worker_unique hself hnz h ht hworker (hplace.trans hpath.symm) hworker' hpath'
  rw [WorkerState.filter_of_card hsame] at hfilter
  obtain ⟨m', s'', hreply, -, hm'⟩ := WorkerState.onCall_getUuid hsame
    (hpath ▸ Place.path_ne_root pl) hcall hfilter asked
  obtain rfl := eq_of_replied ((hreply io).symm.trans hturn) hout
  exact hm'

/-- It is answered at any time, if it passes the filter. -/
theorem exists_answers {pl : Place} {key : Key} {st : WorkerState} (hat : self.At pl key st)
    {card : Card} (hcard : st.card = some card) {path : ObjectPath}
    (hpath : path = pl.path self.basePath) {dest : String} {call : MethodCall path}
    (hcall : Delivers call (getPropCall path dest card.interface uuidStr))
    (hfilter : isMsgBluez call.toMessage t.filter = true) : ∃ m, t.Answers call m := by
  obtain ⟨worker, hworker, hplace, hsame⟩ := exists_worker hself hnz h ht hat hcard
  obtain ⟨m, s', hreply, hsendable, -⟩ := WorkerState.onCall_getUuid hsame
    (hpath ▸ Place.path_ne_root pl) hcall hfilter fun _ ↦ none
  refine ⟨m, key, worker, {}, fun _ ↦ none, .next, s', [.reply m], hworker,
    hplace.trans hpath.symm, ?_, ?_, List.mem_singleton_self _⟩
  · rw [WorkerState.filter_of_card hsame]
    exact hfilter
  · exact (hreply {}).trans (Turn.replied_sendable hsendable rfl s' [])

end Answers

/-! ## What is discovered -/

/-- What a client makes of the reply. -/
theorem attributeOf_eq {kind : String} {path : ObjectPath} {uuid : UUID} {m : MarshalledMessage}
    (hkind : Client.namedLike kind path = true)
    (hm : CarriesVariant m (.ownedStr (String.ofList uuid.toChars))) :
    Client.attributeOf kind (path, m) = some ⟨path, uuid⟩ := by
  have huuid : Client.validUuid m = some uuid := by
    refine Client.validUuid_eq_some_iff.mpr ⟨_, hm.isMsgErr_eq not_false, ?_⟩
    rw [String.toList_ofList, UUID.fromStr_toChars]
  rw [Client.attributeOf, if_pos hkind, huuid]
  rfl

theorem ascii_of_carries {uuid : UUID} {m : MarshalledMessage}
    (hm : CarriesVariant m (.ownedStr (String.ofList uuid.toChars))) {s : String}
    (hs : isMsgErr BluezOptions m = pure (.str s)) : ∀ c ∈ s.toList, c.utf8Size = 1 := by
  rw [hm.isMsgErr_eq not_false] at hs
  obtain rfl := BluezOptions.str.inj (Except.ok.inj (Option.some.inj hs))
  rw [String.toList_ofList]
  exact (UUID.isText_iff.mp (UUID.isText_toChars uuid)).1.utf8Size rfl

/-- The reply to the request for the UUID of an attribute, at some time. -/
def RepliedTo (app : AppWorker) (interface : String) (path : ObjectPath) (m : MarshalledMessage) :
    Prop :=
  ∃ (t : AppWorker) (dest : String) (call : MethodCall path),
    Lts.Reachable AppWorker.RoutedStep app t ∧
      Delivers call (getPropCall path dest interface uuidStr) ∧ t.Answers call m

/-- What a client has when it has asked each child: it finds the attributes in the replies. -/
theorem children_of_replies {bus : Bus} (hself : self.Distinct) (hnz : self.NonZero)
    (h : self.register bus = pure app) (hlevel : self.Level kind interface p attributes)
    {replies : ObjectPath → MarshalledMessage}
    (hreplies : ∀ a ∈ attributes, RepliedTo app interface a.path (replies a.path)) :
    ∃ c : Client.Children p, c.objects = attributes.map (fun a ↦ (a.path, replies a.path)) ∧
      c.attributes kind = attributes ∧ ∀ k, c.found kind k = attributes[k]? := by
  have hcarries : ∀ a ∈ attributes, Client.namedLike kind a.path = true ∧
      CarriesVariant (replies a.path) (.ownedStr (String.ofList a.uuid.toChars)) := by
    intro a ha
    obtain ⟨t, dest, call, ht, hcall, hm⟩ := hreplies a ha
    obtain ⟨pl, key, st, card, hat, hpath, hcard, rfl, rfl, huuid⟩ := hlevel.exists_at ha
    obtain ⟨card', hcard', hname⟩ := hat.exists_card self.basePath
    obtain rfl := Option.some.inj (hcard'.symm.trans hcard)
    exact ⟨hpath ▸ hname, huuid ▸ carries_of_answers hself hnz h ht hat hcard hpath hcall hm⟩
  have hattribute : ∀ a ∈ attributes, Client.attributeOf kind (a.path, replies a.path) = some a :=
    fun a ha ↦ attributeOf_eq (hcarries a ha).1 (hcarries a ha).2
  have hmem {o : ObjectPath × MarshalledMessage}
      (ho : o ∈ attributes.map fun a ↦ (a.path, replies a.path)) :
      ∃ a ∈ attributes, o = (a.path, replies a.path) := by
    obtain ⟨a, ha, rfl⟩ := List.mem_map.mp ho
    exact ⟨a, ha, rfl⟩
  let c : Client.Children p := {
    objects := attributes.map fun a ↦ (a.path, replies a.path)
    below := by
      intro o ho
      obtain ⟨a, ha, rfl⟩ := hmem ho
      exact hlevel.below ha
    isReply := by
      intro o ho
      obtain ⟨a, ha, rfl⟩ := hmem ho
      exact .inl (hcarries a ha).2.typ
    ascii := by
      intro o ho s hs
      obtain ⟨a, ha, rfl⟩ := hmem ho
      exact ascii_of_carries (hcarries a ha).2 hs }
  refine ⟨c, rfl, ?_, fun k ↦ ?_⟩
  · rw [Client.Children.attributes, List.filterMap_map]
    exact (List.filterMap_congr hattribute).trans List.filterMap_some
  · rw [Client.Children.found, List.getElem?_map]
    cases ha : attributes[k]? with
    | none => rfl
    | some a => exact hattribute a (List.mem_of_getElem? ha)

/-- **What a client discovers** is what was registered.

* An object that has been introspected is found to have its children, in their order.
* When each child has been asked for its UUID, whatever happens between the replies and in
  whatever order they arrive, the attributes that are listed are those that were registered, each
  of them once.  One that is looked for is found, if there is one with the UUID.
* The replies can arrive in any order, and the list is in this order. -/
theorem discovers {bus : Bus} (hself : self.Distinct) (hnz : self.NonZero)
    (h : self.register bus = pure app) (hlevel : self.Level kind interface p attributes) :
    (∀ (t : AppWorker) (call : MethodCall p) (m : MarshalledMessage),
      Lts.Reachable AppWorker.RoutedStep app t → call.interface = some introIf →
      t.Answers call m → ∃ text d, m.body.get String = .ok text ∧ Spells text d ∧
        FindsPaths p text d m (attributes.map (·.path))) ∧
    ∀ replies : ObjectPath → MarshalledMessage,
      (∀ a ∈ attributes, RepliedTo app interface a.path (replies a.path)) →
      ∃ c : Client.Children p, c.objects = attributes.map (fun a ↦ (a.path, replies a.path)) ∧
        (∀ ws, (∀ w ∈ ws, c.Honest w) →
          (∀ r, Client.lookup kind interface (pure (attributes.map (·.path))) Client.collect [] ws =
            .returned r → ∃ found, r = pure found ∧ found.Perm attributes) ∧
          (∀ {β : Type} (found : Client.Attribute → β) (unknown : MayFail β) uuid r,
            Client.lookup kind interface (pure (attributes.map (·.path)))
              (Client.search uuid found unknown) () ws = .returned r →
                (∃ a ∈ attributes, a.uuid = uuid ∧ r = pure (found a)) ∨
                  (∀ a ∈ attributes, a.uuid ≠ uuid) ∧ r = unknown) ∧
          (c.Replied ws →
            (∃ r, Client.lookup kind interface (pure (attributes.map (·.path))) Client.collect [] ws =
              .returned r) ∧
            ∀ {β : Type} (found : Client.Attribute → β) (unknown : MayFail β) uuid, ∃ r,
              Client.lookup kind interface (pure (attributes.map (·.path)))
                (Client.search uuid found unknown) () ws = .returned r)) ∧
        ∀ order : List Nat, order.Perm (List.range attributes.length) →
          ∃ ws, (∀ w ∈ ws, c.Honest w) ∧ c.Replied ws ∧
            Client.lookup kind interface (pure (attributes.map (·.path))) Client.collect [] ws =
              .returned (pure (order.map (attributes[·]?)).reduceOption) := by
  refine ⟨fun t call m ht hinterface hm ↦
    introspected hself hnz h ht hlevel.children hinterface hm, fun replies hreplies ↦ ?_⟩
  obtain ⟨c, hobjects, hattributes, hfound⟩ := children_of_replies hself hnz h hlevel hreplies
  have hpaths : attributes.map (·.path) = c.paths := by
    rw [Client.Children.paths, hobjects, List.map_map]
    rfl
  have hagree {β : Type} (found : Client.Attribute → β) (unknown : MayFail β) :=
    Client.agree c kind interface found fun _ ↦ unknown
  refine ⟨c, hobjects, fun ws hws ↦ ?_, fun order horder ↦ ?_⟩
  · rw [hpaths]
    refine ⟨fun r hr ↦ ?_, fun found unknown uuid r hr ↦ ?_, fun hreplied ↦ ?_⟩
    · obtain ⟨found, rfl, hperm⟩ := (hagree id .panic).listed ws hws r hr
      exact ⟨found, rfl, hperm.trans (.of_eq hattributes)⟩
    · rw [← hattributes]
      exact (hagree found unknown).finds ws hws uuid r hr
    · exact ⟨((hagree id .panic).returns ws hws hreplied).1,
        fun found unknown uuid ↦ ((hagree found unknown).returns ws hws hreplied).2 uuid⟩
  · have hlength : c.objects.length = attributes.length := by rw [hobjects, List.length_map]
    obtain ⟨ws, hws, hreplied, hlist, -⟩ := (hagree id .panic).orders order (hlength ▸ horder)
    rw [← hpaths, funext hfound] at hlist
    exact ⟨ws, hws, hreplied, hlist⟩

/-- A run in which a characteristic is updated and asked for its value. -/
theorem exists_run_ofPair {app : AppWorker}
    (h : (ofPair ⟨1⟩ ⟨4⟩ ⟨2⟩ ⟨3⟩).register .working = pure app) :
    ∃ es t, es ≠ [] ∧ Lts.Run AppWorker.RoutedStep app es t := by
  have hinstalled := installed_of_register distinct_ofPair nonZero_ofPair h
  have hchrc := hinstalled.other _ _ _ (@At.chrc (ofPair ⟨1⟩ ⟨4⟩ ⟨2⟩ ⟨3⟩) 0 0 _ _ rfl rfl)
    (by intro; contradiction)
  obtain ⟨es, t, worker, hrun, -, -, hsents, -⟩ :=
    AppWorker.update_get (AppWorker.awake_of_lookup hchrc rfl) .empty 7
  refine ⟨es, t, ?_, hrun⟩
  rintro rfl
  contradiction

/-- Two services are discovered below the base path after a run, and the replies arrive in either
order.  The second one is found in both, as `get_descriptor` finds an attribute. -/
theorem discovers_ofPair : ∃ (app t : AppWorker) (es : List Event)
    (replies : ObjectPath → MarshalledMessage)
    (c : Client.Children (ofPair ⟨1⟩ ⟨4⟩ ⟨2⟩ ⟨3⟩).basePath) (ws ws' : List (Wake Client.Op.Answer)),
    let self := ofPair ⟨1⟩ ⟨4⟩ ⟨2⟩ ⟨3⟩
    let first : Client.Attribute := ⟨(Place.serv 0).path self.basePath, ⟨1⟩⟩
    let second : Client.Attribute := ⟨(Place.serv 1).path self.basePath, ⟨4⟩⟩
    self.register .working = pure app ∧ es ≠ [] ∧ Lts.Run AppWorker.RoutedStep app es t ∧
    (∀ a ∈ [first, second], ∃ call : MethodCall a.path, t.Answers call (replies a.path)) ∧
    c.objects = [(first.path, replies first.path), (second.path, replies second.path)] ∧
    (∀ w ∈ ws, c.Honest w) ∧ (∀ w ∈ ws', c.Honest w) ∧
    Client.lookup "service" bluezSerIf (pure c.paths) Client.collect [] ws =
      .returned (pure [first, second]) ∧
    Client.lookup "service" bluezSerIf (pure c.paths) Client.collect [] ws' =
      .returned (pure [second, first]) ∧
    Client.lookup "service" bluezSerIf (pure c.paths) (Client.search ⟨4⟩ some (pure none)) () ws' =
      .returned (pure (some second)) := by
  obtain ⟨app, happ⟩ := register_ofPair ⟨1⟩ ⟨4⟩ ⟨2⟩ ⟨3⟩
  obtain ⟨es, t, hne, hrun⟩ := exists_run_ofPair happ
  let call (path : ObjectPath) : MethodCall path :=
    { member := "Get"
      interface := some propsIf
      sender := some bluezDest
      body := (getPropCall path bluezDest bluezSerIf uuidStr).body }
  have hcall (path : ObjectPath) :
      Delivers (call path) (getPropCall path bluezDest bluezSerIf uuidStr) := ⟨rfl, rfl, rfl⟩
  have hanswers : ∀ path ∈ [(Place.serv 0).path (ofPair ⟨1⟩ ⟨4⟩ ⟨2⟩ ⟨3⟩).basePath,
      (Place.serv 1).path (ofPair ⟨1⟩ ⟨4⟩ ⟨2⟩ ⟨3⟩).basePath], ∃ m, t.Answers (call path) m := by
    intro path hpath
    rcases List.mem_cons.mp hpath with hpath | hpath
    · exact exists_answers distinct_ofPair nonZero_ofPair happ ⟨es, hrun⟩ (.serv rfl) rfl hpath
        (hcall path) (isMsgBluez_of_sender rfl _)
    · exact exists_answers distinct_ofPair nonZero_ofPair happ ⟨es, hrun⟩ (.serv rfl) rfl
        (List.mem_singleton.mp hpath) (hcall path) (isMsgBluez_of_sender rfl _)
  have : Nonempty MarshalledMessage := ⟨(call .root).toMessage⟩
  choose! replies hreplies using hanswers
  obtain ⟨-, hdiscovers⟩ := discovers distinct_ofPair nonZero_ofPair happ .base
  obtain ⟨c, hc, hlists, horders⟩ := hdiscovers replies fun a ha ↦
    ⟨t, bluezDest, call a.path, ⟨es, hrun⟩, hcall a.path,
      hreplies a.path (List.mem_map_of_mem (f := (·.path)) ha)⟩
  obtain ⟨ws, hws, -, hlist⟩ := horders [0, 1] (.refl _)
  obtain ⟨ws', hws', hreplied, hlist'⟩ := horders [1, 0] (.swap 0 1 [])
  obtain ⟨-, hfinds, hreturns⟩ := hlists ws' hws'
  obtain ⟨r, hr⟩ := (hreturns hreplied).2 some (pure none) ⟨4⟩
  have hpaths : c.paths = _ := congrArg (List.map Prod.fst) hc
  refine ⟨app, t, es, replies, c, ws, ws', happ, hne, hrun, fun a ha ↦ ⟨call a.path, ?_⟩, hc, hws,
    hws', ?_, ?_, ?_⟩
  · exact hreplies a.path (List.mem_map_of_mem (f := (·.path)) ha)
  · rw [hpaths]
    exact hlist
  · rw [hpaths]
    exact hlist'
  · rw [hpaths]
    rcases hfinds some (pure none) ⟨4⟩ r hr with ⟨a, ha, huuid, rfl⟩ | ⟨hnone, -⟩
    · rcases List.mem_cons.mp ha with rfl | ha
      · exact absurd huuid (by decide : (⟨1⟩ : UUID) ≠ ⟨4⟩)
      · obtain rfl := List.mem_singleton.mp ha
        exact hr
    · exact absurd rfl (hnone ⟨_, ⟨4⟩⟩ (List.mem_cons_of_mem _ (List.mem_singleton_self _)))

end Application

end Rustable.Gatt.Server
