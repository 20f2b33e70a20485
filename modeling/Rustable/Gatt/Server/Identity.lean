import Rustable.Gatt.Readers
import Rustable.Gatt.Server.Frames
import Rustable.Gatt.Server.Introspection

/-!
# Attributes keep their UUIDs

The worker of an attribute is started with its UUID, its flags and whether it is primary.  None of
its turns changes them, whatever is called, written or sent (`WorkerState.known_of_turn`).  So a
client that asks an object for its UUID, at any time, finds the attribute that was registered at
its path (`attributes_found`).
-/

namespace Rustable.Gatt.Server

open DBus Mailbox

/-! ## Any turn -/

/-- **No turn of a characteristic changes what cannot be set.** -/
theorem ChrcData.view_of_turn {γ : Type} {f : ChrcData → γ} (hf : Fixed f) {io : Io}
    {path : ObjectPath} {filter : Option String} (hpath : path ≠ .root) {found : Found path}
    {s s' : ChrcData} {flow : Flow} {out : List Out}
    (h : turn io filter found s = some (.done flow s' out)) : f s' = f s := by
  have hP : ∀ o : Out, o.answer? = none → True := fun _ _ ↦ trivial
  cases found with
  | message msg => exact (keeps_onMsg hf hpath msg).of_done (Option.some.inj h)
  | closed => exact nomatch Option.some.inj h
  | call c =>
      exact (keeps_replyTo hP (keeps_handleCall hf hP (hf.propertiesCall hpath c))).of_done
        (Option.some.inj h)
  | notified shouldNot =>
      exact (keeps_onNotifyFuture hf hP shouldNot).of_done (Option.some.inj h)
  | written res =>
      rw [turn] at h
      split at h
      · exact (keeps_onWrite hf hP res).of_done (Option.some.inj h)
      · contradiction

/-- A turn of the worker of a characteristic is one of the characteristic. -/
theorem WorkerState.chrc_of_turn {io : Io} {path : ObjectPath} {filter : Option String}
    {input : Input} {s : ChrcData} {s' : WorkerState} {flow : Flow} {out : List Out}
    (hrouted : input.Routed path)
    (h : (chrc s).turn io path filter input = some (.done flow s' out)) :
    ∃ (found : Found path) (t : ChrcData), s' = chrc t ∧
      ChrcData.turn io filter found s = some (.done flow t out) := by
  have hturn (found : Found path) {ran : Ran Stop Out ChrcData Flow}
      (hfound : ChrcData.turn io filter found s = some ran)
      (hran : ran.mapState chrc = .done flow s' out) : ∃ (found : Found path) (t : ChrcData),
        s' = chrc t ∧ ChrcData.turn io filter found s = some (.done flow t out) := by
    obtain ⟨t, rfl, rfl⟩ := done_of_mapState hran
    exact ⟨found, t, rfl, hfound⟩
  cases input with
  | message msg => exact hturn (.message msg) rfl (Option.some.inj h)
  | call asked msg =>
      obtain ⟨c, rfl⟩ := hrouted asked msg rfl
      exact hturn (.call c) rfl (Option.some.inj h)
  | notified shouldNot => exact hturn (.notified shouldNot) rfl (Option.some.inj h)
  | written res =>
      rw [turn] at h
      split at h
      · next hfd => exact hturn (.written res) (if_pos hfd) (Option.some.inj h)
      · contradiction

/-- What no turn of a worker changes. -/
inductive Known
  | app (self : Application)
  | serv (uuid : UUID) (primary : Bool) (self : Service)
  | chrc (uuid : UUID) (flags : CharFlags)
  | desc (uuid : UUID) (flags : DescFlags)

/-- What is known of a worker. -/
def WorkerState.known : WorkerState → Known
  | app s => .app s.self
  | serv s => .serv s.servData.uuid s.servData.primary s.self
  | chrc s => .chrc s.uuid s.flags
  | desc s => .desc s.uuid s.flags

/-- **No turn changes what is known of a worker**, whatever is called, written or sent. -/
theorem WorkerState.known_of_turn {io : Io} {path : ObjectPath} {filter : Option String}
    {input : Input} {s s' : WorkerState} {flow : Flow} {out : List Out}
    (hpath : s.kind ≠ .app → path ≠ .root) (hrouted : input.Routed path)
    (h : s.turn io path filter input = some (.done flow s' out)) : s'.known = s.known := by
  cases s with
  | app s =>
      cases input with
      | message msg =>
          obtain ⟨t, rfl, hrun⟩ := done_of_mapState (Option.some.inj h)
          cases msg with
          | unregister =>
              obtain ⟨-, rfl, -⟩ := Ran.done.inj hrun
              rfl
          | _ => contradiction
      | call asked msg =>
          obtain ⟨t, rfl, hrun⟩ := done_of_mapState (Option.some.inj h)
          rw [AppLoop.onCall] at hrun
          cases hhandled : WorkerData.handleApp io asked msg s.appData with
          | stop why out =>
              rw [hhandled] at hrun
              contradiction
          | done flow' appData out =>
              rw [hhandled] at hrun
              obtain ⟨-, rfl, -⟩ := Ran.done.inj hrun
              rfl
      | notified | written => contradiction
  | serv s =>
      have hknown {t : ServWorker} (ht : t.known = s.known) : (serv t).known = (serv s).known := by
        obtain ⟨huuid, hrest⟩ := Prod.mk.inj ht
        obtain ⟨hprimary, hself⟩ := Prod.mk.inj hrest
        rw [known, known, huuid, hprimary, hself]
      cases input with
      | message msg =>
          obtain ⟨t, rfl, hrun⟩ := done_of_mapState (Option.some.inj h)
          exact hknown ((ServWorker.keeps_onMsg msg).of_done hrun)
      | call asked msg =>
          obtain ⟨c, rfl⟩ := hrouted asked msg rfl
          obtain ⟨t, rfl, hrun⟩ := done_of_mapState (Option.some.inj h)
          exact hknown ((ServWorker.keeps_onCall c).of_done hrun)
      | notified | written => contradiction
  | chrc s =>
      have hroot : path ≠ .root := hpath (by intro; contradiction)
      have hfixed : ChrcData.Fixed fun s ↦ (chrc s).known :=
        ⟨fun _ _ ↦ rfl, fun _ _ ↦ rfl, fun _ _ ↦ rfl, fun _ _ ↦ rfl, fun _ _ ↦ rfl, fun _ _ ↦ rfl⟩
      obtain ⟨found, t, rfl, hturn⟩ := chrc_of_turn hrouted h
      exact ChrcData.view_of_turn hfixed hroot hturn
  | desc s =>
      have hroot : path ≠ .root := hpath (by intro; contradiction)
      have hknown {t : Descriptor} (ht : t.known = s.known) : (desc t).known = (desc s).known := by
        obtain ⟨huuid, hflags⟩ := Prod.mk.inj ht
        rw [known, known, huuid, hflags]
      cases input with
      | message msg =>
          obtain ⟨t, rfl, hrun⟩ := done_of_mapState (Option.some.inj h)
          exact hknown ((Descriptor.keeps_onMsg hroot msg).of_done hrun)
      | call asked msg =>
          obtain ⟨c, rfl⟩ := hrouted asked msg rfl
          obtain ⟨t, rfl, hrun⟩ := done_of_mapState (Option.some.inj h)
          exact hknown ((Descriptor.keeps_onCall hroot c).of_done hrun)
      | notified | written => contradiction

/-- What is known of a worker says of what kind it is. -/
theorem WorkerState.kind_eq {s s' : WorkerState} (h : s'.known = s.known) : s'.kind = s.kind := by
  cases s <;> cases s' <;> first | rfl | contradiction

/-! ## Runs -/

/-- The worker is at the path, and what is known of it. -/
structure Worker.Shows (path : ObjectPath) (known : Known) (worker : Worker) : Prop where
  path : worker.path = path
  known : worker.state.known = known

theorem Worker.Shows.turn {path : ObjectPath} {s : WorkerState} {filter : Option String}
    {worker worker' : Worker} {t : Io × Input} {out : List Out}
    (hpath : s.kind ≠ .app → path ≠ .root) (hrouted : t.2.Routed path)
    (h : worker.Shows path s.known)
    (hturn : (behaviour filter).turn worker t = some (out, worker')) :
    worker'.Shows path s.known := by
  obtain ⟨-, ran, hran, -, rfl⟩ := behaviour_turn_iff.mp hturn
  obtain ⟨hpath', -, ⟨flow, out', hdone⟩ | ⟨hsame, -⟩⟩ := after_spec worker worker.queue ran
  · refine ⟨hpath'.trans h.path, ?_⟩
    rw [h.path] at hran
    rw [← h.known]
    refine WorkerState.known_of_turn ?_ hrouted (hran.trans (congrArg some hdone))
    rwa [WorkerState.kind_eq h.known]
  · exact ⟨hpath'.trans h.path, (congrArg WorkerState.known hsame).trans h.known⟩

/-- In a run a worker keeps its path and what is known of it. -/
theorem AppWorker.shows_of_run {app t : AppWorker} {es : List Event}
    (hrun : Lts.Run AppWorker.RoutedStep app es t) {key : Key} {before : Worker}
    (hbefore : app.workers.lookup key = some before)
    (hpath : before.state.kind ≠ .app → before.path ≠ .root) :
    ∃ worker, t.workers.lookup key = some worker ∧
      worker.Shows before.path before.state.known := by
  obtain ⟨worker, hworker, ⟨log, hlog⟩, -⟩ := AppWorker.runs_alone hrun.of_restrict hbefore
  have hshows : worker.alone.Shows before.path before.state.known := by
    refine Behaviour.told_invariant (fun s turn hturn r s' hs hrun' ↦ ?_) hlog ⟨rfl, rfl⟩
    exact hs.turn hpath (AppWorker.routed_of_mem_history hbefore hrun turn hturn) hrun'
  exact ⟨worker, hworker, hshows.path, hshows.known⟩

/-! ## Cards -/

/-- What an attribute is known by. -/
inductive Card
  | serv (uuid : UUID) (primary : Bool)
  | chrc (uuid : UUID) (flags : CharFlags)
  | desc (uuid : UUID) (flags : DescFlags)

/-- The card of an attribute, from what is known of its worker. -/
def Known.card : Known → Option Card
  | app _ => none
  | serv uuid primary _ => some (.serv uuid primary)
  | chrc uuid flags => some (.chrc uuid flags)
  | desc uuid flags => some (.desc uuid flags)

/-- What the attribute of a worker is known by. -/
def WorkerState.card (s : WorkerState) : Option Card := s.known.card

/-! ## What a client finds -/

/-- The call is what arrives of the message: the bus may add to the header. -/
structure Delivers {path : ObjectPath} (call : MethodCall path) (msg : MarshalledMessage) :
    Prop where
  member : some call.member = msg.dynheader.member
  interface : call.interface = msg.dynheader.interface
  body : call.body = msg.body

/-- The request of a client for a property is answered with its value. -/
theorem propertiesCall_getPropCall {σ : Type} [Properties σ] {path : ObjectPath} {I : σ → Prop}
    {dest interface prop : String} {v : BluezOptions} (hread : Properties.Readable path I)
    (hreads : Properties.Reads path I interface prop v) (hv : ∀ s, v ≠ .catchall s)
    {call : MethodCall path} (hcall : Delivers call (getPropCall path dest interface prop)) {s : σ}
    (hs : I s) : ∃ m s', Properties.propertiesCall call.toMessage s = some (m, s') ∧
      m.isSendable = true ∧ CarriesVariant m v := by
  have hmember : call.toMessage.dynheader.member = some "Get" := hcall.member
  have hbody : call.toMessage.body.get2 String String = .ok (interface, prop) := by
    change call.body.get2 String String = .ok (interface, prop)
    rw [hcall.body]
    rfl
  obtain ⟨w, hw⟩ := Option.isSome_iff_exists.mp (BluezOptions.marshal_isSome hv)
  obtain ⟨s', hrun, -⟩ := Properties.get_of_reads call.toMessage hread hreads hw rfl hbody hs
  refine ⟨{ call.toMessage.dynheader.makeResponse with body := [⟨.variant, w⟩] }, s', ?_, rfl,
    rfl, w, hw, rfl⟩
  rw [Properties.propertiesCall_eq "Get" hmember]
  exact hrun

namespace Card

/-- The UUID on a card. -/
def uuid : Card → UUID
  | serv uuid _ => uuid
  | chrc uuid _ => uuid
  | desc uuid _ => uuid

/-- What the names of the objects begin with. -/
def kind : Card → String
  | serv _ _ => "service"
  | chrc _ _ => "char"
  | desc _ _ => "desc"

/-- The interface of the objects. -/
def interface : Card → String
  | serv _ _ => bluezSerIf
  | chrc _ _ => bluezChrIf
  | desc _ _ => bluezDesIf

end Card

/-- **A worker answers the request for the UUID** of its attribute, if the request passes the
filter. -/
theorem WorkerState.onCall_getUuid {s : WorkerState} {card : Card} (hcard : s.card = some card)
    {path : ObjectPath} (hpath : path ≠ .root) {dest : String} {call : MethodCall path}
    (hcall : Delivers call (getPropCall path dest card.interface uuidStr))
    {given : Option String} (hfilter : isMsgBluez call.toMessage given = true) (asked : Asked) :
    ∃ m s', (∀ io, s.onCall io given asked call.toMessage = Turn.replied io (.done m s' [])) ∧
      m.isSendable = true ∧ CarriesVariant m (.ownedStr (String.ofList card.uuid.toChars)) := by
  have hinterface : call.toMessage.dynheader.interface = some propsIf := hcall.interface
  have hcatchall (text : String) (sig : Sig) : BluezOptions.ownedStr text ≠ .catchall sig := by
    rintro ⟨⟩
  cases s with
  | app s => contradiction
  | serv s =>
      obtain rfl := Option.some.inj hcard
      obtain ⟨m, d, hrun, hm⟩ := propertiesCall_getPropCall (ServData.readable path _)
        (ServData.reads_uuid path s.servData.uuid) (hcatchall _) hcall rfl
      refine ⟨m, serv { s with servData := d }, fun io ↦ ?_, hm⟩
      have hhandle : ServData.handleCall call.toMessage s.servData = some (m, d) := by
        rw [ServData.handleCall, hinterface, MayPanic.unwrap_some_bind, if_pos rfl]
        exact hrun
      refine (congrArg (Ran.mapState serv) (Turn.replyTo_passed hfilter _ s)).trans ?_
      rw [ServWorker.onData, Turn.onPart_some hhandle]
      exact Turn.replied_mapState serv _ _
  | chrc s =>
      obtain rfl := Option.some.inj hcard
      obtain ⟨m, d, hrun, hm⟩ := propertiesCall_getPropCall
        (ChrcData.readable hpath fun _ hd ↦ hd) (ChrcData.reads_uuid path s.uuid) (hcatchall _) hcall
        rfl
      refine ⟨m, chrc d, fun io ↦ ?_, hm⟩
      refine (congrArg (Ran.mapState chrc) (Turn.replyTo_passed hfilter _ s)).trans ?_
      rw [ChrcData.handleCall, hinterface, Act.unwrap_some, Act.pure_bind, if_pos rfl,
        Turn.ofMayPanic, Turn.onPart_some hrun]
      exact Turn.replied_mapState chrc _ _
  | desc s =>
      obtain rfl := Option.some.inj hcard
      have hreads := Descriptor.reads_uuid path s.uuid
      obtain ⟨m, d, hrun, hm⟩ := propertiesCall_getPropCall
        (Descriptor.readable hpath fun _ hd ↦ hd) hreads (hcatchall _) hcall rfl
      refine ⟨m, desc d, fun io ↦ ?_, hm⟩
      have hhandle : Descriptor.handleCall call.toMessage s = some (m, d) := by
        rw [Descriptor.handleCall, hinterface, MayPanic.unwrap_some_bind, if_pos rfl]
        exact hrun
      refine (congrArg (Ran.mapState desc) (Turn.replyTo_passed hfilter _ s)).trans ?_
      rw [Turn.ofMayPanic, Turn.onPart_some hhandle]
      exact Turn.replied_mapState desc _ _

/-- The path of a child has a name of the kind. -/
theorem namedLike_child (p : ObjectPath) {kind : String} (hkind : IsElement kind.toList) (i : Nat) :
    Client.namedLike kind (child p hkind i) = true := by
  have hname : (child p hkind i).fileName = some (kind.toList ++ Text.hex .lower 4 i) :=
    List.getLast?_concat
  rw [Client.namedLike, hname]
  exact List.isPrefixOf_iff_prefix.mpr (List.prefix_append _ _)

namespace Application

variable {self : Application} {pl : Place} {key : Key} {st : WorkerState}

/-- An attribute has a card, and its path a name of the kind on the card. -/
theorem At.exists_card (hat : self.At pl key st) (base : ObjectPath) :
    ∃ card, st.card = some card ∧ Client.namedLike card.kind (pl.path base) = true := by
  cases hat with
  | serv hserv => exact ⟨_, rfl, namedLike_child _ isElement_service _⟩
  | chrc hserv hchrc => exact ⟨_, rfl, namedLike_child _ isElement_char _⟩
  | desc hserv hchrc hdesc => exact ⟨_, rfl, namedLike_child _ isElement_desc _⟩

/-- **Attributes stay what they were registered as.**  Whatever happens to a registered
application, each attribute is still at its path, with its UUID, its flags and whether it is
primary.  If a request of a client for the UUID passes the filter, the worker sends a reply in
which the client finds the attribute with this UUID, unless the connection fails or the worker has
ended. -/
theorem attributes_found {bus : Bus} {app t : AppWorker} {es : List Event} (hself : self.Distinct)
    (hnz : self.NonZero) (h : self.register bus = pure app)
    (hrun : Lts.Run AppWorker.RoutedStep app es t) (hat : self.At pl key st) :
    ∃ worker card, t.workers.lookup key = some worker ∧ worker.path = pl.path self.basePath ∧
      st.card = some card ∧ worker.state.card = some card ∧
      ∀ (dest : String) (call : MethodCall worker.path),
        Delivers call (getPropCall worker.path dest card.interface uuidStr) →
        isMsgBluez call.toMessage t.filter = true → ∀ asked,
          (worker.running = true → ∃ m t',
            (∀ io, io.sendReply = .ok () →
              t.react (.wake key io (.call asked call.toMessage)) = ([.reply m], t')) ∧
            Client.lookupAttribute card.kind worker.path m =
              pure (some ⟨worker.path, card.uuid⟩)) ∧
          (worker.running = false → ∀ io,
            t.react (.wake key io (.call asked call.toMessage)) = ([], t)) := by
  obtain ⟨before, hbefore, rfl, hpath⟩ := (installed_of_register hself hnz h).lookup hat
  have hroot : before.path ≠ .root := hpath ▸ Place.path_ne_root pl
  obtain ⟨worker, hworker, hshows⟩ := AppWorker.shows_of_run hrun hbefore fun _ ↦ hroot
  have hsame : worker.state.card = before.state.card := congrArg Known.card hshows.known
  obtain ⟨card, hcard, hname⟩ := hat.exists_card self.basePath
  have hpath' : worker.path = pl.path self.basePath := hshows.path.trans hpath
  refine ⟨worker, card, hworker, hpath', hcard, hsame.trans hcard, ?_⟩
  intro dest call hcall hfilter asked
  refine ⟨fun hrunning ↦ ?_, fun hrunning io ↦
    AppWorker.react_of_not_awake (AppWorker.awake_eq_none hworker hrunning) io asked⟩
  obtain ⟨m, s', hreply, hsendable, hm⟩ := WorkerState.onCall_getUuid (hsame.trans hcard)
    (hpath' ▸ Place.path_ne_root pl) hcall hfilter asked
  refine ⟨m, t.put key { worker with state := s' }, fun io hio ↦ ?_,
    hm.lookupAttribute_eq (hpath' ▸ hname)⟩
  have hturn : worker.state.turn io worker.path t.filter (.call asked call.toMessage) =
      some (.done .next s' [.reply m]) := by
    rw [← List.nil_append [Out.reply m], ← Turn.replied_sendable hsendable hio s' [], ← hreply io]
    rfl
  exact AppWorker.react_of_awake (AppWorker.awake_of_lookup hworker hrunning) hturn

/-- It holds of the characteristic of an application, after a run that has ended no worker. -/
theorem attributes_found_ofUuids : ∃ (app t t' : AppWorker) (es : List Event) (worker : Worker)
    (asked : Asked) (call : MethodCall worker.path) (m : MarshalledMessage),
    (ofUuids ⟨1⟩ ⟨2⟩ ⟨3⟩).register .working = pure app ∧ es ≠ [] ∧
    Lts.Run AppWorker.RoutedStep app es t ∧
    t.workers.lookup (⟨1⟩, ⟨2⟩, 0) = some worker ∧
    t.react (.wake (⟨1⟩, ⟨2⟩, 0) {} (.call asked call.toMessage)) = ([.reply m], t') ∧
    Client.getChar worker.path m = pure (some ⟨worker.path, ⟨2⟩⟩) := by
  obtain ⟨app, happ⟩ := register_ofUuids ⟨1⟩ ⟨2⟩ ⟨3⟩
  obtain ⟨es, t, hne, hrun, hidle⟩ := exists_run_ofUuids happ .empty
  obtain ⟨worker, card, hworker, -, hst, -, hanswers⟩ :=
    attributes_found (distinct_ofUuids ..) nonZero_ofUuids happ hrun
      (@At.chrc (ofUuids ⟨1⟩ ⟨2⟩ ⟨3⟩) 0 0 _ _ rfl rfl)
  obtain rfl := Option.some.inj hst
  let call : MethodCall worker.path :=
    { member := "Get"
      interface := some propsIf
      sender := some bluezDest
      body := (getPropCall worker.path bluezDest bluezChrIf uuidStr).body }
  obtain ⟨hreplies, -⟩ :=
    hanswers bluezDest call ⟨rfl, rfl, rfl⟩ (isMsgBluez_of_sender rfl _) fun _ ↦ none
  obtain ⟨m, t', hreply, hfound⟩ := hreplies (hidle _ _ hworker).1
  exact ⟨app, t, t', es, worker, _, call, m, happ, hne, hrun, hworker, hreply {} rfl, hfound⟩

end Application

end Rustable.Gatt.Server
