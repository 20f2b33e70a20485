import Rustable.Gatt.Server.Identity
import Rustable.Gatt.Server.Unregister

/-!
# What comes back

`AppWorker::unregister` does not give every attribute back, and it may put one where it does not
belong.  But it invents nothing: whatever has happened to the application, and in whatever order
the heap yields its workers, the attributes that come back are among those that were registered,
each of them once at most, with the UUIDs and the flags they were registered with
(`recovered_subperm`).
-/

namespace Rustable.Gatt.Server

open DBus

/-! ## The cards of an application -/

/-- A descriptor. -/
def Descriptor.card (desc : Descriptor) : Card := .desc desc.uuid desc.flags

/-- A characteristic and its descriptors. -/
def Characteristic.cards (chrc : Characteristic) : List Card :=
  .chrc chrc.uuid chrc.flags :: chrc.descs.map Descriptor.card

/-- A service and what is below it. -/
def Service.cards (serv : Service) : List Card :=
  .serv serv.uuid serv.primary :: serv.chars.flatMap Characteristic.cards

/-- All attributes of an application. -/
def Application.cards (app : Application) : List Card := app.services.flatMap Service.cards

/-- The attributes in what a worker gives back. -/
def WorkerJoin.cards : WorkerJoin → List Card
  | app a => a.cards
  | serv s => s.cards
  | chrc c => c.cards
  | desc d => [d.card]

/-- The attributes put in place and those in hand. -/
def Rebuild.cards (self : Rebuild) : List Card :=
  self.app.cards ++ self.curServ.elim [] Service.cards ++
    self.curChrc.elim [] Characteristic.cards ++ (self.curDesc.map Descriptor.card).toList

section Counts

variable (p : Card → Bool)

/-- What takes the place of something else with its key adds its own at most. -/
theorem countP_replaceOrPush_le {α κ : Type} [DecidableEq κ] (key : α → κ) (f : α → List Card)
    (a : α) (l : List α) : ((replaceOrPush key a l).flatMap f).countP p ≤
      (l.flatMap f).countP p + (f a).countP p := by
  induction l with
  | nil => simp [replaceOrPush]
  | cons b l ih =>
      rw [replaceOrPush]
      split
      · simp only [List.flatMap_cons, List.countP_append]
        omega
      · simp only [List.flatMap_cons, List.countP_append]
        omega

theorem Application.countP_addService {self app : Application} {service : Service}
    (h : self.addService service = some app) :
    app.cards.countP p ≤ self.cards.countP p + service.cards.countP p := by
  rw [addService] at h
  split at h
  · contradiction
  · obtain rfl := Option.some.inj h
    exact countP_replaceOrPush_le p Service.uuid Service.cards service self.services

theorem Service.countP_addChar (self : Service) (chrc : Characteristic) :
    (self.addChar chrc).cards.countP p ≤ self.cards.countP p + chrc.cards.countP p := by
  have h := countP_replaceOrPush_le p Characteristic.uuid Characteristic.cards chrc self.chars
  simp only [addChar, cards, List.countP_cons]
  omega

theorem Characteristic.countP_addDesc (self : Characteristic) (desc : Descriptor) :
    (self.addDesc desc).cards.countP p ≤ self.cards.countP p + [desc.card].countP p := by
  have h := countP_replaceOrPush_le p Descriptor.uuid (fun d ↦ [d.card]) desc self.descs
  rw [← List.map_eq_flatMap, ← List.map_eq_flatMap] at h
  change (Card.chrc self.uuid self.flags :: _).countP p ≤
    (Card.chrc self.uuid self.flags :: _).countP p + _
  rw [List.countP_cons, List.countP_cons, Nat.add_right_comm]
  exact Nat.add_le_add_right h _

/-- A pass of the loop adds what turns up at most. -/
theorem Rebuild.countP_add {self self' : Rebuild} {join : WorkerJoin}
    (h : self.add join = some self') :
    self'.cards.countP p ≤ self.cards.countP p + join.cards.countP p := by
  cases join with
  | app a => contradiction
  | serv serv =>
      cases hcur : self.curServ with
      | none =>
          simp only [add, hcur] at h
          obtain rfl := Option.some.inj h
          simp only [cards, hcur, WorkerJoin.cards, Option.elim_some, Option.elim_none,
            List.countP_append, List.countP_nil]
          omega
      | some old =>
          simp only [add, hcur] at h
          obtain ⟨app, happ, h⟩ := Option.bind_eq_some_iff.mp h
          obtain rfl := Option.some.inj h
          have hadd := Application.countP_addService p happ
          simp only [cards, hcur, WorkerJoin.cards, Option.elim_some, List.countP_append]
          omega
  | chrc chrc =>
      cases hcur : self.curChrc with
      | none =>
          simp only [add, hcur] at h
          obtain rfl := Option.some.inj h
          simp only [cards, hcur, WorkerJoin.cards, Option.elim_some, Option.elim_none,
            List.countP_append, List.countP_nil]
          omega
      | some old =>
          simp only [add, hcur] at h
          obtain ⟨serv, hserv, h⟩ := Option.bind_eq_some_iff.mp h
          obtain rfl := Option.some.inj h
          have hadd := Service.countP_addChar p serv old
          simp only [cards, hcur, hserv, WorkerJoin.cards, Option.elim_some, List.countP_append]
          omega
  | desc desc =>
      cases hcur : self.curDesc with
      | none =>
          simp only [add, hcur] at h
          obtain rfl := Option.some.inj h
          simp only [cards, hcur, WorkerJoin.cards, Option.map_some, Option.map_none,
            Option.toList_some, Option.toList_none, List.countP_append, List.countP_nil]
          omega
      | some old =>
          simp only [add, hcur] at h
          obtain ⟨chrc, hchrc, h⟩ := Option.bind_eq_some_iff.mp h
          obtain rfl := Option.some.inj h
          have hadd := Characteristic.countP_addDesc p chrc old
          simp only [cards, hcur, hchrc, WorkerJoin.cards, Option.elim_some, Option.map_some,
            Option.toList_some, List.countP_append]
          omega

theorem Rebuild.countP_foldlM {finished : List WorkerJoin} {self self' : Rebuild}
    (h : finished.foldlM add self = some self') : self'.cards.countP p ≤
      self.cards.countP p + (finished.flatMap WorkerJoin.cards).countP p := by
  induction finished generalizing self with
  | nil =>
      obtain rfl := Option.some.inj h
      exact Nat.le_add_right _ _
  | cons join finished ih =>
      rw [List.foldlM_cons] at h
      obtain ⟨next, hnext, h⟩ := Option.bind_eq_some_iff.mp h
      rw [List.flatMap_cons, List.countP_append]
      calc self'.cards.countP p
          ≤ next.cards.countP p + (finished.flatMap WorkerJoin.cards).countP p := ih h
        _ ≤ self.cards.countP p + join.cards.countP p +
              (finished.flatMap WorkerJoin.cards).countP p :=
            Nat.add_le_add_right (countP_add p hnext) _
        _ = _ := Nat.add_assoc ..

/-- What is put together was given back by the workers. -/
theorem countP_rebuild {finished : List WorkerJoin} {app : Application}
    (h : rebuild finished = some app) :
    app.cards.countP p ≤ (finished.flatMap WorkerJoin.cards).countP p := by
  cases finished with
  | nil => contradiction
  | cons join finished =>
      cases join with
      | serv | chrc | desc => contradiction
      | app a =>
          obtain ⟨last, hlast, rfl⟩ := Option.map_eq_some_iff.mp h
          have hfold := Rebuild.countP_foldlM p hlast
          simp only [Rebuild.cards, List.countP_append, Option.elim_none, Option.map_none,
            Option.toList_none, List.countP_nil] at hfold
          simp only [List.flatMap_cons, WorkerJoin.cards, List.countP_append]
          omega

end Counts

/-! ## What the workers give back -/

/-- The attributes in what a worker gives back, from what is known of it. -/
def Known.given : Known → List Card
  | app self => self.cards
  | serv _ _ self => self.cards
  | chrc uuid flags => [.chrc uuid flags]
  | desc uuid flags => [.desc uuid flags]

theorem WorkerState.cards_join (s : WorkerState) : s.join.cards = s.known.given := by
  cases s <;> rfl

/-- A worker that takes its last messages stays what it is. -/
theorem WorkerState.known_of_drain {io : Io} {path : ObjectPath} {msgs : List WorkerMsg}
    {s s' : WorkerState} (hpath : s.kind ≠ .app → path ≠ .root)
    (h : s.drain io path msgs = pure s') : s'.known = s.known := by
  have hturn {msg : WorkerMsg} {t u : WorkerState} {flow : Flow} {out : List Out}
      (ht : t.kind ≠ .app → path ≠ .root) (hrun : t.onMsg io path msg = .done flow u out) :
      u.known = t.known := by
    have hrouted : (Input.message msg).Routed path := by
      intro asked call hcall
      contradiction
    exact @known_of_turn io path none (.message msg) t u flow out ht hrouted (congrArg some hrun)
  induction msgs generalizing s with
  | nil =>
      obtain rfl := Except.ok.inj (Option.some.inj h)
      rfl
  | cons msg msgs ih =>
      rw [drain] at h
      split at h
      · next u out hrun =>
          have hknown := hturn hpath hrun
          refine (ih ?_ h).trans hknown
          rwa [kind_eq hknown]
      · next u out hrun =>
          obtain rfl := Except.ok.inj (Option.some.inj h)
          exact hturn hpath hrun
      · contradiction
      · have hpure := Option.some.inj h
        contradiction

theorem cards_finished {io : Io} {order : List (Key × Worker)} {finished : List WorkerJoin}
    (hpath : ∀ e ∈ order, e.2.state.kind ≠ .app → e.2.path ≠ .root)
    (h : order.mapM (fun e ↦ e.2.finish io) = (pure finished : MayFail _)) :
    finished.flatMap WorkerJoin.cards = order.flatMap fun e ↦ e.2.state.known.given := by
  induction order generalizing finished with
  | nil =>
      obtain rfl := Except.ok.inj (Option.some.inj h)
      rfl
  | cons e order ih =>
      rw [List.mapM_cons] at h
      obtain ⟨join, hjoin, h⟩ := MayFail.bind_eq_pure.mp h
      obtain ⟨rest, hrest, h⟩ := MayFail.bind_eq_pure.mp h
      obtain rfl := Except.ok.inj (Option.some.inj h)
      rw [Worker.finish] at hjoin
      split at hjoin
      · have hpure := Option.some.inj hjoin
        contradiction
      obtain ⟨s, hs, hjoin⟩ := MayFail.bind_eq_pure.mp hjoin
      obtain rfl := Except.ok.inj (Option.some.inj hjoin)
      obtain ⟨hfirst, hlater⟩ := List.forall_mem_cons.mp hpath
      rw [List.flatMap_cons, List.flatMap_cons, ih hlater hrest, WorkerState.cards_join,
        WorkerState.known_of_drain hfirst hs]

/-! ## Runs -/

/-- Workers of which the same is known. -/
theorem perm_of_known {app t : AppWorker}
    (h : ∀ key, (t.workers.lookup key).map (·.state.known) =
      (app.workers.lookup key).map (·.state.known)) :
    (t.workers.iter.map fun e ↦ (e.1, e.2.state.known)).Perm
      (app.workers.iter.map fun e ↦ (e.1, e.2.state.known)) := by
  have hnodup (m : Workers) : (m.iter.map fun e ↦ (e.1, e.2.state.known)).Nodup := by
    refine List.Nodup.of_map Prod.fst ?_
    rw [List.map_map]
    exact AList.nodup_fst_iter m
  have hmem (m : Workers) (key : Key) (known : Known) :
      (key, known) ∈ (m.iter.map fun e ↦ (e.1, e.2.state.known)) ↔
        (m.lookup key).map (·.state.known) = some known := by
    rw [List.mem_map, Option.map_eq_some_iff]
    constructor
    · rintro ⟨⟨key', worker⟩, hworker, heq⟩
      obtain ⟨rfl, rfl⟩ := Prod.mk.inj heq
      exact ⟨worker, AList.mem_iter_iff.mp hworker, rfl⟩
    · rintro ⟨worker, hworker, rfl⟩
      exact ⟨(key, worker), AList.mem_iter_iff.mpr hworker, rfl⟩
  refine (List.perm_ext_iff_of_nodup (hnodup _) (hnodup _)).mpr ?_
  rintro ⟨key, known⟩
  rw [hmem, hmem, h]

/-- The workers of a registered application that are not its own are below the root. -/
theorem Application.register_below {self : Application} {bus : Bus} {app : AppWorker}
    (h : self.register bus = pure app) :
    app.workers.Holds fun _ worker ↦ worker.state.kind ≠ .app → worker.path ≠ .root :=
  register_holds h (fun _ _ _ hfresh _ _ ↦ hfresh.path) (fun _ _ _ _ hworker ↦ hworker)
    fun _ _ hne ↦ absurd rfl hne

/-- A run keeps what is known of each worker. -/
theorem AppWorker.known_of_run {app t : AppWorker} {es : List Event}
    (hpath : app.workers.Holds fun _ worker ↦ worker.state.kind ≠ .app → worker.path ≠ .root)
    (hrun : Lts.Run AppWorker.RoutedStep app es t) (key : Key) :
    (t.workers.lookup key).map (·.state.known) =
      (app.workers.lookup key).map (·.state.known) := by
  cases hbefore : app.workers.lookup key with
  | some before =>
      obtain ⟨worker, hworker, hshows⟩ := shows_of_run hrun hbefore (hpath key before hbefore)
      rw [hworker]
      exact congrArg some hshows.known
  | none =>
      have hactor := (composed app.filter).run hrun.of_restrict rfl key
      rw [actor, actor, hbefore, Option.map_none] at hactor
      cases hworker : t.workers.lookup key with
      | none => rfl
      | some worker =>
          rw [hworker] at hactor
          contradiction

/-! ## What was registered -/

section Registered

variable (p : Card → Bool)

theorem Characteristic.countP_given (serv : UUID) (chrc : Characteristic) :
    ((chrc.own serv).flatMap fun e ↦ e.2.known.given).countP p = chrc.cards.countP p := by
  have hdescs : (chrc.descs.map fun desc ↦
      ((serv, chrc.uuid, desc.uuid), WorkerState.desc desc)).flatMap (fun e ↦ e.2.known.given) =
      chrc.descs.map Descriptor.card := by
    rw [List.flatMap_map, List.map_eq_flatMap]
    rfl
  rw [own, List.flatMap_append, hdescs, List.countP_append, Nat.add_comm, ← List.countP_append]
  rfl

theorem Service.countP_given (serv : Service) :
    (serv.own.flatMap fun e ↦ e.2.known.given).countP p = serv.cards.countP p := by
  have hchars : ((serv.chars.flatMap (Characteristic.own serv.uuid)).flatMap fun e ↦
      e.2.known.given).countP p = (serv.chars.flatMap Characteristic.cards).countP p := by
    rw [List.flatMap_assoc, List.countP_flatMap, List.countP_flatMap]
    exact congrArg (fun f ↦ (serv.chars.map f).sum)
      (funext fun chrc ↦ Characteristic.countP_given p serv.uuid chrc)
  rw [own, List.flatMap_append, List.countP_append, hchars, Nat.add_comm, ← List.countP_append]
  rfl

theorem Application.countP_given (app : Application) (appData : WorkerData) :
    ((app.all appData).flatMap fun e ↦ e.2.known.given).countP p = app.cards.countP p := by
  change (app.own.flatMap fun e ↦ e.2.known.given).countP p = _
  rw [own, cards, List.flatMap_assoc, List.countP_flatMap, List.countP_flatMap]
  exact congrArg (fun f ↦ (app.services.map f).sum) (funext (Service.countP_given p))

end Registered

/-- **Unregistering invents nothing.**  Whatever has happened to the application, and in whatever
order the heap yields the workers, the attributes of the application that comes back were
registered, with the same UUIDs and flags, and none comes back twice. -/
theorem recovered_subperm {self self' : Application} {bus : Bus} {app t : AppWorker}
    {es : List Event} (h : self.register bus = pure app)
    (hrun : Lts.Run AppWorker.RoutedStep app es t) {io : Io} {order : List (Key × Worker)}
    (horder : order.Perm t.workers.iter) (hself' : unregister io order = pure self') :
    self'.cards.Subperm self.cards := by
  classical
  obtain ⟨-, appData, hsub⟩ := Application.register_subperm h
  have hbelow := Application.register_below h
  have hknown := AppWorker.known_of_run hbelow hrun
  obtain ⟨finished, hfinished, hrebuild⟩ := MayFail.bind_eq_pure.mp hself'
  split at hrebuild
  case h_2 => contradiction
  case h_1 app' happ' =>
  obtain rfl := Except.ok.inj (Option.some.inj hrebuild)
  have hpaths : ∀ e ∈ order, e.2.state.kind ≠ .app → e.2.path ≠ .root := by
    intro e he hkind
    have hlookup := AList.mem_iter_iff.mp (horder.subset he)
    have hsame := hknown e.1
    rw [hlookup] at hsame
    obtain ⟨before, hbefore, hstate⟩ := Option.map_eq_some_iff.mp hsame.symm
    have hroot := hbelow e.1 before hbefore
    obtain ⟨worker, hworker, hshows⟩ := AppWorker.shows_of_run hrun hbefore hroot
    obtain rfl := Option.some.inj (hlookup.symm.trans hworker)
    rw [hshows.path]
    exact hroot (WorkerState.kind_eq hstate ▸ hkind)
  let given (e : Key × Known) : List Card := e.2.given
  have hcount (p : Card → Bool) : app'.cards.countP p ≤ self.cards.countP p :=
    calc app'.cards.countP p
        ≤ (finished.flatMap WorkerJoin.cards).countP p := countP_rebuild p happ'
      _ = (order.flatMap fun e ↦ e.2.state.known.given).countP p := by
          rw [cards_finished hpaths hfinished]
      _ = (t.workers.iter.flatMap fun e ↦ e.2.state.known.given).countP p :=
          (horder.flatMap_right _).countP_eq p
      _ = ((t.workers.iter.map fun e ↦ (e.1, e.2.state.known)).flatMap given).countP p := by
          rw [List.flatMap_map]
      _ = ((app.workers.iter.map fun e ↦ (e.1, e.2.state.known)).flatMap given).countP p :=
          ((perm_of_known hknown).flatMap_right _).countP_eq p
      _ = ((app.workers.iter.map ownState).flatMap fun e ↦ e.2.known.given).countP p := by
          rw [List.flatMap_map, List.flatMap_map]
          rfl
      _ ≤ ((self.all appData).flatMap fun e ↦ e.2.known.given).countP p := by
          obtain ⟨l, hperm, hsublist⟩ := hsub
          rw [← (hperm.flatMap_right _).countP_eq p]
          exact (hsublist.flatMap _).countP_le
      _ = self.cards.countP p := self.countP_given p appData
  exact List.subperm_ext_iff.mpr fun card _ ↦ hcount (· == card)

/-- An update is on its way when the workers are told to unregister, and two of them are not in
their places: the first characteristic of a service comes before the service. -/
theorem exists_unregister : ∃ (app t : AppWorker) (a b c d e f : Key × Worker)
    (self' : Application), (Application.ofPair ⟨1⟩ ⟨4⟩ ⟨2⟩ ⟨3⟩).register .working = pure app ∧
      app.next (.call (.updateCharacteristic ⟨1⟩ ⟨2⟩ (.value .empty) false)) = some t ∧
      t.workers.iter = [a, b, c, d, e, f] ∧ unregister {} [a, b, c, e, d, f] = pure self' ∧
      self'.services.length = 1 :=
  ⟨_, _, _, _, _, _, _, _, _, rfl, rfl, rfl, rfl, rfl⟩

/-- One of the services comes back. -/
theorem recovered_subperm_ofPair : ∃ (app t : AppWorker) (es : List Event)
    (order : List (Key × Worker)) (self' : Application),
    (Application.ofPair ⟨1⟩ ⟨4⟩ ⟨2⟩ ⟨3⟩).register .working = pure app ∧ es ≠ [] ∧
      Lts.Run AppWorker.RoutedStep app es t ∧ order.Perm t.workers.iter ∧
      unregister {} order = pure self' ∧ self'.services.length = 1 ∧
      self'.cards.Subperm (Application.ofPair ⟨1⟩ ⟨4⟩ ⟨2⟩ ⟨3⟩).cards := by
  obtain ⟨app, t, a, b, c, d, e, f, self', happ, hnext, hiter, hself', hlength⟩ := exists_unregister
  have hrun : Lts.Run AppWorker.RoutedStep app [_] t :=
    .cons ⟨hnext, AppWorker.routed_call app _⟩ (.nil t)
  have horder : [a, b, c, e, d, f].Perm t.workers.iter := by
    rw [hiter]
    exact .cons a (.cons b (.cons c (.swap d e [f])))
  exact ⟨app, t, _, _, self', happ, List.cons_ne_nil _ _, hrun, horder, hself', hlength,
    recovered_subperm happ hrun horder hself'⟩

end Rustable.Gatt.Server
