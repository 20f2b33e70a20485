import Rustable.Gatt.Server.AppWorker
import Rustable.Gatt.Server.Bounds

/-!
# Delivery

The loops of the workers take only some of the messages there are, and panic on the others.
A call whose last UUID is zero goes to the worker of the parent, and a worker whose handle
is zero panics when it is asked for it.  Other calls are delivered to a worker of the kind
they name and handled there (`handles_iff`).
-/

namespace Rustable.Gatt.Server

open DBus

/-! ## Panics -/

/-- The turn ends in a panic. -/
def Crashes {σ α : Type} (ran : Ran Stop Out σ α) : Prop := ∃ out, ran = .stop .panic out

/-- A `GetHandle` that is taken without a handle. -/
theorem WorkerState.onMsg_getHandle_crashes {io : Io} {path : ObjectPath} {s : WorkerState}
    (hzero : s.attHandle = 0) (sender : ReplyTo) :
    Crashes (s.onMsg io path (.getHandle sender)) := by
  refine ⟨[], ?_⟩
  cases s with
  | app s => rfl
  | serv s =>
      have hnone : nonZeroU16 s.self.handle = none := nonZeroU16_eq_none.mpr hzero
      rw [onMsg, ServWorker.onMsg, Act.read_bind, hnone]
      rfl
  | chrc s =>
      have hnone : nonZeroU16 s.handle = none := nonZeroU16_eq_none.mpr hzero
      rw [onMsg, ChrcData.onMsg, Act.read_bind, hnone]
      rfl
  | desc s =>
      have hnone : nonZeroU16 s.handle = none := nonZeroU16_eq_none.mpr hzero
      rw [onMsg, Descriptor.onMsg, Act.read_bind, hnone]
      rfl

/-- **A worker panics on no message its loop is written for, but on a `GetHandle` if its
handle is zero.** -/
theorem WorkerState.onMsg_crashes_iff {io : Io} {path : ObjectPath} {msg : WorkerMsg}
    {s : WorkerState} (hpath : s.kind ≠ .app → path ≠ .root) (hmsg : s.kind.accepts msg = true) :
    Crashes (s.onMsg io path msg) ↔ (∃ sender, msg = .getHandle sender) ∧ s.attHandle = 0 := by
  constructor
  · rintro ⟨out, hcrash⟩
    have hwithin : (s.onMsg io path msg).Within _ (fun _ ↦ True) s :=
      within_onMsg (S := fun why ↦ why = .panic → s.kind.Panics s.attHandle msg) nofun hpath
        fun hpanics _ ↦ hpanics
    rw [hcrash] at hwithin
    refine (hwithin.1 rfl).resolve_left fun hno ↦ ?_
    rw [hmsg] at hno
    contradiction
  · rintro ⟨⟨sender, rfl⟩, hzero⟩
    exact onMsg_getHandle_crashes hzero sender

/-! ## Calls are handled -/

/-- The keys of the workers of a kind, if no attribute has the UUID zero. -/
def Kind.Keys : Kind → Key → Prop
  | .app, key => key = (0, 0, 0)
  | .serv, key => key.1 ≠ 0 ∧ key.2 = (0, 0)
  | .chrc, key => key.2.1 ≠ 0 ∧ key.2.2 = 0
  | .desc, key => key.2.2 ≠ 0

/-- Under the key of an attribute there is a worker of that kind, unless the UUID of the
attribute is zero. -/
theorem Kind.Keys.eq_iff {kind : Kind} {named : Named} (h : kind.Keys named.key) :
    kind = named.kind ↔ named.uuid ≠ 0 := by
  cases named with
  | serv s =>
      cases kind with
      | app => exact iff_of_false nofun fun hs ↦ hs (congrArg Prod.fst h)
      | serv => exact iff_of_true rfl h.1
      | chrc => exact absurd rfl h.1
      | desc => exact absurd rfl h
  | chrc s c =>
      cases kind with
      | app => exact iff_of_false nofun fun hc ↦ hc (congrArg (·.2.1) h)
      | serv => exact iff_of_false nofun fun hc ↦ hc (congrArg Prod.fst h.2)
      | chrc => exact iff_of_true rfl h.1
      | desc => exact absurd rfl h
  | desc s c d =>
      cases kind with
      | app => exact iff_of_false nofun fun hd ↦ hd (congrArg (·.2.2) h)
      | serv => exact iff_of_false nofun fun hd ↦ hd (congrArg Prod.snd h.2)
      | chrc => exact iff_of_false nofun fun hd ↦ hd h.2
      | desc => exact iff_of_true rfl h

/-- A worker where it belongs, with a queue of messages its loop is written for. -/
structure Worker.Fits (key : Key) (worker : Worker) : Prop where
  key : worker.state.kind.Keys key
  path : worker.state.kind ≠ .app → worker.path ≠ .root
  queue : ∀ msg ∈ worker.queue, worker.state.kind.accepts msg = true

theorem Worker.Fits.push {key : Key} {worker : Worker} (h : worker.Fits key) {msg : WorkerMsg}
    (hmsg : worker.state.kind.accepts msg = true) : (worker.push msg).Fits key where
  key := h.key
  path := h.path
  queue msg' hmsg' := by
    rcases List.mem_append.mp hmsg' with hmsg' | hmsg'
    · exact h.queue msg' hmsg'
    · exact List.mem_singleton.mp hmsg' ▸ hmsg

/-- A step that sends to a worker what it takes leaves it fitting. -/
theorem Worker.Follows.fits {sent : Option (Key × WorkerMsg)} {key : Key}
    {worker worker' : Worker} (h : worker.Follows sent key worker') (hfits : worker.Fits key)
    (hsent : ∀ msg, sent = some (key, msg) → worker.state.kind.accepts msg = true) :
    worker'.Fits key where
  key := h.kind ▸ hfits.key
  path := by
    rw [h.kind, h.path]
    exact hfits.path
  queue msg hmsg := by
    rw [h.kind]
    exact (h.queue msg hmsg).elim (hfits.queue msg) (hsent msg)

/-- All workers fit. -/
def AppWorker.Fits (self : AppWorker) : Prop := self.workers.Holds Worker.Fits

/-- A registered application whose attributes have UUIDs other than zero has fitting
workers. -/
theorem Application.register_fits {self : Application} {bus : Bus} {app : AppWorker}
    (h : self.register bus = pure app) (hself : self.NonZero) : app.Fits := by
  have fresh {key : Key} {worker : Worker} (hfresh : worker.Fresh)
      (hkey : worker.state.kind.Keys key) : worker.Fits key :=
    ⟨hkey, fun _ ↦ hfresh.path, by rw [hfresh.queue]; exact nofun⟩
  refine register_holds h ?_ ?_ fun s path ↦ ⟨rfl, fun hne ↦ absurd rfl hne, nofun⟩
  · rintro e he worker hfresh hstate
    refine fresh hfresh ?_
    rw [hstate]
    obtain ⟨serv, hserv, he⟩ := List.mem_flatMap.mp he
    rcases List.mem_append.mp he with he | he
    · obtain ⟨chrc, hchrc, he⟩ := List.mem_flatMap.mp he
      rcases List.mem_append.mp he with he | he
      · obtain ⟨desc, hdesc, rfl⟩ := List.mem_map.mp he
        exact hself.descriptor serv hserv chrc hchrc desc hdesc
      · obtain rfl := List.mem_singleton.mp he
        exact ⟨hself.characteristic serv hserv chrc hchrc, rfl⟩
    · obtain rfl := List.mem_singleton.mp he
      exact ⟨hself.service serv hserv, rfl⟩
  · intro serv hserv worker paths hworker
    refine hworker.push ?_
    have hkeys : worker.state.kind.Keys (Named.serv serv.uuid).key := hworker.key
    rw [hkeys.eq_iff.mpr (hself.service serv hserv)]
    rfl

theorem Call.accepts (c : Call) : c.named.kind.accepts c.msg = true := by
  cases c <;> rfl

namespace AppWorker

/-- A call is sent to a worker of the kind it names, or fails with the error for an
attribute that does not exist. -/
structure Delivers (app : AppWorker) (c : Call) : Prop where
  sent : ∀ app', app.issue c = .sent app' → ∃ worker,
    app.workers.lookup c.named.key = some worker ∧ worker.state.kind = c.named.kind ∧
      app' = app.put c.named.key (worker.push c.msg)
  unknown : (∀ worker, app.workers.lookup c.named.key = some worker →
    worker.state.kind ≠ c.named.kind) → app.issue c = .failed c.named.unknown

/-- What should be true of an event: calls are delivered, and workers do not panic on the
messages they take. -/
def Handles (self : AppWorker) : Event → Prop
  | .call c => self.Delivers c
  | .receive key io => ∀ worker msg queue, self.awake key = some worker →
      worker.queue = msg :: queue → ¬Crashes (worker.state.onMsg io worker.path msg)
  | .askObjects _ _ | .wake _ _ _ => True

/-- The events for which it is: the attribute named has a UUID other than zero or does not
exist, and a `GetHandle` is taken by a worker that has a handle. -/
def Addressed (self : AppWorker) : Event → Prop
  | .call c => c.named.uuid ≠ 0 ∨ self.workers.lookup c.named.key = none
  | .receive key _ => ∀ worker sender queue, self.awake key = some worker →
      worker.queue = .getHandle sender :: queue → worker.state.attHandle ≠ 0
  | .askObjects _ _ | .wake _ _ _ => True

variable {self : AppWorker}

theorem issue_of_lookup_eq_none {c : Call} (h : self.workers.lookup c.named.key = none) :
    self.issue c = .failed c.named.unknown := by
  rw [issue_eq, send, h]

theorem issue_of_lookup {c : Call} {worker : Worker}
    (h : self.workers.lookup c.named.key = some worker) :
    self.issue c ≠ .failed c.named.unknown ∧ ∀ self', self.issue c = .sent self' →
      self' = self.put c.named.key (worker.push c.msg) := by
  rw [issue_eq, send, h]
  dsimp only
  split
  · refine ⟨fun heq ↦ c.named.unknown_ne (Sent.failed.inj heq).symm, fun self' heq ↦ ?_⟩
    contradiction
  split
  · refine ⟨fun heq ↦ ?_, fun self' heq ↦ (Sent.sent.inj heq).symm⟩
    contradiction
  · constructor
    · intro heq
      contradiction
    · intro self' heq
      contradiction

/-- A call is delivered if and only if the attribute named has a UUID other than zero or
does not exist. -/
theorem delivers_iff (hself : self.Fits) (c : Call) :
    self.Delivers c ↔ c.named.uuid ≠ 0 ∨ self.workers.lookup c.named.key = none := by
  cases hlookup : self.workers.lookup c.named.key with
  | none =>
      have hissue := issue_of_lookup_eq_none hlookup
      refine iff_of_true ⟨fun self' hsent ↦ ?_, fun _ ↦ hissue⟩ (.inr rfl)
      rw [hissue] at hsent
      contradiction
  | some worker =>
      obtain ⟨hfailed, hput⟩ := issue_of_lookup hlookup
      have hkind := (hself _ worker hlookup).key.eq_iff
      refine Iff.trans ?_ (or_iff_left (Option.some_ne_none worker)).symm
      rw [← hkind]
      constructor
      · intro h
        by_contra hne
        refine hfailed (h.unknown fun worker' hworker' ↦ ?_)
        obtain rfl := Option.some.inj (hlookup.symm.trans hworker')
        exact hne
      · intro heq
        refine ⟨fun self' hsent ↦ ⟨worker, hlookup, heq, hput self' hsent⟩, fun hno ↦ ?_⟩
        exact absurd heq (hno worker hlookup)

/-- An event is handled if and only if it is addressed to somebody who can. -/
theorem handles_iff_addressed (hself : self.Fits) (e : Event) :
    self.Handles e ↔ self.Addressed e := by
  cases e with
  | call c => exact delivers_iff hself c
  | askObjects key sender => exact Iff.rfl
  | wake key io input => exact Iff.rfl
  | receive key io =>
      have hiff {worker : Worker} {msg : WorkerMsg} {queue : List WorkerMsg}
          (hworker : self.awake key = some worker) (hqueue : worker.queue = msg :: queue) :
          Crashes (worker.state.onMsg io worker.path msg) ↔
            (∃ sender, msg = .getHandle sender) ∧ worker.state.attHandle = 0 := by
        have hfits := hself key worker (lookup_of_awake hworker).1
        refine WorkerState.onMsg_crashes_iff hfits.path (hfits.queue msg ?_)
        rw [hqueue]
        exact List.mem_cons_self
      constructor
      · intro h worker sender queue hworker hqueue hzero
        exact h worker _ queue hworker hqueue ((hiff hworker hqueue).mpr ⟨⟨sender, rfl⟩, hzero⟩)
      · intro h worker msg queue hworker hqueue hcrash
        obtain ⟨⟨sender, rfl⟩, hzero⟩ := (hiff hworker hqueue).mp hcrash
        exact h worker sender queue hworker hqueue hzero

/-- Such events leave the workers fitting. -/
theorem fits_of_addressed {e : Event} {self' : AppWorker} (hself : self.Fits)
    (hnext : self.next e = some self') (he : self.Addressed e) :
    self'.Fits := by
  refine (next_follows hnext).holds hself fun key worker worker' hworker hfollows hfits ↦
    hfollows.fits hfits fun msg hsent ↦ ?_
  cases e with
  | call c =>
      obtain ⟨rfl, rfl⟩ := Prod.mk.inj (Option.some.inj hsent)
      have huuid : c.named.uuid ≠ 0 := he.resolve_right fun hnone ↦ by
        rw [hnone] at hworker
        contradiction
      rw [hfits.key.eq_iff.mpr huuid]
      exact c.accepts
  | askObjects k sender =>
      rw [Event.sends] at hsent
      split at hsent
      · contradiction
      next hk =>
        obtain ⟨rfl, rfl⟩ := Prod.mk.inj (Option.some.inj hsent)
        have hkey := hfits.key
        cases hkind : worker.state.kind with
        | app =>
            rw [hkind] at hkey
            contradiction
        | serv | chrc | desc => rfl
  | receive k io => contradiction
  | wake k io input => contradiction

end AppWorker

/-- **Whatever has happened to a registered application none of whose attributes has the
UUID zero, a call is delivered if and only if the attribute it names has a UUID other than
zero or does not exist, and a worker panics on the message it takes if and only if the
message is a `GetHandle` and its handle is zero.** -/
theorem handles_iff {self : Application} {bus : Bus} {app : AppWorker}
    (h : self.register bus = pure app) (hself : self.NonZero) {es : List Event} {t : AppWorker} :
    (Lts.Run (Lts.restrict AppWorker.Step AppWorker.Handles) app es t ↔
      Lts.Run (Lts.restrict AppWorker.Step AppWorker.Addressed) app es t) ∧
      (Lts.Run (Lts.restrict AppWorker.Step AppWorker.Addressed) app es t →
        ∀ e, t.Handles e ↔ t.Addressed e) := by
  have hstep (s : AppWorker) (e : Event) (t : AppWorker) (hs : s.Fits)
      (hst : Lts.restrict AppWorker.Step AppWorker.Addressed s e t) :
      t.Fits := AppWorker.fits_of_addressed hs hst.1 hst.2
  have hfits := Application.register_fits h hself
  refine ⟨(Lts.Run.restrict_congr hstep ?_ hfits).symm, fun hrun ↦ ?_⟩
  · exact fun s e t hs _ ↦ (AppWorker.handles_iff_addressed hs e).symm
  · exact AppWorker.handles_iff_addressed (hrun.invariant hstep hfits)

/-- An application with one attribute of each kind, and three UUIDs. -/
theorem handles_iff_ofUuids : ∃ app,
    (Application.ofUuids ⟨1⟩ ⟨2⟩ ⟨3⟩).register .working = pure app ∧ ∀ es t,
      (Lts.Run (Lts.restrict AppWorker.Step AppWorker.Handles) app es t ↔
        Lts.Run (Lts.restrict AppWorker.Step AppWorker.Addressed) app es t) ∧
      (Lts.Run (Lts.restrict AppWorker.Step AppWorker.Addressed) app es t →
        ∀ e, t.Handles e ↔ t.Addressed e) := by
  obtain ⟨app, happ⟩ := Application.register_ofUuids ⟨1⟩ ⟨2⟩ ⟨3⟩
  exact ⟨app, happ, fun es t ↦ handles_iff happ Application.nonZero_ofUuids⟩

/-- Asking for the handle of the service `UUID(0)` is sent to the worker of the
application. -/
theorem get_serv_handle_misdelivered : ¬∀ (self : Application) (bus : Bus) (app t : AppWorker)
    (es : List Event), self.register bus = pure app → self.NonZero →
      Lts.Run AppWorker.Step app es t → ∀ e, t.Handles e := by
  intro hall
  obtain ⟨app, happ⟩ := Application.register_ofUuids ⟨1⟩ ⟨2⟩ ⟨3⟩
  have hnz := Application.nonZero_ofUuids
  have hdelivers : app.Delivers (.getServHandle 0 0) :=
    hall _ _ app app [] happ hnz (.nil app) (.call (.getServHandle 0 0))
  rcases (AppWorker.delivers_iff (Application.register_fits happ hnz) _).mp hdelivers with h | h
  · exact h rfl
  · obtain ⟨s, hawake⟩ := Application.awake_of_register happ
    exact Option.some_ne_none _ ((AppWorker.lookup_of_awake hawake).1.symm.trans h)

end Rustable.Gatt.Server
