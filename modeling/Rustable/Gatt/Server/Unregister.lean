import Rustable.Gatt.Server.Task

/-!
# Unregistering an application

`AppWorker::unregister` ends all workers, each of which gives back its attribute without
what is below it, and puts the application together again.  It does so in one pass over the
attributes, in the order in which a heap yields them, with the current service, the
current characteristic and the current descriptor in hand; an attribute is put where it
belongs when the next one of its kind turns up.

After the last service there is no next one.  The application that comes back is always
short of at least one service (`unregister_never_restores`).
-/

namespace Rustable.Gatt.Server

open DBus

/-- `enum WorkerJoin` -/
inductive WorkerJoin
  | app (app : Application)
  | serv (serv : Service)
  | chrc (chrc : Characteristic)
  | desc (desc : Descriptor)

/-- What a worker gives back. -/
def WorkerState.join : WorkerState → WorkerJoin
  | app s => .app s.self
  | serv s => .serv s.self
  | chrc s => .chrc s.intoChrc
  | desc s => .desc s

/-- Let a worker take its messages until it ends. -/
def WorkerState.drain (io : Io) (path : ObjectPath) :
    List WorkerMsg → WorkerState → MayFail WorkerState
  | [], s => pure s
  | msg :: msgs, s => match s.onMsg io path msg with
    | .done .next s' _ => drain io path msgs s'
    | .done .done s' _ => pure s'
    | .stop .panic _ => .panic
    | .stop (.error e) _ => throw e

/-- Send `Unregister` to a worker and wait for what it gives back. -/
def Worker.finish (io : Io) (worker : Worker) : MayFail WorkerJoin := do
  if !worker.running then throw .threadClosed
  let s ← worker.state.drain io worker.path (worker.queue ++ [.unregister])
  return s.join

/-- The variables of the loop of `unregister`. -/
structure Rebuild where
  app : Application
  curServ : Option Service := none
  curChrc : Option Characteristic := none
  curDesc : Option Descriptor := none

/-- The body of the loop. -/
def Rebuild.add (self : Rebuild) : WorkerJoin → Option Rebuild
  | .serv serv => match self.curServ with
    | some old => do
        let app ← self.app.addService old
        return { self with app := app, curServ := some serv }
    | none => return { self with curServ := some serv }
  | .chrc chrc => match self.curChrc with
    | some old => do
        let serv ← self.curServ
        return { self with curServ := some (serv.addChar old), curChrc := some chrc }
    | none => return { self with curChrc := some chrc }
  | .desc desc => match self.curDesc with
    | some old => do
        let chrc ← self.curChrc
        return { self with curChrc := some (chrc.addDesc old), curDesc := some desc }
    | none => return { self with curDesc := some desc }
  | .app _ => none

/-- The application, from what the workers have given back. -/
def rebuild : List WorkerJoin → Option Application
  | .app app :: finished => (finished.foldlM Rebuild.add { app := app }).map (·.app)
  | _ => none

/-- `AppWorker::unregister`, with the workers in the order in which the heap yields them. -/
def unregister (io : Io) (order : List (Key × Worker)) : MayFail Application := do
  let finished ← order.mapM fun e ↦ e.2.finish io
  match rebuild finished with
  | some app => return app
  | none => .panic

/-- The order of keys, which compares the UUIDs one after the other. -/
def Key.Le (a b : Key) : Prop :=
  a.1.val < b.1.val ∨ a.1 = b.1 ∧
    (a.2.1.val < b.2.1.val ∨ a.2.1 = b.2.1 ∧ a.2.2.val ≤ b.2.2.val)

/-- The key of the application is the least. -/
theorem Key.zero_le (key : Key) : Key.Le (0, 0, 0) key := by
  have hzero : (0 : UUID).val = 0 := rfl
  have pos {u : UUID} (h : u ≠ 0) : (0 : UUID).val < u.val := by
    have hval : u.val ≠ 0 := fun hval ↦ h (congrArg UUID.mk hval)
    rw [hzero]
    bv_omega
  rw [Key.Le]
  by_cases hserv : key.1 = 0
  · refine .inr ⟨hserv.symm, ?_⟩
    by_cases hchrc : key.2.1 = 0
    · refine .inr ⟨hchrc.symm, ?_⟩
      rw [hzero]
      bv_omega
    · exact .inl (pos hchrc)
  · exact .inl (pos hserv)

/-- An order in which the heap may yield the workers: the greatest for the reversed order
of the keys comes first. -/
structure HeapOrder (workers : Workers) (order : List (Key × Worker)) : Prop where
  perm : order.Perm workers.iter
  greatest : ∀ e ∈ order.head?, ∀ e' ∈ order, Key.Le e.1 e'.1

/-! ## The same application -/

/-- The lists are related element by element, up to order. -/
def SameUpTo {α : Type} (R : α → α → Prop) (l l' : List α) : Prop :=
  ∃ m, m.Perm l' ∧ List.Forall₂ R l m

theorem SameUpTo.length_eq {α : Type} {R : α → α → Prop} {l l' : List α}
    (h : SameUpTo R l l') : l.length = l'.length := by
  obtain ⟨m, hperm, hall⟩ := h
  exact hall.length_eq.trans hperm.length_eq

/-- A characteristic with the same descriptors. -/
def Characteristic.Same (chrc chrc' : Characteristic) : Prop :=
  chrc.uuid = chrc'.uuid ∧ (chrc.descs.map Descriptor.uuid).Perm (chrc'.descs.map Descriptor.uuid)

/-- A service with the same characteristics. -/
def Service.Same (serv serv' : Service) : Prop :=
  serv.uuid = serv'.uuid ∧ SameUpTo Characteristic.Same serv.chars serv'.chars

/-- An application with the same services. -/
def Application.Same (app app' : Application) : Prop :=
  SameUpTo Service.Same app.services app'.services

/-! ## One service is missing -/

/-- The services among the attributes. -/
def WorkerJoin.isServ : WorkerJoin → Bool
  | serv _ => true
  | _ => false

/-- The services put in place and the one in hand. -/
def Rebuild.count (self : Rebuild) : Nat := self.app.services.length + self.curServ.toList.length

/-- A service that is added makes the application longer by at most one. -/
theorem Application.length_addService {self app : Application} {service : Service}
    (h : self.addService service = some app) : app.services.length ≤ self.services.length + 1 := by
  rw [addService] at h
  split at h
  · contradiction
  · obtain rfl := Option.some.inj h
    exact length_replaceOrPush_le _ _ _

/-- Each pass takes at most the service that turns up more, and keeps one in hand. -/
theorem Rebuild.count_add {self self' : Rebuild} {join : WorkerJoin}
    (h : self.add join = some self') : self'.count ≤ self.count + join.isServ.toNat ∧
      self'.curServ.isSome = (join.isServ || self.curServ.isSome) := by
  cases join with
  | serv serv =>
      cases hcur : self.curServ with
      | some old =>
          simp only [add, hcur] at h
          obtain ⟨app, happ, h⟩ := Option.bind_eq_some_iff.mp h
          obtain rfl := Option.some.inj h
          have hlen := Application.length_addService happ
          exact ⟨by simpa [count, hcur, WorkerJoin.isServ] using hlen, rfl⟩
      | none =>
          simp only [add, hcur] at h
          obtain rfl := Option.some.inj h
          exact ⟨by simp [count, hcur, WorkerJoin.isServ], rfl⟩
  | chrc chrc =>
      cases hcur : self.curChrc with
      | some old =>
          simp only [add, hcur] at h
          obtain ⟨serv, hserv, h⟩ := Option.bind_eq_some_iff.mp h
          obtain rfl := Option.some.inj h
          exact ⟨by simp [count, hserv], by rw [hserv]; rfl⟩
      | none =>
          simp only [add, hcur] at h
          obtain rfl := Option.some.inj h
          exact ⟨Nat.le_refl _, rfl⟩
  | desc desc =>
      cases hcur : self.curDesc with
      | some old =>
          simp only [add, hcur] at h
          obtain ⟨chrc, hchrc, h⟩ := Option.bind_eq_some_iff.mp h
          obtain rfl := Option.some.inj h
          exact ⟨Nat.le_refl _, rfl⟩
      | none =>
          simp only [add, hcur] at h
          obtain rfl := Option.some.inj h
          exact ⟨Nat.le_refl _, rfl⟩
  | app app => contradiction

/-- The whole loop. -/
theorem Rebuild.count_foldlM {finished : List WorkerJoin} {self self' : Rebuild}
    (h : finished.foldlM add self = some self') :
    self'.count ≤ self.count + finished.countP WorkerJoin.isServ ∧
      self'.curServ.isSome = (finished.any WorkerJoin.isServ || self.curServ.isSome) := by
  induction finished generalizing self with
  | nil =>
      obtain rfl := Option.some.inj h
      exact ⟨Nat.le_refl _, rfl⟩
  | cons join finished ih =>
      rw [List.foldlM_cons] at h
      obtain ⟨next, hnext, h⟩ := Option.bind_eq_some_iff.mp h
      obtain ⟨hcount, hcur⟩ := count_add hnext
      obtain ⟨hcount', hcur'⟩ := ih h
      constructor
      · calc self'.count ≤ next.count + finished.countP WorkerJoin.isServ := hcount'
          _ ≤ self.count + join.isServ.toNat + finished.countP WorkerJoin.isServ :=
              Nat.add_le_add_right hcount _
          _ = self.count + (join :: finished).countP WorkerJoin.isServ := by
              rw [List.countP_cons, Nat.add_assoc, Nat.add_comm join.isServ.toNat]
              cases join.isServ <;> rfl
      · rw [hcur', hcur, List.any_cons, Bool.or_left_comm, Bool.or_assoc]

/-- What is put together has fewer services than were given back, if any were. -/
theorem rebuild_length {app app' : Application} {finished : List WorkerJoin}
    (happ : app.services = []) (h : rebuild (.app app :: finished) = some app') :
    app'.services.length ≤ finished.countP WorkerJoin.isServ - 1 := by
  obtain ⟨last, hlast, rfl⟩ := Option.map_eq_some_iff.mp h
  obtain ⟨hcount, hcur⟩ := Rebuild.count_foldlM hlast
  have hstart : Rebuild.count { app := app } = 0 := by simp [Rebuild.count, happ]
  rw [hstart, Nat.zero_add] at hcount
  cases hserv : last.curServ with
  | some serv =>
      simp only [Rebuild.count, hserv, Option.toList_some, List.length_singleton] at hcount
      omega
  | none =>
      have hnone : finished.any WorkerJoin.isServ = false := by
        rw [hserv] at hcur
        simpa using hcur.symm
      have hzero : finished.countP WorkerJoin.isServ = 0 := by
        rw [List.countP_eq_zero]
        simpa using hnone
      simp only [Rebuild.count, hzero] at hcount
      omega

/-! ## What the workers give back -/

/-- A worker ends as what it is. -/
theorem WorkerState.drain_kind {io : Io} {path : ObjectPath} {msgs : List WorkerMsg}
    {s s' : WorkerState} (h : s.drain io path msgs = pure s') : s'.kind = s.kind := by
  induction msgs generalizing s with
  | nil =>
      obtain rfl := Except.ok.inj (Option.some.inj h)
      rfl
  | cons msg msgs ih =>
      have hkind := s.onMsg_kind io path msg
      rw [drain] at h
      split at h
      · next heq =>
          rw [heq] at hkind
          exact (ih h).trans hkind
      · next heq =>
          rw [heq] at hkind
          obtain rfl := Except.ok.inj (Option.some.inj h)
          exact hkind
      · contradiction
      · exact nomatch Option.some.inj h

/-- The worker of the application gives back what it was started with. -/
theorem WorkerState.drain_app {io : Io} {path : ObjectPath} {msgs : List WorkerMsg}
    {s : AppLoop} {s' : WorkerState} (h : (app s).drain io path msgs = pure s') : s' = app s := by
  cases msgs with
  | nil => exact (Except.ok.inj (Option.some.inj h)).symm
  | cons msg msgs =>
      cases msg with
      | unregister => exact (Except.ok.inj (Option.some.inj h)).symm
      | _ => contradiction

theorem WorkerState.isServ_join (s : WorkerState) : s.join.isServ = decide (s.kind = .serv) := by
  cases s <;> rfl

/-- The entry of a service. -/
def ofServ (e : Key × WorkerState) : Bool := e.2.kind = .serv

/-- As many services are given back as there are workers of services. -/
theorem countP_finished {io : Io} {order : List (Key × Worker)} {finished : List WorkerJoin}
    (h : order.mapM (fun e ↦ e.2.finish io) = (pure finished : MayFail _)) :
    finished.countP WorkerJoin.isServ = (order.map ownState).countP ofServ := by
  induction order generalizing finished with
  | nil =>
      obtain rfl := Except.ok.inj (Option.some.inj h)
      rfl
  | cons e order ih =>
      rw [List.mapM_cons] at h
      obtain ⟨join, hjoin, h⟩ := MayFail.bind_eq_pure.mp h
      obtain ⟨rest, hrest, h⟩ := MayFail.bind_eq_pure.mp h
      obtain rfl := Except.ok.inj (Option.some.inj h)
      rw [Worker.finish] at hjoin
      split at hjoin
      · exact nomatch Option.some.inj hjoin
      obtain ⟨s, hs, hjoin⟩ := MayFail.bind_eq_pure.mp hjoin
      obtain rfl := Except.ok.inj (Option.some.inj hjoin)
      rw [List.map_cons, List.countP_cons, List.countP_cons, ih hrest, WorkerState.isServ_join,
        WorkerState.drain_kind hs]
      rfl

/-- What the worker of an application gives back is without services. -/
theorem services_of_finished {io : Io} {order : List (Key × Worker)} {app : Application}
    {finished : List WorkerJoin}
    (h : order.mapM (fun e ↦ e.2.finish io) = (pure (.app app :: finished) : MayFail _))
    (horder : ∀ e ∈ order, ∀ s, e.2.state = .app s → s.self.services = []) :
    app.services = [] := by
  cases order with
  | nil => exact nomatch Except.ok.inj (Option.some.inj h)
  | cons e order =>
      rw [List.mapM_cons] at h
      obtain ⟨join, hjoin, h⟩ := MayFail.bind_eq_pure.mp h
      obtain ⟨rest, -, h⟩ := MayFail.bind_eq_pure.mp h
      obtain ⟨rfl, -⟩ := List.cons.inj (Except.ok.inj (Option.some.inj h))
      rw [Worker.finish] at hjoin
      split at hjoin
      · exact nomatch Option.some.inj hjoin
      obtain ⟨s, hs, hjoin⟩ := MayFail.bind_eq_pure.mp hjoin
      have happ : s.join = .app app := Except.ok.inj (Option.some.inj hjoin)
      have hkind := WorkerState.drain_kind hs
      have hstate := horder e List.mem_cons_self
      cases hcase : e.2.state with
      | app a =>
          rw [hcase] at hs
          obtain rfl := WorkerState.drain_app hs
          obtain rfl := WorkerJoin.app.inj happ
          exact hstate a hcase
      | serv | chrc | desc =>
          rw [hcase] at hkind
          cases s with
          | app => contradiction
          | serv | chrc | desc => contradiction

/-! ## The workers of an application -/

/-- There is one service among the workers of a service and what is below it. -/
theorem Service.countP_own (serv : Service) : serv.own.countP ofServ = 1 := by
  have hbelow : (serv.chars.flatMap (Characteristic.own serv.uuid)).countP ofServ = 0 := by
    refine List.countP_eq_zero.mpr fun e he ↦ ?_
    obtain ⟨chrc, -, he⟩ := List.mem_flatMap.mp he
    rcases List.mem_append.mp he with he | he
    · obtain ⟨desc, -, rfl⟩ := List.mem_map.mp he
      exact Bool.false_ne_true
    · obtain rfl := List.mem_singleton.mp he
      exact Bool.false_ne_true
  rw [own, List.countP_append, hbelow]
  rfl

theorem Application.countP_own (app : Application) :
    app.own.countP ofServ = app.services.length := by
  rw [own, List.countP_flatMap]
  have hone : (List.countP ofServ ∘ Service.own) = fun _ ↦ 1 := funext Service.countP_own
  rw [hone, List.map_const', List.sum_replicate_nat, Nat.mul_one]

/-- No attribute has the worker of an application. -/
theorem Application.kind_own {app : Application} {e : Key × WorkerState} (he : e ∈ app.own) :
    e.2.kind ≠ .app := by
  obtain ⟨serv, -, he⟩ := List.mem_flatMap.mp he
  rcases List.mem_append.mp he with he | he
  · obtain ⟨chrc, -, he⟩ := List.mem_flatMap.mp he
    rcases List.mem_append.mp he with he | he
    · obtain ⟨desc, -, rfl⟩ := List.mem_map.mp he
      exact nofun
    · obtain rfl := List.mem_singleton.mp he
      exact nofun
  · obtain rfl := List.mem_singleton.mp he
    exact nofun

/-- The workers of a registered application are its own and those of its attributes, or
fewer. -/
theorem Application.register_subperm {self : Application} {bus : Bus} {app : AppWorker}
    (h : self.register bus = pure app) : self.services ≠ [] ∧ ∃ appData,
      (app.workers.iter.map ownState).Subperm (self.all appData) := by
  obtain ⟨hne, workers, workers', appData, ⟨es, rfl, hown, -⟩, hincludes, happ⟩ := register_eq h
  refine ⟨hne, appData, ?_⟩
  have hsub : (workers'.iter.map ownState).Subperm self.own := by
    have hes := subperm_map ownState (AList.iter_insertAll_subperm ∅ es)
    have hempty : es ++ (∅ : Workers).iter = es := List.append_nil es
    rw [hempty, hown] at hes
    rw [sendIncludes_ownState hincludes]
    exact hes
  have hinsert := subperm_map ownState (AList.iter_insertAll_subperm workers' [((0, 0, 0),
    { state := .app { self := { self with services := [] }, appData := appData }
      path := self.basePath })])
  rw [happ]
  exact hinsert.trans ((List.subperm_cons _).mpr hsub)

/-- **An application that is unregistered comes back short of a service**, if it comes
back. -/
theorem unregister_length_lt {self self' : Application} {bus : Bus} {app : AppWorker}
    (h : self.register bus = pure app) {io : Io} {order : List (Key × Worker)}
    (horder : order.Perm app.workers.iter) (hself' : unregister io order = pure self') :
    self'.services.length < self.services.length := by
  obtain ⟨hne, appData, hsub⟩ := Application.register_subperm h
  have hsub' : (order.map ownState).Subperm (self.all appData) :=
    (horder.map ownState).subperm.trans hsub
  obtain ⟨finished, hfinished, hrebuild⟩ := MayFail.bind_eq_pure.mp hself'
  split at hrebuild
  · next app' happ' =>
      obtain rfl := Except.ok.inj (Option.some.inj hrebuild)
      have hcount : finished.countP WorkerJoin.isServ ≤ self.services.length := by
        calc finished.countP WorkerJoin.isServ = (order.map ownState).countP ofServ :=
              countP_finished hfinished
          _ ≤ (self.all appData).countP ofServ := hsub'.countP_le _
          _ = self.services.length := (List.countP_cons_of_neg Bool.false_ne_true).trans
              self.countP_own
      cases finished with
      | nil => contradiction
      | cons join rest =>
          cases join with
          | app a =>
              have hservices : a.services = [] := by
                refine services_of_finished hfinished fun e he s hs ↦ ?_
                rcases List.mem_cons.mp (hsub'.subset (List.mem_map_of_mem he)) with heq | hmem
                · have hstate := congrArg Prod.snd heq
                  rw [ownState, hs] at hstate
                  obtain rfl := WorkerState.app.inj hstate
                  rfl
                · have hkind := Application.kind_own hmem
                  rw [ownState, hs] at hkind
                  exact absurd rfl hkind
              have hlen := rebuild_length hservices happ'
              rw [List.countP_cons_of_neg Bool.false_ne_true] at hcount
              have hpos := List.length_pos_iff.mpr hne
              omega
          | serv | chrc | desc => contradiction
  · contradiction

/-! ## The whole round -/

/-- The heap yields the workers in some order. -/
theorem exists_heapOrder {self : Application} {bus : Bus} {app : AppWorker}
    (h : self.register bus = pure app) : ∃ order, HeapOrder app.workers order := by
  obtain ⟨-, workers, workers', appData, -, -, happ⟩ := Application.register_eq h
  refine ⟨app.workers.iter, .refl _, fun e he e' _ ↦ ?_⟩
  rw [happ, AList.iter, AList.entries_insert, List.map_cons] at he
  obtain rfl := Option.some.inj he
  exact Key.zero_le e'.1

/-- **Whatever the application and whatever the order the heap yields the workers in,
unregistering does not give the application back.** -/
theorem unregister_never_restores {self : Application} {bus : Bus} {app : AppWorker}
    (h : self.register bus = pure app) :
    (∃ order, HeapOrder app.workers order) ∧ ∀ io order, HeapOrder app.workers order →
      ¬∃ self', unregister io order = pure self' ∧ self'.Same self := by
  refine ⟨exists_heapOrder h, ?_⟩
  rintro io order horder ⟨self', hself', hsame⟩
  exact absurd hsame.length_eq (unregister_length_lt h horder.perm hself').ne

/-- Even one service with one characteristic is lost. -/
theorem unregister_ofUuids : ∃ app,
    (Application.ofUuids ⟨1⟩ ⟨2⟩ ⟨3⟩).register .working = pure app ∧
      (∃ order, HeapOrder app.workers order) ∧ ∀ io order, HeapOrder app.workers order →
        ¬∃ self', unregister io order = pure self' ∧
          self'.Same (Application.ofUuids ⟨1⟩ ⟨2⟩ ⟨3⟩) := by
  obtain ⟨app, happ⟩ := Application.register_ofUuids ⟨1⟩ ⟨2⟩ ⟨3⟩
  exact ⟨app, happ, unregister_never_restores happ⟩

/-- Registering and unregistering do not give every application back. -/
theorem unregister_loses_service : ¬∀ (self : Application) (bus : Bus) (app : AppWorker),
    self.Distinct → self.NonZero → (∀ serv ∈ self.services, serv.chars ≠ []) →
      self.register bus = pure app → ∀ io order, HeapOrder app.workers order →
        ∃ self', unregister io order = pure self' ∧ self'.Same self := by
  intro hall
  obtain ⟨app, happ⟩ := Application.register_ofUuids ⟨1⟩ ⟨2⟩ ⟨3⟩
  have hnz := Application.nonZero_ofUuids
  obtain ⟨order, horder⟩ := exists_heapOrder happ
  have hchars : ∀ serv ∈ (Application.ofUuids ⟨1⟩ ⟨2⟩ ⟨3⟩).services, serv.chars ≠ [] :=
    fun serv hserv ↦ List.mem_singleton.mp hserv ▸ List.cons_ne_nil _ _
  obtain ⟨self', hself', hsame⟩ :=
    hall _ _ app (Application.distinct_ofUuids ..) hnz hchars happ {} order horder
  exact absurd hsame.length_eq (unregister_length_lt happ horder.perm hself').ne

end Rustable.Gatt.Server
