import Rustable.Gatt.Server.Registering
import Rustable.Gatt.Server.Unregister
import Rustable.Lib.DBus.CallPaths

/-!
# The call paths of an application

`Application::register` makes the connection accept calls for the base path and for the path of
each attribute before it asks BlueZ to register the application.
-/

namespace Rustable.Gatt.Server

open DBus
open DBus.CallTable (Accepts Inserted)

variable {τ : Type} [CallTable τ]

/-! ## The loops of `register`, on the table -/

/-- A loop over the children of a path: each gets its path into the table, before `below` goes on
with what is below it. -/
def insertChildren {α : Type} (parent : ObjectPath) (kind : String)
    (below : α → ObjectPath → τ → Option τ) : Nat → List α → τ → Option τ
  | _, [], t => some t
  | i, a :: as, t => do
      let path ← childPath parent kind i
      let t ← below a path (CallTable.insert t path .exact)
      insertChildren parent kind below (i + 1) as t

/-- The loop over the descriptors of a characteristic. -/
def insertDescs (chrcPath : ObjectPath) : List Descriptor → τ → Option τ :=
  insertChildren chrcPath "desc" (fun _ _ t ↦ some t) 0

/-- The loop over the characteristics of a service. -/
def insertChrcs (servPath : ObjectPath) : List Characteristic → τ → Option τ :=
  insertChildren servPath "char" (fun chrc chrcPath ↦ insertDescs chrcPath chrc.descs) 0

/-- The loop over the services. -/
def insertServs (basePath : ObjectPath) : List Service → τ → Option τ :=
  insertChildren basePath "service" (fun serv servPath ↦ insertChrcs servPath serv.chars) 0

/-- The root answers for its children if nobody else does. -/
def introRoot (t : τ) : τ :=
  if CallTable.action t .root = some .drop ∨ CallTable.action t .root = some .nothing then
    CallTable.insert t .root .intro
  else t

/-- `Application::register`, with the table of the connection. -/
def Application.registerOn (self : Application) (bus : Bus) (early : EarlyCalls)
    (arrivals : List Arrival) : Fallible τ AppWorker := do
  if self.services.length = 0 then Fallible.unwrap none
  let filter ← Fallible.ofMayFail (self.filterOf bus)
  modify introRoot
  modify (CallTable.insert · self.basePath .exact)
  let t ← Fallible.unwrap (insertServs self.basePath self.services (← get))
  set t
  let workers ← Fallible.unwrap (startServs self.basePath 0 self.services ∅)
  let workers ← Fallible.unwrap
    (sendIncludesServing filter early (includes self.services) workers)
  let appData ← Fallible.ofMayFail
    (ofRan (WorkerData.serveCalls arrivals (self.appData filter workers)))
  Fallible.ofMayFail (ExceptT.mk (some bus.registerApplication))
  let app : Worker :=
    { state := .app { self := { self with services := [] }, appData := appData }
      path := self.basePath }
  return { workers := workers.insert (0, 0, 0) app, filter := filter }

/-- `AppWorker::unregister`, with the table of the connection, which it does not touch. -/
def unregisterOn (io : Io) (order : List (Key × Worker)) : Fallible τ Application :=
  Fallible.ofMayFail (unregister io order)

/-! ## The paths that are inserted -/

/-- The path of one of the children, or one that is `below` it. -/
def Children {α : Type} (parent : ObjectPath) (kind : String)
    (below : α → ObjectPath → ObjectPath → Prop) (i : Nat) (as : List α) (p : ObjectPath) : Prop :=
  ∃ n a path, as[n]? = some a ∧ childPath parent kind (i + n) = some path ∧
    (p = path ∨ below a path p)

/-- The paths of the descriptors of a characteristic. -/
def Characteristic.Inserts (chrc : Characteristic) (chrcPath : ObjectPath) : ObjectPath → Prop :=
  Children chrcPath "desc" (fun _ _ _ ↦ False) 0 chrc.descs

/-- The paths of the characteristics of a service and of their descriptors. -/
def Service.Inserts (serv : Service) (servPath : ObjectPath) : ObjectPath → Prop :=
  Children servPath "char" Characteristic.Inserts 0 serv.chars

/-- The path of the application and those of all attributes. -/
def Application.Inserts (self : Application) (p : ObjectPath) : Prop :=
  p = self.basePath ∨ Children self.basePath "service" Service.Inserts 0 self.services p

section Children

variable {α : Type} {parent : ObjectPath} {kind : String} {below : α → ObjectPath → τ → Option τ}
  {P : α → ObjectPath → ObjectPath → Prop} {i : Nat} {as : List α} {t t' : τ}

theorem children_cons_iff {a : α} {path p : ObjectPath}
    (hpath : childPath parent kind i = some path) :
    Children parent kind P i (a :: as) p ↔
      (p = path ∨ P a path p) ∨ Children parent kind P (i + 1) as p := by
  constructor
  · rintro ⟨n, b, q, hb, hq, hp⟩
    cases n with
    | zero =>
        obtain rfl := Option.some.inj hb
        obtain rfl := Option.some.inj (hpath.symm.trans hq)
        exact .inl hp
    | succ n =>
        rw [Nat.add_comm n 1, ← Nat.add_assoc] at hq
        exact .inr ⟨n, b, q, hb, hq, hp⟩
  · rintro (hp | ⟨n, b, q, hb, hq, hp⟩)
    · exact ⟨0, a, path, rfl, hpath, hp⟩
    · rw [Nat.add_assoc, Nat.add_comm 1 n] at hq
      exact ⟨n + 1, b, q, hb, hq, hp⟩

/-- **A loop inserts the paths of the children and what is below them**, and nothing else. -/
theorem inserted_insertChildren
    (hbelow : ∀ a path (t t' : τ), below a path t = some t' → Inserted (P a path) t t')
    (h : insertChildren parent kind below i as t = some t') :
    Inserted (Children parent kind P i as) t t' := by
  induction as generalizing i t with
  | nil =>
      obtain rfl := Option.some.inj h
      refine (Inserted.refl t).congr fun p ↦ ⟨False.elim, ?_⟩
      rintro ⟨n, a, path, ha, -⟩
      contradiction
  | cons a as ih =>
      obtain ⟨path, hpath, h⟩ := Option.bind_eq_some_iff.mp h
      obtain ⟨t₁, ht₁, h⟩ := Option.bind_eq_some_iff.mp h
      have hchild := (Inserted.single t path).trans (hbelow a path _ t₁ ht₁)
      exact (hchild.trans (ih h)).congr fun p ↦ (children_cons_iff hpath).symm

/-- Below a path with children the loop does not panic. -/
theorem insertChildren_isSome (hparent : parent ≠ .root) (hkind : IsElement kind.toList)
    (hbelow : ∀ a path (t : τ), path ≠ .root → ∃ t', below a path t = some t') (i : Nat)
    (as : List α) (t : τ) : ∃ t', insertChildren parent kind below i as t = some t' := by
  induction as generalizing i t with
  | nil => exact ⟨t, rfl⟩
  | cons a as ih =>
      obtain ⟨path, hpath⟩ := childPath_isSome hparent kind hkind i
      obtain ⟨t₁, ht₁⟩ := hbelow a path (CallTable.insert t path .exact) (childPath_ne_root hpath)
      obtain ⟨t', ht'⟩ := ih (i + 1) t₁
      refine ⟨t', ?_⟩
      rw [insertChildren, hpath, Option.bind_eq_bind, Option.bind_some, ht₁, Option.bind_eq_bind,
        Option.bind_some, ht']

end Children

theorem inserted_insertServs {self : Application} {t t' : τ}
    (h : insertServs self.basePath self.services t = some t') :
    Inserted (Children self.basePath "service" Service.Inserts 0 self.services) t t' := by
  refine inserted_insertChildren (fun serv servPath t t' hserv ↦ ?_) h
  refine inserted_insertChildren (fun chrc chrcPath t t' hchrc ↦ ?_) hserv
  refine inserted_insertChildren (fun desc descPath t t' hdesc ↦ ?_) hchrc
  obtain rfl := Option.some.inj hdesc
  exact .refl t

theorem insertServs_isSome {basePath : ObjectPath} (hpath : basePath ≠ .root)
    (servs : List Service) (t : τ) : ∃ t', insertServs basePath servs t = some t' := by
  refine insertChildren_isSome hpath (by decide) (fun serv servPath t hserv ↦ ?_) 0 servs t
  refine insertChildren_isSome hserv (by decide) (fun chrc chrcPath t hchrc ↦ ?_) 0 serv.chars t
  exact insertChildren_isSome hchrc (by decide) (fun _ _ t _ ↦ ⟨t, rfl⟩) 0 chrc.descs t

/-! ## Registering -/

namespace Application

variable {self : Application} {bus : Bus} {early : EarlyCalls} {arrivals : List Arrival} {t t' : τ}
  {app : AppWorker} {r : Except Error AppWorker} {e : Error}

/-- Apart from the table it is the function of before. -/
theorem registerOn_eq (self : Application) (bus : Bus) (early : EarlyCalls)
    (arrivals : List Arrival) (t : τ) : (self.registerOn bus early arrivals t).map Prod.fst =
      (self.registerServing bus early arrivals).run := by
  rw [registerOn, registerServing]
  split
  · rfl
  next hservs =>
  have hne : self.services ≠ [] := fun hnil ↦ hservs (List.length_eq_zero_iff.mpr hnil)
  refine Fallible.fst_bind_ofMayFail fun filter ↦ ?_
  change ((Fallible.unwrap (insertServs self.basePath self.services
    (CallTable.insert (introRoot t) self.basePath .exact)) >>= _ : Fallible τ AppWorker)
      (CallTable.insert (introRoot t) self.basePath .exact)).map Prod.fst = _
  cases hstart : startServs self.basePath 0 self.services ∅ with
  | none =>
      rcases insertServs self.basePath self.services _ with _ | t₁
      · rfl
      · rfl
  | some workers =>
      have hpath := (isSome_startServs_iff hne).mp (Option.isSome_of_eq_some hstart)
      obtain ⟨t₁, ht₁⟩ := insertServs_isSome hpath self.services
        (CallTable.insert (introRoot t) self.basePath .exact)
      rw [ht₁]
      change ((Fallible.unwrap (sendIncludesServing filter early (includes self.services) workers)
        >>= _ : Fallible τ AppWorker) t₁).map Prod.fst = _
      dsimp only
      cases sendIncludesServing filter early (includes self.services) workers with
      | none => rfl
      | some workers' =>
          refine Fallible.fst_bind_ofMayFail fun appData ↦ ?_
          exact Fallible.fst_bind_ofMayFail fun _ ↦ rfl

/-- What `register` returns does not depend on the table. -/
theorem exists_registerOn (h : (self.registerServing bus early arrivals).run = some r) (t : τ) :
    ∃ t', self.registerOn bus early arrivals t = some (r, t') := by
  rw [← registerOn_eq self bus early arrivals t] at h
  obtain ⟨⟨_, t'⟩, ht', rfl⟩ := Option.map_eq_some_iff.mp h
  exact ⟨t', ht'⟩

/-- **What `register` leaves behind**: it fails before it has touched the table, or all paths
accept calls when it comes back, whatever it returns. -/
theorem registerOn_cases (h : self.registerOn bus early arrivals t = some (r, t')) :
    ((∃ e, self.filterOf bus = throw e ∧ r = .error e) ∧ t' = t) ∨
      (∃ filter, self.filterOf bus = pure filter) ∧ ∀ p, self.Inserts p → Accepts t' p := by
  rw [registerOn] at h
  split at h
  · contradiction
  change (Fallible.ofMayFail (self.filterOf bus) >>= _ : Fallible τ AppWorker) t = _ at h
  rcases hfilter : self.filterOf bus with _ | _ | filter
  · rw [hfilter] at h
    contradiction
  · rw [hfilter] at h
    obtain ⟨rfl, rfl⟩ := Prod.mk.inj (Option.some.inj h)
    exact .inl ⟨⟨_, rfl, rfl⟩, rfl⟩
  refine .inr ⟨⟨filter, rfl⟩, ?_⟩
  rw [hfilter] at h
  have hbase := Inserted.single (introRoot t) self.basePath
  change (Fallible.unwrap (insertServs self.basePath self.services
    (CallTable.insert (introRoot t) self.basePath .exact)) >>= _ : Fallible τ AppWorker)
      (CallTable.insert (introRoot t) self.basePath .exact) = _ at h
  cases hservs : insertServs self.basePath self.services
      (CallTable.insert (introRoot t) self.basePath .exact) with
  | none =>
      rw [hservs] at h
      contradiction
  | some t₁ =>
      rw [hservs] at h
      -- From here on nothing is inserted any more, and nothing is taken back.
      have hrest : id t' = id t₁ := by
        refine Fallible.Keeps.bind (.unwrap _) (fun workers ↦ ?_) t₁ r t' h
        refine .bind (.unwrap _) fun workers' ↦ .bind (.ofMayFail _) fun appData ↦ ?_
        exact .bind (.ofMayFail _) fun _ ↦ .pure _
      obtain rfl : t' = t₁ := hrest
      exact (hbase.trans (inserted_insertServs hservs)).accepts

/-- An error before anything is inserted, or a table that had all paths already, is the only way
not to leave a trace. -/
theorem registerOn_error_iff (h : self.registerOn bus early arrivals t = some (.error e, t')) :
    (∀ p, self.Inserts p → CallTable.action t' p = CallTable.action t p) ↔
      (∃ e, self.filterOf bus = throw e) ∨ ∀ p, self.Inserts p → Accepts t p := by
  rcases registerOn_cases h with ⟨⟨e, hfilter, -⟩, rfl⟩ | ⟨⟨filter, hfilter⟩, haccepts⟩
  · exact iff_of_true (fun _ _ ↦ rfl) (.inl ⟨e, hfilter⟩)
  · refine (CallTable.restored_iff haccepts).trans (or_iff_right ?_).symm
    rintro ⟨e, he⟩
    have hres : Except.ok filter = Except.error e := Option.some.inj (hfilter.symm.trans he)
    contradiction

/-- An application that has been registered is still called when it has been unregistered. -/
theorem accepts_unregisterOn (h : self.registerOn bus early arrivals t = some (.ok app, t')) {io : Io}
    {order : List (Key × Worker)} {back : Application} {t'' : τ}
    (hback : unregisterOn io order t' = some (.ok back, t'')) {p : ObjectPath}
    (hp : self.Inserts p) : Accepts t'' p := by
  have hsame : id t'' = id t' := Fallible.Keeps.ofMayFail _ _ _ _ hback
  obtain rfl : t'' = t' := hsame
  rcases registerOn_cases h with ⟨⟨e, -, he⟩, -⟩ | ⟨-, haccepts⟩
  · contradiction
  · exact haccepts p hp

end Application

end Rustable.Gatt.Server
