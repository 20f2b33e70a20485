import Rustable.Advertising.Registering
import Rustable.Gatt.Server.CallPaths

/-!
# What registering leaves in the table of call paths

Applications and advertisements, and the four ways in which their registration ends.  Only an
advertisement that has been released leaves a path that accepts no calls; nothing else that is
inserted is ever taken back.
-/

namespace Rustable

open DBus
open DBus.CallTable (Accepts)
open Gatt.Server (Application AppWorker Arrival Bus EarlyCalls Io Key Worker unregisterOn)

/-- **The paths that are left.**

* An application whose registration failed has left no trace if it had not inserted anything yet,
  or if all its paths accepted calls before.
* One that was registered and unregistered always has.
* An advertisement whose registration failed has left no trace if its path accepted calls before.
* One that was registered and released is not called any more. -/
theorem callPaths_left {τ : Type} [CallTable τ] :
    (∀ (app : Application) (bus : Bus) (early : EarlyCalls) (arrivals : List Arrival) (t t' : τ)
        (e : Error), app.registerOn bus early arrivals t = some (.error e, t') →
        ((∀ p, app.Inserts p → CallTable.action t' p = CallTable.action t p) ↔
          (∃ e, app.filterOf bus = throw e) ∨ ∀ p, app.Inserts p → Accepts t p)) ∧
    (∀ (app : Application) (bus : Bus) (early : EarlyCalls) (arrivals : List Arrival) (t t' : τ)
        (worker : AppWorker), app.registerOn bus early arrivals t = some (.ok worker, t') →
        ∀ (io : Io) (order : List (Key × Worker)) (back : Application) (t'' : τ),
          unregisterOn io order t' = some (.ok back, t'') → ¬∀ p, app.Inserts p → ¬Accepts t'' p) ∧
    (∀ (basePath : String) (bus : AdBus) (s s' : AdState τ) (e : Error),
      Advertisement.register basePath bus s = some (.error e, s') →
        ∃ path, ObjectPath.tryFrom basePath.toList = some path ∧
          (CallTable.action s'.callPaths path = CallTable.action s.callPaths path ↔
            Accepts s.callPaths path)) ∧
    ∀ (basePath : String) (bus : AdBus) (s s' : AdState τ) (worker : AdWorker),
      Advertisement.register basePath bus s = some (.ok worker, s') →
        ∀ (events : List AdEvent) (ad : Advertisement) (s'' : AdState τ),
          worker.release events s' = some (.ok (some ad), s'') →
            ∃ path, ObjectPath.tryFrom basePath.toList = some path ∧
              ¬Accepts s''.callPaths path := by
  refine ⟨?_, ?_, ?_, ?_⟩
  · exact fun app bus early arrivals t t' e h ↦ app.registerOn_error_iff h
  · intro app bus early arrivals t t' worker h io order back t'' hback hquiet
    exact hquiet app.basePath (.inl rfl) (app.accepts_unregisterOn h hback (.inl rfl))
  · exact fun basePath bus s s' e h ↦ Advertisement.register_error_iff h
  · intro basePath bus s s' worker h events ad s'' hrelease
    obtain ⟨path, hpath, -, hworker⟩ := Advertisement.register_cases h
    refine ⟨path, hpath, ?_⟩
    rw [← hworker worker rfl]
    exact worker.not_accepts_release hrelease

/-- A bus on which BlueZ does not register the application. -/
def Gatt.Server.Bus.refusing : Bus where
  owner := .ok ":1.4"
  registerApplication := .error (.bluez "org.bluez.Error.AlreadyExists")

theorem not_accepts_empty (p : ObjectPath) : ¬Accepts CallTree.empty p :=
  fun h ↦ Option.some_ne_none _ (h.symm.trans (AList.lookup_empty p))

/-- On that bus registering fails when all paths have been inserted. -/
theorem registerOn_refusing {app : Application} (hservs : app.services ≠ [])
    (hpath : app.basePath ≠ .root) (hincludes : Gatt.Server.includes app.services = [])
    {τ : Type} [CallTable τ] (t : τ) :
    ∃ t' e, app.registerOn .refusing .none [] t = some (.error e, t') ∧
      ¬∃ e, app.filterOf .refusing = throw e := by
  have hname : ":1.4" ≠ "" := by decide
  have howner : Bus.refusing.owner = .ok ":1.4" := rfl
  obtain ⟨_, hrun⟩ := Application.register_run hservs hpath hincludes howner hname
  obtain ⟨t', ht'⟩ := Application.exists_registerOn
    ((congrArg ExceptT.run (app.registerServing_none .refusing)).trans hrun) t
  refine ⟨t', _, ht', ?_⟩
  rintro ⟨e, hthrow⟩
  rcases app.run_filterOf fun _ ↦ howner with ⟨-, hno⟩ | ⟨hpure, -⟩
  · exact hno fun _ ↦ hname
  · have hres : Except.ok _ = Except.error e := Option.some.inj (hpure.symm.trans hthrow)
    contradiction

/-- The path of an advertisement. -/
def adPath : ObjectPath := ⟨["ad".toList], by decide⟩

/-- An application with three attributes that is refused, and an advertisement that is
registered and released. -/
theorem callPaths_left_empty :
    (∃ t' e, (Application.ofUuids ⟨1⟩ ⟨2⟩ ⟨3⟩).registerOn .refusing .none [] CallTree.empty =
        some (.error e, t') ∧
      ¬∀ p, (Application.ofUuids ⟨1⟩ ⟨2⟩ ⟨3⟩).Inserts p →
        CallTable.action t' p = CallTable.action CallTree.empty p) ∧
    ∃ worker s' ad s'', Advertisement.register (String.ofList adPath.toChars)
        { registerAdvertisement := .ok () } { self := {}, callPaths := CallTree.empty } =
          some (.ok worker, s') ∧
      worker.release [.release (.ok ())] s' = some (.ok (some ad), s'') ∧
        ∃ path, ObjectPath.tryFrom (String.ofList adPath.toChars).toList = some path ∧
          ¬Accepts s''.callPaths path := by
  obtain ⟨happ, -, -, had⟩ := @callPaths_left CallTree _
  constructor
  · have hservs : (Application.ofUuids ⟨1⟩ ⟨2⟩ ⟨3⟩).services ≠ [] := List.cons_ne_nil _ _
    obtain ⟨t', e, ht', hfilter⟩ :=
      registerOn_refusing hservs (Application.basePath_ofUuids _ _ _) rfl CallTree.empty
    refine ⟨t', e, ht', fun hsame ↦ ?_⟩
    rcases (happ _ _ _ _ _ _ _ ht').mp hsame with hthrow | haccepts
    · exact hfilter hthrow
    · exact not_accepts_empty _ (haccepts _ (.inl rfl))
  · have hpath : ObjectPath.tryFrom (String.ofList adPath.toChars).toList = some adPath := by
      rw [String.toList_ofList]
      exact ObjectPath.tryFrom_toChars fun h ↦ List.cons_ne_nil _ _ (congrArg ObjectPath.elements h)
    have hregister := Advertisement.register_ok hpath { self := {}, callPaths := CallTree.empty }
    have hrelease (s : AdState CallTree) :=
      AdWorker.release_ok { basePath := adPath } s
    exact ⟨_, _, _, _, hregister, hrelease _, had _ _ _ _ _ hregister _ _ _ (hrelease _)⟩

/-- An application that BlueZ has refused still has calls queued for its path. -/
theorem refused_leaves_paths :
    ¬∀ (app : Application) (bus : Bus) (t t' : CallTree) (e : Error),
      app.registerOn bus .none [] t = some (.error e, t') →
        ∀ p, app.Inserts p → CallTable.action t' p = CallTable.action t p := by
  intro hall
  have hservs : (Application.ofUuids ⟨1⟩ ⟨2⟩ ⟨3⟩).services ≠ [] := List.cons_ne_nil _ _
  obtain ⟨t', e, ht', hfilter⟩ :=
    registerOn_refusing hservs (Application.basePath_ofUuids _ _ _) rfl CallTree.empty
  have hbase := hall _ _ _ _ _ ht' _ (.inl rfl)
  rcases Application.registerOn_cases ht' with ⟨⟨e, hthrow, -⟩, -⟩ | ⟨-, haccepts⟩
  · exact hfilter ⟨e, hthrow⟩
  · exact not_accepts_empty _ (hbase.symm.trans (haccepts _ (.inl rfl)))

end Rustable
