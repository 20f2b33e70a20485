import Rustable.Advertising
import Rustable.Introspect
import Rustable.Lib.DBus.CallPaths

/-!
# Registering an advertisement

`Advertisement::register` makes the connection accept calls for the path of the advertisement,
asks BlueZ to register it, and answers what BlueZ asks in the meantime.  A task goes on answering
until BlueZ or `AdWorker::release` ends it, and then has calls for the path refused.

Only the task does so.  If `register` fails, the path accepts calls from then on
(`register_error_iff`).
-/

namespace Rustable

open DBus
open DBus.CallTable (Accepts)

/-- An advertisement, the table of call paths of its connection, and what it has answered. -/
structure AdState (τ : Type) where
  self : Advertisement
  callPaths : τ
  sent : List MarshalledMessage := []

/-- A call that arrives for the advertisement, if the connection does not fail, and how sending
the answer ends. -/
structure AdCall where
  call : Except IoError MarshalledMessage
  sendReply : Except IoError Unit := .ok ()

/-- How sending the answer `m` ends: the connection does not take every message. -/
def AdCall.send (c : AdCall) (m : MarshalledMessage) : Except IoError Unit :=
  if m.isSendable then c.sendReply else .error .other

/-- What happens while an advertisement is registered: the calls that arrive before the reply to
`RegisterAdvertisement`, and how that ends. -/
structure AdBus where
  calls : List AdCall := []
  registerAdvertisement : Except Error Unit

/-- What the task of an advertisement is woken by. -/
inductive AdEvent
  | /-- A call. -/
    call (c : AdCall)
  | /-- `WorkerMsg::Alive` -/
    alive
  | /-- `WorkerMsg::Release`, and how the call of `UnregisterAdvertisement` ends. -/
    release (unregisterAdvertisement : Except Error Unit)
  | /-- The `AdWorker` has been dropped. -/
    dropped

/-- What the task of an advertisement keeps besides the advertisement. -/
structure AdWorker where
  basePath : ObjectPath

namespace Advertisement

/-- `Advertisement::handle_intro` -/
def handleIntro (call : MarshalledMessage) : MarshalledMessage :=
  let s := Introspect.introspectFmtP1 ++ Introspect.propStr ++ Introspect.advStr ++
    Introspect.introspectFmtP3
  { call.dynheader.makeResponse with body := [⟨sig String, .base s⟩] }

/-- `Advertisement::handle_call`: nothing is answered to `Release`. -/
def handleCall (call : MarshalledMessage) : MayPanic Advertisement (Option MarshalledMessage) := do
  let interface ← MayPanic.unwrap call.dynheader.interface
  if interface = propsIf then return some (← Properties.propertiesCall call)
  else if interface = introIf then return some (handleIntro call)
  else if interface = bluezAdvIf then
    let member ← MayPanic.unwrap call.dynheader.member
    if member = "Release" then return none
    else return some (call.dynheader.makeErrorResponse "UnknownMethod" none)
  else return some (call.dynheader.makeErrorResponse "UnknownInterface" none)

variable {τ : Type}

/-- The `?` on the result of an operation of the connection. -/
def check {α : Type} (r : Except IoError α) : Fallible (AdState τ) α :=
  Fallible.ofMayFail (ExceptT.mk (some (r.mapError .io)))

/-- A method of the advertisement. -/
def onSelf {α : Type} (x : MayPanic Advertisement α) : Fallible (AdState τ) α :=
  fun s ↦ (x s.self).map fun r ↦ (.ok r.1, { s with self := r.2 })

/-- Answer a call, unless it is `Release`. -/
def answer (c : AdCall) : Fallible (AdState τ) Bool := do
  let call ← check c.call
  match ← onSelf (handleCall call) with
  | some res =>
      check (c.send res)
      modify fun s ↦ { s with sent := s.sent ++ [res] }
      return true
  | none => return false

/-- The loop of `register`. -/
def awaitReply (reply : Except Error Unit) : List AdCall → Fallible (AdState τ) Unit
  | [] => Fallible.ofMayFail (ExceptT.mk (some reply))
  | c :: calls => do
      if ← answer c then awaitReply reply calls
      else throw (.bluez "Released before ad could start.")

variable [CallTable τ]

/-- Give a path an action. -/
def insertCallPath (path : ObjectPath) (a : CallAction) : Fallible (AdState τ) Unit :=
  fun s ↦ some (.ok (), { s with callPaths := CallTable.insert s.callPaths path a })

/-- `Advertisement::register` -/
def register (basePath : String) (bus : AdBus) : Fallible (AdState τ) AdWorker := do
  let basePath ← Fallible.unwrap (ObjectPath.tryFrom basePath.toList)
  insertCallPath basePath .exact
  awaitReply bus.registerAdvertisement bus.calls
  return { basePath := basePath }

end Advertisement

namespace AdWorker

variable {τ : Type} [CallTable τ]

/-- The loop of the task: whether it has ended. -/
def work (self : AdWorker) : List AdEvent → Fallible (AdState τ) Bool
  | [] => return false
  | .call c :: events => do
      if ← Advertisement.answer c then self.work events
      else
        Advertisement.insertCallPath self.basePath .nothing
        return true
  | .alive :: events => self.work events
  | .release unregisterAdvertisement :: _ => do
      Fallible.ofMayFail (ExceptT.mk (some unregisterAdvertisement))
      Advertisement.insertCallPath self.basePath .nothing
      return true
  | .dropped :: _ => throw .threadClosed

/-- `AdWorker::release`, with what wakes the task until it ends: `none` if it still runs. -/
def release (self : AdWorker) (events : List AdEvent) :
    Fallible (AdState τ) (Option Advertisement) := do
  if ← self.work events then return some (← get).self else return none

end AdWorker

/-! ## What becomes of the path -/

namespace Advertisement

variable {τ : Type}

/-- Answering a call does not touch the table. -/
theorem keeps_answer (c : AdCall) :
    Fallible.Keeps AdState.callPaths (answer c : Fallible (AdState τ) Bool) := by
  have hself (x : MayPanic Advertisement (Option MarshalledMessage)) :
      Fallible.Keeps AdState.callPaths (onSelf x : Fallible (AdState τ) _) := by
    intro s r s' h
    obtain ⟨_, -, hr⟩ := Option.map_eq_some_iff.mp h
    obtain ⟨-, rfl⟩ := Prod.mk.inj hr
    rfl
  have hsend (res : MarshalledMessage) : Fallible.Keeps AdState.callPaths
      (modify fun s ↦ { s with sent := s.sent ++ [res] } : Fallible (AdState τ) PUnit) := by
    intro s r s' h
    obtain ⟨-, rfl⟩ := Prod.mk.inj (Option.some.inj h)
    rfl
  refine .bind (.ofMayFail _) fun call ↦ .bind (hself _) fun res ↦ ?_
  cases res with
  | none => exact .pure false
  | some res => exact .bind (.ofMayFail _) fun _ ↦ .bind (hsend res) fun _ ↦ .pure true

/-- Neither does waiting for the reply, however it ends. -/
theorem keeps_awaitReply (reply : Except Error Unit) (calls : List AdCall) :
    Fallible.Keeps AdState.callPaths (awaitReply reply calls : Fallible (AdState τ) Unit) := by
  induction calls with
  | nil => exact .ofMayFail _
  | cons c calls ih =>
      refine .bind (keeps_answer c) fun answered ↦ ?_
      cases answered with
      | true => exact ih
      | false => exact .throw _

variable [CallTable τ] {basePath : String} {bus : AdBus} {s s' : AdState τ}

/-- **What `register` leaves behind**: the path accepts calls, whatever it returns. -/
theorem register_cases {r : Except Error AdWorker} (h : register basePath bus s = some (r, s')) :
    ∃ path, ObjectPath.tryFrom basePath.toList = some path ∧
      s'.callPaths = CallTable.insert s.callPaths path .exact ∧
      ∀ w, r = .ok w → w.basePath = path := by
  rw [register] at h
  cases hpath : ObjectPath.tryFrom basePath.toList with
  | none =>
      rw [hpath] at h
      contradiction
  | some path =>
      rw [hpath] at h
      refine ⟨path, rfl, ?_⟩
      change (awaitReply bus.registerAdvertisement bus.calls >>= fun _ ↦ pure ⟨path⟩ :
        Fallible (AdState τ) AdWorker)
          { s with callPaths := CallTable.insert s.callPaths path .exact } = _ at h
      rcases Fallible.bind_eq_some h with ⟨e, he, rfl⟩ | ⟨_, t, ht, hrest⟩
      · refine ⟨keeps_awaitReply _ _ _ _ _ he, fun w hw ↦ ?_⟩
        contradiction
      · obtain ⟨rfl, rfl⟩ := Prod.mk.inj (Option.some.inj hrest)
        refine ⟨keeps_awaitReply _ _ _ _ _ ht, fun w hw ↦ ?_⟩
        obtain rfl := Except.ok.inj hw
        rfl

/-- BlueZ registers the advertisement without a question. -/
theorem register_ok {path : ObjectPath} (hpath : ObjectPath.tryFrom basePath.toList = some path)
    (s : AdState τ) :
    register basePath { registerAdvertisement := .ok () } s = some (.ok { basePath := path },
      { s with callPaths := CallTable.insert s.callPaths path .exact }) := by
  rw [register, hpath]
  rfl

/-- When `register` has failed, the path has the action it had before only if that was to accept
calls. -/
theorem register_error_iff {e : Error} (h : register basePath bus s = some (.error e, s')) :
    ∃ path, ObjectPath.tryFrom basePath.toList = some path ∧
      (CallTable.action s'.callPaths path = CallTable.action s.callPaths path ↔
        Accepts s.callPaths path) := by
  obtain ⟨path, hpath, htable, -⟩ := register_cases h
  refine ⟨path, hpath, ?_⟩
  have haccepts : CallTable.action s'.callPaths path = some .exact := by
    rw [htable]
    exact (CallTable.accepts_insert ..).mpr rfl
  rw [haccepts]
  exact eq_comm

end Advertisement

namespace AdWorker

variable {τ : Type} [CallTable τ] {self : AdWorker} {events : List AdEvent} {s s' : AdState τ}

/-- When the task has ended, calls for the path are not accepted any more. -/
theorem not_accepts_of_work (h : self.work events s = some (.ok true, s')) :
    ¬Accepts s'.callPaths self.basePath := by
  induction events generalizing s with
  | nil =>
      obtain ⟨hres, -⟩ := Prod.mk.inj (Option.some.inj h)
      exact absurd (Except.ok.inj hres) Bool.false_ne_true
  | cons event events ih =>
      cases event with
      | call c =>
          obtain ⟨answered, t, -, h⟩ := Fallible.bind_eq_ok h
          cases answered with
          | true => exact ih h
          | false =>
              obtain ⟨-, rfl⟩ := Prod.mk.inj (Option.some.inj h)
              exact CallTable.not_accepts_insert _ _ (by decide)
      | alive => exact ih h
      | release reply =>
          obtain ⟨_, t, -, h⟩ := Fallible.bind_eq_ok h
          obtain ⟨-, rfl⟩ := Prod.mk.inj (Option.some.inj h)
          exact CallTable.not_accepts_insert _ _ (by decide)
      | dropped =>
          obtain ⟨hres, -⟩ := Prod.mk.inj (Option.some.inj h)
          contradiction

/-- The task ends when it is told to and BlueZ has let go of the advertisement. -/
theorem release_ok (self : AdWorker) (s : AdState τ) :
    self.release [.release (.ok ())] s = some (.ok (some s.self),
      { s with callPaths := CallTable.insert s.callPaths self.basePath .nothing }) := rfl

/-- **An advertisement that has been released is not called any more.** -/
theorem not_accepts_release {ad : Advertisement}
    (h : self.release events s = some (.ok (some ad), s')) :
    ¬Accepts s'.callPaths self.basePath := by
  obtain ⟨ended, t, hwork, h⟩ := Fallible.bind_eq_ok h
  cases ended with
  | false =>
      obtain ⟨hres, -⟩ := Prod.mk.inj (Option.some.inj h)
      exact absurd (Except.ok.inj hres) (Option.some_ne_none ad).symm
  | true =>
      obtain ⟨-, rfl⟩ := Prod.mk.inj (Option.some.inj h)
      exact not_accepts_of_work hwork

end AdWorker

end Rustable
