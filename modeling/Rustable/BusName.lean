import Rustable.Advertising
import Rustable.Gatt.Server.Application
import Rustable.Lib.Lts

/-!
# Bus names

An application and an advertisement may take a name on the bus.  `Application::set_dbus_name`
and `Advertisement::set_dest` are the same code: the name there is, if any, is to be given back with
`ReleaseName`, the new one is asked for with `RequestName`, and `dest` records which name the
connection has.

But the object of `ReleaseName` is misspelled, and `/org/freedesktop.DBus` is no object path, so
that the connection does not send the call.  The first name that is granted is never given back,
and no other one is asked for after it (`setName_keeps`).

The record is true after every call as long as no `RequestName` is answered by an error
(`setName_records_iff`).  The flag of the reply is unwrapped, so that an error is a panic.
-/

namespace Rustable

open DBus

/-! ## The bus -/

/-- A call of a method of the bus.  The object is not checked when the message is built, but when
it is sent. -/
structure BusCall where
  member : String
  destination : String
  object : String
  interface : String
  body : Body

/-- The connection sends the call. -/
def BusCall.Sendable (call : BusCall) : Prop := (ObjectPath.tryFrom call.object.toList).isSome

instance (call : BusCall) : Decidable call.Sendable := inferInstanceAs (Decidable (_ = true))

/-- The call of `ReleaseName`, as the two methods build it. -/
def releaseName (name : String) : BusCall where
  member := "ReleaseName"
  destination := "org.freedesktop.DBus"
  object := "/org/freedesktop.DBus"
  interface := "org.freedesktop.Dbus"
  body := [⟨sig String, .base name⟩]

/-- `standard_messages::request_name` -/
def requestName (name : String) (flags : UInt32) : BusCall where
  member := "RequestName"
  destination := "org.freedesktop.DBus"
  object := "/org/freedesktop/DBus"
  interface := "org.freedesktop.DBus"
  body := [⟨sig String, .base name⟩, ⟨sig UInt32, .base flags.toBitVec⟩]

/-- What comes back on a call: a message, or the error of the connection. -/
abbrev Answer := Except IoError MarshalledMessage

namespace Answer

/-- The answer is a reply. -/
def Replied (answer : Answer) : Prop := ∃ res, answer = .ok res ∧ res.typ = .reply

/-- The answer is an error. -/
def Refused (answer : Answer) : Prop := ∃ res, answer = .ok res ∧ res.typ = .error

/-- The answer to `RequestName` says that the connection owns the name: it has become the owner
(1), or was it already (4). -/
def Granted (answer : Answer) : Prop :=
  ∃ res, answer = .ok res ∧ res.typ = .reply ∧
    (res.body.get UInt32 = .ok 1 ∨ res.body.get UInt32 = .ok 4)

end Answer

/-- A call and the answer to it. -/
structure Exchange where
  call : BusCall
  answer : Answer

/-- The bus, as the owner of a connection sees it: how it answers a call depends on everything
that came before.  `RequestName` is answered by one of the four codes or an error, unless the
connection fails. -/
structure NameBus where
  answer : List Exchange → BusCall → Answer
  request : ∀ log name res, answer log (requestName name 4) = .ok res →
    (res.typ = .reply ∧ ∃ code ∈ [1, 2, 3, 4], res.body.get UInt32 = .ok code) ∨ res.typ = .error

/-- The connection owns the name: the last `RequestName` was for it and was granted, and it has
not been released since. -/
def Owns (log : List Exchange) (name : String) : Prop :=
  ∃ earlier answer since, log = earlier ++ ⟨requestName name 4, answer⟩ :: since ∧
    answer.Granted ∧ ∀ x ∈ since, (∀ name' flags, x.call ≠ requestName name' flags) ∧
      (x.call = releaseName name → ¬x.answer.Replied)

/-! ## The code -/

/-- An object and what it has exchanged with the bus. -/
structure Session (σ : Type) where
  self : σ
  log : List Exchange := []

/-- A call has been sent, and answered. -/
def Session.sent {σ : Type} (s : Session σ) (bus : NameBus) (call : BusCall) : Session σ :=
  { s with log := s.log ++ [⟨call, bus.answer s.log call⟩] }

/-- A method that talks to the bus. -/
abbrev OnBus (σ α : Type) := Fallible (Session σ) α

/-- An object with a name on the bus. -/
class Named (σ : Type) where
  /-- The field `dest`. -/
  dest : σ → Option String
  /-- Assign to it. -/
  setDest : Option String → σ → σ
  /-- What is assigned is there. -/
  dest_setDest : ∀ d self, dest (setDest d self) = d

export Named (dest setDest dest_setDest)

namespace OnBus

variable {σ : Type}

/-- Change the object. -/
def modifySelf (f : σ → σ) : OnBus σ Unit :=
  fun s ↦ some (.ok (), { s with self := f s.self })

/-- `self.conn.send_msg_w_rsp(&call).await?.await?` -/
def sendMsgWRsp (bus : NameBus) (call : BusCall) : OnBus σ MarshalledMessage :=
  fun s ↦ if call.Sendable then some ((bus.answer s.log call).mapError .io, s.sent bus call)
    else some (.error (.io .other), s)

end OnBus

section SetName

variable {σ : Type} [Named σ]

/-- Give back the name there is. -/
def releaseOld (bus : NameBus) : OnBus σ Unit := do
  if let some old := dest (← get).self then
    let res ← OnBus.sendMsgWRsp bus (releaseName old)
    Fallible.ofMayFail (isMsgErrEmpty res)
    OnBus.modifySelf (setDest none)

/-- Ask for the new name. -/
def requestNew (bus : NameBus) (new : Option String) : OnBus σ Unit := do
  if let some name := new then
    let res ← OnBus.sendMsgWRsp bus (requestName name 4)
    let flag ← Fallible.unwrapOk (isMsgErr UInt32 res)
    if flag = 2 ∨ flag = 3 then throw (.dbus "Name taken!")
    OnBus.modifySelf (setDest (some name))

/-- What `set_dbus_name` and `set_dest` have in common, which is all of it. -/
def setName (bus : NameBus) (new : Option String) : OnBus σ Unit := do
  if dest (← get).self = new then return
  releaseOld bus
  requestNew bus new

end SetName

instance : Named Gatt.Server.Application where
  dest self := self.dest
  setDest d self := { self with dest := d }
  dest_setDest _ _ := rfl

instance : Named Advertisement where
  dest self := self.dest
  setDest d self := { self with dest := d }
  dest_setDest _ _ := rfl

/-- `Application::set_dbus_name` -/
def Gatt.Server.Application.setDbusName : NameBus → Option String → OnBus Application Unit :=
  setName

/-- `Advertisement::set_dest` -/
def Advertisement.setDest : NameBus → Option String → OnBus Advertisement Unit := setName

/-! ## What the log tells -/

theorem requestName_injective {m n : String} {f g : UInt32}
    (h : requestName m f = requestName n g) : m = n :=
  Except.ok.inj (congrArg (fun call ↦ call.body.get String) h)

section Owns

variable {log : List Exchange} {x : Exchange} {m n : String} {answer : Answer}

theorem not_owns_nil : ¬Owns [] n := by
  rintro ⟨earlier, answer, since, hlog, -⟩
  exact List.append_ne_nil_of_right_ne_nil _ (List.cons_ne_nil _ _) hlog.symm

/-- What one more exchange makes of the name owned. -/
theorem owns_concat_iff : Owns (log ++ [x]) n ↔
    (x.call = requestName n 4 ∧ x.answer.Granted) ∨
      Owns log n ∧ (∀ m flags, x.call ≠ requestName m flags) ∧
        (x.call = releaseName n → ¬x.answer.Replied) := by
  constructor
  · rintro ⟨earlier, answer, since, hlog, hgranted, hsince⟩
    rcases List.eq_nil_or_concat since with rfl | ⟨since, y, rfl⟩
    · obtain ⟨-, rfl⟩ := List.append_inj' hlog rfl |>.imp_right List.singleton_inj.mp
      exact .inl ⟨rfl, hgranted⟩
    · rw [List.concat_eq_append] at hlog hsince
      rw [← List.cons_append, ← List.append_assoc] at hlog
      obtain ⟨rfl, hx⟩ := List.append_inj' hlog rfl
      obtain rfl := List.singleton_inj.mp hx
      refine .inr ⟨⟨earlier, answer, since, rfl, hgranted, fun y hy ↦ hsince y ?_⟩, hsince x ?_⟩
      · exact List.mem_append_left _ hy
      · exact List.mem_append_right _ (List.mem_singleton_self x)
  · rintro (⟨hcall, hgranted⟩ | ⟨⟨earlier, answer, since, rfl, hgranted, hsince⟩, hx⟩)
    · refine ⟨log, x.answer, [], ?_, hgranted, fun _ h ↦ nomatch h⟩
      rw [← hcall]
    · refine ⟨earlier, answer, since ++ [x], ?_, hgranted, ?_⟩
      · rw [List.append_assoc, List.cons_append]
      · exact List.forall_mem_append.mpr ⟨hsince, List.forall_mem_singleton.mpr hx⟩

/-- A `RequestName` decides which name is owned. -/
theorem owns_request_iff :
    Owns (log ++ [⟨requestName m 4, answer⟩]) n ↔ m = n ∧ answer.Granted := by
  rw [owns_concat_iff]
  constructor
  · rintro (⟨hcall, hgranted⟩ | ⟨-, hcall, -⟩)
    · exact ⟨requestName_injective hcall, hgranted⟩
    · exact absurd rfl (hcall m 4)
  · rintro ⟨rfl, hgranted⟩
    exact .inl ⟨rfl, hgranted⟩

end Owns

/-! ## One call -/

/-- `ReleaseName` is never sent. -/
theorem not_sendable_releaseName (name : String) : ¬(releaseName name).Sendable :=
  (by decide : ¬(ObjectPath.tryFrom "/org/freedesktop.DBus".toList).isSome)

theorem sendable_requestName (name : String) (flags : UInt32) :
    (requestName name flags).Sendable :=
  (by decide : (ObjectPath.tryFrom "/org/freedesktop/DBus".toList).isSome)

section Step

variable {σ : Type} [Named σ] {bus : NameBus} {s : Session σ} {old name : String}

omit [Named σ] in
/-- A call that is answered goes on with the answer. -/
theorem OnBus.send_ok {α : Type} {call : BusCall} {res : MarshalledMessage}
    (hcall : call.Sendable) (h : bus.answer s.log call = .ok res)
    (f : MarshalledMessage → OnBus σ α) :
    (sendMsgWRsp bus call >>= f) s = f res (s.sent bus call) := by
  refine Fallible.bind_ok ?_ f
  rw [sendMsgWRsp, if_pos hcall, h]
  rfl

omit [Named σ] in
/-- If the connection fails, so does the call. -/
theorem OnBus.send_error {α : Type} {call : BusCall} {e : IoError} (hcall : call.Sendable)
    (h : bus.answer s.log call = .error e) (f : MarshalledMessage → OnBus σ α) :
    (sendMsgWRsp bus call >>= f) s = some (.error (.io e), s.sent bus call) := by
  refine Fallible.bind_error ?_ f
  rw [sendMsgWRsp, if_pos hcall, h]
  rfl

theorem releaseOld_none (h : dest s.self = none) : releaseOld bus s = some (.ok (), s) := by
  change (match dest s.self with | some old => _ | _ => _ : OnBus σ Unit) s = _
  rw [h]
  rfl

/-- A name that is recorded cannot be given back. -/
theorem releaseOld_some (h : dest s.self = some old) :
    releaseOld bus s = some (.error (.io .other), s) := by
  change (match dest s.self with | some old => _ | _ => _ : OnBus σ Unit) s = _
  rw [h]
  refine Fallible.bind_error ?_ _
  rw [OnBus.sendMsgWRsp, if_neg (not_sendable_releaseName old)]

/-- If the request is granted, the name is recorded. -/
theorem requestNew_granted (hanswer : (bus.answer s.log (requestName name 4)).Granted) :
    requestNew bus (some name) s = some (.ok (),
      { s.sent bus (requestName name 4) with self := setDest (some name) s.self }) := by
  obtain ⟨res, hres, hty, hcode⟩ := hanswer
  change (OnBus.sendMsgWRsp bus (requestName name 4) >>= _) s = _
  rw [OnBus.send_ok (sendable_requestName name 4) hres, isMsgErr, readReply, hty]
  rcases hcode with hcode | hcode <;> rw [hcode] <;> rfl

/-- If it is replied to otherwise, or the connection fails, nothing is recorded. -/
theorem requestNew_failed (hgranted : ¬(bus.answer s.log (requestName name 4)).Granted)
    (hrefused : ¬(bus.answer s.log (requestName name 4)).Refused) :
    ∃ e, requestNew bus (some name) s = some (.error e, s.sent bus (requestName name 4)) := by
  change ∃ e, (OnBus.sendMsgWRsp bus (requestName name 4) >>= _) s = _
  cases hres : bus.answer s.log (requestName name 4) with
  | error e => exact ⟨_, OnBus.send_error (sendable_requestName name 4) hres _⟩
  | ok res =>
      obtain ⟨hty, code, hcode, hbody⟩ :=
        (bus.request s.log name res hres).resolve_right fun hty ↦ hrefused ⟨res, hres, hty⟩
      rw [OnBus.send_ok (sendable_requestName name 4) hres, isMsgErr, readReply, hty, hbody]
      have htaken : code = 2 ∨ code = 3 := by
        have hno : code ≠ 1 ∧ code ≠ 4 := by
          constructor
          · rintro rfl
            exact hgranted ⟨res, hres, hty, .inl hbody⟩
          · rintro rfl
            exact hgranted ⟨res, hres, hty, .inr hbody⟩
        simp only [List.mem_cons, List.not_mem_nil, or_false] at hcode
        tauto
      refine ⟨.dbus "Name taken!", ?_⟩
      rcases htaken with rfl | rfl <;> rfl

/-- If it is answered by an error, the method panics. -/
theorem requestNew_refused (hanswer : (bus.answer s.log (requestName name 4)).Refused) :
    requestNew bus (some name) s = none := by
  obtain ⟨res, hres, hty⟩ := hanswer
  change (OnBus.sendMsgWRsp bus (requestName name 4) >>= _) s = _
  obtain ⟨e, he⟩ := readReply_error (fun body ↦ (body.get UInt32).mapError unmarshalFailed) hty
  rw [OnBus.send_ok (sendable_requestName name 4) hres, isMsgErr, he]
  rfl

theorem setName_same {new : Option String} (h : dest s.self = new) :
    setName bus new s = some (.ok (), s) := by
  change (if dest s.self = new then _ else _ : OnBus σ Unit) s = _
  rw [if_pos h]
  rfl

theorem setName_ne {new : Option String} (h : dest s.self ≠ new) :
    setName bus new s = (releaseOld bus >>= fun _ ↦ requestNew bus new) s := by
  change (if dest s.self = new then _ else _ : OnBus σ Unit) s = _
  rw [if_neg h]

/-- **A recorded name is kept**: a call that asks for another one, or for none, fails, and nothing is
sent. -/
theorem setName_kept {new : Option String} (h : dest s.self = some old)
    (hne : dest s.self ≠ new) : setName bus new s = some (.error (.io .other), s) := by
  rw [setName_ne hne, Fallible.bind_error (releaseOld_some h)]

/-- Without one, the name is asked for. -/
theorem setName_asks {new : Option String} (h : dest s.self = none) (hne : dest s.self ≠ new) :
    setName bus new s = requestNew bus new s := by
  rw [setName_ne hne, Fallible.bind_ok (releaseOld_none h)]

end Step

/-! ## What a call does to the record -/

section Record

variable {σ : Type} [Named σ]

/-- The recorded name is the one owned. -/
def Session.Accurate (s : Session σ) : Prop := ∀ name, dest s.self = some name ↔ Owns s.log name

/-- The call asks for a name, and is answered by an error. -/
def Refuses (bus : NameBus) (s : Session σ) (new : Option String) : Prop :=
  dest s.self = none ∧
    ∃ name, new = some name ∧ (bus.answer s.log (requestName name 4)).Refused

/-- What a call should do, when it leads from `s` to `t`: the record is true afterwards, and if
the old name has not been released, the call fails, the record is as it was and no name has been
asked for. -/
structure Recorded (call : Option String → OnBus σ Unit) (s : Session σ) (new : Option String)
    (t : Session σ) : Prop where
  accurate : t.Accurate
  failed : ∀ old sent, dest s.self = some old → dest s.self ≠ new → t.log = s.log ++ sent →
    (∀ x ∈ sent, x.call = releaseName old → ¬x.answer.Replied) →
      (∃ e, call new s = some (.error e, t)) ∧ dest t.self = some old ∧
        ∀ x ∈ sent, ∀ name flags, x.call ≠ requestName name flags

/-- The state after a call that returns, with `Ok` or with `Err`. -/
def nextSession (call : Option String → OnBus σ Unit) (s : Session σ) (new : Option String) :
    Option (Session σ) := (call new s).map Prod.snd

variable {bus : NameBus} {s t : Session σ} {old name : String} {new : Option String}

namespace Session.Accurate

/-- A name that was granted is owned. -/
theorem granted (hanswer : (bus.answer s.log (requestName name 4)).Granted) :
    Accurate { s.sent bus (requestName name 4) with self := setDest (some name) s.self } := by
  intro name'
  rw [dest_setDest, Option.some_inj]
  exact (and_iff_left hanswer).symm.trans owns_request_iff.symm

/-- After a request that was not granted no name is owned. -/
theorem notGranted (hdest : dest s.self = none)
    (hanswer : ¬(bus.answer s.log (requestName name 4)).Granted) :
    (s.sent bus (requestName name 4)).Accurate := by
  intro name'
  refine iff_of_false (fun h ↦ ?_) fun howns ↦ hanswer (owns_request_iff.mp howns).2
  exact Option.some_ne_none name' (h.symm.trans hdest)

end Session.Accurate

/-- Asking for a new name keeps the record true, unless it panics. -/
theorem requestNew_accurate (h : s.Accurate) (hdest : dest s.self = none)
    (hrefused : ∀ name, new = some name → ¬(bus.answer s.log (requestName name 4)).Refused) :
    ∃ r t, requestNew bus new s = some (r, t) ∧ t.Accurate := by
  cases new with
  | none => exact ⟨_, s, rfl, h⟩
  | some name =>
      by_cases hanswer : (bus.answer s.log (requestName name 4)).Granted
      · exact ⟨_, _, requestNew_granted hanswer, .granted hanswer⟩
      · obtain ⟨e, he⟩ := requestNew_failed hanswer (hrefused name rfl)
        exact ⟨_, _, he, .notGranted hdest hanswer⟩

/-- **One call**: it returns, and does what it should, if it does not ask for a name in vain. -/
theorem setName_recorded (h : s.Accurate) (hrefuses : ¬Refuses bus s new) :
    ∃ t, nextSession (setName bus) s new = some t ∧ Recorded (setName bus) s new t := by
  by_cases hsame : dest s.self = new
  · exact ⟨s, congrArg _ (setName_same hsame), h, fun _ _ _ hne ↦ absurd hsame hne⟩
  cases hdest : dest s.self with
  | none =>
      have hrefused : ∀ name, new = some name → ¬(bus.answer s.log (requestName name 4)).Refused :=
        fun name hnew hno ↦ hrefuses ⟨hdest, name, hnew, hno⟩
      obtain ⟨r, t, ht, hacc⟩ := requestNew_accurate h hdest hrefused
      refine ⟨t, congrArg _ ((setName_asks hdest hsame).trans ht), hacc, fun old _ hold ↦ ?_⟩
      exact absurd (hold.symm.trans hdest) (Option.some_ne_none old)
  | some old =>
      have hrun : setName bus new s = some (.error (.io .other), s) := setName_kept hdest hsame
      refine ⟨s, congrArg _ hrun, h, fun old' sent hold _ hlog _ ↦ ⟨⟨_, hrun⟩, hold, ?_⟩⟩
      obtain rfl : sent = [] := List.self_eq_append_right.mp hlog
      exact fun _ hx ↦ absurd hx List.not_mem_nil

/-- If it does, it panics. -/
theorem setName_panics (hrefuses : Refuses bus s new) : setName bus new s = none := by
  obtain ⟨hdest, name, rfl, hno⟩ := hrefuses
  have hne : dest s.self ≠ some name := hdest ▸ (Option.some_ne_none name).symm
  rw [setName_asks hdest hne, requestNew_refused hno]

/-! ## A sequence of calls -/

/-- **The record is true after every call of a sequence, and none of them panics, if and only if
no `RequestName` is answered by an error.** -/
theorem setName_records_iff (h : s.Accurate) (news : List (Option String)) :
    Lts.Accepted (nextSession (setName bus)) (Recorded (setName bus)) s news ↔
      Lts.Meets (nextSession (setName bus)) (fun s new ↦ ¬Refuses bus s new) s news := by
  have hpanics {s : Session σ} {new : Option String} (hrefuses : Refuses bus s new) :
      nextSession (setName bus) s new = none := congrArg _ (setName_panics hrefuses)
  refine Lts.accepted_iff_meets ?_ ?_ h
  · intro s new t hs ht
    by_cases hrefuses : Refuses bus s new
    · exact absurd (ht.symm.trans (hpanics hrefuses)) (Option.some_ne_none t)
    · obtain ⟨u, hu, hrecorded⟩ := setName_recorded hs hrefuses
      obtain rfl := Option.some.inj (ht.symm.trans hu)
      exact hrecorded.accurate
  · refine fun s new hs ↦ ⟨?_, setName_recorded hs⟩
    rintro ⟨t, ht, -⟩ hrefuses
    exact Option.some_ne_none t (ht.symm.trans (hpanics hrefuses))

/-- **A name that is recorded stays so**: the calls that follow change nothing and send nothing. -/
theorem setName_keeps (h : dest s.self = some name) (news : List (Option String)) :
    Lts.replay (nextSession (setName bus)) s news = some s := by
  induction news with
  | nil => rfl
  | cons new news ih =>
      have hnext : nextSession (setName bus) s new = some s := by
        by_cases hsame : dest s.self = new
        · exact congrArg _ (setName_same hsame)
        · exact congrArg _ (setName_kept h hsame)
      rw [Lts.replay, hnext]
      exact ih

end Record

/-- An object that has not asked for a name yet owns none. -/
theorem Session.Accurate.new {σ : Type} [Named σ] {self : σ} (h : dest self = none) :
    Accurate { self := self } :=
  fun name ↦ iff_of_false (fun hsome ↦ Option.some_ne_none name (hsome.symm.trans h)) not_owns_nil

open Gatt.Server (Application)

/-- **The names of applications and advertisements.** -/
theorem busNames_recorded_iff (bus : NameBus) (news : List (Option String)) :
    (∀ app : Application,
      Lts.Accepted (nextSession (Application.setDbusName bus))
          (Recorded (Application.setDbusName bus)) { self := { app with dest := none } } news ↔
        Lts.Meets (nextSession (Application.setDbusName bus)) (fun s new ↦ ¬Refuses bus s new)
          { self := { app with dest := none } } news) ∧
    ∀ ad : Advertisement,
      Lts.Accepted (nextSession (Advertisement.setDest bus))
          (Recorded (Advertisement.setDest bus)) { self := { ad with dest := none } } news ↔
        Lts.Meets (nextSession (Advertisement.setDest bus)) (fun s new ↦ ¬Refuses bus s new)
          { self := { ad with dest := none } } news :=
  ⟨fun _ ↦ setName_records_iff (.new rfl) news,
    fun _ ↦ setName_records_iff (.new rfl) news⟩

/-- A bus that gives nobody a name. -/
def NameBus.refusing : NameBus where
  answer _ _ := .ok { typ := .error, dynheader := {}, body := [⟨sig String, .base "AccessDenied"⟩] }
  request _ _ res h := by
    obtain rfl := Except.ok.inj h
    exact .inr rfl

/-- The first name that is asked for is refused, and the method panics. -/
theorem refused_panics : ¬∀ (bus : NameBus) (news : List (Option String)) (app : Application),
    Lts.Accepted (nextSession (Application.setDbusName bus))
      (Recorded (Application.setDbusName bus)) { self := { app with dest := none } } news := by
  intro hall
  obtain ⟨t, ht, -⟩ := hall .refusing [some "org.example.Thermometer"]
    { hci := .root, basePath := .root }
  have hrefuses : Refuses .refusing
      ({ self := { hci := .root, basePath := .root, dest := none } } : Session Application)
      (some "org.example.Thermometer") :=
    ⟨rfl, _, rfl, _, rfl, rfl⟩
  have hnone := congrArg (Option.map Prod.snd) (setName_panics hrefuses)
  exact Option.some_ne_none t (ht.symm.trans hnone)

end Rustable
