import Rustable.Advertising.Registering
import Rustable.Granting

/-!
# The life of an advertisement

From `register` to `release` an advertisement answers the calls that arrive, each of them once and
in their order.  What it answers depends on the call and on the advertisement that was registered,
and on nothing that was called before: no call changes the advertisement, and BlueZ reads the same
properties whenever it asks.

It lives until it is released, and is given back then as it was registered.  But it also ends when
the connection fails, when the `AdWorker` is dropped, or with a call that it refuses, since none of
its refusals can be sent; then it is not given back, and its path goes on accepting calls.  A call
without an interface makes it panic.  `lifetime` says that there is no other way.
-/

namespace Rustable

open DBus
open DBus.CallTable (Accepts)

namespace Advertisement

variable {path : ObjectPath}

/-! ## One call -/

/-- The call of `Release`. -/
def IsRelease (call : MethodCall path) : Prop :=
  call.interface = some bluezAdvIf ∧ call.member = "Release"

/-- The advertisement has a reply to the call that can be sent: it is asked for what it has, or
introspected. -/
def Grants (call : MethodCall path) : Prop :=
  (call.interface = some propsIf ∧
      Properties.Grants Advertisement (fun _ _ _ ↦ False) call) ∨
    call.interface = some introIf

/-- `m` is a reply of the advertisement to a call that it grants. -/
structure Replies (ad : Advertisement) (call : MethodCall path) (m : MarshalledMessage) : Prop where
  answers : Answers m call.toMessage.dynheader
  grants : Grants call
  getAll : call.interface = some propsIf → call.member = "GetAll" →
    m.typ = .reply ∧ ∃ w, marshal ad.propMap = some w ∧ m.body = [⟨sig PropMap, w⟩]
  get : call.interface = some propsIf → call.member = "Get" → ∃ prop ∈ props,
    call.body.get2 String String = .ok (bluezAdvIf, prop) ∧
    m.typ = .reply ∧ ∃ w, marshal (ad.property prop) = some w ∧ m.body = [⟨.variant, w⟩]

/-- What becomes of a call. -/
inductive Handled (ad : Advertisement) (call : MethodCall path) :
    Option (Option MarshalledMessage × Advertisement) → Prop
  | /-- It is a panic. -/
    panicked (h : call.interface = none) : Handled ad call none
  | /-- It is the call to end. -/
    released (h : IsRelease call) : Handled ad call (some (none, ad))
  | /-- It is answered. -/
    answered (m : MarshalledMessage) (hif : call.interface.isSome) (hrelease : ¬IsRelease call)
      (hm : Replies ad call m) (hsend : m.isSendable = true) : Handled ad call (some (some m, ad))
  | /-- It is refused, with a reply that cannot be sent. -/
    refused (m : MarshalledMessage) (hif : call.interface.isSome) (hrelease : ¬IsRelease call)
      (hgrants : ¬Grants call) (hsend : m.isSendable = false) : Handled ad call (some (some m, ad))

/-- No property can be set. -/
theorem settable (path : ObjectPath) (I : Advertisement → Prop) : Properties.Settable path I :=
  fun _ _ _ s hs ↦ ⟨_, s, rfl, hs⟩

/-- Any property can be sent. -/
theorem property_ne_catchall (ad : Advertisement) (prop : String) (sig : Sig) :
    ad.property prop ≠ .catchall sig := by
  unfold property
  split
  · exact nofun
  split
  · exact nofun
  split
  · exact nofun
  split
  · exact nofun
  · exact nofun

theorem getInner_eq {prop : String} (hprop : prop ∈ props) (ad : Advertisement) :
    getInner path bluezAdvIf prop ad = some (.ok (ad.property prop), ad) := by
  simp only [props, List.mem_cons, List.not_mem_nil, or_false] at hprop
  rcases hprop with rfl | rfl | rfl | rfl | rfl <;> rfl

/-- `GetAll` is answered with all properties. -/
theorem getAll_eq {call : MethodCall path} (hbody : call.body.get String = .ok bluezAdvIf)
    (ad : Advertisement) : ∃ w, marshal ad.propMap = some w ∧
      Properties.getAll call.toMessage ad = some
        ({ call.toMessage.dynheader.makeResponse with body := [⟨sig PropMap, w⟩] }, ad) := by
  obtain ⟨r, t, hget, -, hr⟩ :=
    Properties.getAllInner_spec (readable path (· = ad)) bluezAdvIf (s := ad) rfl
  obtain ⟨hres, rfl⟩ := Prod.mk.inj (Option.some.inj ((getAllInner_eq path ad).symm.trans hget))
  subst hres
  obtain ⟨m, hm, hsend, -⟩ := hr.resolve_left fun hno ↦ nomatch hno.2
  obtain rfl := Except.ok.inj hm
  obtain ⟨w, hw⟩ := Option.isSome_iff_exists.mp (marshal_map_isSome hsend)
  refine ⟨w, hw, ?_⟩
  have hpath : (MayPanic.unwrap call.toMessage.dynheader.object :
      MayPanic Advertisement ObjectPath) ad = some (path, ad) := rfl
  have hbody' : call.toMessage.body.get String = .ok bluezAdvIf := hbody
  simp only [Properties.getAll, hbody', MayPanic.bind_some hpath, MayPanic.bind_some hget,
    Body.pushParam_eq hw]
  rfl

/-- The properties of the table. -/
theorem mem_listed {interface prop : String}
    (h : prop ∈ Properties.listed Advertisement interface) :
    interface = bluezAdvIf ∧ prop ∈ props := by
  by_cases hi : interface = bluezAdvIf
  · subst hi
    exact ⟨rfl, h⟩
  · have hnone : Properties.listed Advertisement interface = [] := by
      change (([(bluezAdvIf, props)].find? fun i ↦ interface = i.1).map (·.2)).getD [] = []
      rw [List.find?_cons_of_neg (by simpa using hi)]
      rfl
    rw [hnone] at h
    contradiction

/-- **A property call is answered**, and changes nothing.  The reply can be sent if it is what has
been asked for. -/
theorem propertiesCall_replies {call : MethodCall path} (hif : call.interface = some propsIf)
    (ad : Advertisement) :
    ∃ m, Properties.propertiesCall call.toMessage ad = some (m, ad) ∧
      (m.isSendable = true ↔ Grants call) ∧ (Grants call → Replies ad call m) := by
  obtain ⟨m, t, hrun, rfl, hanswers⟩ := Properties.propertiesCall_answers
    (readable path (· = ad)) (settable path (· = ad)) call rfl
  have hgrants : Grants call ↔ Properties.Grants Advertisement (fun _ _ _ ↦ False) call := by
    have hintro : call.interface ≠ some introIf := by
      rw [hif]
      decide
    exact (or_iff_left hintro).trans (and_iff_right hif)
  have hsend : m.isSendable = true ↔ Properties.Grants Advertisement (fun _ _ _ ↦ False) call :=
    Properties.sendable_propertiesCall (readable path fun _ ↦ True) (exact path)
      (fun _ _ _ _ h ↦ h.elim) (fun _ _ _ _ ↦ .inr ⟨_, rfl⟩) hrun
  refine ⟨m, hrun, hsend.trans hgrants.symm, fun hcall ↦ ⟨hanswers, hcall, fun _ hmember ↦ ?_,
    fun _ hmember ↦ ?_⟩⟩
  · rw [hgrants, Properties.Grants, hmember] at hcall
    obtain ⟨interface, hbody, i, hi, rfl⟩ := hcall
    obtain rfl := List.mem_singleton.mp hi
    obtain ⟨w, hw, hgetAll⟩ := getAll_eq hbody t
    rw [Properties.propertiesCall_eq call.member rfl, hmember] at hrun
    obtain ⟨rfl, -⟩ := Prod.mk.inj (Option.some.inj (hgetAll.symm.trans hrun))
    exact ⟨rfl, w, hw, rfl⟩
  · rw [hgrants, Properties.Grants, hmember] at hcall
    obtain ⟨interface, prop, hbody, hlisted⟩ := hcall
    obtain ⟨rfl, hprop⟩ := mem_listed hlisted
    obtain ⟨w, hw⟩ := Option.isSome_iff_exists.mp
      (BluezOptions.marshal_isSome (property_ne_catchall t prop))
    have hreads : Properties.Reads path (· = t) bluezAdvIf prop (t.property prop) := by
      rintro s r s' rfl hget
      exact (congrArg Prod.fst (Option.some.inj ((getInner_eq hprop s).symm.trans hget))).symm
    obtain ⟨u, hget, -⟩ := Properties.get_of_reads call.toMessage (readable path (· = t)) hreads hw
      rfl hbody rfl
    rw [Properties.propertiesCall_eq call.member rfl, hmember] at hrun
    obtain ⟨rfl, -⟩ := Prod.mk.inj (Option.some.inj (hget.symm.trans hrun))
    exact ⟨prop, hprop, hbody, rfl, w, hw, rfl⟩

/-- **What becomes of a call.** -/
theorem handled_handleCall (ad : Advertisement) (call : MethodCall path) :
    Handled ad call (handleCall call.toMessage ad) := by
  have hinterface : call.toMessage.dynheader.interface = call.interface := rfl
  rw [handleCall, hinterface]
  cases hif : call.interface with
  | none => exact .panicked hif
  | some interface =>
      have hsome : call.interface.isSome := Option.isSome_of_eq_some hif
      rw [MayPanic.unwrap_some_bind]
      by_cases hprops : interface = propsIf
      · subst hprops
        rw [if_pos rfl]
        obtain ⟨m, hrun, hsend, hm⟩ := propertiesCall_replies hif ad
        rw [MayPanic.bind_some hrun]
        have hrelease : ¬IsRelease call := fun h ↦ absurd (hif.symm.trans h.1) (by decide)
        by_cases hgrants : Grants call
        · exact .answered m hsome hrelease (hm hgrants) (hsend.mpr hgrants)
        · exact .refused m hsome hrelease hgrants (Bool.eq_false_iff.mpr (mt hsend.mp hgrants))
      rw [if_neg hprops]
      by_cases hintro : interface = introIf
      · subst hintro
        rw [if_pos rfl]
        have hrelease : ¬IsRelease call := fun h ↦ absurd (hif.symm.trans h.1) (by decide)
        refine .answered _ hsome hrelease
          ⟨(answers_makeResponse _).withBody _, .inr hif, ?_, ?_⟩ rfl
        · exact fun h ↦ absurd (hif.symm.trans h) (by decide)
        · exact fun h ↦ absurd (hif.symm.trans h) (by decide)
      rw [if_neg hintro]
      have hno : ¬Grants call := by
        rintro (⟨h, -⟩ | h)
        · exact hprops (Option.some.inj (hif.symm.trans h))
        · exact hintro (Option.some.inj (hif.symm.trans h))
      by_cases hadv : interface = bluezAdvIf
      · subst hadv
        have hmember : (MayPanic.unwrap call.toMessage.dynheader.member :
            MayPanic Advertisement String) ad = some (call.member, ad) := rfl
        rw [if_pos rfl, MayPanic.bind_some hmember]
        by_cases hrelease : call.member = "Release"
        · rw [if_pos hrelease]
          exact .released ⟨hif, hrelease⟩
        · rw [if_neg hrelease]
          refine .refused _ hsome (fun h ↦ hrelease h.2) hno ?_
          rw [isSendable_makeErrorResponse]
          decide
      · rw [if_neg hadv]
        refine .refused _ hsome (fun h ↦ ?_) hno ?_
        · exact hadv (Option.some.inj (hif.symm.trans h.1))
        · rw [isSendable_makeErrorResponse]
          decide

end Advertisement

/-! ## What arrives -/

/-- What arrives is a call for the path. -/
def AdCall.Routed (path : ObjectPath) (c : AdCall) : Prop :=
  ∀ msg, c.call = .ok msg → ∃ call : MethodCall path, msg = call.toMessage

/-- The call that wakes the task. -/
def AdEvent.call? : AdEvent → Option AdCall
  | call c => some c
  | alive | release _ | dropped => none

/-- The task is told to end: the advertisement is released by BlueZ or by the program. -/
def AdEvent.Ends (path : ObjectPath) : AdEvent → Prop
  | call c => ∃ call : MethodCall path, c.call = .ok call.toMessage ∧ Advertisement.IsRelease call
  | release reply => reply = .ok ()
  | alive | dropped => False

/-- The task fails: no call can be received, a call is refused, its reply is not sent, BlueZ does not
let go of the advertisement, or the `AdWorker` has been dropped. -/
def AdEvent.Fails (path : ObjectPath) : AdEvent → Prop
  | call c => (∃ e, c.call = .error e) ∨ ∃ call : MethodCall path, c.call = .ok call.toMessage ∧
      call.interface.isSome ∧ ¬Advertisement.IsRelease call ∧
      (Advertisement.Grants call → ∃ e, c.sendReply = .error e)
  | release reply => ∃ e, reply = .error e
  | dropped => True
  | alive => False

/-- The task panics: a call has no interface. -/
def AdEvent.Panics (path : ObjectPath) : AdEvent → Prop
  | call c => ∃ call : MethodCall path, c.call = .ok call.toMessage ∧ call.interface = none
  | alive | release _ | dropped => False

namespace Advertisement

variable {path : ObjectPath} {τ : Type}

/-- There has been no event but calls and `Alive`, the calls have been answered one after the
other, and nothing else has been sent. -/
def Served (path : ObjectPath) (ad : Advertisement) (events : List AdEvent)
    (sent sent' : List MarshalledMessage) : Prop :=
  (∀ event ∈ events, event = .alive ∨ event.call?.isSome) ∧
    ∃ (calls : List (MethodCall path)) (replies : List MarshalledMessage), List.Forall₂
      (fun c call ↦ c.call = .ok call.toMessage) (events.filterMap AdEvent.call?) calls ∧
      List.Forall₂ (Replies ad) calls replies ∧ sent' = sent ++ replies

namespace Served

variable {ad : Advertisement} {events events' : List AdEvent}
  {sent sent' sent'' : List MarshalledMessage}

theorem nil (ad : Advertisement) (sent : List MarshalledMessage) : Served path ad [] sent sent :=
  ⟨fun _ h ↦ absurd h List.not_mem_nil, [], [], .nil, .nil, (List.append_nil sent).symm⟩

theorem append (h : Served path ad events sent sent') (h' : Served path ad events' sent' sent'') :
    Served path ad (events ++ events') sent sent'' := by
  obtain ⟨honly, calls, replies, hcalls, hreplies, rfl⟩ := h
  obtain ⟨honly', calls', replies', hcalls', hreplies', rfl⟩ := h'
  refine ⟨List.forall_mem_append.mpr ⟨honly, honly'⟩, calls ++ calls', replies ++ replies', ?_,
    List.rel_append hreplies hreplies', List.append_assoc ..⟩
  rw [List.filterMap_append]
  exact List.rel_append hcalls hcalls'

theorem alive (ad : Advertisement) (sent : List MarshalledMessage) :
    Served path ad [.alive] sent sent :=
  ⟨fun _ h ↦ .inl (List.mem_singleton.mp h), [], [], .nil, .nil, (List.append_nil sent).symm⟩

theorem call {c : AdCall} {call : MethodCall path} {m : MarshalledMessage}
    (hc : c.call = .ok call.toMessage) (hm : Replies ad call m) (sent : List MarshalledMessage) :
    Served path ad [.call c] sent (sent ++ [m]) :=
  ⟨fun _ h ↦ .inr (List.mem_singleton.mp h ▸ rfl), [call], [m], .cons hc .nil, .cons hm .nil, rfl⟩

end Served

/-- The events have been dealt with, which has changed neither the advertisement nor the table. -/
structure Dealt (path : ObjectPath) (events : List AdEvent) (s t : AdState τ) : Prop where
  served : Served path s.self events s.sent t.sent
  self : t.self = s.self
  callPaths : t.callPaths = s.callPaths

namespace Dealt

variable {events events' : List AdEvent} {s t u : AdState τ}

theorem nil (s : AdState τ) : Dealt path [] s s := ⟨.nil .., rfl, rfl⟩

theorem append (h : Dealt path events s t) (h' : Dealt path events' t u) :
    Dealt path (events ++ events') s u where
  served := h.served.append (h.self ▸ h'.served)
  self := h'.self.trans h.self
  callPaths := h'.callPaths.trans h.callPaths

theorem alive (s : AdState τ) : Dealt path [.alive] s s := ⟨.alive .., rfl, rfl⟩

end Dealt

/-! ## One event -/

/-- What becomes of a call that arrives. -/
inductive Answered (path : ObjectPath) (c : AdCall) (s : AdState τ) :
    Option (Except Error Bool × AdState τ) → Prop
  | panicked (h : (AdEvent.call c).Panics path) : Answered path c s none
  | failed (h : (AdEvent.call c).Fails path) (e : Error) : Answered path c s (some (.error e, s))
  | released (h : (AdEvent.call c).Ends path) : Answered path c s (some (.ok false, s))
  | dealt {t : AdState τ} (h : Dealt path [.call c] s t) : Answered path c s (some (.ok true, t))

/-- How the loop of `register` ends. -/
inductive Awaited (path : ObjectPath) (reply : Except Error Unit) (calls : List AdCall)
    (s : AdState τ) : Option (Except Error Unit × AdState τ) → Prop
  | /-- BlueZ replies when all calls have been dealt with. -/
    replied {t : AdState τ} (hdealt : Dealt path (calls.map .call) s t) :
      Awaited path reply calls s (some (reply, t))
  | /-- A call makes it fail. -/
    failed (before after : List AdCall) {c : AdCall} {t : AdState τ}
      (hcalls : calls = before ++ c :: after) (hdealt : Dealt path (before.map .call) s t)
      (h : (AdEvent.call c).Fails path ∨ (AdEvent.call c).Ends path) (e : Error) :
      Awaited path reply calls s (some (.error e, t))
  | /-- A call makes it panic. -/
    panicked (before after : List AdCall) {c : AdCall} (hcalls : calls = before ++ c :: after)
      (h : (AdEvent.call c).Panics path) : Awaited path reply calls s none

theorem Awaited.cons {reply : Except Error Unit} {c : AdCall} {calls : List AdCall}
    {s t : AdState τ} {r : Option (Except Error Unit × AdState τ)} (hc : Dealt path [.call c] s t)
    (h : Awaited path reply calls t r) : Awaited path reply (c :: calls) s r := by
  cases h with
  | replied hdealt => exact .replied (hc.append hdealt)
  | failed before after hcalls hdealt h e =>
      exact .failed (c :: before) after (congrArg (c :: ·) hcalls) (hc.append hdealt) h e
  | panicked before after hcalls h =>
      exact .panicked (c :: before) after (congrArg (c :: ·) hcalls) h

variable [CallTable τ]

/-- How the loop of the task ends. -/
inductive Worked (path : ObjectPath) (events : List AdEvent) (s : AdState τ) :
    Option (Except Error Bool × AdState τ) → Prop
  | /-- It has not ended, and all events have been dealt with. -/
    running {t : AdState τ} (hdealt : Dealt path events s t) :
      Worked path events s (some (.ok false, t))
  | /-- It is told to end. -/
    ended (before after : List AdEvent) {event : AdEvent} {t : AdState τ}
      (hevents : events = before ++ event :: after) (hdealt : Dealt path before s t)
      (h : event.Ends path) : Worked path events s
        (some (.ok true, { t with callPaths := CallTable.insert t.callPaths path .nothing }))
  | /-- An event makes it fail. -/
    failed (before after : List AdEvent) {event : AdEvent} {t : AdState τ}
      (hevents : events = before ++ event :: after) (hdealt : Dealt path before s t)
      (h : event.Fails path) (e : Error) : Worked path events s (some (.error e, t))
  | /-- An event makes it panic. -/
    panicked (before after : List AdEvent) {event : AdEvent}
      (hevents : events = before ++ event :: after) (h : event.Panics path) :
      Worked path events s none

theorem Worked.cons {event : AdEvent} {events : List AdEvent} {s t : AdState τ}
    {r : Option (Except Error Bool × AdState τ)} (hevent : Dealt path [event] s t)
    (h : Worked path events t r) : Worked path (event :: events) s r := by
  cases h with
  | running hdealt => exact .running (hevent.append hdealt)
  | ended before after hevents hdealt h =>
      exact .ended (event :: before) after (congrArg (event :: ·) hevents) (hevent.append hdealt) h
  | failed before after hevents hdealt h e =>
      exact .failed (event :: before) after (congrArg (event :: ·) hevents) (hevent.append hdealt)
        h e
  | panicked before after hevents h =>
      exact .panicked (event :: before) after (congrArg (event :: ·) hevents) h

/-- How the life of an advertisement goes, of which the calls that arrive before BlueZ replies and
the events after that are listed in `events`. -/
inductive Life (path : ObjectPath) (bus : AdBus) (events : List AdEvent) (s : AdState τ) :
    Option (Except Error (Option Advertisement) × AdState τ) → Prop
  | /-- The task still runs, and all events have been dealt with. -/
    running {s' : AdState τ} (hserved : Served path s.self events s.sent s'.sent)
      (hself : s'.self = s.self) (haccepts : Accepts s'.callPaths path) :
      Life path bus events s (some (.ok none, s'))
  | /-- It has been told to end, gives back what was registered, and is not called any more. -/
    released (before after : List AdEvent) {event : AdEvent} {s' : AdState τ}
      (hevents : events = before ++ event :: after) (hends : event.Ends path)
      (hserved : Served path s.self before s.sent s'.sent) (hself : s'.self = s.self)
      (hquiet : ¬Accepts s'.callPaths path) :
      Life path bus events s (some (.ok (some s.self), s'))
  | /-- BlueZ does not register it. -/
    rejected {s' : AdState τ} {e : Error} (he : bus.registerAdvertisement = .error e)
      (hserved : Served path s.self (bus.calls.map .call) s.sent s'.sent) (hself : s'.self = s.self)
      (haccepts : Accepts s'.callPaths path) : Life path bus events s (some (.error e, s'))
  | /-- An event makes it fail: it is not given back, and its path still accepts calls. -/
    failed (before after : List AdEvent) {event : AdEvent} {s' : AdState τ} {e : Error}
      (hevents : events = before ++ event :: after)
      (hfails : event.Fails path ∨ event.Ends path ∧ before.length < bus.calls.length)
      (hserved : Served path s.self before s.sent s'.sent) (hself : s'.self = s.self)
      (haccepts : Accepts s'.callPaths path) : Life path bus events s (some (.error e, s'))
  | /-- A call without an interface makes it panic. -/
    panicked (before after : List AdEvent) {event : AdEvent}
      (hevents : events = before ++ event :: after) (h : event.Panics path) :
      Life path bus events s none

namespace Life

variable {bus : AdBus} {events : List AdEvent} {s s' : AdState τ}

/-- What has failed is still called, and nobody answers. -/
theorem accepts {e : Error} (h : Life path bus events s (some (.error e, s'))) :
    Accepts s'.callPaths path := by
  cases h with
  | rejected he hserved hself haccepts => exact haccepts
  | failed before after hevents hfails hserved hself haccepts => exact haccepts

end Life

end Advertisement

end Rustable
