import Rustable.Gatt.Server.Answering
import Rustable.Gatt.Server.Unregister
import Rustable.Lib.Lts

/-!
# The handle of an attribute

The handle of an attribute is shown by its properties and to the object manager, told to
whoever asks its worker, and given back with the attribute in the end.  All of them should
show the handle that was set last.

A service keeps two copies, only one of which is set; a descriptor takes a `Set` on the
interface of characteristics for one on its own, and ends when it refuses one on its own
(`handle_shown_iff`).
-/

namespace Rustable.Gatt.Server

open DBus

/-! ## Properties with a handle -/

/-- The handle that a `Set` with the arguments sets, if it is for the interface. -/
def asHandle (interface : String) : String × String × BluezOptions → Option UInt16
  | (i, prop, .u16 h) => if i = interface ∧ prop = handleStr then some h else none
  | _ => none

/-- The handle that a call sets, if it is a `Set` of the property `Handle` of the
interface. -/
def handleSet (interface : String) {path : ObjectPath} (call : MethodCall path) : Option UInt16 :=
  if call.member = "Set" then
    match call.body.get3 String String BluezOptions with
    | .ok args => asHandle interface args
    | .error _ => none
  else none

/-- Properties with a handle, which is shown on the interface `own` and set on the interface
`gate`. -/
structure HasHandle {σ : Type} [Properties σ] (path : ObjectPath) (handle : σ → UInt16)
    (own gate : String) : Prop where
  readable : ∀ h, Properties.Readable path fun s ↦ handle s = h
  reads : ∀ h, Properties.Reads path (fun s ↦ handle s = h) own handleStr (.u16 h)
  interface : ∃ i ∈ Properties.interfaces σ, i.1 = own
  listed : handleStr ∈ Properties.listed σ own
  sets : ∀ args s, ∃ r s', Properties.setInner path args.1 args.2.1 args.2.2 s = some (r, s') ∧
    handle s' = (asHandle gate args).getD (handle s) ∧
    ((asHandle gate args).isSome → r = .ok ()) ∧ (args.1 ≠ gate → ∃ e, r = .error e)

/-- The reply to a call shows the handle, if it is a call that asks for it. -/
structure ReplyShows {path : ObjectPath} (own : String) (h : UInt16) (call : MethodCall path)
    (m : MarshalledMessage) : Prop where
  get : call.member = "Get" → call.body.get2 String String = .ok (own, handleStr) →
    ∃ w : Val .variant, marshal (BluezOptions.u16 h) = some w ∧
      m = { call.toMessage.dynheader.makeResponse with body := [⟨.variant, w⟩] }
  getAll : call.member = "GetAll" → call.body.get String = .ok own →
    ∃ (map : PropMap) (w : Val (sig PropMap)), marshal map = some w ∧
      m = { call.toMessage.dynheader.makeResponse with body := [⟨sig PropMap, w⟩] } ∧
      map.lookup handleStr = some (.u16 h)

theorem asHandle_eq_some {interface : String} {args : String × String × BluezOptions} {h : UInt16}
    (hargs : asHandle interface args = some h) : args = (interface, handleStr, .u16 h) := by
  rw [asHandle.eq_def] at hargs
  split at hargs
  · split at hargs
    · next heq =>
        obtain ⟨rfl, rfl⟩ := heq
        rw [Option.some.inj hargs]
    · contradiction
  · contradiction

/-- A call that sets the handle. -/
theorem handleSet_eq_some {interface : String} {path : ObjectPath} {call : MethodCall path}
    {h : UInt16} (hset : handleSet interface call = some h) : call.member = "Set" ∧
      call.body.get3 String String BluezOptions = .ok (interface, handleStr, .u16 h) := by
  rw [handleSet] at hset
  split at hset
  · next hmember =>
      cases hbody : call.body.get3 String String BluezOptions with
      | error e =>
          rw [hbody] at hset
          contradiction
      | ok args =>
          rw [hbody] at hset
          exact ⟨hmember, congrArg Except.ok (asHandle_eq_some hset)⟩
  · contradiction

theorem asHandle_u16 (interface : String) (h : UInt16) :
    asHandle interface (interface, handleStr, .u16 h) = some h := if_pos ⟨rfl, rfl⟩

section Properties

variable {σ : Type} [Properties σ] {path : ObjectPath} {handle : σ → UInt16} {own gate : String}

/-- What a `Set` does. -/
theorem HasHandle.set (hh : HasHandle path handle own gate) (call : MethodCall path) (s : σ)
    (hmember : call.member = "Set") : ∃ m s', Properties.set call.toMessage s = some (m, s') ∧
      handle s' = (handleSet gate call).getD (handle s) ∧ ((handleSet own call).isSome →
        (m = call.toMessage.dynheader.makeResponse ↔ own = gate)) := by
  have hset (interface : String) : handleSet interface call =
      match call.body.get3 String String BluezOptions with
      | .ok args => asHandle interface args
      | .error _ => none := if_pos hmember
  rw [hset, hset]
  cases hbody : call.body.get3 String String BluezOptions with
  | error e =>
      have hrun : Properties.set call.toMessage s = some
          (call.toMessage.dynheader.makeErrorResponse "InvalidParameters" (some e.debug), s) := by
        have hbody' : call.toMessage.body.get3 String String BluezOptions = .error e := hbody
        simp only [Properties.set, hbody']
        rfl
      exact ⟨_, s, hrun, rfl, fun h ↦ absurd h Bool.false_ne_true⟩
  | ok args =>
      obtain ⟨r, s', hrun, hhandle, hok, herror⟩ := hh.sets args s
      have hset := Properties.set_of_setInner call.toMessage rfl hbody hrun
      refine ⟨_, s', hset, hhandle, fun hown ↦ ?_⟩
      by_cases hgate : own = gate
      · subst hgate
        rw [hok hown]
        exact iff_of_true rfl rfl
      · obtain ⟨h, hargs⟩ := Option.isSome_iff_exists.mp hown
        obtain ⟨e, rfl⟩ := herror (asHandle_eq_some hargs ▸ hgate)
        exact iff_of_false (makeErrorResponse_ne _ _ _ _) hgate

/-- **What a property call does**: it is answered, it changes the handle only if it is a `Set`
on the interface `gate`, and what it reports is the handle.  A `Set` on the interface `own`
succeeds if that is the interface `gate`. -/
theorem HasHandle.propertiesCall (hh : HasHandle path handle own gate) (call : MethodCall path)
    (s : σ) : ∃ m s', Properties.propertiesCall call.toMessage s = some (m, s') ∧
      handle s' = (handleSet gate call).getD (handle s) ∧ ReplyShows own (handle s) call m ∧
      ((handleSet own call).isSome →
        (m = call.toMessage.dynheader.makeResponse ↔ own = gate)) := by
  have hobj : call.toMessage.dynheader.object = some path := rfl
  have hread := hh.readable (handle s)
  have hnone (interface : String) (hne : call.member ≠ "Set") : handleSet interface call = none :=
    if_neg hne
  by_cases hset : call.member = "Set"
  · obtain ⟨m, s', hrun, hhandle, hm⟩ := hh.set call s hset
    refine ⟨m, s', ?_, hhandle, ⟨fun h ↦ ?_, fun h ↦ ?_⟩, hm⟩
    · rw [Properties.propertiesCall_eq "Set" (congrArg some hset)]
      exact hrun
    · rw [hset] at h
      contradiction
    · rw [hset] at h
      contradiction
  rw [hnone gate hset, hnone own hset]
  by_cases hget : call.member = "Get"
  · rw [Properties.propertiesCall_eq "Get" (congrArg some hget)]
    have hgetAll : call.member ≠ "GetAll" := by rw [hget]; decide
    by_cases hbody : call.body.get2 String String = .ok (own, handleStr)
    · obtain ⟨w, hw⟩ := Option.isSome_iff_exists.mp
        (BluezOptions.marshal_isSome (o := .u16 (handle s)) nofun)
      obtain ⟨s', hrun, hs'⟩ := Properties.get_of_reads call.toMessage hread (hh.reads _) hw hobj
        hbody rfl
      exact ⟨_, s', hrun, hs', ⟨fun _ _ ↦ ⟨w, hw, rfl⟩, fun h ↦ absurd h hgetAll⟩, nofun⟩
    · obtain ⟨m, s', hrun, hs', -⟩ := Properties.get_answers hread hobj rfl
      exact ⟨m, s', hrun, hs', ⟨fun _ h ↦ absurd h hbody, fun h ↦ absurd h hgetAll⟩, nofun⟩
  by_cases hgetAll : call.member = "GetAll"
  · rw [Properties.propertiesCall_eq "GetAll" (congrArg some hgetAll)]
    by_cases hbody : call.body.get String = .ok own
    · obtain ⟨i, hi, rfl⟩ := hh.interface
      obtain ⟨map, w, s', hrun, hs', hw, hlookup⟩ := Properties.getAll_of_reads call.toMessage hread
        hi hh.listed (hh.reads _) hobj hbody rfl
      exact ⟨_, s', hrun, hs', ⟨fun h ↦ absurd h hget, fun _ _ ↦ ⟨map, w, hw, rfl, hlookup⟩⟩, nofun⟩
    · obtain ⟨m, s', hrun, hs', -⟩ := Properties.getAll_answers hread hobj rfl
      exact ⟨m, s', hrun, hs', ⟨fun h ↦ absurd h hget, fun _ h ↦ absurd h hbody⟩, nofun⟩
  · refine ⟨call.toMessage.dynheader.unknownMethod, s, ?_, rfl,
      ⟨fun h ↦ absurd h hget, fun h ↦ absurd h hgetAll⟩, nofun⟩
    rw [Properties.propertiesCall_unknown rfl hget hset hgetAll]
    rfl

/-- The handle is shown to the object manager. -/
theorem HasHandle.getAllInterfaces (hh : HasHandle path handle own gate) (s : σ) :
    ∃ map s', Properties.getAllInterfaces path s = some (map, s') ∧ ∃ m,
      map.lookup own = some m ∧ m.lookup handleStr = some (.u16 (handle s)) := by
  obtain ⟨map, s', hrun, -, -, hall⟩ :=
    Properties.getAllInterfaces_spec (hh.readable (handle s)) rfl
  obtain ⟨i, hi, rfl⟩ := hh.interface
  obtain ⟨m, hm, hlookup⟩ := hall i hi
  exact ⟨map, s', hrun, m, hm, hlookup handleStr hh.listed _ (hh.reads _)⟩

end Properties

/-! ## The attributes -/

section Attributes

variable {path : ObjectPath}

/-- Setting a property, if it accepts a handle on the interface `gate` and refuses all else. -/
theorem sets_of {σ : Type} [Properties σ] {handle : σ → UInt16} {gate : String}
    (haccepts : ∀ h (s : σ), ∃ s',
      Properties.setInner path gate handleStr (.u16 h) s = some (.ok (), s') ∧ handle s' = h)
    (hrefuses : ∀ i prop v (s : σ), (i = gate ∧ prop = handleStr ∧ ∃ h, v = .u16 h) ∨
      ∃ e, Properties.setInner path i prop v s = some (.error e, s))
    (args : String × String × BluezOptions) (s : σ) : ∃ r s',
      Properties.setInner path args.1 args.2.1 args.2.2 s = some (r, s') ∧
      handle s' = (asHandle gate args).getD (handle s) ∧
      ((asHandle gate args).isSome → r = .ok ()) ∧ (args.1 ≠ gate → ∃ e, r = .error e) := by
  obtain ⟨i, prop, v⟩ := args
  cases hargs : asHandle gate (i, prop, v) with
  | none =>
      rcases hrefuses i prop v s with ⟨rfl, rfl, h, rfl⟩ | ⟨e, he⟩
      · rw [asHandle_u16] at hargs
        contradiction
      · exact ⟨_, s, he, rfl, nofun, fun _ ↦ ⟨e, rfl⟩⟩
  | some h =>
      obtain ⟨rfl, rfl, rfl⟩ := asHandle_eq_some hargs
      obtain ⟨s', hs', hhandle⟩ := haccepts h s
      exact ⟨_, s', hs', hhandle, fun _ ↦ rfl, fun hne ↦ absurd rfl hne⟩

theorem ServData.hasHandle (path : ObjectPath) :
    HasHandle path ServData.handle bluezSerIf bluezSerIf where
  readable h := readable path _
  reads h := reads_handle path h
  interface := ⟨_, List.mem_singleton_self _, rfl⟩
  listed := by decide
  sets := sets_of (fun h s ↦ ⟨_, rfl, rfl⟩) (setInner_cases path)

theorem ChrcData.hasHandle (hpath : path ≠ .root) :
    HasHandle path ChrcData.handle bluezChrIf bluezChrIf where
  readable h := readable hpath fun _ hs ↦ hs
  reads h := reads_handle path h
  interface := ⟨_, List.mem_singleton_self _, rfl⟩
  listed := by decide
  sets := sets_of (fun h s ↦ ⟨_, rfl, rfl⟩) (setInner_cases path)

/-- The interface that is asked for when the handle of a descriptor is set is the one of
characteristics. -/
theorem Descriptor.hasHandle (hpath : path ≠ .root) :
    HasHandle path Descriptor.handle bluezDesIf bluezChrIf where
  readable h := readable hpath fun _ hs ↦ hs
  reads h := reads_handle path h
  interface := ⟨_, List.mem_singleton_self _, rfl⟩
  listed := by decide
  sets := sets_of (fun h s ↦ ⟨_, rfl, rfl⟩) (setInner_cases path)

end Attributes

/-! ## Turns with a property call -/

/-- The interface of an attribute; an application has none. -/
def Kind.own : Kind → String
  | .app => ""
  | .serv => bluezSerIf
  | .chrc => bluezChrIf
  | .desc => bluezDesIf

/-- The interface on which the handle of an attribute can be set. -/
def Kind.gate : Kind → String
  | .app => ""
  | .serv => bluezSerIf
  | .chrc | .desc => bluezChrIf

/-- What has become of the worker of an attribute after a property call that was answered
with `m`. -/
structure AfterProperty {path : ObjectPath} (call : MethodCall path) (s : WorkerState)
    (m : MarshalledMessage) (s' : WorkerState) : Prop where
  kind : s'.kind = s.kind
  propHandle : s'.propHandle = (handleSet s.kind.gate call).getD s.propHandle
  attHandle : s'.attHandle = if s.kind = .serv then s.attHandle else s'.propHandle
  shows : ReplyShows s.kind.own s.propHandle call m
  success : (handleSet s.kind.own call).isSome →
    (m = call.toMessage.dynheader.makeResponse ↔ s.kind.own = s.kind.gate)

section Turns

variable {path : ObjectPath} {call : MethodCall path} {given : Option String}

theorem replyTo_onPart {io : Io} {σ τ : Type} {view : σ → τ} {put : σ → τ → σ}
    {x : MayPanic τ MarshalledMessage} {s : σ} {m : MarshalledMessage} {t : τ}
    (hfilter : isMsgBluez call.toMessage given = true) (hx : x (view s) = some (m, t)) :
    Turn.replyTo io given call.toMessage (Turn.onPart view put x) s =
      Turn.replied io (.done m (put s t) []) := by
  rw [Turn.replyTo_passed hfilter, Turn.onPart_some hx]

theorem ServData.handleCall_properties (h : call.interface = some propsIf) :
    handleCall call.toMessage = Properties.propertiesCall call.toMessage := by
  have hinterface : call.toMessage.dynheader.interface = some propsIf := h
  funext s
  rw [handleCall, hinterface, MayPanic.unwrap_some_bind, if_pos rfl]

theorem Descriptor.handleCall_properties (h : call.interface = some propsIf) :
    handleCall call.toMessage = Properties.propertiesCall call.toMessage := by
  have hinterface : call.toMessage.dynheader.interface = some propsIf := h
  funext s
  rw [handleCall, hinterface, MayPanic.unwrap_some_bind, if_pos rfl]

theorem ChrcData.handleCall_properties {io : Io} (h : call.interface = some propsIf) :
    handleCall io call.toMessage = Turn.ofMayPanic (Properties.propertiesCall call.toMessage) := by
  have hinterface : call.toMessage.dynheader.interface = some propsIf := h
  rw [handleCall, hinterface, Act.unwrap_some, Act.pure_bind, if_pos rfl]

theorem isSendable_of_onPart {σ τ : Type} {view : σ → τ} {put : σ → τ → σ}
    {x : MayPanic τ MarshalledMessage} {s : σ} {m : MarshalledMessage} {t : τ} {P : Prop}
    (h : SendableIff (Turn.onPart view put x s) P) (hx : x (view s) = some (m, t)) :
    m.isSendable = true ↔ P := h m _ _ (Turn.onPart_some hx)

/-- **What a property call does to the worker of an attribute.**  It has a reply, which can be sent
if the object grants the call. -/
theorem WorkerState.onCall_property (io : Io) {s : WorkerState} (hs : s.kind ≠ .app)
    (hpath : path ≠ .root) (hprops : call.interface = some propsIf)
    (hfilter : isMsgBluez call.toMessage given = true) (asked : Asked) : ∃ m s',
      AfterProperty call s m s' ∧ (m.isSendable = true ↔ s.Grants io call) ∧
        s.onCall io given asked call.toMessage = Turn.replied io (.done m s' []) := by
  cases s with
  | app s => contradiction
  | serv s =>
      obtain ⟨m, d, hrun, hhandle, hshows, hm⟩ :=
        (ServData.hasHandle path).propertiesCall call s.servData
      have hsend := ServData.sendable_handleCall (c := call) io s
      rw [ServWorker.onData, ServData.handleCall_properties hprops] at hsend
      refine ⟨m, .serv { s with servData := d }, ⟨rfl, hhandle, rfl, hshows, hm⟩,
        isSendable_of_onPart hsend hrun, ?_⟩
      rw [onCall, ServWorker.onCall, ServWorker.onData, ServData.handleCall_properties hprops,
        replyTo_onPart hfilter hrun, Turn.replied_mapState]
  | chrc s =>
      obtain ⟨m, s', hrun, hhandle, hshows, hm⟩ := (ChrcData.hasHandle hpath).propertiesCall call s
      have hsend := ChrcData.sendable_handleCall (c := call) io hpath s
      rw [ChrcData.handleCall_properties hprops] at hsend
      refine ⟨m, .chrc s', ⟨rfl, hhandle, rfl, hshows, hm⟩, isSendable_of_onPart hsend hrun, ?_⟩
      rw [onCall, ChrcData.onCall, ChrcData.handleCall_properties hprops, Turn.ofMayPanic,
        replyTo_onPart hfilter hrun, Turn.replied_mapState]
  | desc s =>
      obtain ⟨m, s', hrun, hhandle, hshows, hm⟩ :=
        (Descriptor.hasHandle hpath).propertiesCall call s
      have hsend := Descriptor.sendable_handleCall (c := call) io hpath s
      rw [Descriptor.handleCall_properties hprops] at hsend
      refine ⟨m, .desc s', ⟨rfl, hhandle, rfl, hshows, hm⟩, isSendable_of_onPart hsend hrun, ?_⟩
      rw [onCall, Descriptor.onCall, Descriptor.handleCall_properties hprops, Turn.ofMayPanic,
        replyTo_onPart hfilter hrun, Turn.replied_mapState]

/-- The call asks for the handle: for the property, or for all properties. -/
def AsksHandle (own : String) (call : MethodCall path) : Prop :=
  (call.member = "Get" ∧ call.body.get2 String String = .ok (own, handleStr)) ∨
    (call.member = "GetAll" ∧ call.body.get String = .ok own)

theorem HasHandle.grants {σ : Type} [Properties σ] {handle : σ → UInt16} {own gate : String}
    (hh : HasHandle path handle own gate) (h : AsksHandle own call) :
    Properties.Grants σ (SetsHandle gate) call := by
  obtain ⟨hmember, hbody⟩ | ⟨hmember, hbody⟩ := h
  · rw [Properties.Grants, hmember]
    exact ⟨own, handleStr, hbody, hh.listed⟩
  · obtain ⟨i, hi, rfl⟩ := hh.interface
    rw [Properties.Grants, hmember]
    exact ⟨i.1, hbody, i, hi, rfl⟩

/-- Nobody is refused the handle. -/
theorem WorkerState.grants_of_asksHandle {s : WorkerState} (hs : s.kind ≠ .app)
    (hpath : path ≠ .root) (hprops : call.interface = some propsIf)
    (h : AsksHandle s.kind.own call) (io : Io) : s.Grants io call := by
  have hno {interface : String} (hne : interface ≠ propsIf) : call.interface ≠ some interface :=
    fun heq ↦ hne (Option.some.inj (heq.symm.trans hprops))
  cases s with
  | app s => contradiction
  | serv s => exact fun _ ↦ (ServData.hasHandle path).grants h
  | chrc s =>
      exact ⟨fun _ ↦ (ChrcData.hasHandle hpath).grants h, fun heq ↦ absurd heq (hno (by decide))⟩
  | desc s =>
      exact ⟨fun _ ↦ (Descriptor.hasHandle hpath).grants h, fun heq ↦ absurd heq (hno (by decide))⟩

/-- The calls that set the handle: the objects grant them on the interface `gate`. -/
theorem WorkerState.grants_iff_of_handleSet {s : WorkerState} (hs : s.kind ≠ .app)
    (hprops : call.interface = some propsIf) {interface : String} {h : UInt16}
    (hset : handleSet interface call = some h) (io : Io) :
    s.Grants io call ↔ interface = s.kind.gate := by
  obtain ⟨hmember, hbody⟩ := handleSet_eq_some hset
  have hno {interface : String} (hne : interface ≠ propsIf) : call.interface ≠ some interface :=
    fun heq ↦ hne (Option.some.inj (heq.symm.trans hprops))
  have hiff (σ : Type) [Properties σ] (gate : String) :
      Properties.Grants σ (SetsHandle gate) call ↔ interface = gate := by
    rw [Properties.Grants, hmember]
    constructor
    · rintro ⟨_, _, _, hbody', rfl, -⟩
      exact (Prod.mk.inj (Except.ok.inj (hbody.symm.trans hbody'))).1
    · rintro rfl
      exact ⟨_, _, _, hbody, rfl, rfl, h, rfl⟩
  cases s with
  | app s => contradiction
  | serv s => exact (forall_prop_of_true hprops).trans (hiff _ _)
  | chrc s =>
      refine (and_iff_left fun heq ↦ absurd heq (hno (by decide))).trans ?_
      exact (forall_prop_of_true hprops).trans (hiff _ _)
  | desc s =>
      refine (and_iff_left fun heq ↦ absurd heq (hno (by decide))).trans ?_
      exact (forall_prop_of_true hprops).trans (hiff _ _)

end Turns

/-! ## What is shown -/

/-- The handle of what a worker gives back. -/
def WorkerJoin.handle : WorkerJoin → Option UInt16
  | .app _ => none
  | .serv s => some s.handle
  | .chrc c => some c.handle
  | .desc d => some d.handle

/-- All who ask for the handle are told `h`. -/
structure Shows (given : Option String) (path : ObjectPath) (s : WorkerState) (h : UInt16) :
    Prop where
  properties : ∀ io asked (call : MethodCall path), io.sendReply = .ok () →
    call.interface = some propsIf → isMsgBluez call.toMessage given = true → s.Grants io call →
    ∃ m s', s.onCall io given asked call.toMessage = .done .next s' [.reply m] ∧
      ReplyShows s.kind.own h call m
  /-- The calls that ask for the handle are granted. -/
  grants : ∀ io (call : MethodCall path), call.interface = some propsIf →
    AsksHandle s.kind.own call → s.Grants io call
  objects : ∀ io sender, io.receiverAlive = true → ∃ map s',
    s.onMsg io path (.objMgr sender) = .done .next s' [.answer sender (.objects path map)] ∧
    ∃ m, map.lookup s.kind.own = some m ∧ m.lookup handleStr = some (.u16 h)
  getHandle : ∀ io sender (hh : h ≠ 0), io.receiverAlive = true →
    s.onMsg io path (.getHandle sender) = .done .next s [.answer sender (.handle ⟨h, hh⟩)]
  unregister : ∀ io, s.onMsg io path .unregister = .done .done s [] ∧ s.join.handle = some h

section Shows

variable {path : ObjectPath} {s : WorkerState}

/-- What the worker of an attribute gives back has the handle. -/
theorem WorkerState.handle_join (hs : s.kind ≠ .app) : s.join.handle = some s.attHandle := by
  cases s with
  | app s => contradiction
  | serv s | chrc s | desc s => rfl

/-- The object manager is told the handle that the properties show. -/
theorem WorkerState.objects_handle {io : Io} (hio : io.receiverAlive = true) (hs : s.kind ≠ .app)
    (hpath : path ≠ .root) (sender : ReplyTo) : ∃ map s',
      s.onMsg io path (.objMgr sender) = .done .next s' [.answer sender (.objects path map)] ∧
      ∃ m, map.lookup s.kind.own = some m ∧ m.lookup handleStr = some (.u16 s.propHandle) := by
  cases s with
  | app s => contradiction
  | serv s =>
      obtain ⟨map, d, hrun, hshows⟩ := (ServData.hasHandle path).getAllInterfaces s.servData
      have hturn := ServWorker.onMsg_objMgr hio hrun sender
      exact ⟨map, _, congrArg (·.mapState serv) hturn, hshows⟩
  | chrc s =>
      obtain ⟨map, s', hrun, hshows⟩ := (ChrcData.hasHandle hpath).getAllInterfaces s
      have hturn := ChrcData.onMsg_objMgr hio hrun sender
      exact ⟨map, _, congrArg (·.mapState chrc) hturn, hshows⟩
  | desc s =>
      obtain ⟨map, s', hrun, hshows⟩ := (Descriptor.hasHandle hpath).getAllInterfaces s
      have hturn := Descriptor.onMsg_objMgr hio hrun sender
      exact ⟨map, _, congrArg (·.mapState desc) hturn, hshows⟩

/-- A worker with a handle tells it. -/
theorem WorkerState.onMsg_getHandle {io : Io} (hio : io.receiverAlive = true)
    (hs : s.kind ≠ .app) (hh : s.attHandle ≠ 0) (sender : ReplyTo) :
    s.onMsg io path (.getHandle sender) =
      .done .next s [.answer sender (.handle ⟨s.attHandle, hh⟩)] := by
  cases s with
  | app s => contradiction
  | serv s =>
      have hsome : nonZeroU16 s.self.handle = some ⟨s.self.handle, hh⟩ := nonZeroU16_of_ne hh
      rw [onMsg, ServWorker.onMsg, Act.read_bind, hsome, Act.unwrap_some, Act.pure_bind,
        Turn.answerOrStop_eq hio]
      rfl
  | chrc s =>
      have hsome : nonZeroU16 s.handle = some ⟨s.handle, hh⟩ := nonZeroU16_of_ne hh
      rw [onMsg, ChrcData.onMsg, Act.read_bind, hsome, Act.unwrap_some, Act.pure_bind,
        Turn.answer_eq hio]
      rfl
  | desc s =>
      have hsome : nonZeroU16 s.handle = some ⟨s.handle, hh⟩ := nonZeroU16_of_ne hh
      rw [onMsg, Descriptor.onMsg, Act.read_bind, hsome, Act.unwrap_some, Act.pure_bind,
        Turn.answerOrStop_eq hio]
      rfl

/-- A worker whose copies of the handle agree shows it. -/
theorem shows_of_agree {given : Option String} {h : UInt16} (hs : s.kind ≠ .app)
    (hpath : path ≠ .root) (hprop : s.propHandle = h) (hatt : s.attHandle = h) :
    Shows given path s h where
  properties io asked call hio hprops hfilter hgrants := by
    obtain ⟨m, s', hafter, hsend, hturn⟩ :=
      WorkerState.onCall_property io hs hpath hprops hfilter asked
    refine ⟨m, s', ?_, hprop ▸ hafter.shows⟩
    rw [hturn, Turn.replied_sendable (hsend.mpr hgrants) hio]
    rfl
  grants io call hprops hasks := WorkerState.grants_of_asksHandle hs hpath hprops hasks io
  objects io sender hio := hprop ▸ WorkerState.objects_handle hio hs hpath sender
  getHandle io sender hh hio := by
    subst hatt
    exact WorkerState.onMsg_getHandle hio hs hh sender
  unregister io := ⟨WorkerState.onMsg_unregister io, by rw [WorkerState.handle_join hs, hatt]⟩

theorem Shows.attHandle {given : Option String} {h : UInt16} (hshows : Shows given path s h)
    (hs : s.kind ≠ .app) : s.attHandle = h := by
  have hjoin := (hshows.unregister {}).2
  rw [WorkerState.handle_join hs] at hjoin
  exact Option.some.inj hjoin

end Shows

/-! ## Histories -/

/-- The worker of an attribute, and the handle that was set last. -/
structure Tracked where
  state : WorkerState
  /-- The handle of the last `Set` on the interface of the attribute, or else the initial
  one. -/
  expected : UInt16
  /-- It has not ended. -/
  running : Bool := true

/-- What the worker of an attribute is asked to do. -/
inductive Deed (path : ObjectPath)
  | /-- A worker message. -/
    message (io : Io) (msg : WorkerMsg)
  | /-- A property call. -/
    property (io : Io) (call : MethodCall path)

namespace Tracked

/-- The worker after a turn, with the handle that is expected if it goes on. -/
def resume (t : Tracked) (expected : UInt16) : Ran Stop Out WorkerState Flow → Tracked
  | .done .next s _ => { state := s, expected := expected }
  | .done .done _ _ | .stop _ _ => { t with running := false }

/-- One turn of a worker that has not ended, with a message or with a property call that passes
the filter while the connection does not fail. -/
def next (given : Option String) {path : ObjectPath} (t : Tracked) : Deed path → Option Tracked
  | .message io msg =>
      if t.running = true then some (t.resume t.expected (t.state.onMsg io path msg)) else none
  | .property io call =>
      if t.running = true ∧ call.interface = some propsIf ∧
          isMsgBluez call.toMessage given = true ∧ io.sendReply.isOk = true then
        some (t.resume ((handleSet t.state.kind.own call).getD t.expected)
          (t.state.onCall io given (fun _ ↦ none) call.toMessage))
      else none

/-- The turns of a worker with the filter and the path. -/
abbrev Step (given : Option String) (path : ObjectPath) : Tracked → Deed path → Tracked → Prop :=
  Lts.ofNext (next given)

variable {given : Option String} {path : ObjectPath}

/-- A `Set` of the handle succeeds. -/
def Succeeds (given : Option String) (t : Tracked) : Deed path → Prop
  | .message _ _ => True
  | .property io call => (handleSet t.state.kind.own call).isSome → ∃ s',
      t.state.onCall io given (fun _ ↦ none) call.toMessage =
        .done .next s' [.reply call.toMessage.dynheader.makeResponse]

/-- What should be true of a turn: a `Set` of the handle succeeds, and afterwards the handle
that was set last is shown, unless the worker has ended. -/
def Keeps (given : Option String) (t : Tracked) (d : Deed path) : Prop :=
  t.Succeeds given d ∧ ∀ t', t.next given d = some t' → t'.running = true →
    Shows given path t'.state t'.expected

/-- The turns for which it is: a service is given the handle it has; a descriptor is given
none, and on the interface of characteristics only the one it has. -/
def Agrees (t : Tracked) : Deed path → Prop
  | .message _ _ => True
  | .property _ call => match t.state.kind with
    | .app | .chrc => True
    | .serv => ∀ h, handleSet bluezSerIf call = some h → h = t.state.attHandle
    | .desc => handleSet bluezDesIf call = none ∧
        ∀ h, handleSet bluezChrIf call = some h → h = t.state.attHandle

/-- The worker is that of an attribute, and both copies of the handle are what is expected. -/
structure Consistent (t : Tracked) : Prop where
  kind : t.state.kind ≠ .app
  propHandle : t.state.propHandle = t.expected
  attHandle : t.state.attHandle = t.expected

theorem Consistent.shows {t : Tracked} (h : t.Consistent) (hpath : path ≠ .root) :
    Shows given path t.state t.expected := shows_of_agree h.kind hpath h.propHandle h.attHandle

/-- Messages change nothing about the handle. -/
theorem Consistent.message {t t' : Tracked} (h : t.Consistent) (hpath : path ≠ .root) {io : Io}
    {msg : WorkerMsg} (hnext : t.next given (.message io msg : Deed path) = some t') :
    t'.Consistent := by
  rw [next] at hnext
  split at hnext
  swap
  · contradiction
  obtain rfl := Option.some.inj hnext
  have hkind := t.state.onMsg_kind io path msg
  have hwithin : (t.state.onMsg io path msg).Within _ (fun _ ↦ True) t.state :=
    WorkerState.within_onMsg (S := fun _ ↦ True) (fun _ ↦ trivial) (fun _ ↦ hpath) fun _ ↦ trivial
  rcases hrun : t.state.onMsg io path msg with ⟨_ | _, s, out⟩ | ⟨why, out⟩
  · rw [hrun] at hkind hwithin
    obtain ⟨hatt, hprop⟩ := Prod.mk.inj hwithin.2.1
    exact
      { kind := hkind ▸ h.kind
        propHandle := hprop.trans h.propHandle
        attHandle := hatt.trans h.attHandle }
  · exact ⟨h.kind, h.propHandle, h.attHandle⟩
  · exact ⟨h.kind, h.propHandle, h.attHandle⟩

/-- What a property call does: it is granted and changes the handle, or it ends the worker. -/
inductive Took (given : Option String) (t : Tracked) (io : Io) (call : MethodCall path)
    (t' : Tracked) : Prop
  | granted (m : MarshalledMessage) (hgrants : t.state.Grants io call)
      (hafter : AfterProperty call t.state m t'.state)
      (hexpected : t'.expected = (handleSet t.state.kind.own call).getD t.expected)
      (hrun : t.state.onCall io given (fun _ ↦ none) call.toMessage =
        .done .next t'.state [.reply m])
  | ended (hgrants : ¬t.state.Grants io call) (ht' : t' = { t with running := false })
      (hrun : ∃ why out, t.state.onCall io given (fun _ ↦ none) call.toMessage = .stop why out)

theorem Consistent.property {t t' : Tracked} (h : t.Consistent) (hpath : path ≠ .root) {io : Io}
    {call : MethodCall path} (hnext : t.next given (.property io call) = some t') :
    call.interface = some propsIf ∧ t.Took given io call t' := by
  rw [next] at hnext
  split at hnext
  swap
  · contradiction
  next hcall =>
  obtain ⟨-, hprops, hfilter, hio⟩ := hcall
  obtain rfl := Option.some.inj hnext
  refine ⟨hprops, ?_⟩
  obtain ⟨m, s', hafter, hsend, hturn⟩ :=
    WorkerState.onCall_property io h.kind hpath hprops hfilter fun _ ↦ none
  by_cases hgrants : t.state.Grants io call
  · have hsent : io.sendReply = .ok () := by
      cases hreply : io.sendReply with
      | ok u => rfl
      | error e =>
          rw [hreply] at hio
          contradiction
    rw [Turn.replied_sendable (hsend.mpr hgrants) hsent] at hturn
    rw [hturn]
    exact .granted m hgrants hafter rfl hturn
  · rw [Turn.replied_unsendable (Bool.eq_false_iff.mpr (mt hsend.mp hgrants))] at hturn
    rw [hturn]
    exact .ended hgrants rfl ⟨_, _, hturn⟩

/-- A turn with a property call leaves the copies consistent, if it leaves them as
expected. -/
theorem Consistent.after {t t' : Tracked} (h : t.Consistent) {call : MethodCall path}
    {m : MarshalledMessage} (hafter : AfterProperty call t.state m t'.state)
    (hprop : (handleSet t.state.kind.gate call).getD t.expected = t'.expected)
    (hatt : t.state.kind = .serv → t.expected = t'.expected) : t'.Consistent := by
  have hprop' : t'.state.propHandle = t'.expected := by rw [hafter.propHandle, h.propHandle, hprop]
  refine ⟨hafter.kind ▸ h.kind, hprop', ?_⟩
  rw [hafter.attHandle]
  split
  · next hserv => rw [h.attHandle, hatt hserv]
  · exact hprop'

/-- A turn with a property call that agrees leaves the copies consistent. -/
theorem Consistent.of_agrees {t t' : Tracked} (h : t.Consistent) {io : Io} {call : MethodCall path}
    {m : MarshalledMessage} (hafter : AfterProperty call t.state m t'.state)
    (hexpected : t'.expected = (handleSet t.state.kind.own call).getD t.expected)
    (hagrees : t.Agrees (.property io call)) : t'.Consistent := by
  -- A handle that is given again changes nothing.
  have again {o : Option UInt16} (ho : ∀ x, o = some x → x = t.state.attHandle) :
      o.getD t.expected = t.expected := by
    cases o with
    | none => rfl
    | some x => exact (ho x rfl).trans h.attHandle
  rw [Agrees] at hagrees
  cases hkind : t.state.kind with
  | app => exact absurd hkind h.kind
  | chrc =>
      refine h.after hafter ?_ fun hserv ↦ nomatch hkind.symm.trans hserv
      rw [hexpected, hkind]
      rfl
  | serv =>
      rw [hkind] at hagrees hexpected
      have hsame : t'.expected = t.expected := hexpected.trans (again hagrees)
      refine h.after hafter ?_ fun _ ↦ hsame.symm
      rw [hkind, hsame]
      exact again hagrees
  | desc =>
      rw [hkind] at hagrees hexpected
      have hsame : t'.expected = t.expected := by
        rw [hexpected, Kind.own, hagrees.1]
        rfl
      refine h.after hafter ?_ fun hserv ↦ nomatch hkind.symm.trans hserv
      rw [hkind, hsame]
      exact again hagrees.2

/-- A call that is granted sets no handle on the interface of descriptors. -/
theorem own_eq_gate_of_grants {t : Tracked} (ht : t.state.kind ≠ .app) {io : Io}
    {call : MethodCall path} (hprops : call.interface = some propsIf)
    (hgrants : t.state.Grants io call) (hset : (handleSet t.state.kind.own call).isSome) :
    t.state.kind.own = t.state.kind.gate := by
  obtain ⟨h, hset⟩ := Option.isSome_iff_exists.mp hset
  exact (WorkerState.grants_iff_of_handleSet ht hprops hset io).mp hgrants

/-- A turn with a property call that keeps the handle shown agrees. -/
theorem Consistent.agrees_of_shows {t t' : Tracked} (h : t.Consistent) {io : Io}
    {call : MethodCall path} {m : MarshalledMessage} (hprops : call.interface = some propsIf)
    (hgrants : t.state.Grants io call) (hafter : AfterProperty call t.state m t'.state)
    (hexpected : t'.expected = (handleSet t.state.kind.own call).getD t.expected)
    (hshows : Shows given path t'.state t'.expected) : t.Agrees (.property io call) := by
  have hatt := hafter.attHandle
  rw [hshows.attHandle (hafter.kind ▸ h.kind), hexpected] at hatt
  rw [Agrees]
  cases hkind : t.state.kind with
  | app | chrc => trivial
  | serv =>
      intro x hx
      rw [hkind, Kind.own, hx] at hatt
      exact hatt
  | desc =>
      have hnone : handleSet bluezDesIf call = none := by
        by_contra hset
        have hsame := own_eq_gate_of_grants h.kind hprops hgrants (by
          rw [hkind]
          exact Option.isSome_iff_ne_none.mpr hset)
        rw [hkind] at hsame
        exact absurd hsame (by decide)
      refine ⟨hnone, fun x hx ↦ ?_⟩
      rw [if_neg (by rw [hkind]; decide), hafter.propHandle, hkind, Kind.own, hnone, Kind.gate,
        hx] at hatt
      exact hatt.symm.trans h.attHandle.symm

/-- A turn that ends the worker agrees if it is not for the handle. -/
theorem Consistent.agrees_iff_of_ended {t : Tracked} (h : t.Consistent) {io : Io}
    {call : MethodCall path} (hprops : call.interface = some propsIf)
    (hgrants : ¬t.state.Grants io call) :
    t.Agrees (.property io call) ↔ handleSet t.state.kind.own call = none := by
  -- On the interface on which it can be set, it would have been.
  have hgate : handleSet t.state.kind.gate call = none := by
    by_contra hset
    obtain ⟨x, hx⟩ := Option.ne_none_iff_exists'.mp hset
    exact hgrants ((WorkerState.grants_iff_of_handleSet h.kind hprops hx io).mpr rfl)
  rw [Agrees]
  cases hkind : t.state.kind with
  | app => exact absurd hkind h.kind
  | chrc =>
      rw [hkind] at hgate
      exact iff_of_true trivial hgate
  | serv =>
      rw [hkind] at hgate
      refine iff_of_true (fun x hx ↦ ?_) hgate
      exact absurd (hgate.symm.trans hx) (Option.some_ne_none x).symm
  | desc =>
      rw [hkind] at hgate
      refine and_iff_left fun x hx ↦ ?_
      exact absurd (hgate.symm.trans hx) (Option.some_ne_none x).symm

/-- A turn keeps the handle shown if and only if it agrees, and then it leaves the copies
consistent. -/
theorem Consistent.keeps_iff {t t' : Tracked} (h : t.Consistent) (hpath : path ≠ .root)
    {d : Deed path} (hnext : t.next given d = some t') :
    (t.Keeps given d ↔ t.Agrees d) ∧ (t.Agrees d → t'.Consistent) := by
  have keeps (hs : t.Succeeds given d) (ht' : t'.Consistent) : t.Keeps given d := by
    refine ⟨hs, fun t'' hnext' _ ↦ ?_⟩
    obtain rfl := Option.some.inj (hnext.symm.trans hnext')
    exact ht'.shows hpath
  cases d with
  | message io msg =>
      have ht' := h.message hpath hnext
      exact ⟨iff_of_true (keeps trivial ht') trivial, fun _ ↦ ht'⟩
  | property io call =>
      obtain ⟨hprops, htook⟩ := h.property hpath hnext
      cases htook with
      | granted m hgrants hafter hexpected hrun =>
          refine ⟨⟨fun hkeeps ↦ ?_, fun hagrees ↦ ?_⟩, h.of_agrees hafter hexpected⟩
          · have hrunning : t'.running = true := by
              rw [next] at hnext
              split at hnext
              · rw [hrun] at hnext
                exact (congrArg running (Option.some.inj hnext)).symm
              · contradiction
            exact h.agrees_of_shows hprops hgrants hafter hexpected
              (hkeeps.2 t' hnext hrunning)
          · refine keeps (fun hset ↦ ⟨t'.state, ?_⟩) (h.of_agrees hafter hexpected hagrees)
            rw [hrun, (hafter.success hset).mpr (own_eq_gate_of_grants h.kind hprops hgrants hset)]
      | ended hgrants ht' hrun =>
          subst ht'
          have hconsistent : Consistent { t with running := false } :=
            ⟨h.kind, h.propHandle, h.attHandle⟩
          refine ⟨?_, fun _ ↦ hconsistent⟩
          rw [h.agrees_iff_of_ended hprops hgrants]
          constructor
          · intro hkeeps
            by_contra hset
            obtain ⟨s', hreply⟩ := hkeeps.1 (Option.isSome_iff_ne_none.mpr hset)
            obtain ⟨why, out, hstop⟩ := hrun
            have hboth := hstop.symm.trans hreply
            contradiction
          · intro hnone
            refine keeps (fun hset ↦ ?_) hconsistent
            rw [hnone] at hset
            contradiction

end Tracked

/-- The worker of an attribute as it is started, with the handle of the attribute. -/
inductive Starts : WorkerState → UInt16 → Prop
  | serv (serv : Service) : Starts serv.started serv.handle
  | chrc (chrc : Characteristic) : Starts chrc.started chrc.handle
  | desc (desc : Descriptor) : Starts (.desc desc) desc.handle

theorem Starts.consistent {s : WorkerState} {h : UInt16} (hs : Starts s h) :
    Tracked.Consistent { state := s, expected := h } := by
  cases hs with
  | serv serv => exact ⟨nofun, rfl, rfl⟩
  | chrc chrc => exact ⟨nofun, rfl, rfl⟩
  | desc desc => exact ⟨nofun, rfl, rfl⟩

/-- **Along every history of messages and property calls, the handle that was set last is
shown if and only if all turns agree**: always for a characteristic, for a service if it is
only ever given the handle it has, for a descriptor if it is given none.  A worker that has ended
shows nothing. -/
theorem handle_shown_iff {s : WorkerState} {h : UInt16} (hs : Starts s h) {parent path : ObjectPath}
    {kind : String} {i : Nat} (hpath : childPath parent kind i = some path)
    (given : Option String) {ds : List (Deed path)} {t : Tracked} :
    (Lts.Run (Lts.restrict (Tracked.Step given path) (Tracked.Keeps given))
        { state := s, expected := h } ds t ↔
      Lts.Run (Lts.restrict (Tracked.Step given path) Tracked.Agrees)
        { state := s, expected := h } ds t) ∧
      (Lts.Run (Lts.restrict (Tracked.Step given path) Tracked.Agrees)
        { state := s, expected := h } ds t → t.running = true →
          Shows given path t.state t.expected) := by
  have hroot : path ≠ .root := childPath_ne_root hpath
  have hstep (t : Tracked) (d : Deed path) (t' : Tracked) (ht : t.Consistent)
      (hnext : Lts.restrict (Tracked.Step given path) Tracked.Agrees t d t') : t'.Consistent :=
    (ht.keeps_iff hroot hnext.1).2 hnext.2
  refine ⟨(Lts.Run.restrict_congr hstep ?_ hs.consistent).symm, fun hrun _ ↦ ?_⟩
  · exact fun t d t' ht hnext ↦ (ht.keeps_iff hroot hnext).1.symm
  · exact (hrun.invariant hstep hs.consistent).shows hroot

/-- A service below an application. -/
theorem handle_shown_iff_service : ∃ path,
    childPath (Application.ofUuids ⟨1⟩ ⟨2⟩ ⟨3⟩).basePath "service" 0 = some path ∧ ∀ given ds t,
      (Lts.Run (Lts.restrict (Tracked.Step given path) (Tracked.Keeps given))
          { state := Service.started { uuid := ⟨1⟩, primary := true }, expected := 0 } ds t ↔
        Lts.Run (Lts.restrict (Tracked.Step given path) Tracked.Agrees)
          { state := Service.started { uuid := ⟨1⟩, primary := true }, expected := 0 } ds t) ∧
        (Lts.Run (Lts.restrict (Tracked.Step given path) Tracked.Agrees)
          { state := Service.started { uuid := ⟨1⟩, primary := true }, expected := 0 } ds t →
            t.running = true → Shows given path t.state t.expected) := by
  obtain ⟨path, hpath⟩ :=
    childPath_isSome (Application.basePath_ofUuids _ _ _) "service" (by decide) 0
  exact ⟨path, hpath, fun given ds t ↦ handle_shown_iff (.serv { uuid := ⟨1⟩, primary := true })
    hpath given⟩

/-- The call that sets the handle of a descriptor to 7. -/
def setHandleCall (path : ObjectPath) : MethodCall path where
  member := "Set"
  interface := some propsIf
  body := [⟨sig String, .base bluezDesIf⟩, ⟨sig String, .base handleStr⟩,
    ⟨.variant, .variant (.base (b := .uint16) (7 : UInt16))⟩]

theorem handleSet_setHandleCall (path : ObjectPath) :
    handleSet bluezDesIf (setHandleCall path) = some 7 := rfl

/-- A descriptor cannot be given a handle on its interface. -/
theorem descriptor_refuses_handle : ¬∀ (s : WorkerState) (h : UInt16) (parent path : ObjectPath)
    (kind : String) (i : Nat) (given : Option String) (ds : List (Deed path)) (t : Tracked),
    Starts s h → childPath parent kind i = some path →
      Lts.Run (Tracked.Step given path) { state := s, expected := h } ds t →
        ∀ (d : Deed path) (t' : Tracked), t.next given d = some t' → t.Keeps given d := by
  intro hall
  let desc : Descriptor := { uuid := ⟨3⟩, flags := { read := true } }
  let t : Tracked := { state := .desc desc, expected := 0 }
  obtain ⟨path, hpath⟩ :=
    childPath_isSome (Application.basePath_ofUuids ⟨1⟩ ⟨2⟩ ⟨3⟩) "desc" (by decide) 0
  have hroot : path ≠ .root := childPath_ne_root hpath
  obtain ⟨t', hnext⟩ : ∃ t', t.next none (.property {} (setHandleCall path)) = some t' := by
    rw [Tracked.next, if_pos ⟨rfl, rfl, rfl, rfl⟩]
    exact ⟨_, rfl⟩
  have hkeeps := hall _ _ _ path _ _ none [] t (.desc desc) hpath (.nil t) _ _ hnext
  have hagrees := ((Starts.desc desc).consistent.keeps_iff hroot hnext).1.mp hkeeps
  exact Option.some_ne_none _ ((handleSet_setHandleCall path).symm.trans hagrees.1)

end Rustable.Gatt.Server
