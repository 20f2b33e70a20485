import Rustable.Gatt.Server.AppWorker
import Rustable.Gatt.Server.Granting

/-!
# Answering D-Bus calls

The dispatchers of the workers take the interface of a call for granted, and each knows a
few interfaces only; on any other call the worker panics.  On the interfaces that a worker knows
it has a reply to every call, but it can send the reply only to a call that it grants.  Such calls
are answered, each with one reply (`registered_answered_iff`); for the objects of an application,
all workers that are asked have to be still there.
-/

namespace Rustable.Gatt.Server

open DBus

/-! ## One reply -/

/-- The replies among the outputs. -/
def Out.reply? : Out → Option MarshalledMessage
  | .reply m => some m
  | _ => none

/-- A turn that answers the call with exactly one reply, after which the worker goes on. -/
def Answered {σ : Type} (call : MarshalledMessage) (ran : Ran Stop Out σ Flow) : Prop :=
  ∃ s out m, ran = .done .next s out ∧ out.filterMap Out.reply? = [m] ∧ Answers m call.dynheader

/-- A handler that returns an answer to the call, and has not sent any reply by itself. -/
def Replies {σ : Type} (call : MarshalledMessage) (ran : Ran Stop Out σ MarshalledMessage) : Prop :=
  ∃ m s out, ran = .done m s out ∧ out.filterMap Out.reply? = [] ∧ Answers m call.dynheader

theorem not_answered_stop {σ : Type} {call : MarshalledMessage} {why : Stop} {out : List Out} :
    ¬Answered call (.stop why out : Ran Stop Out σ Flow) := by
  rintro ⟨_, _, _, h, _⟩
  contradiction

theorem not_replies_stop {σ : Type} {call : MarshalledMessage} {why : Stop} {out : List Out} :
    ¬Replies call (.stop why out : Ran Stop Out σ MarshalledMessage) := by
  rintro ⟨_, _, _, h, _⟩
  contradiction

/-- A panic returns nothing. -/
theorem not_returns_none {σ : Type} {P : MarshalledMessage → Prop} :
    ¬∃ m t, (none : Option (MarshalledMessage × σ)) = some (m, t) ∧ P m := by
  rintro ⟨_, _, h, _⟩
  contradiction

theorem answered_mapState {σ τ : Type} {call : MarshalledMessage} (f : σ → τ)
    (ran : Ran Stop Out σ Flow) : Answered call (ran.mapState f) ↔ Answered call ran := by
  cases ran with
  | done flow s out =>
      constructor
      · rintro ⟨_, _, m, h, hm⟩
        obtain ⟨rfl, -, rfl⟩ := Ran.done.inj h
        exact ⟨s, out, m, rfl, hm⟩
      · rintro ⟨_, _, m, h, hm⟩
        obtain ⟨rfl, rfl, rfl⟩ := Ran.done.inj h
        exact ⟨f s, out, m, rfl, hm⟩
  | stop why out => exact iff_of_false not_answered_stop not_answered_stop

/-- A call that passes the filter is answered if the handler returns an answer that can be
sent. -/
theorem answered_replyTo_iff {σ : Type} {io : Io} (hio : io.Works) {filter : Option String}
    {call : MarshalledMessage} (hfilter : isMsgBluez call filter = true)
    {handle : Turn σ MarshalledMessage} {s : σ} {P : Prop} (hsend : SendableIff (handle s) P) :
    Answered call (Turn.replyTo io filter call handle s) ↔ Replies call (handle s) ∧ P := by
  rw [Turn.replyTo_passed hfilter]
  cases hrun : handle s with
  | stop why out =>
      exact iff_of_false not_answered_stop fun h ↦ not_replies_stop h.1
  | done res t out =>
      have hres := hsend res t out hrun
      by_cases hP : P
      swap
      · have hno : res.isSendable = false := Bool.eq_false_iff.mpr (mt hres.mp hP)
        rw [Turn.replied_unsendable hno]
        exact iff_of_false not_answered_stop fun h ↦ hP h.2
      rw [Turn.replied_sendable (hres.mpr hP) hio.sendReply, and_iff_left hP]
      have hreplies : (out ++ [Out.reply res]).filterMap Out.reply? =
          out.filterMap Out.reply? ++ [res] := List.filterMap_append
      constructor
      · rintro ⟨_, _, m, h, hone, hm⟩
        obtain ⟨-, rfl, rfl⟩ := Ran.done.inj h
        rw [hreplies] at hone
        obtain ⟨hnil, hres⟩ := List.append_inj' (hone.trans (List.nil_append [m]).symm) rfl
        obtain rfl := List.singleton_inj.mp hres
        exact ⟨_, _, _, rfl, hnil, hm⟩
      · rintro ⟨_, _, _, h, hnil, hm⟩
        obtain ⟨rfl, rfl, rfl⟩ := Ran.done.inj h
        exact ⟨_, _, _, rfl, by rw [hreplies, hnil]; rfl, hm⟩

/-- A handler that computes on a part of the state. -/
theorem replies_onPart_iff {σ τ : Type} {call : MarshalledMessage} {view : σ → τ}
    {put : σ → τ → σ} {x : MayPanic τ MarshalledMessage} {s : σ} :
    Replies call (Turn.onPart view put x s) ↔
      ∃ m t, x (view s) = some (m, t) ∧ Answers m call.dynheader := by
  cases hrun : x (view s) with
  | none =>
      rw [Turn.onPart_none hrun]
      exact iff_of_false not_replies_stop not_returns_none
  | some r =>
      obtain ⟨m, t⟩ := r
      rw [Turn.onPart_some hrun]
      constructor
      · rintro ⟨_, _, _, h, -, hm⟩
        obtain ⟨rfl, -, -⟩ := Ran.done.inj h
        exact ⟨m, t, rfl, hm⟩
      · rintro ⟨_, _, h, hm⟩
        obtain ⟨rfl, rfl⟩ := Prod.mk.inj (Option.some.inj h)
        exact ⟨_, _, _, rfl, rfl, hm⟩

/-! ## The dispatchers -/

/-- The interfaces the dispatcher of a worker knows. -/
def Kind.interfaces : Kind → List String
  | .app => [introIf, objmgrIf]
  | .serv => [propsIf, introIf]
  | .chrc => [propsIf, introIf, bluezChrIf]
  | .desc => [propsIf, introIf, bluezDesIf]

/-- The call is on an interface that the dispatcher of a worker knows. -/
def Kind.Knows (kind : Kind) {path : ObjectPath} (call : MethodCall path) : Prop :=
  ∃ interface ∈ kind.interfaces, call.interface = some interface

section Dispatchers

variable {path : ObjectPath} {call : MethodCall path} {kind : Kind}

theorem Kind.not_knows (h : call.interface = none) : ¬kind.Knows call := by
  rintro ⟨i, -, hi⟩
  rw [h] at hi
  contradiction

theorem Kind.knows_iff {interface : String} (h : call.interface = some interface) :
    kind.Knows call ↔ interface ∈ kind.interfaces := by
  constructor
  · rintro ⟨i, hi, heq⟩
    obtain rfl := Option.some.inj (h.symm.trans heq)
    exact hi
  · exact fun hi ↦ ⟨interface, hi, h⟩

/-- The dispatcher of a service. -/
theorem ServData.handleCall_answers_iff (call : MethodCall path) (s : ServData) :
    (∃ m t, handleCall call.toMessage s = some (m, t) ∧ Answers m call.toMessage.dynheader) ↔
      Kind.serv.Knows call := by
  have hinterface : call.toMessage.dynheader.interface = call.interface := rfl
  rw [handleCall, hinterface]
  cases hi : call.interface with
  | none => exact iff_of_false not_returns_none (Kind.not_knows hi)
  | some i =>
      rw [Kind.knows_iff hi, MayPanic.unwrap_some_bind, Kind.interfaces]
      split
      · next hprops =>
          obtain ⟨m, t, hrun, -, hm⟩ := Properties.propertiesCall_answers
            (readable path fun _ ↦ True) (settable path fun _ _ h ↦ h) call (s := s) trivial
          exact iff_of_true ⟨m, t, hrun, hm⟩ (hprops ▸ List.mem_cons_self)
      split
      · next hintro =>
          refine iff_of_true ⟨_, s, rfl, answers_introReply ..⟩ ?_
          exact hintro ▸ List.mem_cons_of_mem _ List.mem_cons_self
      · next hprops hintro =>
          refine iff_of_false not_returns_none fun hmem ↦ ?_
          rcases List.mem_cons.mp hmem with rfl | hmem
          · exact hprops rfl
          · exact hintro (List.mem_singleton.mp hmem)

/-- The method `ReadValue` of a descriptor answers. -/
theorem Descriptor.readValue_answers (call : MarshalledMessage) (s : Descriptor) :
    ∃ m t, readValue call s = some (m, t) ∧ Answers m call.dynheader := by
  simp only [readValue, MayPanic.get_bind]
  split
  · exact ⟨_, s, rfl, answers_makeErrorResponse ..⟩
  cases call.body.get Options with
  | error e => exact ⟨_, s, rfl, answers_makeErrorResponse ..⟩
  | ok options =>
      obtain ⟨v, hv⟩ := Option.isSome_iff_exists.mp
        (marshal_bases_isSome (s.value.toValue.1.bytes.drop (offsetOption options)))
      simp only [Body.pushParam_eq hv]
      exact ⟨_, _, rfl, (answers_makeResponse _).withBody _⟩

/-- The method `WriteValue` of a descriptor answers if the write fits. -/
theorem Descriptor.writeValue_answers {call : MarshalledMessage} {s : Descriptor}
    (hfits : WriteFits call s.value) :
    ∃ m t, writeValue call s = some (m, t) ∧ Answers m call.dynheader := by
  simp only [writeValue, MayPanic.get_bind]
  split
  · exact ⟨_, s, rfl, answers_makeErrorResponse ..⟩
  cases hbody : call.body.get (AttBytes × Options) with
  | error e => exact ⟨_, s, rfl, answers_makeErrorResponse ..⟩
  | ok args =>
      obtain ⟨attVal, options⟩ := args
      dsimp only
      split
      · obtain ⟨v, hv⟩ := Option.isSome_iff_exists.mp (hfits.update_isSome hbody)
        simp only [hv]
        exact ⟨_, _, rfl, answers_makeResponse _⟩
      · exact ⟨_, _, rfl, answers_makeResponse _⟩

/-- Every method of a descriptor answers, a `WriteValue` if it fits. -/
theorem Descriptor.method_answers {call : MarshalledMessage} {s : Descriptor} (member : String)
    (hfits : member = "WriteValue" → WriteFits call s.value) :
    ∃ m t, method call member s = some (m, t) ∧ Answers m call.dynheader := by
  unfold method
  split
  · exact readValue_answers call s
  · exact writeValue_answers (hfits rfl)
  · exact ⟨_, s, rfl, answers_makeErrorResponse ..⟩

/-- The dispatcher of a descriptor. -/
theorem Descriptor.handleCall_answers_iff (call : MethodCall path) {s : Descriptor}
    (hpath : path ≠ .root) (hfits : call.interface = some bluezDesIf →
      call.member = "WriteValue" → WriteFits call.toMessage s.value) :
    (∃ m t, handleCall call.toMessage s = some (m, t) ∧ Answers m call.toMessage.dynheader) ↔
      Kind.desc.Knows call := by
  have hinterface : call.toMessage.dynheader.interface = call.interface := rfl
  have hmember : call.toMessage.dynheader.member = some call.member := rfl
  rw [handleCall, hinterface, hmember]
  cases hi : call.interface with
  | none => exact iff_of_false not_returns_none (Kind.not_knows hi)
  | some i =>
      rw [Kind.knows_iff hi, MayPanic.unwrap_some_bind, Kind.interfaces]
      split
      · next hprops =>
          obtain ⟨m, t, hrun, -, hm⟩ := Properties.propertiesCall_answers (I := fun _ ↦ True)
            (readable hpath fun _ h ↦ h) (settable path fun _ _ h ↦ h) call (s := s) trivial
          exact iff_of_true ⟨m, t, hrun, hm⟩ (hprops ▸ List.mem_cons_self)
      split
      · next hintro =>
          refine iff_of_true ⟨_, s, rfl, answers_introReply ..⟩ ?_
          exact hintro ▸ List.mem_cons_of_mem _ List.mem_cons_self
      split
      · next hdes =>
          subst hdes
          refine iff_of_true ?_ (by simp)
          rw [MayPanic.unwrap_some_bind]
          exact method_answers call.member (hfits hi)
      · next hprops hintro hdes =>
          refine iff_of_false not_returns_none fun hmem ↦ ?_
          simp only [List.mem_cons, List.not_mem_nil, or_false] at hmem
          rcases hmem with rfl | rfl | rfl
          · exact hprops rfl
          · exact hintro rfl
          · exact hdes rfl

theorem replies_of_isQuiet {out : List Out} (h : ∀ o ∈ out, o.IsQuiet) :
    out.filterMap Out.reply? = [] := by
  refine List.filterMap_eq_nil_iff.mpr fun o ho ↦ ?_
  cases o with
  | reply m => exact absurd rfl (h _ ho m)
  | answer _ _ | signal _ | datagram _ _ => rfl

theorem replies_of_within {io : Io} (hio : io.Works) {call : MarshalledMessage} {s : ChrcData}
    {ran : Ran Stop Out ChrcData MarshalledMessage}
    (h : ran.Within (quiet ChrcData.handle (IoFails io)) (ChrcData.IsAnswer call) s) :
    Replies call ran := by
  cases ran with
  | done m t out => exact ⟨m, t, out, rfl, replies_of_isQuiet h.2.2, h.1⟩
  | stop why out =>
      obtain ⟨-, -, hfails⟩ := h.1
      exact absurd hio hfails

/-- The dispatcher of a characteristic. -/
theorem ChrcData.handleCall_replies_iff {io : Io} (hio : io.Works) (call : MethodCall path)
    {s : ChrcData} (hpath : path ≠ .root) (hfits : call.interface = some bluezChrIf →
      call.member = "WriteValue" → WriteFits call.toMessage s.value) :
    Replies call.toMessage (handleCall io call.toMessage s) ↔ Kind.chrc.Knows call := by
  have hinterface : call.toMessage.dynheader.interface = call.interface := rfl
  have hmember : call.toMessage.dynheader.member = some call.member := rfl
  rw [handleCall, hinterface, hmember]
  cases hi : call.interface with
  | none => exact iff_of_false not_replies_stop (Kind.not_knows hi)
  | some i =>
      rw [Kind.knows_iff hi, Act.unwrap_some, Act.pure_bind, Kind.interfaces]
      split
      · next hprops =>
          obtain ⟨m, t, hrun, -, hm⟩ := Properties.propertiesCall_answers (I := fun _ ↦ True)
            (readable hpath fun _ h ↦ h) (settable path fun _ _ h ↦ h) call (s := s) trivial
          exact iff_of_true (replies_onPart_iff.mpr ⟨m, t, hrun, hm⟩) (hprops ▸ List.mem_cons_self)
      split
      · next hintro =>
          refine iff_of_true ⟨_, s, [], rfl, rfl, answers_introReply ..⟩ ?_
          exact hintro ▸ List.mem_cons_of_mem _ List.mem_cons_self
      split
      · next hchr =>
          subst hchr
          refine iff_of_true ?_ (by simp)
          rw [Act.unwrap_some, Act.pure_bind]
          exact replies_of_within hio
            (within_method (fun _ h ↦ h) call.member rfl (.inl (hfits hi)))
      · next hprops hintro hchr =>
          refine iff_of_false not_replies_stop fun hmem ↦ ?_
          simp only [List.mem_cons, List.not_mem_nil, or_false] at hmem
          rcases hmem with rfl | rfl | rfl
          · exact hprops rfl
          · exact hintro rfl
          · exact hchr rfl

/-! ## No reply -/

/-- Nothing is replied, and the worker ends. -/
def EndsUnanswered {σ : Type} (ran : Ran Stop Out σ Flow) : Prop :=
  ∃ why out, ran = .stop why out ∧ out.filterMap Out.reply? = []

theorem endsUnanswered_mapState {σ τ : Type} (f : σ → τ) {ran : Ran Stop Out σ Flow}
    (h : EndsUnanswered ran) : EndsUnanswered (ran.mapState f) := by
  obtain ⟨why, out, rfl, hout⟩ := h
  exact ⟨why, out, rfl, hout⟩

/-- The reply that a handler returns cannot be sent. -/
theorem endsUnanswered_replyTo {σ : Type} {io : Io} {filter : Option String}
    {call : MarshalledMessage} (hfilter : isMsgBluez call filter = true)
    {handle : Turn σ MarshalledMessage} {s : σ} {P : Prop} (hsend : SendableIff (handle s) P)
    (hP : ¬P) (hquiet : (handle s).out.filterMap Out.reply? = []) :
    EndsUnanswered (Turn.replyTo io filter call handle s) := by
  rw [Turn.replyTo_passed hfilter]
  cases hrun : handle s with
  | stop why out =>
      rw [hrun] at hquiet
      exact ⟨why, out, rfl, hquiet⟩
  | done m t out =>
      have hno : m.isSendable = false := Bool.eq_false_iff.mpr (mt (hsend m t out hrun).mp hP)
      rw [hrun] at hquiet
      rw [Turn.replied_unsendable hno]
      exact ⟨_, out, rfl, hquiet⟩

theorem replies_onPart {σ τ : Type} (view : σ → τ) (put : σ → τ → σ)
    (x : MayPanic τ MarshalledMessage) (s : σ) :
    (Turn.onPart view put x s).out.filterMap Out.reply? = [] := by
  cases hrun : x (view s) with
  | none =>
      rw [Turn.onPart_none hrun]
      rfl
  | some r =>
      rw [Turn.onPart_some hrun]
      rfl

theorem ChrcData.replies_handleCall (io : Io) (call : MethodCall path) (s : ChrcData) :
    (handleCall io call.toMessage s).out.filterMap Out.reply? = [] := by
  have hinterface : call.toMessage.dynheader.interface = call.interface := rfl
  by_cases hchr : call.interface = some bluezChrIf
  · rw [handleCall_method (hinterface.trans hchr) (rfl : _ = some call.member)]
    have hwithin : (method io call.toMessage call.member s).Within (quiet handle fun _ ↦ True)
        (IsAnswer call.toMessage) s :=
      within_method (fun _ _ ↦ trivial) call.member rfl (.inr trivial)
    exact replies_of_isQuiet hwithin.sends
  · rw [handleCall, hinterface]
    cases hi : call.interface with
    | none => rfl
    | some interface =>
        rw [Act.unwrap_some, Act.pure_bind]
        split
        · exact replies_onPart _ _ _ s
        split
        · rfl
        split
        · next h => exact absurd (hi.trans (congrArg some h)) hchr
        · rfl

/-- The answers of the workers that are asked can be sent. -/
def SendableAnswers (asked : Asked) : Prop :=
  ∀ key path map, asked key = some (path, map) → Properties.Sendable map

/-- What the workers have answered can be sent in one map. -/
theorem SendableAnswers.insertAll {asked : Asked} (hasked : SendableAnswers asked) {keys : List Key}
    {objects : List (ObjectPath × IfAndProps)} (hobjects : keys.mapM asked = some objects) :
    Properties.Sendable (AList.insertAll ∅ objects : HashMap ObjectPath IfAndProps) := by
  intro e he
  have hlookup : (AList.insertAll ∅ objects).lookup e.1 = some e.2 := AList.mem_lookup_iff.mpr he
  refine AList.Holds.insertAll (P := fun _ map ↦ (marshal map).isSome) .empty ?_ _ _ hlookup
  intro object hobject
  obtain ⟨key, -, hkey⟩ := exists_of_mem_mapM hobjects hobject
  exact marshal_map_isSome (hasked key object.1 object.2 hkey)

/-- The objects of an application are sent if every worker that is asked for them answers. -/
theorem WorkerData.handleObjMgr_replies_iff {asked : Asked} (hasked : SendableAnswers asked)
    {call : MarshalledMessage} {s : WorkerData} :
    Replies call (handleObjMgr asked call s) ↔ ∀ key ∈ s.senders, (asked key).isSome := by
  rw [handleObjMgr, Act.read_bind, ← isSome_mapM_iff]
  cases hobjects : s.senders.mapM asked with
  | none => exact iff_of_false not_replies_stop Bool.false_ne_true
  | some objects =>
      obtain ⟨v, hv⟩ := Option.isSome_iff_exists.mp
        (marshal_map_isSome (hasked.insertAll hobjects))
      simp only [Act.unwrap_some, Act.pure_bind, Body.pushParam_eq hv]
      exact iff_of_true ⟨_, s, [], rfl, rfl, (answers_makeResponse _).withBody _⟩ rfl

/-- The dispatcher of an application. -/
theorem WorkerData.handleCall_replies_iff {asked : Asked} (hasked : SendableAnswers asked)
    (call : MethodCall path) (s : WorkerData) :
    Replies call.toMessage (handleCall asked call.toMessage s) ↔ Kind.app.Knows call ∧
      (call.interface = some objmgrIf → ∀ key ∈ s.senders, (asked key).isSome) := by
  have hinterface : call.toMessage.dynheader.interface = call.interface := rfl
  have hne : introIf ≠ objmgrIf := by decide
  rw [handleCall, hinterface]
  cases hi : call.interface with
  | none =>
      exact iff_of_false not_replies_stop fun h ↦ Kind.not_knows hi h.1
  | some i =>
      rw [Kind.knows_iff hi, Act.unwrap_some, Act.pure_bind, Kind.interfaces]
      split
      · next hintro =>
          subst hintro
          refine iff_of_true ⟨_, s, [], rfl, rfl, answers_introReply ..⟩ ⟨List.mem_cons_self, ?_⟩
          exact fun heq ↦ absurd (Option.some.inj heq) hne
      split
      · next hobjmgr =>
          subst hobjmgr
          rw [handleObjMgr_replies_iff hasked, forall_prop_of_true rfl]
          exact (and_iff_right (List.mem_cons_of_mem _ List.mem_cons_self)).symm
      · next hintro hobjmgr =>
          refine iff_of_false not_replies_stop fun h ↦ ?_
          rcases List.mem_cons.mp h.1 with rfl | hmem
          · exact hintro rfl
          · exact hobjmgr (List.mem_singleton.mp hmem)

end Dispatchers

/-! ## The objects of an attribute -/

/-- The objects in an answer. -/
def Out.objects? : Out → Option (ObjectPath × IfAndProps)
  | .answer _ (.objects path map) => some (path, map)
  | _ => none

/-- What a worker answers when it is asked for its objects. -/
def Worker.objects (worker : Worker) : Option (ObjectPath × IfAndProps) :=
  if worker.running then
    match worker.state.onMsg {} worker.path (.objMgr 0) with
    | .done _ _ out => out.findSome? Out.objects?
    | .stop _ _ => none
  else none

/-- The worker of an attribute, at a path below the root. -/
structure Worker.IsAttribute (worker : Worker) : Prop where
  kind : worker.state.kind ≠ .app
  path : worker.path ≠ .root

/-- Every attribute answers the object manager with what can be sent. -/
theorem WorkerState.onMsg_objMgr {io : Io} (hio : io.receiverAlive = true) {path : ObjectPath}
    (hpath : path ≠ .root) {s : WorkerState} (hs : s.kind ≠ .app) (sender : ReplyTo) :
    ∃ s' map, s.onMsg io path (.objMgr sender) =
      .done .next s' [.answer sender (.objects path map)] ∧ Properties.Sendable map := by
  cases s with
  | app s => contradiction
  | serv s =>
      obtain ⟨map, d, hrun, -, hsend, -⟩ := Properties.getAllInterfaces_spec
        (ServData.readable path fun _ ↦ True) (s := s.servData) trivial
      exact ⟨_, map, congrArg (·.mapState serv) (ServWorker.onMsg_objMgr hio hrun sender), hsend⟩
  | chrc s =>
      obtain ⟨map, s', hrun, -, hsend, -⟩ := Properties.getAllInterfaces_spec
        (ChrcData.readable hpath (I := fun _ ↦ True) fun _ _ ↦ trivial) (s := s) trivial
      exact ⟨_, map, congrArg (·.mapState chrc) (ChrcData.onMsg_objMgr hio hrun sender), hsend⟩
  | desc s =>
      obtain ⟨map, s', hrun, -, hsend, -⟩ := Properties.getAllInterfaces_spec
        (Descriptor.readable hpath (I := fun _ ↦ True) fun _ _ ↦ trivial) (s := s) trivial
      exact ⟨_, map, congrArg (·.mapState desc) (Descriptor.onMsg_objMgr hio hrun sender), hsend⟩

theorem Worker.IsAttribute.objects {worker : Worker} (h : worker.IsAttribute)
    (hrun : worker.running = true) :
    ∃ map, worker.objects = some (worker.path, map) ∧ Properties.Sendable map := by
  have hio : ({} : Io).receiverAlive = true := rfl
  obtain ⟨s', map, hturn, hsend⟩ := WorkerState.onMsg_objMgr hio h.path h.kind 0
  exact ⟨map, by rw [Worker.objects, if_pos hrun, hturn]; rfl, hsend⟩

/-- An attribute answers as long as its worker runs. -/
theorem Worker.IsAttribute.isSome_objects_iff {worker : Worker} (h : worker.IsAttribute) :
    worker.objects.isSome ↔ worker.running = true := by
  by_cases hrun : worker.running = true
  · obtain ⟨map, hmap, -⟩ := h.objects hrun
    exact iff_of_true (by rw [hmap]; rfl) hrun
  · rw [Worker.objects, if_neg hrun]
    exact iff_of_false Bool.false_ne_true hrun

theorem sendableAnswers_objects {workers : Key → Worker} (h : ∀ key, (workers key).IsAttribute) :
    SendableAnswers fun key ↦ (workers key).objects := by
  intro key path map hmap
  have hrun := (h key).isSome_objects_iff.mp (Option.isSome_of_eq_some hmap)
  obtain ⟨map', hmap', hsend⟩ := (h key).objects hrun
  obtain ⟨-, rfl⟩ := Prod.mk.inj (Option.some.inj (hmap.symm.trans hmap'))
  exact hsend

/-! ## Every worker -/

namespace WorkerState

/-- The filter a worker goes by: the worker of the application has its own. -/
def filter (given : Option String) : WorkerState → Option String
  | app s => s.appData.filter
  | serv _ | chrc _ | desc _ => given

/-- If the call is a `WriteValue`, it fits what is stored. -/
def WriteFits {path : ObjectPath} (call : MethodCall path) : WorkerState → Prop
  | app _ | serv _ => True
  | chrc s => call.interface = some bluezChrIf → call.member = "WriteValue" →
      Server.WriteFits call.toMessage s.value
  | desc s => call.interface = some bluezDesIf → call.member = "WriteValue" →
      Server.WriteFits call.toMessage s.value

/-- The workers that are asked for the objects of an application. -/
def senders : WorkerState → List Key
  | app s => s.appData.senders
  | serv _ | chrc _ | desc _ => []

/-- **A call is answered if and only if it is on an interface the dispatcher knows, the object
grants it and, if it is for the object manager, all workers that are asked answer.** -/
theorem answered_iff {io : Io} (hio : io.Works) {path : ObjectPath} {given : Option String}
    {s : WorkerState} (hpath : s.kind ≠ .app → path ≠ .root) {call : MethodCall path}
    (hfilter : isMsgBluez call.toMessage (s.filter given) = true)
    (hfits : s.WriteFits call) {asked : Asked}
    (hasked : SendableAnswers asked) :
    Answered call.toMessage (s.onCall io given asked call.toMessage) ↔
      s.kind.Knows call ∧ s.Grants io call ∧
        (call.interface = some objmgrIf → ∀ key ∈ s.senders, (asked key).isSome) := by
  rw [and_left_comm, and_comm]
  cases s with
  | app s =>
      have hrun : Act.read >>= (fun self : WorkerData ↦ Turn.replyTo io self.filter call.toMessage
          (WorkerData.handleCall asked call.toMessage)) =
          WorkerData.handleApp io asked call.toMessage := rfl
      refine (answered_mapState app _).trans ((answered_mapState _ _).trans ?_)
      rw [← hrun, Act.read_bind]
      exact (answered_replyTo_iff hio hfilter (WorkerData.sendable_handleCall asked s.appData)).trans
        (and_congr_left fun _ ↦ WorkerData.handleCall_replies_iff hasked call s.appData)
  | serv s =>
      have hiff : Answered call.toMessage (ServWorker.onCall io given call.toMessage s) ↔
          Kind.serv.Knows call ∧ Grants io call (.serv s) := by
        refine (answered_replyTo_iff hio hfilter (ServData.sendable_handleCall io s)).trans ?_
        refine and_congr_left fun _ ↦ replies_onPart_iff.trans ?_
        exact ServData.handleCall_answers_iff call s.servData
      refine (answered_mapState serv _).trans (hiff.trans ?_)
      exact and_congr_left fun _ ↦ (and_iff_left fun _ ↦ List.forall_mem_nil _).symm
  | chrc s =>
      have hne : path ≠ .root := hpath Kind.noConfusion
      have hiff : Answered call.toMessage (ChrcData.onCall io given call.toMessage s) ↔
          Kind.chrc.Knows call ∧ Grants io call (.chrc s) := by
        refine (answered_replyTo_iff hio hfilter (ChrcData.sendable_handleCall io hne s)).trans ?_
        exact and_congr_left fun _ ↦ ChrcData.handleCall_replies_iff hio call hne hfits
      refine (answered_mapState chrc _).trans (hiff.trans ?_)
      exact and_congr_left fun _ ↦ (and_iff_left fun _ ↦ List.forall_mem_nil _).symm
  | desc s =>
      have hne : path ≠ .root := hpath Kind.noConfusion
      have hiff : Answered call.toMessage (Descriptor.onCall io given call.toMessage s) ↔
          Kind.desc.Knows call ∧ Grants io call (.desc s) := by
        refine (answered_replyTo_iff hio hfilter (Descriptor.sendable_handleCall io hne s)).trans ?_
        refine and_congr_left fun _ ↦ replies_onPart_iff.trans ?_
        exact Descriptor.handleCall_answers_iff call hne hfits
      refine (answered_mapState desc _).trans (hiff.trans ?_)
      exact and_congr_left fun _ ↦ (and_iff_left fun _ ↦ List.forall_mem_nil _).symm

/-- **The worker of an object ends on a call that it does not grant**, and answers nothing. -/
theorem endsUnanswered_of_not_grants {io : Io} {path : ObjectPath} {given : Option String}
    {s : WorkerState} (hpath : s.kind ≠ .app → path ≠ .root) {call : MethodCall path}
    (hfilter : isMsgBluez call.toMessage (s.filter given) = true) (hgrants : ¬s.Grants io call)
    (asked : Asked) : EndsUnanswered (s.onCall io given asked call.toMessage) := by
  cases s with
  | app s => exact absurd trivial hgrants
  | serv s =>
      refine endsUnanswered_mapState serv ?_
      exact endsUnanswered_replyTo hfilter (ServData.sendable_handleCall io s) hgrants
        (replies_onPart _ _ _ s)
  | chrc s =>
      have hne : path ≠ .root := hpath Kind.noConfusion
      refine endsUnanswered_mapState chrc ?_
      exact endsUnanswered_replyTo hfilter (ChrcData.sendable_handleCall io hne s) hgrants
        (ChrcData.replies_handleCall io call s)
  | desc s =>
      have hne : path ≠ .root := hpath Kind.noConfusion
      refine endsUnanswered_mapState desc ?_
      exact endsUnanswered_replyTo hfilter (Descriptor.sendable_handleCall io hne s) hgrants
        (replies_onPart _ _ _ s)

end WorkerState

/-- The workers of attributes are at paths below the root. -/
def AppWorker.Below (self : AppWorker) : Prop :=
  self.workers.Holds fun _ worker ↦ worker.state.kind ≠ .app → worker.path ≠ .root

/-- They stay there. -/
theorem Application.below_of_reachable {self : Application} {bus : Bus} {app t : AppWorker}
    (h : self.register bus = pure app) (ht : Lts.Reachable AppWorker.Step app t) : t.Below := by
  have hstep (s : AppWorker) (e : Event) (t : AppWorker) (hs : s.Below)
      (hst : AppWorker.Step s e t) : t.Below := by
    refine (AppWorker.next_follows hst).holds hs fun key worker worker' _ hfollows hpath ↦ ?_
    rw [hfollows.kind, hfollows.path]
    exact hpath
  refine ht.invariant hstep (register_holds h ?_ ?_ ?_)
  · exact fun e _ worker hfresh _ _ ↦ hfresh.path
  · exact fun serv _ worker paths hpath ↦ hpath
  · exact fun s path hne ↦ absurd rfl hne

/-- **Whatever has happened to a registered application, a call to one of its objects is
answered, with one reply, if and only if it is on an interface that the dispatcher of the
object knows, the object grants it and, if it is for the object manager, the workers that are
asked still run when it is their turn.** -/
theorem registered_answered_iff {self : Application} {bus : Bus} {app t : AppWorker}
    (h : self.register bus = pure app) (ht : Lts.Reachable AppWorker.Step app t) {key : Key}
    {worker : Worker} (hworker : t.awake key = some worker) {io : Io} (hio : io.Works)
    (call : MethodCall worker.path)
    (hfilter : isMsgBluez call.toMessage (worker.state.filter t.filter) = true)
    (hfits : worker.state.WriteFits call)
    (later : Key → Worker) (hlater : ∀ key, (later key).IsAttribute) :
    Answered call.toMessage
        (worker.state.onCall io t.filter (fun key ↦ (later key).objects) call.toMessage) ↔
      worker.state.kind.Knows call ∧ worker.state.Grants io call ∧
        (call.interface = some objmgrIf →
          ∀ key ∈ worker.state.senders, (later key).running = true) := by
  have hpath := Application.below_of_reachable h ht key worker (AppWorker.lookup_of_awake hworker).1
  have hasked := sendableAnswers_objects hlater
  refine (WorkerState.answered_iff hio hpath hfilter hfits hasked).trans ?_
  refine and_congr_right fun _ ↦ and_congr_right fun _ ↦ imp_congr_right fun _ ↦ ?_
  exact forall₂_congr fun key _ ↦ (hlater key).isSome_objects_iff

/-- A call of the Bluetooth daemon passes every filter. -/
theorem isMsgBluez_of_sender {call : MarshalledMessage} (h : call.dynheader.sender = some bluezDest)
    (filter : Option String) : isMsgBluez call filter = true := by
  cases filter with
  | none => rfl
  | some name => simp [isMsgBluez, h]

/-- The daemon has an object introspected. -/
def introspectCall (path : ObjectPath) : MethodCall path where
  member := "Introspect"
  interface := some introIf
  sender := some bluezDest

/-- The worker of a service. -/
def Worker.ofService : Worker where
  state := .serv (ServWorker.start { uuid := ⟨1⟩, primary := true } 0)
  path := ⟨["app".toList, "service0000".toList], by decide⟩

theorem Worker.isAttribute_ofService : Worker.ofService.IsAttribute where
  kind := nofun
  path h := List.cons_ne_nil _ _ (congrArg ObjectPath.elements h)

theorem Io.works_default : ({} : Io).Works :=
  ⟨rfl, rfl, rfl, ⟨false, rfl⟩, ⟨_, rfl⟩⟩

/-- The calls of the Bluetooth daemon to an application with one attribute of each kind. -/
theorem registered_answered_iff_ofUuids : ∃ app worker,
    (Application.ofUuids ⟨1⟩ ⟨2⟩ ⟨3⟩).register .working = pure app ∧
      app.awake (0, 0, 0) = some worker ∧ ∀ call : MethodCall worker.path,
        call.sender = some bluezDest →
          (Answered call.toMessage (worker.state.onCall {} app.filter
            (fun _ ↦ Worker.ofService.objects) call.toMessage) ↔
          worker.state.kind.Knows call ∧ worker.state.Grants {} call ∧
            (call.interface = some objmgrIf →
              ∀ _ ∈ worker.state.senders, Worker.ofService.running = true)) := by
  obtain ⟨app, happ⟩ := Application.register_ofUuids ⟨1⟩ ⟨2⟩ ⟨3⟩
  obtain ⟨s, hawake⟩ := Application.awake_of_register happ
  refine ⟨app, _, happ, hawake, fun call hsender ↦ ?_⟩
  exact registered_answered_iff happ (.refl app) hawake Io.works_default call
    (isMsgBluez_of_sender hsender _) trivial (fun _ ↦ .ofService)
    fun _ ↦ Worker.isAttribute_ofService

/-- A call without an interface is not answered. -/
theorem call_without_interface_unanswered : ¬∀ (self : Application) (bus : Bus) (app t : AppWorker),
    self.register bus = pure app → Lts.Reachable AppWorker.Step app t → ∀ key worker,
      t.awake key = some worker → ∀ io : Io, io.Works → ∀ call : MethodCall worker.path,
        isMsgBluez call.toMessage (worker.state.filter t.filter) = true →
        worker.state.WriteFits call → ∀ later : Key → Worker, (∀ key, (later key).IsAttribute) →
          Answered call.toMessage (worker.state.onCall io t.filter
            (fun key ↦ (later key).objects) call.toMessage) := by
  intro hall
  obtain ⟨app, happ⟩ := Application.register_ofUuids ⟨1⟩ ⟨2⟩ ⟨3⟩
  obtain ⟨s, hawake⟩ := Application.awake_of_register happ
  let call : MethodCall (Application.ofUuids ⟨1⟩ ⟨2⟩ ⟨3⟩).basePath :=
    { member := "Introspect", sender := some bluezDest }
  have hfilter : isMsgBluez call.toMessage s.appData.filter = true := isMsgBluez_of_sender rfl _
  have hlater (key : Key) : ((fun _ ↦ .ofService : Key → Worker) key).IsAttribute :=
    Worker.isAttribute_ofService
  have hanswered := hall _ _ app app happ (.refl app) _ _ hawake {} Io.works_default call hfilter
    trivial _ hlater
  have hknows := ((WorkerState.answered_iff (s := .app s) Io.works_default
    (fun hne ↦ absurd rfl hne) hfilter trivial (sendableAnswers_objects hlater)).mp hanswered).1
  exact Kind.not_knows rfl hknows

end Rustable.Gatt.Server
