import Rustable.Gatt.Server.Task

/-!
# What turns may do

Bounds on the turns of workers.  A turn with a worker message, and a method of a
characteristic, keeps the handle, sends no reply, and stops only for a reason that is
allowed (`quiet`): if an operation on a socket or on the connection fails, and panics only
on the messages in `Kind.Panics`.  There is one lemma for each action, up to the methods and
the messages.
-/

namespace Rustable.Gatt.Server

open DBus

/-- Not a reply. -/
def Out.IsQuiet (o : Out) : Prop := ∀ m, o ≠ .reply m

theorem Out.isQuiet_answer (sender : ReplyTo) (a : Answer) : (answer sender a).IsQuiet := by
  intro m h
  contradiction

theorem Out.isQuiet_signal (m : MarshalledMessage) : (signal m).IsQuiet := by
  intro m' h
  contradiction

theorem Out.isQuiet_datagram (sock : UnixFd) (bytes : List UInt8) :
    (datagram sock bytes).IsQuiet := by
  intro m h
  contradiction

/-- Stopping because an operation on a socket or on the connection has failed. -/
def IoFails (io : Io) (why : Stop) : Prop := ∃ e, why = .error e ∧ ¬io.Works

/-- The value and the options of a `WriteValue` call fit what is stored: the offset is
within the value, and the end within 512 bytes. -/
def WriteFits (call : MarshalledMessage) (stored : ValOrFn) : Prop :=
  ∀ attVal options, call.body.get (AttBytes × Options) = .ok (attVal, options) →
    offsetOption options ≤ stored.toValue.1.bytes.length ∧
      offsetOption options + attVal.bytes.length ≤ 512

theorem WriteFits.update_isSome {call : MarshalledMessage} {stored : ValOrFn}
    (h : WriteFits call stored) {attVal : AttBytes} {options : Options}
    (hbody : call.body.get (AttBytes × Options) = .ok (attVal, options)) :
    (stored.toValue.1.update attVal.bytes (offsetOption options)).isSome := by
  obtain ⟨hoffset, hend⟩ := h attVal options hbody
  have hlen :
      (stored.toValue.1.bytes.take (offsetOption options) ++ attVal.bytes).length ≤ 512 := by
    rw [List.length_append, List.length_take_of_le hoffset]
    exact hend
  rw [AttBytes.update, if_pos hoffset, fits_of_le hlen]
  rfl

/-- What `f` says of the state is kept, no reply is sent, and the action stops for a reason
in `S`. -/
def quiet {σ α : Type} (f : σ → α) (S : Stop → Prop) : Effect Stop Out σ where
  changes s s' := f s' = f s
  sends := Out.IsQuiet
  stops := S
  refl _ := rfl
  trans h h' := h'.trans h

section Answers

variable {σ τ : Type} {e : Effect Stop Out σ} {io : Io} {path : ObjectPath}

theorem within_answer {sender : ReplyTo} {a : Answer}
    (he : io.receiverAlive = true → e.sends (.answer sender a)) :
    Act.Within e (fun _ ↦ True) (Turn.answer io sender a) :=
  .ite (fun h ↦ .emit (he h) trivial) fun _ ↦ .pure trivial

theorem within_answerOrStop {sender : ReplyTo} {a : Answer} (he : e.sends (.answer sender a))
    (hstop : io.receiverAlive = false → e.stops (.error .threadClosed)) :
    Act.Within e (fun _ ↦ True) (Turn.answerOrStop io sender a) :=
  .ite (fun _ ↦ .emit he trivial) fun h ↦ .stop (hstop (Bool.not_eq_true _ ▸ h))

/-- Collecting the properties keeps what reading one of them keeps. -/
theorem within_getAllInterfaces [Properties τ] {view : σ → τ} {put : σ → τ → σ}
    (h : ∀ s, Properties.Readable path fun t ↦ e.changes s (put s t))
    (hview : ∀ s, put s (view s) = s) :
    Act.Within e (fun _ ↦ True) (Turn.onPart view put (Properties.getAllInterfaces path)) := by
  intro s
  have hs : e.changes s (put s (view s)) := by
    rw [hview]
    exact e.refl s
  obtain ⟨map, t, hrun, ht, -⟩ := Properties.getAllInterfaces_spec (h s) hs
  rw [Turn.onPart_some hrun]
  exact ⟨trivial, ht, fun _ ho ↦ nomatch ho⟩

/-- A `GetHandle` is answered unless the handle is zero. -/
theorem within_getHandle {Q : Flow → Prop} (handle : σ → UInt16)
    {answer : NonZeroU16 → Turn σ Flow} {s : σ}
    (hzero : handle s = 0 → e.stops .panic)
    (hanswer : ∀ h, Act.Within e Q (answer h)) :
    ((do
      let handle ← Act.unwrap .panic (nonZeroU16 (handle (← Act.read)))
      answer handle : Turn σ Flow) s).Within e Q s := by
  rw [Act.read_bind]
  cases hh : nonZeroU16 (handle s) with
  | none => exact Act.Within.stop (hzero (nonZeroU16_eq_none.mp hh)) s
  | some h =>
      rw [Act.unwrap_some, Act.pure_bind]
      exact hanswer h s

end Answers

namespace ChrcData

variable {io : Io} {S : Stop → Prop} {path : ObjectPath}

/-- An operation that may fail. -/
theorem within_check {α : Type} {Q : α → Prop} (hS : ∀ why, IoFails io why → S why)
    {r : Except IoError α} (hr : io.Works → ∃ a, r = .ok a) (hQ : ∀ a, r = .ok a → Q a) :
    Act.Within (quiet handle S) Q (Turn.check r) := by
  cases r with
  | ok a => exact .pure (hQ a rfl)
  | error e =>
      apply Act.Within.stop
      apply hS
      refine ⟨.io e, rfl, fun hio ↦ ?_⟩
      obtain ⟨a, ha⟩ := hr hio
      contradiction

theorem within_toValue {e : Effect Stop Out ChrcData}
    (he : ∀ s, e.changes s { s with value := s.value.toValue.2 }) :
    Act.Within e (fun _ ↦ True) toValue :=
  .embed he fun _ ↦ trivial

theorem within_setNotify (notify : Notify) :
    Act.Within (quiet handle S) (fun _ ↦ True) (setNotify notify) :=
  .modify (fun _ ↦ rfl) trivial

/-- The signal can always be built. -/
theorem propertiesChanged_isSome (path : ObjectPath) (attVal : AttBytes) :
    (propertiesChanged path attVal).isSome := by
  have hbuf : (marshal (BluezOptions.buf attVal.bytes)).isSome :=
    BluezOptions.marshal_isSome fun _ h ↦ nomatch h
  have hmap : Properties.Sendable ((∅ : PropMap).insert "Value" (.buf attVal.bytes)) :=
    Properties.Sendable.empty.insert hbuf _
  obtain ⟨w, hw⟩ := Option.isSome_iff_exists.mp (marshal_map_isSome hmap)
  have hname (body : Body) : body.pushParam bluezChrIf =
      some (body ++ [⟨sig String, .base bluezChrIf⟩]) := rfl
  simp only [propertiesChanged, hname, Option.bind_eq_bind, Option.bind_some,
    Body.pushParam_eq hw]
  rfl

theorem within_valueOr (optAtt : Option AttBytes) :
    Act.Within (quiet handle S) (fun _ ↦ True) (valueOr optAtt) := by
  cases optAtt with
  | some v => exact .pure trivial
  | none => exact within_toValue fun _ ↦ rfl

theorem within_sendNotification (hS : ∀ why, IoFails io why → S why) (optAtt : Option AttBytes) :
    Act.Within (quiet handle S) (fun _ ↦ True) (sendNotification io path optAtt) := by
  apply Act.Within.seq (within_valueOr optAtt)
  intro attVal
  apply Act.Within.read
  intro self
  split
  · exact .pure trivial
  · split
    · exact .seq (.emit (Out.isQuiet_datagram _ _) trivial) fun _ ↦ .pure trivial
    · exact .seq (within_setNotify _) fun _ ↦ .pure trivial
  · obtain ⟨sig, hsig⟩ := Option.isSome_iff_exists.mp (propertiesChanged_isSome path attVal)
    rw [hsig, Act.unwrap_some, Act.pure_bind]
    apply Act.Within.seq (within_check hS (fun hio ↦ ⟨(), hio.sendSignal⟩) fun _ _ ↦ trivial)
    intro _
    exact .seq (.emit (Out.isQuiet_signal sig) trivial) fun _ ↦ .pure trivial

theorem within_notifyIf (hS : ∀ why, IoFails io why → S why) (notify : Bool) :
    Act.Within (quiet handle S) (fun _ ↦ True) (notifyIf io path notify) := by
  apply Act.Within.ite
  · intro _
    exact .seq (within_sendNotification hS none) fun _ ↦ .pure trivial
  · intro _
    exact .pure trivial

theorem within_handleWrite (hS : ∀ why, IoFails io why → S why) (attVal : AttBytes) :
    Act.Within (quiet handle S) (fun _ ↦ True) (handleWrite io path attVal) := by
  have hcall : Act.Within (quiet handle S) (fun _ ↦ True) (callWriteCallback attVal) :=
    .embed (fun _ ↦ rfl) fun _ ↦ trivial
  exact hcall.seq fun notify ↦ within_notifyIf hS notify

/-! ## Methods -/

section Methods

variable {call : MarshalledMessage}

/-- An answer to the call. -/
abbrev IsAnswer (call : MarshalledMessage) (m : MarshalledMessage) : Prop :=
  Answers m call.dynheader

theorem within_error {e : Effect Stop Out ChrcData} (errorName : String) :
    Act.Within e (IsAnswer call) (pure (call.dynheader.makeErrorResponse errorName none)) :=
  .pure (answers_makeErrorResponse ..)

theorem within_readValue {e : Effect Stop Out ChrcData}
    (he : ∀ s, e.changes s { s with value := s.value.toValue.2 }) :
    Act.Within e (IsAnswer call) (readValue call) := by
  apply Act.Within.read
  intro self
  apply Act.Within.ite
  · intro _
    exact within_error _
  intro _
  split
  · exact within_error _
  · next options _ =>
      apply Act.Within.seq (within_toValue he)
      intro attVal
      obtain ⟨v, hv⟩ := Option.isSome_iff_exists.mp
        (marshal_bases_isSome (attVal.bytes.drop (offsetOption options)))
      simp only [Body.pushParam_eq hv, Act.unwrap_some, Act.pure_bind]
      exact .pure ((answers_makeResponse _).withBody _)

theorem within_acquired (fd : UnixFd) (mtu : Nat) :
    Act.Within (quiet handle S) (IsAnswer call) (acquired call fd mtu) :=
  .pure ((answers_makeResponse _).withBody _)

theorem within_sessionInTheWay (hS : ∀ why, IoFails io why → S why) :
    Act.Within (quiet handle S) (fun _ ↦ True) (sessionInTheWay io) := by
  apply Act.Within.read
  intro self
  split
  · exact .pure trivial
  · apply Act.Within.seq (within_check hS (fun hio ↦ hio.isHungUp) fun _ _ ↦ trivial)
    intro hungUp
    apply Act.Within.ite
    · intro _
      exact .seq (within_setNotify _) fun _ ↦ .pure trivial
    · intro _
      exact .pure trivial
  · exact .pure trivial

theorem within_acquireNotify (hS : ∀ why, IoFails io why → S why) :
    Act.Within (quiet handle S) (IsAnswer call) (acquireNotify io call) := by
  apply Act.Within.read
  intro self
  apply Act.Within.ite
  · intro _
    exact within_error _
  intro _
  apply Act.Within.seq (within_sessionInTheWay hS)
  intro inTheWay
  apply Act.Within.ite
  · intro _
    exact within_error _
  intro _
  split
  · exact within_error _
  · apply Act.Within.seq (within_check hS (fun hio ↦ hio.getSockSeqpacket) fun _ _ ↦ trivial)
    intro fds
    exact .seq (within_setNotify _) fun _ ↦ within_acquired _ _

theorem within_acquireWrite (hS : ∀ why, IoFails io why → S why) :
    Act.Within (quiet handle S) (IsAnswer call) (acquireWrite io call) := by
  apply Act.Within.read
  intro self
  apply Act.Within.ite
  · intro _
    exact within_error _
  intro _
  apply Act.Within.ite
  · intro _
    exact within_error _
  intro _
  split
  · exact within_error _
  · apply Act.Within.seq (within_check hS (fun hio ↦ hio.getSockSeqpacket) fun _ _ ↦ trivial)
    intro fds
    exact .seq (.modify (fun _ ↦ rfl) trivial) fun _ ↦ within_acquired _ _

theorem within_startNotify : Act.Within (quiet handle S) (IsAnswer call) (startNotify call) := by
  apply Act.Within.read
  intro self
  apply Act.Within.ite
  · intro _
    exact within_error _
  intro _
  split
  · exact within_error _
  · exact within_error _
  · exact .seq (within_setNotify _) fun _ ↦ .pure (answers_makeResponse _)

theorem within_stopNotify : Act.Within (quiet handle S) (IsAnswer call) (stopNotify call) := by
  apply Act.Within.read
  intro self
  apply Act.Within.ite
  · intro _
    exact within_error _
  intro _
  exact .seq (within_setNotify _) fun _ ↦ .pure (answers_makeResponse _)

/-- A write panics when it does not fit. -/
theorem within_updated (attVal : AttBytes) (offset : Nat) (s : ChrcData)
    (hfits : offset ≠ 0 → (s.value.toValue.1.update attVal.bytes offset).isSome ∨ S .panic) :
    (updated attVal offset s).Within (quiet handle S) (fun _ ↦ True) s := by
  rw [updated]
  split
  · next hoffset =>
      rw [toValue, Act.embed_bind]
      cases hval : s.value.toValue.1.update attVal.bytes offset with
      | some v => exact ⟨trivial, rfl, fun _ ho ↦ nomatch ho⟩
      | none =>
          have hpanic := (hfits hoffset).resolve_left (by rw [hval]; exact Bool.false_ne_true)
          exact ⟨hpanic, fun _ ho ↦ nomatch ho⟩
  · exact ⟨trivial, rfl, fun _ ho ↦ nomatch ho⟩

theorem within_writeValue (hS : ∀ why, IoFails io why → S why) {s : ChrcData}
    (hpath : call.dynheader.object = some path) (hfits : WriteFits call s.value ∨ S .panic) :
    (writeValue io call s).Within (quiet handle S) (IsAnswer call) s := by
  rw [writeValue, Act.read_bind]
  split
  · exact within_error _ s
  cases hbody : call.body.get (AttBytes × Options) with
  | error e => exact within_error _ s
  | ok args =>
      obtain ⟨attVal, options⟩ := args
      refine Act.within_bind (Q := fun _ ↦ True) ?_ ?_
      · refine within_updated attVal _ s fun _ ↦ ?_
        exact hfits.imp_left fun h ↦ h.update_isSome hbody
      · intro attVal' t _
        rw [hpath, Act.unwrap_some, Act.pure_bind]
        have hwrite : Act.Within (quiet handle S) (IsAnswer call) (do
            handleWrite io path attVal'
            return call.dynheader.makeResponse) :=
          (within_handleWrite hS attVal').seq fun _ ↦ .pure (answers_makeResponse _)
        exact hwrite t

/-- Every method answers, and stops for reasons in `S` only; a `WriteValue` has to fit. -/
theorem within_method (hS : ∀ why, IoFails io why → S why) {s : ChrcData} (member : String)
    (hpath : call.dynheader.object = some path)
    (hfits : (member = "WriteValue" → WriteFits call s.value) ∨ S .panic) :
    (method io call member s).Within (quiet handle S) (IsAnswer call) s := by
  unfold method
  split
  · exact within_readValue (fun _ ↦ rfl) s
  · exact within_writeValue hS hpath (hfits.imp_left fun h ↦ h rfl)
  · exact within_acquireNotify hS s
  · exact within_acquireWrite hS s
  · exact within_startNotify s
  · exact within_stopNotify s
  · exact within_error _ s

end Methods

end ChrcData

/-! ## Messages -/

/-- The messages the loops of the workers are written for. -/
def Kind.accepts : Kind → WorkerMsg → Bool
  | .app, .unregister => true
  | .app, _ => false
  | .serv, .unregister | .serv, .objMgr _ | .serv, .getHandle _ | .serv, .includedPaths _ => true
  | .serv, _ => false
  | .chrc, .includedPaths _ => false
  | .chrc, _ => true
  | .desc, .unregister | .desc, .update _ _ | .desc, .get _ | .desc, .getHandle _
  | .desc, .objMgr _ => true
  | .desc, _ => false

/-- The messages a worker with the handle panics on: those its loop is not written for, and
`GetHandle` if there is no handle. -/
def Kind.Panics (kind : Kind) (handle : UInt16) (msg : WorkerMsg) : Prop :=
  kind.accepts msg = false ∨ (∃ sender, msg = .getHandle sender) ∧ handle = 0

section Messages

variable {io : Io} {S : Stop → Prop} {path : ObjectPath} {msg : WorkerMsg}

theorem ServWorker.within_onMsg (hS : ∀ e, S (.error e)) {s : ServWorker}
    (hmsg : Kind.serv.Panics s.self.handle msg → S .panic) :
    (onMsg io path msg s).Within (quiet (fun w ↦ (w.self.handle, w.servData.handle)) S)
      (fun _ ↦ True) s := by
  have hanswer (sender : ReplyTo) (a : Answer) :
      Act.Within (quiet (fun w : ServWorker ↦ (w.self.handle, w.servData.handle)) S)
        (fun _ ↦ True) (Turn.answerOrStop io sender a) :=
    within_answerOrStop (Out.isQuiet_answer sender a) fun _ ↦ hS _
  cases msg with
  | unregister => exact Act.Within.pure trivial s
  | includedPaths paths =>
      exact Act.Within.seq (.modify (fun _ ↦ rfl) trivial) (fun _ ↦ .pure trivial) s
  | objMgr sender =>
      refine Act.Within.seq (within_getAllInterfaces (fun s ↦ ServData.readable path _) fun _ ↦ rfl)
        (fun _ ↦ ?_) s
      exact .seq (hanswer sender _) fun _ ↦ .pure trivial
  | getHandle sender =>
      refine within_getHandle (fun w : ServWorker ↦ w.self.handle)
        (fun h ↦ hmsg (.inr ⟨⟨sender, rfl⟩, h⟩)) fun h ↦ ?_
      exact .seq (hanswer sender _) fun _ ↦ .pure trivial
  | update _ _ | get _ | notify _ | notifying _ | notifyAcquired _ | notifyingSignal _ =>
      exact Act.Within.stop (hmsg (.inl rfl)) s

theorem Descriptor.within_onMsg (hS : ∀ e, S (.error e)) (hpath : path ≠ .root) {s : Descriptor}
    (hmsg : Kind.desc.Panics s.handle msg → S .panic) :
    (onMsg io path msg s).Within (quiet handle S) (fun _ ↦ True) s := by
  have hanswer (sender : ReplyTo) (a : Answer) :
      Act.Within (quiet handle S) (fun _ ↦ True) (Turn.answerOrStop io sender a) :=
    within_answerOrStop (Out.isQuiet_answer sender a) fun _ ↦ hS _
  cases msg with
  | unregister => exact Act.Within.pure trivial s
  | update vf notify =>
      exact Act.Within.seq (.modify (fun _ ↦ rfl) trivial) (fun _ ↦ .pure trivial) s
  | get sender =>
      refine Act.Within.seq (.embed (fun _ ↦ rfl) fun _ ↦ trivial) (fun _ ↦ ?_) s
      exact .seq (hanswer sender _) fun _ ↦ .pure trivial
  | objMgr sender =>
      have hobjects : Act.Within (quiet handle S) (fun _ ↦ True)
          (Turn.ofMayPanic (Properties.getAllInterfaces path) : Turn Descriptor IfAndProps) :=
        within_getAllInterfaces (fun s ↦ readable hpath (I := (handle · = s.handle))
          fun _ h ↦ h) fun _ ↦ rfl
      refine hobjects.seq (fun _ ↦ ?_) s
      exact .seq (hanswer sender _) fun _ ↦ .pure trivial
  | getHandle sender =>
      refine within_getHandle handle (fun h ↦ hmsg (.inr ⟨⟨sender, rfl⟩, h⟩)) fun h ↦ ?_
      exact .seq (hanswer sender _) fun _ ↦ .pure trivial
  | includedPaths _ | notify _ | notifying _ | notifyAcquired _ | notifyingSignal _ =>
      exact Act.Within.stop (hmsg (.inl rfl)) s

theorem ChrcData.within_onMsg (hS : ∀ e, S (.error e)) (hpath : path ≠ .root) {s : ChrcData}
    (hmsg : Kind.chrc.Panics s.handle msg → S .panic) :
    (onMsg io path msg s).Within (quiet handle S) (fun _ ↦ True) s := by
  have hio : ∀ why, IoFails io why → S why := by
    rintro _ ⟨e, rfl, -⟩
    exact hS e
  have hanswer (sender : ReplyTo) (a : Answer) :
      Act.Within (quiet handle S) (fun _ ↦ True) (Turn.answer io sender a) :=
    within_answer fun _ ↦ Out.isQuiet_answer sender a
  have hflag (sender : ReplyTo) (b : ChrcData → Bool) :
      Act.Within (quiet handle S) (fun _ ↦ True) (do
        let self ← Act.read
        Turn.answer io sender (.flag (b self))
        return Flow.next : Turn ChrcData Flow) :=
    .read fun _ ↦ .seq (hanswer sender _) fun _ ↦ .pure trivial
  cases msg with
  | unregister => exact Act.Within.pure trivial s
  | update vf notify =>
      refine Act.Within.seq (.modify (fun _ ↦ rfl) trivial) (fun _ ↦ ?_) s
      exact .seq (within_notifyIf hio notify) fun _ ↦ .pure trivial
  | objMgr sender =>
      have hobjects : Act.Within (quiet handle S) (fun _ ↦ True)
          (Turn.ofMayPanic (Properties.getAllInterfaces path) : Turn ChrcData IfAndProps) :=
        within_getAllInterfaces (fun s ↦ readable hpath (I := (handle · = s.handle))
          fun _ h ↦ h) fun _ ↦ rfl
      refine hobjects.seq (fun _ ↦ ?_) s
      exact .seq (hanswer sender _) fun _ ↦ .pure trivial
  | get sender =>
      refine Act.Within.seq (within_toValue fun _ ↦ rfl) (fun _ ↦ ?_) s
      exact .seq (hanswer sender _) fun _ ↦ .pure trivial
  | getHandle sender =>
      refine within_getHandle handle (fun h ↦ hmsg (.inr ⟨⟨sender, rfl⟩, h⟩)) fun h ↦ ?_
      exact .seq (hanswer sender _) fun _ ↦ .pure trivial
  | notify optAtt =>
      exact Act.Within.seq (within_sendNotification hio optAtt) (fun _ ↦ .pure trivial) s
  | notifying sender => exact hflag sender _ s
  | notifyAcquired sender => exact hflag sender _ s
  | notifyingSignal sender => exact hflag sender _ s
  | includedPaths paths => exact Act.Within.stop (hmsg (.inl rfl)) s

/-! ## Any worker -/

namespace WorkerState

/-- The handle that a worker gives back in the end, and answers a `GetHandle` with; an
application has none. -/
def attHandle : WorkerState → UInt16
  | app _ => 0
  | serv s => s.self.handle
  | chrc s => s.handle
  | desc s => s.handle

/-- The handle that the properties show. -/
def propHandle : WorkerState → UInt16
  | app _ => 0
  | serv s => s.servData.handle
  | chrc s => s.handle
  | desc s => s.handle

theorem within_mapState {σ τ α β γ : Type} {Q : γ → Prop} {f : σ → α} {f' : τ → β} (g : σ → τ)
    (hg : ∀ s s', f s' = f s → f' (g s') = f' (g s)) {ran : Ran Stop Out σ γ} {s : σ}
    (h : ran.Within (quiet f S) Q s) : (ran.mapState g).Within (quiet f' S) Q (g s) := by
  cases ran with
  | done a s' out => exact ⟨h.1, hg s s' h.2.1, h.2.2⟩
  | stop why out => exact h

/-- **What a turn with a worker message may do**: it keeps the handles, sends no reply, and
panics only on the messages in `Kind.Panics`. -/
theorem within_onMsg (hS : ∀ e, S (.error e)) {s : WorkerState}
    (hpath : s.kind ≠ .app → path ≠ .root) (hmsg : s.kind.Panics s.attHandle msg → S .panic) :
    (s.onMsg io path msg).Within (quiet (fun s ↦ (s.attHandle, s.propHandle)) S)
      (fun _ ↦ True) s := by
  cases s with
  | app s =>
      cases msg with
      | unregister => exact ⟨trivial, rfl, fun _ ho ↦ nomatch ho⟩
      | _ => exact ⟨hmsg (.inl rfl), fun _ ho ↦ nomatch ho⟩
  | serv s => exact within_mapState serv (fun _ _ h ↦ h) (ServWorker.within_onMsg hS hmsg)
  | chrc s =>
      refine within_mapState chrc (fun _ _ h ↦ ?_) (ChrcData.within_onMsg hS (hpath nofun) hmsg)
      exact Prod.ext h h
  | desc s =>
      refine within_mapState desc (fun _ _ h ↦ ?_) (Descriptor.within_onMsg hS (hpath nofun) hmsg)
      exact Prod.ext h h

end WorkerState

end Messages

end Rustable.Gatt.Server
