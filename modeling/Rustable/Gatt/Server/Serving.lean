import Rustable.Gatt.Server.Sessions

/-!
# Workers that go on

The worker of an attribute should leave its loop only when it is told to unregister, and an
answer nobody waits for any more should be dropped.  `WorkerState.Withstands` says on which
inputs a worker goes on; on all others it ends (`served_iff_spared`).

Services and descriptors end when an answer cannot be delivered, characteristics do not.  All of
them end on a call that they refuse, since the refusal cannot be sent.
-/

namespace Rustable.Gatt.Server

open DBus

variable {path : ObjectPath} {io : Io} {filter : Option String} {σ τ α : Type}

/-- The D-Bus connection does not fail. -/
structure Io.Connected (io : Io) : Prop where
  sendReply : io.sendReply = .ok ()
  sendSignal : io.sendSignal = .ok ()

/-- An action has returned. -/
def Returns (ran : Ran Stop Out σ α) : Prop := ∃ a s out, ran = .done a s out

/-- The loop goes on after the turn. -/
def GoesOn (ran : Ran Stop Out σ Flow) : Prop := ∃ s out, ran = .done .next s out

theorem not_returns_stop {why : Stop} {out : List Out} :
    ¬Returns (.stop why out : Ran Stop Out σ α) := by
  rintro ⟨_, _, _, h⟩
  contradiction

theorem not_goesOn_stop {why : Stop} {out : List Out} :
    ¬GoesOn (.stop why out : Ran Stop Out σ Flow) := by
  rintro ⟨_, _, h⟩
  contradiction

theorem goesOn_mapState (f : σ → τ) (ran : Ran Stop Out σ Flow) :
    GoesOn (ran.mapState f) ↔ GoesOn ran := by
  cases ran with
  | stop why out => exact iff_of_false not_goesOn_stop not_goesOn_stop
  | done flow s out =>
      constructor
      · rintro ⟨_, _, h⟩
        obtain ⟨rfl, -, -⟩ := Ran.done.inj h
        exact ⟨s, out, rfl⟩
      · rintro ⟨_, _, h⟩
        obtain ⟨rfl, -, -⟩ := Ran.done.inj h
        exact ⟨f s, out, rfl⟩

/-- The loop goes on if the handler of the call has returned a reply that can be sent, and the
connection does not fail. -/
theorem goesOn_replied {ran : Ran Stop Out σ MarshalledMessage} {P : Prop}
    (h : SendableIff ran P) :
    GoesOn (Turn.replied io ran) ↔ io.sendReply = .ok () ∧ Returns ran ∧ P := by
  cases ran with
  | stop why out => exact iff_of_false not_goesOn_stop fun h ↦ not_returns_stop h.2.1
  | done m s out =>
      have hsend := h m s out rfl
      cases hm : m.isSendable with
      | true =>
          cases hio : io.sendReply with
          | ok u =>
              rw [Turn.replied_sendable hm hio]
              exact iff_of_true ⟨_, _, rfl⟩ ⟨rfl, ⟨_, _, _, rfl⟩, hsend.mp hm⟩
          | error e =>
              rw [Turn.replied, Io.send_eq hm, hio]
              refine iff_of_false not_goesOn_stop fun h ↦ ?_
              obtain ⟨hok, -⟩ := h
              contradiction
      | false =>
          rw [Turn.replied_unsendable hm]
          refine iff_of_false not_goesOn_stop fun hP ↦ ?_
          rw [hsend.mpr hP.2.2] at hm
          contradiction

/-- A call that does not pass the filter ends the worker. -/
theorem goesOn_replyTo {call : MarshalledMessage} {handle : Turn σ MarshalledMessage} {s : σ}
    {P : Prop} (h : SendableIff (handle s) P) :
    GoesOn (Turn.replyTo io filter call handle s) ↔
      io.sendReply = .ok () ∧ isMsgBluez call filter = true ∧ Returns (handle s) ∧ P := by
  cases hfilter : isMsgBluez call filter with
  | true =>
      rw [Turn.replyTo_passed hfilter, goesOn_replied h]
      exact and_congr_right fun _ ↦ (and_iff_right rfl).symm
  | false =>
      rw [Turn.replyTo_refused hfilter, Turn.replied_unsendable (isSendable_refusal call)]
      exact iff_of_false not_goesOn_stop fun h ↦ Bool.false_ne_true h.2.1

theorem returns_onPart (view : σ → τ) (put : σ → τ → σ) (x : MayPanic τ α) (s : σ) :
    Returns (Turn.onPart view put x s) ↔ (x (view s)).isSome := by
  cases hrun : x (view s) with
  | none =>
      rw [Turn.onPart_none hrun]
      exact iff_of_false not_returns_stop Bool.false_ne_true
  | some r =>
      rw [Turn.onPart_some hrun]
      exact iff_of_true ⟨_, _, _, rfl⟩ rfl

/-! ## Messages -/

/-- Who waits for the answer to a message. -/
def WorkerMsg.sender? : WorkerMsg → Option ReplyTo
  | .get sender | .getHandle sender | .notifying sender | .notifyAcquired sender
  | .notifyingSignal sender | .objMgr sender => some sender
  | .unregister | .update _ _ | .notify _ | .includedPaths _ => none

theorem goesOn_answerOrStop (sender : ReplyTo) (a : Answer) (s : σ) :
    GoesOn ((do
      Turn.answerOrStop io sender a
      return Flow.next : Turn σ Flow) s) ↔ io.receiverAlive = true := by
  rw [Turn.answerOrStop]
  cases io.receiverAlive with
  | true => exact iff_of_true ⟨_, _, rfl⟩ rfl
  | false => exact iff_of_false not_goesOn_stop Bool.false_ne_true

theorem goesOn_getHandle (handle : σ → UInt16) (sender : ReplyTo) (s : σ) :
    GoesOn ((do
      let handle ← Act.unwrap .panic (nonZeroU16 (handle (← Act.read)))
      Turn.answerOrStop io sender (.handle handle)
      return Flow.next : Turn σ Flow) s) ↔ handle s ≠ 0 ∧ io.receiverAlive = true := by
  rw [Act.read_bind]
  cases hh : nonZeroU16 (handle s) with
  | none =>
      exact iff_of_false not_goesOn_stop fun h ↦ h.1 (nonZeroU16_eq_none.mp hh)
  | some h =>
      rw [Act.unwrap_some, Act.pure_bind, goesOn_answerOrStop]
      refine (and_iff_right fun hzero ↦ ?_).symm
      rw [nonZeroU16_eq_none.mpr hzero] at hh
      contradiction

/-- The messages that need a handle are those that ask for it. -/
theorem Kind.not_panics {kind : Kind} {handle : UInt16} {msg : WorkerMsg}
    (haccepts : kind.accepts msg = true) (hmsg : ∀ sender, msg ≠ .getHandle sender) :
    ¬kind.Panics handle msg := by
  rintro (h | ⟨⟨sender, h⟩, -⟩)
  · rw [haccepts] at h
    contradiction
  · exact hmsg sender h

theorem Kind.not_panics_getHandle_iff {kind : Kind} {handle : UInt16} {sender : ReplyTo}
    (haccepts : kind.accepts (.getHandle sender) = true) :
    ¬kind.Panics handle (.getHandle sender) ↔ handle ≠ 0 := by
  refine not_congr ⟨?_, fun h ↦ .inr ⟨⟨sender, rfl⟩, h⟩⟩
  rintro (h | ⟨-, h⟩)
  · rw [haccepts] at h
    contradiction
  · exact h

/-- The answer to the message, if it asks for one, is waited for. -/
def WorkerMsg.Heard (io : Io) (msg : WorkerMsg) : Prop :=
  msg.sender?.isSome = true → io.receiverAlive = true

theorem WorkerMsg.heard_iff {msg : WorkerMsg} (h : msg.sender?.isSome = true) :
    msg.Heard io ↔ io.receiverAlive = true := ⟨fun hheard ↦ hheard h, fun hio _ ↦ hio⟩

theorem WorkerMsg.Heard.of_none {msg : WorkerMsg} (h : msg.sender? = none) : msg.Heard io := by
  intro hsome
  rw [h] at hsome
  contradiction

theorem ServWorker.goesOn_onMsg {msg : WorkerMsg} (hmsg : msg ≠ .unregister) (s : ServWorker) :
    GoesOn (onMsg io path msg s) ↔ ¬Kind.serv.Panics s.self.handle msg ∧ msg.Heard io := by
  cases msg with
  | unregister => contradiction
  | includedPaths paths =>
      refine iff_of_true ⟨_, _, rfl⟩ ⟨Kind.not_panics rfl fun _ h ↦ ?_, .of_none rfl⟩
      contradiction
  | objMgr sender =>
      obtain ⟨map, d, hrun, -⟩ := Properties.getAllInterfaces_spec
        (ServData.readable path fun _ ↦ True) (s := s.servData) trivial
      rw [onMsg, onData, Turn.bind_onPart hrun, goesOn_answerOrStop, WorkerMsg.heard_iff rfl]
      exact (and_iff_right (Kind.not_panics rfl fun _ h ↦ WorkerMsg.noConfusion h)).symm
  | getHandle sender =>
      rw [WorkerMsg.heard_iff rfl, Kind.not_panics_getHandle_iff rfl]
      exact goesOn_getHandle (fun w : ServWorker ↦ w.self.handle) sender s
  | update _ _ | get _ | notify _ | notifying _ | notifyAcquired _ | notifyingSignal _ =>
      exact iff_of_false not_goesOn_stop fun h ↦ h.1 (.inl rfl)

theorem Descriptor.goesOn_onMsg (hpath : path ≠ .root) {msg : WorkerMsg}
    (hmsg : msg ≠ .unregister) (s : Descriptor) :
    GoesOn (onMsg io path msg s) ↔ ¬Kind.desc.Panics s.handle msg ∧ msg.Heard io := by
  cases msg with
  | unregister => contradiction
  | update vf notify =>
      refine iff_of_true ⟨_, _, rfl⟩ ⟨Kind.not_panics rfl fun _ h ↦ ?_, .of_none rfl⟩
      contradiction
  | get sender =>
      rw [onMsg, Act.embed_bind, goesOn_answerOrStop, WorkerMsg.heard_iff rfl]
      exact (and_iff_right (Kind.not_panics rfl fun _ h ↦ WorkerMsg.noConfusion h)).symm
  | objMgr sender =>
      obtain ⟨map, d, hrun, -⟩ := Properties.getAllInterfaces_spec
        (readable hpath (I := fun _ ↦ True) fun _ _ ↦ trivial) (s := s) trivial
      rw [onMsg, Turn.ofMayPanic, Turn.bind_onPart hrun, goesOn_answerOrStop,
        WorkerMsg.heard_iff rfl]
      exact (and_iff_right (Kind.not_panics rfl fun _ h ↦ WorkerMsg.noConfusion h)).symm
  | getHandle sender =>
      rw [WorkerMsg.heard_iff rfl, Kind.not_panics_getHandle_iff rfl]
      exact goesOn_getHandle handle sender s
  | includedPaths _ | notify _ | notifying _ | notifyAcquired _ | notifyingSignal _ =>
      exact iff_of_false not_goesOn_stop fun h ↦ h.1 (.inl rfl)

theorem goesOn_map (ran : Ran Stop Out σ α) :
    GoesOn (ran.map fun _ ↦ Flow.next) ↔ Returns ran := by
  cases ran with
  | done a s out => exact iff_of_true ⟨s, out, rfl⟩ ⟨a, s, out, rfl⟩
  | stop why out => exact iff_of_false not_goesOn_stop not_returns_stop

theorem ChrcData.returns_sentIf (hio : io.Connected) (note : Option AttBytes) (s : ChrcData) :
    Returns (sentIf io path note s) := by
  obtain hsent | ⟨e, hsignal, -⟩ := sentIf_eq io path note s
  · exact ⟨_, _, _, hsent⟩
  · rw [hio.sendSignal] at hsignal
    contradiction

/-- An action that may stop for no reason returns. -/
theorem Returns.of_within {e : Effect Stop Out σ} {Q : α → Prop} {s : σ} {ran : Ran Stop Out σ α}
    (h : ran.Within e Q s) (hstops : ∀ why, ¬e.stops why) : Returns ran := by
  cases ran with
  | done a t out => exact ⟨a, t, out, rfl⟩
  | stop why out => exact absurd h.1 (hstops why)

/-- A characteristic does not care who waits for its answers. -/
theorem ChrcData.goesOn_onMsg (hio : io.Connected) (hpath : path ≠ .root) {msg : WorkerMsg}
    (hmsg : msg ≠ .unregister) (s : ChrcData) :
    GoesOn (onMsg io path msg s) ↔ ¬Kind.chrc.Panics s.handle msg := by
  constructor
  · rintro hgoes (h | ⟨⟨sender, rfl⟩, hzero⟩)
    · cases msg with
      | includedPaths paths => exact not_goesOn_stop hgoes
      | _ => contradiction
    · rw [onMsg, Act.read_bind, nonZeroU16_eq_none.mpr hzero] at hgoes
      exact not_goesOn_stop hgoes
  · intro hpanics
    cases hask : asksOnly msg with
    | true =>
        have hwithin : (onMsg io path msg s).Within (calm fun _ ↦ False) (· = .next) s :=
          within_asks hpath hask Still.toValue (fun _ ↦ calm_sends _) hpanics
        obtain ⟨flow, t, out, hrun⟩ := Returns.of_within hwithin fun _ ↦ id
        rw [hrun] at hwithin ⊢
        obtain rfl : flow = .next := hwithin.1
        exact ⟨t, out, rfl⟩
    | false =>
        cases msg with
        | unregister => contradiction
        | update vf notify =>
            rw [onMsg_update, goesOn_map]
            exact returns_sentIf hio _ _
        | notify optAtt =>
            rw [onMsg_notify, goesOn_map]
            exact returns_sentIf hio _ _
        | objMgr _ | get _ | getHandle _ | notifying _ | notifyAcquired _ | notifyingSignal _
        | includedPaths _ => contradiction

/-! ## Calls -/

/-- A write that does not fit cannot be stored. -/
theorem update_isSome_iff {b : AttBytes} {slice : List UInt8} {offset : Nat} :
    (b.update slice offset).isSome ↔
      offset ≤ b.bytes.length ∧ offset + slice.length ≤ 512 := by
  rw [AttBytes.update]
  split
  · next hle =>
      rw [and_iff_right hle, fits]
      have hlen : (b.bytes.take offset ++ slice).length = offset + slice.length := by
        rw [List.length_append, List.length_take_of_le hle]
      split
      · next h => exact iff_of_true rfl (hlen ▸ h)
      · next h => exact iff_of_false Bool.false_ne_true (hlen ▸ h)
  · next hle => exact iff_of_false Bool.false_ne_true fun h ↦ hle h.1

theorem writeFits_iff {call : MarshalledMessage} {stored : ValOrFn} {attVal : AttBytes}
    {options : Options} (hbody : call.body.get (AttBytes × Options) = .ok (attVal, options)) :
    WriteFits call stored ↔
      (stored.toValue.1.update attVal.bytes (offsetOption options)).isSome := by
  rw [update_isSome_iff]
  constructor
  · exact fun h ↦ h attVal options hbody
  · intro h attVal' options' hbody'
    obtain ⟨rfl, rfl⟩ := Prod.mk.inj (Except.ok.inj (hbody.symm.trans hbody'))
    exact h

theorem writeFits_of_error {call : MarshalledMessage} {stored : ValOrFn} {e : UnmarshalError}
    (hbody : call.body.get (AttBytes × Options) = .error e) : WriteFits call stored := by
  intro attVal options h
  rw [hbody] at h
  contradiction

/-- A write at the start of the value fits. -/
theorem writeFits_of_zero {call : MarshalledMessage} {stored : ValOrFn} {attVal : AttBytes}
    {options : Options} (hbody : call.body.get (AttBytes × Options) = .ok (attVal, options))
    (hzero : offsetOption options = 0) : WriteFits call stored := by
  rw [writeFits_iff hbody, update_isSome_iff, hzero, Nat.zero_add]
  exact ⟨Nat.zero_le _, attVal.length_le⟩

/-- A new socket can be had, if the options of the call can be read. -/
def GetsSocket (io : Io) (call : MarshalledMessage) : Prop :=
  ∀ options, call.body.get Options = .ok options → ∃ fds, io.getSockSeqpacket = .ok fds

namespace ChrcData

variable {call : MarshalledMessage} {s : ChrcData}

theorem returns_acquire (t : ChrcData) (put : UnixFd → Nat → ChrcData) :
    Returns (acquire io call t put) ↔ GetsSocket io call := by
  rw [acquire, GetsSocket]
  cases call.body.get Options with
  | error e =>
      refine iff_of_true ⟨_, _, _, rfl⟩ fun _ h ↦ ?_
      contradiction
  | ok options =>
      cases io.getSockSeqpacket with
      | error e =>
          refine iff_of_false not_returns_stop fun h ↦ ?_
          obtain ⟨fds, hfds⟩ := h options rfl
          contradiction
      | ok fds => exact iff_of_true ⟨_, _, _, rfl⟩ fun _ _ ↦ ⟨fds, rfl⟩

theorem returns_acquireNotify : Returns (acquireNotify io call s) ↔ (s.flags.notify = true →
    (∃ b, s.inTheWay io = .ok b) ∧ (s.inTheWay io = .ok false → GetsSocket io call)) := by
  rw [acquireNotify_eq]
  cases s.flags.notify with
  | false => exact iff_of_true ⟨_, _, _, rfl⟩ fun h ↦ absurd h Bool.false_ne_true
  | true =>
      rw [Bool.not_true, if_neg Bool.false_ne_true]
      cases s.inTheWay io with
      | error e =>
          refine iff_of_false not_returns_stop fun h ↦ ?_
          obtain ⟨⟨b, hb⟩, -⟩ := h rfl
          contradiction
      | ok b =>
          cases b with
          | true =>
              refine iff_of_true ⟨_, _, _, rfl⟩ fun _ ↦ ⟨⟨true, rfl⟩, fun h ↦ ?_⟩
              exact Bool.noConfusion (Except.ok.inj h)
          | false =>
              exact (returns_acquire ..).trans
                ⟨fun h _ ↦ ⟨⟨false, rfl⟩, fun _ ↦ h⟩, fun h ↦ (h rfl).2 rfl⟩

theorem returns_acquireWrite : Returns (acquireWrite io call s) ↔
    (s.flags.writeWoResponse = true → s.writeFd = none → GetsSocket io call) := by
  rw [acquireWrite_eq]
  cases s.flags.writeWoResponse with
  | false => exact iff_of_true ⟨_, _, _, rfl⟩ fun h ↦ absurd h Bool.false_ne_true
  | true =>
      rw [Bool.not_true, if_neg Bool.false_ne_true]
      cases s.writeFd with
      | some fd => exact iff_of_true ⟨_, _, _, rfl⟩ fun _ h ↦ absurd h (Option.some_ne_none fd)
      | none =>
          rw [forall_prop_of_true rfl, forall_prop_of_true rfl, Option.isSome_none,
            if_neg Bool.false_ne_true]
          exact returns_acquire s _

theorem returns_map {β : Type} {f : α → β} {ran : Ran Stop Out σ α} (h : Returns ran) :
    Returns (ran.map f) := by
  obtain ⟨a, t, out, rfl⟩ := h
  exact ⟨f a, t, out, rfl⟩

theorem returns_writeValue (hio : io.Connected) (hpath : call.dynheader.object = some path) :
    Returns (writeValue io call s) ↔ (s.writable = true → WriteFits call s.value) := by
  rw [writeValue_eq hpath, accepted]
  cases s.writable with
  | false => exact iff_of_true ⟨_, _, _, rfl⟩ fun h ↦ absurd h Bool.false_ne_true
  | true =>
      rw [if_pos rfl]
      cases hbody : call.body.get (AttBytes × Options) with
      | error e => exact iff_of_true ⟨_, _, _, rfl⟩ fun _ ↦ writeFits_of_error hbody
      | ok args =>
          obtain ⟨attVal, options⟩ := args
          dsimp only
          rw [updatedValue]
          by_cases hzero : offsetOption options = 0
          · rw [if_neg (not_not.mpr hzero)]
            refine iff_of_true (returns_map ?_) fun _ ↦ writeFits_of_zero hbody hzero
            rw [handleWrite_eq]
            exact returns_sentIf hio _ _
          · rw [if_pos hzero]
            cases hval : s.value.toValue.1.update attVal.bytes (offsetOption options) with
            | none =>
                refine iff_of_false not_returns_stop fun h ↦ ?_
                have hfits := (writeFits_iff hbody).mp (h rfl)
                rw [hval] at hfits
                contradiction
            | some v =>
                refine iff_of_true (returns_map ?_) fun _ ↦ (writeFits_iff hbody).mpr ?_
                · rw [handleWrite_eq]
                  exact returns_sentIf hio _ _
                · rw [hval]
                  rfl

/-- A method that may end the worker of a characteristic does not. -/
structure Allows (io : Io) (s : ChrcData) (c : MethodCall path) : Prop where
  writeValue : c.member = "WriteValue" → s.writable = true → WriteFits c.toMessage s.value
  acquireNotify : c.member = "AcquireNotify" → s.flags.notify = true →
    (∃ b, s.inTheWay io = .ok b) ∧ (s.inTheWay io = .ok false → GetsSocket io c.toMessage)
  acquireWrite : c.member = "AcquireWrite" → s.flags.writeWoResponse = true → s.writeFd = none →
    GetsSocket io c.toMessage

theorem returns_method (hio : io.Connected) (c : MethodCall path) :
    Returns (method io c.toMessage c.member s) ↔ s.Allows io c := by
  have hobject : c.toMessage.dynheader.object = some path := rfl
  -- A member is at most one of the three.
  have hne {a b : String} {p : Prop} (ha : c.member = a) (hab : a ≠ b) (hb : c.member = b) : p :=
    absurd (ha.symm.trans hb) hab
  by_cases hwrite : c.member = "WriteValue"
  · rw [hwrite]
    refine (returns_writeValue hio hobject).trans ⟨fun h ↦ ?_, fun h ↦ h.writeValue hwrite⟩
    exact ⟨fun _ ↦ h, hne hwrite (by decide), hne hwrite (by decide)⟩
  by_cases hnotify : c.member = "AcquireNotify"
  · rw [hnotify]
    refine returns_acquireNotify.trans ⟨fun h ↦ ?_, fun h ↦ h.acquireNotify hnotify⟩
    exact ⟨hne hnotify (by decide), fun _ ↦ h, hne hnotify (by decide)⟩
  by_cases hacquire : c.member = "AcquireWrite"
  · rw [hacquire]
    refine returns_acquireWrite.trans ⟨fun h ↦ ?_, fun h ↦ h.acquireWrite hacquire⟩
    exact ⟨hne hacquire (by decide), hne hacquire (by decide), fun _ ↦ h⟩
  refine iff_of_true ?_ ⟨fun h ↦ absurd h hwrite, fun h ↦ absurd h hnotify,
    fun h ↦ absurd h hacquire⟩
  generalize c.member = member at hwrite hnotify hacquire
  unfold method
  split
  · obtain ⟨m, t, hrun, -⟩ := readValue_calm c.toMessage s
    exact ⟨m, t, [], hrun⟩
  · exact absurd rfl hwrite
  · exact absurd rfl hnotify
  · exact absurd rfl hacquire
  · rw [startNotify_eq]
    split
    · exact ⟨_, _, _, rfl⟩
    · split
      · exact ⟨_, _, _, rfl⟩
      · exact ⟨_, _, _, rfl⟩
      · exact ⟨_, _, _, rfl⟩
  · rw [stopNotify_eq]
    split
    · exact ⟨_, _, _, rfl⟩
    · exact ⟨_, _, _, rfl⟩
  · exact ⟨_, _, _, rfl⟩

end ChrcData

/-! ## The dispatchers -/

section Dispatchers

variable {c : MethodCall path}

/-- The interface of a call that a worker does not know is none of those it knows. -/
theorem Kind.ne_of_not_knows {kind : Kind} {interface known : String}
    (hinterface : c.interface = some interface) (h : ¬kind.Knows c)
    (hknown : known ∈ kind.interfaces) : interface ≠ known := by
  rintro rfl
  exact h ((knows_iff hinterface).mpr hknown)

theorem ServData.isSome_handleCall_iff {s : ServData} :
    (handleCall c.toMessage s).isSome ↔ Kind.serv.Knows c := by
  by_cases hknows : Kind.serv.Knows c
  · obtain ⟨m, t, hrun, -⟩ := (handleCall_answers_iff c s).mpr hknows
    exact iff_of_true (Option.isSome_of_eq_some hrun) hknows
  · refine iff_of_false ?_ hknows
    have hinterface : c.toMessage.dynheader.interface = c.interface := rfl
    rw [handleCall, hinterface]
    cases hi : c.interface with
    | none => exact Bool.false_ne_true
    | some i =>
        have hne {known : String} (hmem : known ∈ Kind.serv.interfaces) : i ≠ known :=
          Kind.ne_of_not_knows hi hknows hmem
        rw [MayPanic.unwrap_some_bind, if_neg (hne (by simp [Kind.interfaces])),
          if_neg (hne (by simp [Kind.interfaces]))]
        exact Bool.false_ne_true

theorem Descriptor.isSome_writeValue_iff {call : MarshalledMessage} {s : Descriptor} :
    (writeValue call s).isSome ↔ (s.writable = true → WriteFits call s.value) := by
  simp only [writeValue, MayPanic.get_bind, writable]
  cases (s.flags.write || s.flags.encryptWrite || s.flags.encryptAuthWrite) with
  | false => exact iff_of_true rfl fun h ↦ absurd h Bool.false_ne_true
  | true =>
      rw [Bool.not_true, if_neg Bool.false_ne_true, forall_prop_of_true rfl]
      cases hbody : call.body.get (AttBytes × Options) with
      | error e => exact iff_of_true rfl (writeFits_of_error hbody)
      | ok args =>
          obtain ⟨attVal, options⟩ := args
          dsimp only
          by_cases hzero : offsetOption options = 0
          · rw [if_neg (not_not.mpr hzero)]
            exact iff_of_true rfl (writeFits_of_zero hbody hzero)
          · rw [if_pos hzero, writeFits_iff hbody]
            cases s.value.toValue.1.update attVal.bytes (offsetOption options) with
            | none => exact Iff.rfl
            | some v => exact Iff.rfl

/-- A method that may end the worker of a descriptor does not. -/
def Descriptor.Allows (s : Descriptor) (c : MethodCall path) : Prop :=
  c.member = "WriteValue" → s.writable = true → Server.WriteFits c.toMessage s.value

theorem Descriptor.isSome_method_iff {s : Descriptor} :
    (method c.toMessage c.member s).isSome ↔ s.Allows c := by
  by_cases hwrite : c.member = "WriteValue"
  · rw [Allows, forall_prop_of_true hwrite, hwrite]
    exact isSome_writeValue_iff
  · obtain ⟨m, t, hrun, -⟩ := @method_answers c.toMessage s c.member
      fun h ↦ absurd h hwrite
    exact iff_of_true (Option.isSome_of_eq_some hrun) fun h ↦ absurd h hwrite

theorem Descriptor.isSome_handleCall_iff (hpath : path ≠ .root) {s : Descriptor} :
    (handleCall c.toMessage s).isSome ↔
      Kind.desc.Knows c ∧ (c.interface = some bluezDesIf → s.Allows c) := by
  have hinterface : c.toMessage.dynheader.interface = c.interface := rfl
  have hmember : c.toMessage.dynheader.member = some c.member := rfl
  by_cases hdes : c.interface = some bluezDesIf
  · have hknows : Kind.desc.Knows c := (Kind.knows_iff hdes).mpr (by simp [Kind.interfaces])
    have hprops : bluezDesIf ≠ propsIf := by decide
    have hintro : bluezDesIf ≠ introIf := by decide
    rw [and_iff_right hknows, forall_prop_of_true hdes, handleCall, hinterface, hdes, hmember,
      MayPanic.unwrap_some_bind, if_neg hprops, if_neg hintro, if_pos rfl,
      MayPanic.unwrap_some_bind]
    exact isSome_method_iff
  rw [and_iff_left fun h ↦ absurd h hdes]
  by_cases hknows : Kind.desc.Knows c
  · obtain ⟨m, t, hrun, -⟩ := (handleCall_answers_iff c hpath (s := s)
      fun h ↦ absurd h hdes).mpr hknows
    exact iff_of_true (Option.isSome_of_eq_some hrun) hknows
  · refine iff_of_false ?_ hknows
    rw [handleCall, hinterface]
    cases hi : c.interface with
    | none => exact Bool.false_ne_true
    | some i =>
        have hne {known : String} (hmem : known ∈ Kind.desc.interfaces) : i ≠ known :=
          Kind.ne_of_not_knows hi hknows hmem
        rw [MayPanic.unwrap_some_bind, if_neg (hne (by simp [Kind.interfaces])),
          if_neg (hne (by simp [Kind.interfaces])), if_neg (hne (by simp [Kind.interfaces]))]
        exact Bool.false_ne_true

theorem ChrcData.returns_handleCall_iff (hio : io.Connected) (hpath : path ≠ .root)
    {s : ChrcData} : Returns (handleCall io c.toMessage s) ↔
      Kind.chrc.Knows c ∧ (c.interface = some bluezChrIf → s.Allows io c) := by
  have hinterface : c.toMessage.dynheader.interface = c.interface := rfl
  have hmember : c.toMessage.dynheader.member = some c.member := rfl
  by_cases hchr : c.interface = some bluezChrIf
  · have hknows : Kind.chrc.Knows c := (Kind.knows_iff hchr).mpr (by simp [Kind.interfaces])
    rw [and_iff_right hknows, forall_prop_of_true hchr,
      handleCall_method (hinterface.trans hchr) hmember]
    exact returns_method hio c
  rw [and_iff_left fun h ↦ absurd h hchr, handleCall, hinterface]
  cases hi : c.interface with
  | none => exact iff_of_false not_returns_stop (Kind.not_knows hi)
  | some i =>
      rw [Kind.knows_iff hi, Act.unwrap_some, Act.pure_bind, Kind.interfaces]
      split
      · next hprops =>
          obtain ⟨m, t, hrun, -⟩ := propertiesCall_calm hpath c s
          rw [Turn.ofMayPanic, Turn.onPart_some hrun]
          exact iff_of_true ⟨_, _, _, rfl⟩ (hprops ▸ List.mem_cons_self)
      split
      · next hintro =>
          refine iff_of_true ⟨_, _, _, rfl⟩ ?_
          exact hintro ▸ List.mem_cons_of_mem _ List.mem_cons_self
      split
      · next hchr' => exact absurd (hi.trans (congrArg some hchr')) hchr
      · next hprops hintro hchr' =>
          refine iff_of_false not_returns_stop fun hmem ↦ ?_
          simp only [List.mem_cons, List.not_mem_nil, or_false] at hmem
          rcases hmem with rfl | rfl | rfl
          · exact hprops rfl
          · exact hintro rfl
          · exact hchr' rfl

end Dispatchers

/-! ## What a worker withstands -/

namespace WorkerState

/-- Handling a call on an interface the worker knows does not end it. -/
def Allows (io : Io) (c : MethodCall path) : WorkerState → Prop
  | app _ | serv _ => True
  | chrc s => c.interface = some bluezChrIf → s.Allows io c
  | desc s => c.interface = some bluezDesIf → s.Allows c

/-- What does not end the worker of an attribute:
* a message that its loop is written for, with a handle if it is for the handle, and with
  somebody who waits for the answer unless it is the worker of a characteristic;
* a call that passes the filter, is on an interface the worker knows, can be handled and is
  granted;
* the future of the notify callback;
* what was read from the socket for writing, or that it has hung up. -/
def Withstands (io : Io) (filter : Option String) (s : WorkerState) : Found path → Prop
  | .message msg => ¬s.kind.Panics s.attHandle msg ∧ (s.kind ≠ .chrc → msg.Heard io)
  | .closed => False
  | .call c =>
      isMsgBluez c.toMessage filter = true ∧ s.kind.Knows c ∧ s.Allows io c ∧ s.Grants io c
  | .notified _ => True
  | .written res => ∀ e, res = .error e → e = .notConnected

theorem goesOn_onMsg (hio : io.Connected) (hpath : path ≠ .root) {msg : WorkerMsg}
    (hmsg : msg ≠ .unregister) {s : WorkerState} (hkind : s.kind ≠ .app) :
    GoesOn (s.onMsg io path msg) ↔
      ¬s.kind.Panics s.attHandle msg ∧ (s.kind ≠ .chrc → msg.Heard io) := by
  cases s with
  | app s => exact absurd rfl hkind
  | serv s =>
      refine (goesOn_mapState serv _).trans ((ServWorker.goesOn_onMsg hmsg s).trans ?_)
      exact and_congr_right fun _ ↦ ⟨fun h _ ↦ h, fun h ↦ h Kind.noConfusion⟩
  | chrc s =>
      refine (goesOn_mapState chrc _).trans ((ChrcData.goesOn_onMsg hio hpath hmsg s).trans ?_)
      exact (and_iff_left fun h ↦ absurd rfl h).symm
  | desc s =>
      refine (goesOn_mapState desc _).trans ((Descriptor.goesOn_onMsg hpath hmsg s).trans ?_)
      exact and_congr_right fun _ ↦ ⟨fun h _ ↦ h, fun h ↦ h Kind.noConfusion⟩

/-- A service goes on after a call that it knows and grants. -/
theorem goesOn_onCall_serv {c : MethodCall path} {asked : Asked} (s : ServWorker) :
    GoesOn ((serv s).onCall io filter asked c.toMessage) ↔ io.sendReply = .ok () ∧
      isMsgBluez c.toMessage filter = true ∧ Kind.serv.Knows c ∧ (serv s).Grants io c := by
  have hsend := ServData.sendable_handleCall (c := c) io s
  refine (goesOn_mapState serv _).trans ((goesOn_replyTo hsend).trans ?_)
  refine and_congr_right fun _ ↦ and_congr_right fun _ ↦ and_congr_left fun _ ↦ ?_
  exact (returns_onPart ..).trans ServData.isSome_handleCall_iff

theorem goesOn_onCall (hio : io.Connected) (hpath : path ≠ .root) {c : MethodCall path}
    {asked : Asked} {s : WorkerState} (hkind : s.kind ≠ .app) :
    GoesOn (s.onCall io filter asked c.toMessage) ↔
      isMsgBluez c.toMessage filter = true ∧ s.kind.Knows c ∧ s.Allows io c ∧ s.Grants io c := by
  have hassoc {a b c d : Prop} (h : a ↔ b ∧ c) : a ∧ d ↔ b ∧ c ∧ d := by rw [h, and_assoc]
  have hsent {P : Prop} : io.sendReply = .ok () ∧ P ↔ P := and_iff_right hio.sendReply
  cases s with
  | app s => exact absurd rfl hkind
  | serv s =>
      refine (goesOn_onCall_serv s).trans (hsent.trans ?_)
      exact and_congr_right fun _ ↦ and_congr_right fun _ ↦ (and_iff_right trivial).symm
  | chrc s =>
      have hsend := ChrcData.sendable_handleCall (c := c) io hpath s
      refine (goesOn_mapState chrc _).trans ((goesOn_replyTo hsend).trans (hsent.trans ?_))
      exact and_congr_right fun _ ↦ hassoc (ChrcData.returns_handleCall_iff hio hpath)
  | desc s =>
      have hsend := Descriptor.sendable_handleCall (c := c) io hpath s
      refine (goesOn_mapState desc _).trans ((goesOn_replyTo hsend).trans (hsent.trans ?_))
      refine and_congr_right fun _ ↦ hassoc ((returns_onPart ..).trans ?_)
      exact Descriptor.isSome_handleCall_iff hpath

end WorkerState

namespace ChrcData

theorem goesOn_onNotifyFuture (hio : io.Connected) (shouldNot : ShouldNotify) (s : ChrcData) :
    GoesOn (onNotifyFuture io path shouldNot s) := by
  have hsent (note : Option AttBytes) (t : ChrcData) : ∃ u out,
      sentIf io path note t = .done () u out := by
    obtain ⟨⟨⟩, u, out, hrun⟩ := returns_sentIf hio note t
    exact ⟨u, out, hrun⟩
  have hdone {u : ChrcData} {out : List Out} (h : notifyAs io path shouldNot s = .done () u out) :
      GoesOn (onNotifyFuture io path shouldNot s) := by
    rw [onNotifyFuture, Act.bind_apply, h]
    exact ⟨_, _, rfl⟩
  cases shouldNot with
  | no => exact hdone rfl
  | yes =>
      obtain ⟨u, out, hrun⟩ := hsent (s.noteIf true).1 (s.noteIf true).2
      exact hdone ((notifyIf_eq true s).trans hrun)
  | withSpecialValue v =>
      obtain ⟨u, out, hrun⟩ := hsent (some (s.noteFor (some v)).1) (s.noteFor (some v)).2
      exact hdone ((sendNotification_bind (some v) s).trans hrun)

theorem goesOn_onWrite (hio : io.Connected) (res : Except IoError AttBytes) (s : ChrcData) :
    GoesOn (onWrite io path res s) ↔ ∀ e, res = .error e → e = .notConnected := by
  cases res with
  | ok v =>
      rw [onWrite_ok, goesOn_map]
      refine iff_of_true (returns_sentIf hio _ _) fun e h ↦ ?_
      contradiction
  | error e =>
      cases e with
      | notConnected => exact iff_of_true ⟨_, _, rfl⟩ fun e h ↦ (Except.error.inj h).symm
      | other =>
          refine iff_of_false not_goesOn_stop fun h ↦ ?_
          exact IoError.noConfusion (h .other rfl)

end ChrcData

namespace WorkerState

/-- **On what a worker goes on**, unless it is told to unregister. -/
theorem goesOn_found_iff (hio : io.Connected) (hpath : path ≠ .root) {found : Found path}
    (hfound : found ≠ .message .unregister) {s : WorkerState} (hkind : s.kind ≠ .app)
    {ran : Ran Stop Out WorkerState Flow} (h : s.found io filter found = some ran) :
    GoesOn ran ↔ s.Withstands io filter found := by
  cases found with
  | message msg =>
      obtain rfl := Option.some.inj h
      exact goesOn_onMsg hio hpath (fun heq ↦ hfound (congrArg _ heq)) hkind
  | closed =>
      obtain rfl := Option.some.inj h
      exact iff_of_false not_goesOn_stop id
  | call c =>
      obtain rfl := Option.some.inj h
      exact goesOn_onCall hio hpath hkind
  | notified shouldNot =>
      cases s with
      | app | serv | desc => contradiction
      | chrc s =>
          obtain rfl := Option.some.inj h
          refine (goesOn_mapState chrc _).trans (iff_of_true ?_ trivial)
          exact ChrcData.goesOn_onNotifyFuture hio shouldNot s
  | written res =>
      rw [WorkerState.found, turn.eq_def] at h
      cases s with
      | app | serv | desc => contradiction
      | chrc s =>
          dsimp only at h
          split at h
          · obtain rfl := Option.some.inj h
            exact (goesOn_mapState chrc _).trans (ChrcData.goesOn_onWrite hio res s)
          · contradiction

end WorkerState

/-! ## Runs -/

/-- Nothing has changed but the state of the value callback. -/
def ChrcData.OnlyRead (s t : ChrcData) : Prop :=
  t = { s with value := t.value } ∧ t.value.stored = s.value.stored

/-- A characteristic whose answer nobody waits for has only been read. -/
theorem ChrcData.dropped (hpath : path ≠ .root) (hio : io.receiverAlive = false) {msg : WorkerMsg}
    (hsender : msg.sender?.isSome = true) {s : ChrcData}
    (hpanics : ¬Kind.chrc.Panics s.handle msg) :
    ∃ t, onMsg io path msg s = .done .next t [] ∧ s.OnlyRead t := by
  let e : Effect Stop Out ChrcData :=
    { changes := OnlyRead
      sends := fun _ ↦ False
      stops := fun _ ↦ False
      refl := fun s ↦ ⟨rfl, rfl⟩
      trans := by
        rintro s t u ⟨ht, hvalue⟩ ⟨hu, hvalue'⟩
        refine ⟨?_, hvalue'.trans hvalue⟩
        rw [hu, ht] }
  have hask : asksOnly msg = true := by
    cases msg with
    | unregister | update _ _ | notify _ | includedPaths _ => contradiction
    | _ => rfl
  have hwithin : (onMsg io path msg s).Within e (· = .next) s :=
    within_asks hpath hask (fun s ↦ ⟨rfl, s.value.stored_toValue⟩)
      (fun halive ↦ absurd (hio.symm.trans halive) Bool.false_ne_true) hpanics
  cases hrun : onMsg io path msg s with
  | stop why out =>
      rw [hrun] at hwithin
      exact hwithin.1.elim
  | done flow t out =>
      rw [hrun] at hwithin
      obtain ⟨rfl, hread, hout⟩ := hwithin
      obtain rfl := List.eq_nil_iff_forall_not_mem.mpr hout
      exact ⟨t, rfl, hread⟩

namespace WorkerState

/-- Nothing has changed but the state of the value callback. -/
def OnlyRead : WorkerState → WorkerState → Prop
  | chrc s, chrc t => s.OnlyRead t
  | s, t => t = s

/-- The turn ends the loop only if it is told to, and an answer that nobody waits for is
dropped. -/
structure Serves (io : Io) (found : Found path) (s : WorkerState)
    (ran : Ran Stop Out WorkerState Flow) : Prop where
  goesOn : found ≠ .message .unregister → GoesOn ran
  dropped : ∀ msg, found = .message msg → msg.sender?.isSome = true → io.receiverAlive = false →
    ∃ t, ran = .done .next t [] ∧ s.OnlyRead t

theorem serves_iff (hio : io.Connected) (hpath : path ≠ .root) {found : Found path}
    {s : WorkerState} (hkind : s.kind ≠ .app) {ran : Ran Stop Out WorkerState Flow}
    (h : s.found io filter found = some ran) :
    Serves io found s ran ↔ found = .message .unregister ∨ s.Withstands io filter found := by
  by_cases hfound : found = .message .unregister
  · subst hfound
    refine iff_of_true ⟨fun hne ↦ absurd rfl hne, ?_⟩ (.inl rfl)
    intro msg hmsg hsender
    obtain rfl := Found.message.inj hmsg
    contradiction
  have hiff := goesOn_found_iff hio hpath hfound hkind h
  rw [or_iff_right hfound]
  constructor
  · exact fun hserves ↦ hiff.mp (hserves.goesOn hfound)
  · refine fun hwithstands ↦ ⟨fun _ ↦ hiff.mpr hwithstands, ?_⟩
    rintro msg rfl hsender hdropped
    obtain ⟨hpanics, hheard⟩ := hwithstands
    by_cases hchrc : s.kind = .chrc
    · cases s with
      | app | serv | desc => contradiction
      | chrc s =>
          obtain ⟨t, hrun, hread⟩ := ChrcData.dropped hpath hdropped hsender hpanics
          obtain rfl := Option.some.inj h
          exact ⟨.chrc t, congrArg (·.mapState chrc) hrun, hread⟩
    · have halive := hheard hchrc hsender
      rw [hdropped] at halive
      contradiction

/-- The steps of the task of an attribute. -/
abbrev Step (filter : Option String) :
    Task WorkerState → Io × Found path → Task WorkerState → Prop :=
  Task.Step fun e s ↦ found e.1 filter e.2 s

/-- The connection does not fail, and what a task finds as long as it runs is `Unregister` or
something that it withstands. -/
def Spared (filter : Option String) (t : Task WorkerState) (e : Io × Found path) : Prop :=
  e.1.Connected ∧ ∀ s, t = .running s →
    e.2 = .message .unregister ∨ s.Withstands e.1 filter e.2

/-- The connection does not fail, and a task that runs ends only if it is told to, and drops
the answers that nobody waits for. -/
def Served (filter : Option String) (t : Task WorkerState) (e : Io × Found path) : Prop :=
  e.1.Connected ∧ ∀ s ran, t = .running s → s.found e.1 filter e.2 = some ran →
    Serves e.1 e.2 s ran

theorem found_kind {found : Found path} {s s' : WorkerState} {flow : Flow} {out : List Out}
    (h : s.found io filter found = some (.done flow s' out)) : s'.kind = s.kind := by
  rw [WorkerState.found.eq_def] at h
  cases found with
  | message | call | notified | written => exact turn_kind h
  | closed =>
      have hstop := Option.some.inj h
      contradiction

/-- The task is that of an attribute. -/
def Attribute (t : Task WorkerState) : Prop := ∀ s, t.state? = some s → s.kind ≠ .app

theorem attribute_step {t u : Task WorkerState} {e : Io × Found path} (ht : Attribute t)
    (h : Step filter t e u) : Attribute u := by
  cases t with
  | finished | failed => contradiction
  | running s =>
      obtain ⟨ran, hran, rfl⟩ := h
      intro s' hs'
      cases ran with
      | stop why out => contradiction
      | done flow v out =>
          obtain rfl : v = s' := by cases flow <;> exact Option.some.inj hs'
          rw [found_kind hran]
          exact ht s rfl

/-- A run that is spared ends only when it is told to. -/
theorem told_of_spared (hpath : path ≠ .root) {t u : Task WorkerState}
    {es : List (Io × Found path)} (h : Lts.Run (Lts.restrict (Step filter) (Spared filter)) t es u)
    (ht : Attribute t) {s : WorkerState} (hs : t = .running s) : (∃ s', u = .running s') ∨
      ∃ s' fs io, u = .finished s' ∧ es = fs ++ [(io, .message .unregister)] := by
  induction h generalizing s with
  | nil t => exact .inl ⟨s, hs⟩
  | @cons t v u e es hstep hrun ih =>
      obtain ⟨io, found⟩ := e
      have hv : Attribute v := attribute_step ht hstep.1
      obtain ⟨hstep, hio, hspared⟩ := hstep
      subst hs
      obtain ⟨ran, hran, rfl⟩ := hstep
      by_cases hfound : found = .message .unregister
      · subst hfound
        obtain rfl := Option.some.inj hran
        rw [onMsg_unregister] at hrun
        cases hrun with
        | nil => exact .inr ⟨s, [], io, rfl, rfl⟩
        | cons hstep => exact hstep.1.elim
      · obtain ⟨s', out, rfl⟩ := (goesOn_found_iff hio hpath hfound (ht s rfl) hran).mpr
          ((hspared s rfl).resolve_left hfound)
        obtain hrunning | ⟨s'', fs, io', hu, hes⟩ := ih hv rfl
        · exact .inl hrunning
        · exact .inr ⟨s'', (io, found) :: fs, io', hu, congrArg _ hes⟩

/-- **When the worker of an attribute ends**: it drops the answers that nobody waits for and
goes on until it is told to unregister, along exactly those runs on which it withstands
everything else. -/
theorem served_iff_spared (hpath : path ≠ .root) {s : WorkerState} (hkind : s.kind ≠ .app)
    {es : List (Io × Found path)} {t : Task WorkerState} :
    (Lts.Run (Lts.restrict (Step filter) (Served filter)) (.running s) es t ↔
      Lts.Run (Lts.restrict (Step filter) (Spared filter)) (.running s) es t) ∧
    (Lts.Run (Lts.restrict (Step filter) (Spared filter)) (.running s) es t →
      (∃ s', t = .running s') ∨
        ∃ s' fs io, t = .finished s' ∧ es = fs ++ [(io, .message .unregister)]) := by
  have hattribute : Attribute (.running s) := by
    intro s' hs'
    obtain rfl := Option.some.inj hs'
    exact hkind
  refine ⟨?_, fun h ↦ told_of_spared hpath h hattribute rfl⟩
  refine Lts.Run.restrict_congr (fun s e t hs h ↦ attribute_step hs h.1) ?_ hattribute
  intro t e u ht hstep
  refine and_congr_right fun hio ↦ ⟨fun h s hs ↦ ?_, fun h s ran hs hran ↦ ?_⟩
  · subst hs
    obtain ⟨ran, hran, rfl⟩ := hstep
    exact (serves_iff hio hpath (ht s rfl) hran).mp (h s ran rfl hran)
  · subst hs
    exact (serves_iff hio hpath (ht s rfl) hran).mpr (h s rfl)

/-- A characteristic that is asked by somebody who does not wait for the answer, and then told
to unregister. -/
theorem served_iff_spared_notifying : Lts.Run
    (Lts.restrict (@Step Worker.ofService.path none) (Served none))
    (.running (.chrc (ChrcData.start ChrcData.notifying 0)))
    [({ receiverAlive := false }, .message (.notifying 0)), ({}, .message .unregister)]
    (.finished (.chrc (ChrcData.start ChrcData.notifying 0))) := by
  refine (served_iff_spared Worker.isAttribute_ofService.path Kind.noConfusion).1.mpr ?_
  refine .cons ⟨⟨_, rfl, rfl⟩, ⟨rfl, rfl⟩, fun s hs ↦ .inr ?_⟩
    (.single ⟨⟨_, rfl, rfl⟩, ⟨rfl, rfl⟩, fun s hs ↦ .inl rfl⟩)
  obtain rfl := Task.running.inj hs
  exact ⟨Kind.not_panics rfl fun _ h ↦ WorkerMsg.noConfusion h, fun h ↦ absurd rfl h⟩

/-- The descriptor of a registered application ends when nobody waits for its answer. -/
theorem dropped_answer_ends : ¬∀ (self : Application) (bus : Bus) (app : AppWorker),
    self.register bus = pure app → ∀ e ∈ app.workers.iter, e.2.state.kind ≠ .app →
      ∀ (es : List (Io × Found e.2.path)) (t : Task WorkerState),
        Lts.Run (Step app.filter) (.running e.2.state) es t → (∀ x ∈ es, x.1.Connected) →
        (∀ x ∈ es, x.2 ≠ .message .unregister) → ∃ s, t = .running s := by
  intro hall
  obtain ⟨app, happ⟩ := Application.register_ofUuids ⟨1⟩ ⟨2⟩ ⟨3⟩
  obtain ⟨appData, hperm⟩ :=
    perm_of_nonZero (Application.distinct_ofUuids ..) happ Application.nonZero_ofUuids
  have hmem : ((⟨1⟩, ⟨2⟩, ⟨3⟩), .desc { uuid := ⟨3⟩, flags := { read := true } }) ∈
      app.workers.iter.map ownState :=
    hperm.mem_iff.mpr (List.mem_cons_of_mem _ List.mem_cons_self)
  obtain ⟨⟨key, worker⟩, he, hown⟩ := List.mem_map.mp hmem
  obtain ⟨-, hstate : worker.state = _⟩ := Prod.mk.inj hown
  have hkind : worker.state.kind ≠ .app := by rw [hstate]; exact Kind.noConfusion
  have hstep : @Step worker.path app.filter (.running worker.state)
      ({ receiverAlive := false }, .message (.get 0)) (.failed (.error .threadClosed)) := by
    rw [hstate]
    exact ⟨_, rfl, rfl⟩
  obtain ⟨s, hs⟩ := hall _ _ app happ _ he hkind _ _ (.single hstep)
    (by simp only [List.mem_singleton, forall_eq]; exact ⟨rfl, rfl⟩)
    (by
      simp only [List.mem_singleton, forall_eq]
      exact fun h ↦ WorkerMsg.noConfusion (Found.message.inj h))
  contradiction

end WorkerState

end Rustable.Gatt.Server
