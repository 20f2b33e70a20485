import Rustable.Gatt.Server.Bounds
import Rustable.Gatt.Server.Runs

/-!
# What a turn of a characteristic does

The turns of a characteristic in closed form: what a method answers in each case, what a
notification sends (`sent`), and which value the input of a turn asks to notify (`asked`).
All turns but those that send a notification or answer one of the four methods for sessions
leave everything as it is but the handle and the state of the value callback (`Still`).
-/

namespace Rustable.Gatt

/-- What is stored, however often a callback has been called since. -/
def ValOrFn.stored : ValOrFn → AttBytes ⊕ (Nat → AttBytes)
  | .value v => .inl v
  | .function f _ => .inr f

@[simp] theorem ValOrFn.stored_toValue (v : ValOrFn) : v.toValue.2.stored = v.stored := by
  cases v with
  | value | function => rfl

end Rustable.Gatt

namespace Rustable.Gatt.Server

open DBus

namespace ChrcData

variable {io : Io} {path : ObjectPath}

/-! ## Turns that change little -/

/-- Nothing has changed but the handle and the state of the value callback. -/
structure Still (s s' : ChrcData) : Prop where
  children : s'.children = s.children
  value : s'.value.stored = s.value.stored
  uuid : s'.uuid = s.uuid
  notify : s'.notify = s.notify
  flags : s'.flags = s.flags
  writeCallback : s'.writeCallback = s.writeCallback
  notifyCb : s'.notifyCb = s.notifyCb
  writeFd : s'.writeFd = s.writeFd

theorem Still.refl (s : ChrcData) : s.Still s := ⟨rfl, rfl, rfl, rfl, rfl, rfl, rfl, rfl⟩

theorem Still.trans {s t u : ChrcData} (h : s.Still t) (k : t.Still u) : s.Still u where
  children := k.children.trans h.children
  value := k.value.trans h.value
  uuid := k.uuid.trans h.uuid
  notify := k.notify.trans h.notify
  flags := k.flags.trans h.flags
  writeCallback := k.writeCallback.trans h.writeCallback
  notifyCb := k.notifyCb.trans h.notifyCb
  writeFd := k.writeFd.trans h.writeFd

theorem Still.toValue (s : ChrcData) : s.Still { s with value := s.value.toValue.2 } :=
  { Still.refl s with value := s.value.stored_toValue }

theorem Still.setHandle (s : ChrcData) (h : UInt16) : s.Still { s with handle := h } :=
  ⟨rfl, rfl, rfl, rfl, rfl, rfl, rfl, rfl⟩

/-- Little changes, only answers are sent, and the action stops for a reason in `S`. -/
def calm (S : Stop → Prop) : Effect Stop Out ChrcData where
  changes := Still
  sends o := ∃ sender a, o = .answer sender a
  stops := S
  refl := Still.refl
  trans := Still.trans

theorem calm_sends (S : Stop → Prop) (sender : ReplyTo) (a : Answer) :
    (calm S).sends (.answer sender a) := ⟨sender, a, rfl⟩

theorem readable_still (hpath : path ≠ .root) (s : ChrcData) : Properties.Readable path s.Still :=
  readable hpath fun d h ↦ h.trans (.toValue d)

/-- Property calls change little. -/
theorem propertiesCall_calm (hpath : path ≠ .root) (call : MethodCall path) (s : ChrcData) :
    ∃ m s', Properties.propertiesCall call.toMessage s = some (m, s') ∧ s.Still s' ∧
      Answers m call.toMessage.dynheader :=
  Properties.propertiesCall_answers (readable_still hpath s)
    (settable path fun d h hd ↦ hd.trans (.setHandle d h)) call (Still.refl s)

/-- The messages that neither end the worker nor store or notify a value. -/
def asksOnly : WorkerMsg → Bool
  | .unregister | .update _ _ | .notify _ => false
  | .objMgr _ | .get _ | .getHandle _ | .notifying _ | .notifyAcquired _ | .notifyingSignal _
  | .includedPaths _ => true

/-- Such a message reads the value at most, and the worker panics only on the messages in
`Kind.Panics`. -/
theorem within_asks (hpath : path ≠ .root) {msg : WorkerMsg} (hask : asksOnly msg = true)
    {s : ChrcData} {e : Effect Stop Out ChrcData}
    (hvalue : ∀ s, e.changes s { s with value := s.value.toValue.2 })
    (hsends : io.receiverAlive = true → ∀ sender a, e.sends (.answer sender a))
    (hstops : Kind.chrc.Panics s.handle msg → e.stops .panic) :
    (onMsg io path msg s).Within e (· = .next) s := by
  have hanswer (sender : ReplyTo) (a : Answer) :
      Act.Within e (fun _ ↦ True) (Turn.answer io sender a) :=
    within_answer fun h ↦ hsends h sender a
  have hread (s : ChrcData) : Properties.Readable path fun t ↦ e.changes s t :=
    readable hpath fun d h ↦ e.trans h (hvalue d)
  have hflag (sender : ReplyTo) (b : ChrcData → Bool) :
      Act.Within e (· = .next) (do
        let self ← Act.read
        Turn.answer io sender (.flag (b self))
        return Flow.next : Turn ChrcData Flow) :=
    .read fun _ ↦ .seq (hanswer sender _) fun _ ↦ .pure rfl
  cases msg with
  | unregister | update _ _ | notify _ => contradiction
  | objMgr sender =>
      refine Act.Within.seq (within_getAllInterfaces hread fun _ ↦ rfl) (fun _ ↦ ?_) s
      exact .seq (hanswer sender _) fun _ ↦ .pure rfl
  | get sender =>
      refine Act.Within.seq (within_toValue hvalue) (fun _ ↦ ?_) s
      exact .seq (hanswer sender _) fun _ ↦ .pure rfl
  | getHandle sender =>
      refine within_getHandle handle (fun h ↦ hstops (.inr ⟨⟨sender, rfl⟩, h⟩)) fun h ↦ ?_
      exact .seq (hanswer sender _) fun _ ↦ .pure rfl
  | notifying sender => exact hflag sender _ s
  | notifyAcquired sender => exact hflag sender _ s
  | notifyingSignal sender => exact hflag sender _ s
  | includedPaths paths => exact Act.Within.stop (hstops (.inl rfl)) s

/-! ## Notifications -/

/-- What a notification of `v` does in the state in which the value has been read. -/
def sent (io : Io) (path : ObjectPath) (v : AttBytes) (s : ChrcData) : Ran Stop Out ChrcData Bool :=
  match s.notify with
  | .none => .done false s []
  | .socket sock _ => match io.sockSend with
    | .ok _ => .done true s [.datagram sock v.bytes]
    | .error _ => .done false { s with notify := .none } []
  | .signal => match io.sendSignal with
    | .ok _ => .done true s ((propertiesChanged path v).map Out.signal).toList
    | .error e => .stop (.error (.io e)) []

/-- The value a notification carries, and the state in which it is sent: without a special
value, the stored one is read. -/
def noteFor (s : ChrcData) : Option AttBytes → AttBytes × ChrcData
  | some v => (v, s)
  | none => (s.value.toValue.1, { s with value := s.value.toValue.2 })

theorem sendNotification_eq (optAtt : Option AttBytes) (s : ChrcData) :
    sendNotification io path optAtt s = sent io path (s.noteFor optAtt).1 (s.noteFor optAtt).2 := by
  have hsend (v : AttBytes) (t : ChrcData) : (do
      match (← Act.read).notify with
      | .none => return false
      | .socket sock _ => match io.sockSend with
        | .ok _ =>
            Act.emit (.datagram sock v.bytes)
            return true
        | .error _ =>
            setNotify .none
            return false
      | .signal =>
          let sig ← Act.unwrap .panic (propertiesChanged path v)
          Turn.check io.sendSignal
          Act.emit (.signal sig)
          return true : Turn ChrcData Bool) t = sent io path v t := by
    rw [Act.read_bind, sent]
    cases t.notify with
    | none => rfl
    | socket sock mtu =>
        cases io.sockSend with
        | ok u => rfl
        | error e => rfl
    | signal =>
        obtain ⟨sig, hsig⟩ := Option.isSome_iff_exists.mp (propertiesChanged_isSome path v)
        rw [hsig]
        cases io.sendSignal with
        | ok u => rfl
        | error e => rfl
  cases optAtt with
  | some v => exact (congrFun (Act.pure_bind v _) s).trans (hsend v s)
  | none => exact (Act.embed_bind _ _ s).trans (hsend _ _)

/-- What a write callback does with a value: whether it asks to notify, and the state after
it. -/
def wrote (s : ChrcData) (v : AttBytes) : Bool × ChrcData :=
  let r := s.writeCallback.run s.writeCallback.calls v
  (r.2,
    { s with
      writeCallback := { s.writeCallback with calls := s.writeCallback.calls ++ [v] }
      value := r.1.getD s.value })

/-- Send a notification, if there is one to send: its value, and the state in which it is
sent. -/
def sentIf (io : Io) (path : ObjectPath) (note : Option AttBytes) (s : ChrcData) :
    Ran Stop Out ChrcData Unit :=
  match note with
  | none => .done () s []
  | some v => (sent io path v s).map fun _ ↦ ()

/-- The notification of the stored value, if it is asked for. -/
def noteIf (s : ChrcData) (notify : Bool) : Option AttBytes × ChrcData :=
  if notify then (some (s.noteFor none).1, (s.noteFor none).2) else (none, s)

theorem sendNotification_bind (optAtt : Option AttBytes) (s : ChrcData) :
    (do
      let _ ← sendNotification io path optAtt
      return () : Turn ChrcData Unit) s =
      sentIf io path (some (s.noteFor optAtt).1) (s.noteFor optAtt).2 := by
  rw [Act.bind_pure_apply, sendNotification_eq]
  rfl

theorem notifyIf_eq (notify : Bool) (s : ChrcData) :
    notifyIf io path notify s = sentIf io path (s.noteIf notify).1 (s.noteIf notify).2 := by
  cases notify with
  | false => rfl
  | true => exact sendNotification_bind none s

/-- The notification a written value asks for, and the state in which it is sent. -/
def noteWritten (s : ChrcData) (v : AttBytes) : Option AttBytes × ChrcData :=
  (s.wrote v).2.noteIf (s.wrote v).1

theorem handleWrite_eq (v : AttBytes) (s : ChrcData) :
    handleWrite io path v s = sentIf io path (s.noteWritten v).1 (s.noteWritten v).2 :=
  (Act.embed_bind _ _ s).trans (notifyIf_eq _ _)

/-- An update stores a value, and notifies it if it is told to. -/
theorem onMsg_update (vf : ValOrFn) (notify : Bool) (s : ChrcData) :
    onMsg io path (.update vf notify) s =
      (sentIf io path ({ s with value := vf }.noteIf notify).1
        ({ s with value := vf }.noteIf notify).2).map fun _ ↦ .next := by
  refine (Act.modify_bind _ _ s).trans ((Act.bind_pure_apply _ _ _).trans ?_)
  rw [notifyIf_eq]

theorem onMsg_notify (optAtt : Option AttBytes) (s : ChrcData) :
    onMsg io path (.notify optAtt) s =
      (sentIf io path (some (s.noteFor optAtt).1) (s.noteFor optAtt).2).map fun _ ↦ .next := by
  refine (Act.bind_pure_apply _ _ s).trans ?_
  rw [sendNotification_eq, sentIf]
  cases sent io path (s.noteFor optAtt).1 (s.noteFor optAtt).2 with
  | done | stop => rfl

/-- What has been read is passed to the write callback. -/
theorem onWrite_ok (v : AttBytes) (s : ChrcData) : onWrite io path (.ok v) s =
    (sentIf io path (s.noteWritten v).1 (s.noteWritten v).2).map fun _ ↦ .next := by
  refine (Act.bind_pure_apply _ _ s).trans ?_
  rw [handleWritten, handleWrite_eq]

/-! ## Methods -/

section Methods

variable {call : MarshalledMessage}

/-- A peer may write the value. -/
def writable (s : ChrcData) : Bool :=
  s.flags.write || s.flags.writeWoResponse || s.flags.encryptWrite || s.flags.encryptAuthWrite

/-- What a write at an offset makes of the stored value, and the state after the stored value
has been read for that. -/
def updatedValue (s : ChrcData) (attVal : AttBytes) (offset : Nat) : Option (AttBytes × ChrcData) :=
  if offset ≠ 0 then
    (s.value.toValue.1.update attVal.bytes offset).map (·, { s with value := s.value.toValue.2 })
  else some (attVal, s)

theorem updated_eq (attVal : AttBytes) (offset : Nat) (s : ChrcData) :
    updated attVal offset s = match s.updatedValue attVal offset with
      | some (v, t) => .done v t []
      | none => .stop .panic [] := by
  rw [updated, updatedValue]
  split
  · rw [toValue, Act.embed_bind]
    cases s.value.toValue.1.update attVal.bytes offset with
    | some v => rfl
    | none => rfl
  · rfl

theorem still_updatedValue {s t : ChrcData} {attVal v : AttBytes} {offset : Nat}
    (h : s.updatedValue attVal offset = some (v, t)) : s.Still t := by
  rw [updatedValue] at h
  split at h
  · obtain ⟨_, -, heq⟩ := Option.map_eq_some_iff.mp h
    obtain ⟨-, rfl⟩ := Prod.mk.inj heq
    exact .toValue s
  · obtain ⟨-, rfl⟩ := Prod.mk.inj (Option.some.inj h)
    exact .refl s

/-- The value that a `WriteValue` call passes to the write callback, and the state then. -/
def accepted (s : ChrcData) (call : MarshalledMessage) : Option (AttBytes × ChrcData) :=
  if s.writable then
    match call.body.get (AttBytes × Options) with
    | .error _ => none
    | .ok (attVal, options) => s.updatedValue attVal (offsetOption options)
  else none

theorem still_accepted {s t : ChrcData} {v : AttBytes} (h : s.accepted call = some (v, t)) :
    s.Still t ∧ s.writable = true := by
  rw [accepted] at h
  split at h
  · next hwritable =>
      split at h
      · contradiction
      · exact ⟨still_updatedValue h, hwritable⟩
  · contradiction

/-- A `WriteValue` passes a value to the write callback and is answered; or it is refused; or
it is allowed and does not fit, and the worker panics. -/
theorem writeValue_eq (hpath : call.dynheader.object = some path) (s : ChrcData) :
    writeValue io call s = match s.accepted call with
      | some (v, t) => (handleWrite io path v t).map fun _ ↦ call.dynheader.makeResponse
      | none =>
          if !s.writable then .done (refusal call) s []
          else match call.body.get (AttBytes × Options) with
          | .error _ => .done (call.dynheader.makeErrorResponse "UnknownType" none) s []
          | .ok _ => .stop .panic [] := by
  rw [writeValue, Act.read_bind, accepted, writable]
  by_cases hwritable : (s.flags.write || s.flags.writeWoResponse || s.flags.encryptWrite ||
      s.flags.encryptAuthWrite) = true
  · rw [hwritable, Bool.not_true, if_neg Bool.false_ne_true, if_pos rfl, if_neg Bool.false_ne_true]
    cases call.body.get (AttBytes × Options) with
    | error e => rfl
    | ok args =>
        obtain ⟨attVal, options⟩ := args
        dsimp only
        simp only [hpath, Act.unwrap_some, Act.pure_bind]
        rw [Act.bind_apply, updated_eq]
        cases s.updatedValue attVal (offsetOption options) with
        | none => rfl
        | some r =>
            obtain ⟨v, t⟩ := r
            exact (Ran.after_nil _).trans (Act.bind_pure_apply _ _ t)
  · rw [Bool.eq_false_iff.mpr hwritable]
    rfl

/-- `StartNotify` -/
theorem startNotify_eq (s : ChrcData) : startNotify call s =
    if !(s.flags.notify || s.flags.indicate) then .done (refusal call) s []
    else match s.notify with
    | .socket _ _ => .done (call.dynheader.makeErrorResponse "FdAcquired" none) s []
    | .signal => .done (call.dynheader.makeErrorResponse "org.Bluez.Error.InProgress" none) s []
    | .none => .done call.dynheader.makeResponse { s with notify := .signal } [] := by
  rw [startNotify, Act.read_bind]
  split
  · rfl
  · cases s.notify with
    | none | socket | signal => rfl

/-- `StopNotify` -/
theorem stopNotify_eq (s : ChrcData) : stopNotify call s =
    if s.notify ≠ .signal then .done (call.dynheader.makeErrorResponse "NotNotifying" none) s []
    else .done call.dynheader.makeResponse { s with notify := .none } [] := by
  rw [stopNotify, Act.read_bind]
  split
  · rfl
  · rfl

/-- Whether a session is in the way of a new one. -/
def inTheWay (io : Io) (s : ChrcData) : Except IoError Bool :=
  match s.notify with
  | .none => .ok false
  | .socket _ _ => io.isHungUp.map (!·)
  | .signal => .ok true

theorem sessionInTheWay_eq (s : ChrcData) : sessionInTheWay io s = match s.inTheWay io with
    | .error e => .stop (.error (.io e)) []
    | .ok true => .done true s []
    | .ok false => .done false { s with notify := .none } [] := by
  rw [sessionInTheWay, Act.read_bind, inTheWay]
  cases hn : s.notify with
  | none =>
      have hs : { s with notify := .none } = s := by rw [← hn]
      exact congrArg (Ran.done false · []) hs.symm
  | signal => rfl
  | socket sock mtu =>
      cases io.isHungUp with
      | error e => rfl
      | ok b =>
          cases b with
          | true | false => rfl

theorem mtuOption_le (options : Options) : mtuOption options ≤ 517 := by
  rw [mtuOption]
  split
  · exact Nat.min_le_left ..
  · exact Nat.le_refl _

/-- The reply with a file descriptor and an MTU. -/
def acquiredReply (call : MarshalledMessage) (fd : UnixFd) (mtu : Nat) : MarshalledMessage :=
  { call.dynheader.makeResponse with
    body := [⟨sig UnixFd, .base fd⟩, ⟨sig UInt16, .base (UInt16.ofNat mtu)⟩] }

/-- Acquire a socket with the options of the call: the state in which it fails, and the state
with the socket. -/
def acquire (io : Io) (call : MarshalledMessage) (s : ChrcData) (put : UnixFd → Nat → ChrcData) :
    Ran Stop Out ChrcData MarshalledMessage :=
  match call.body.get Options with
  | .error _ => .done (call.dynheader.makeErrorResponse "UnknownType" none) s []
  | .ok options => match io.getSockSeqpacket with
    | .error e => .stop (.error (.io e)) []
    | .ok (ours, theirs) =>
        .done (acquiredReply call theirs (mtuOption options)) (put ours (mtuOption options)) []

/-- `AcquireNotify` -/
theorem acquireNotify_eq (s : ChrcData) : acquireNotify io call s =
    if !s.flags.notify then .done (refusal call) s []
    else match s.inTheWay io with
    | .error e => .stop (.error (.io e)) []
    | .ok true => .done (call.dynheader.makeErrorResponse "AlreadyAcquired" none) s []
    | .ok false => acquire io call { s with notify := .none }
        fun fd mtu ↦ { s with notify := .socket fd mtu } := by
  rw [acquireNotify, Act.read_bind]
  split
  · rfl
  rw [Act.bind_apply, sessionInTheWay_eq]
  cases s.inTheWay io with
  | error e => rfl
  | ok b =>
      cases b with
      | true => rfl
      | false =>
          refine (Ran.after_nil _).trans ?_
          dsimp only
          rw [if_neg Bool.false_ne_true, acquire]
          cases call.body.get Options with
          | error e => rfl
          | ok options =>
              cases io.getSockSeqpacket with
              | error e => rfl
              | ok fds => rfl

/-- `AcquireWrite` -/
theorem acquireWrite_eq (s : ChrcData) : acquireWrite io call s =
    if !s.flags.writeWoResponse then .done (refusal call) s []
    else if s.writeFd.isSome then
      .done (call.dynheader.makeErrorResponse "AlreadyAcquired" none) s []
    else acquire io call s fun fd mtu ↦ { s with writeFd := some (fd, mtu) } := by
  rw [acquireWrite, Act.read_bind]
  split
  · rfl
  split
  · rfl
  rw [acquire]
  cases call.body.get Options with
  | error e => rfl
  | ok options =>
      cases io.getSockSeqpacket with
      | error e => rfl
      | ok fds => rfl

/-- `ReadValue` changes little. -/
theorem readValue_calm (call : MarshalledMessage) (s : ChrcData) :
    ∃ m t, readValue call s = .done m t [] ∧ s.Still t ∧ Answers m call.dynheader := by
  rw [readValue, Act.read_bind]
  split
  · exact ⟨_, s, rfl, .refl s, answers_makeErrorResponse ..⟩
  cases call.body.get Options with
  | error e => exact ⟨_, s, rfl, .refl s, answers_makeErrorResponse ..⟩
  | ok options =>
      obtain ⟨v, hv⟩ := Option.isSome_iff_exists.mp
        (marshal_bases_isSome (s.value.toValue.1.bytes.drop (offsetOption options)))
      refine ⟨_, _, ?_, .toValue s, (answers_makeResponse _).withBody [⟨_, v⟩]⟩
      dsimp only
      rw [toValue, Act.embed_bind, Body.pushParam_eq hv]
      rfl

end Methods

end ChrcData

end Rustable.Gatt.Server
