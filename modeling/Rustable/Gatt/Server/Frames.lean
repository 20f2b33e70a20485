import Rustable.Gatt.Server.Attribute
import Rustable.Gatt.Server.Registers

/-!
# What turns leave alone

A turn of a worker leaves what a view shows of the state, where the view shows nothing that can
be set.  Calls, what is written and what is notified are not answered as messages are.
-/

namespace Rustable.Gatt.Server

open DBus

/-- The answer that is sent to somebody who asked. -/
def Out.answer? : Out → Option (ReplyTo × Answer)
  | answer sender a => some (sender, a)
  | reply _ | signal _ | datagram _ _ => none

/-! ## What the workers share -/

section Shared

variable {σ τ γ : Type} {f : σ → γ} {P : Out → Prop} {io : Io} {path : ObjectPath}
  {filter : Option String}

theorem keeps_check {α : Type} (r : Except IoError α) :
    Act.Keeps f P (Turn.check r : Turn σ α) := by
  cases r with
  | ok a => exact .pure trivial
  | error e => exact .stop trivial

/-- The answer to a message, after which the worker goes on. -/
theorem keeps_answer (io : Io) (sender : ReplyTo) (a : Answer) : Act.Keeps f (fun _ ↦ True)
    (do Turn.answer io sender a; return Flow.next : Turn σ Flow) :=
  .seq (within_answer fun _ ↦ trivial) fun _ ↦ .pure trivial

theorem keeps_answerOrStop (io : Io) (sender : ReplyTo) (a : Answer) : Act.Keeps f (fun _ ↦ True)
    (do Turn.answerOrStop io sender a; return Flow.next : Turn σ Flow) :=
  .seq (within_answerOrStop trivial fun _ ↦ trivial) fun _ ↦ .pure trivial

theorem keeps_sendReply (hP : ∀ o : Out, o.answer? = none → P o) (m : MarshalledMessage) :
    Act.Keeps f P (do Turn.sendReply io m; return Flow.next : Turn σ Flow) :=
  .seq (.seq (keeps_check _) fun _ ↦ .emit (hP _ rfl) trivial) fun _ ↦ .pure trivial

/-- A turn that does nothing but reply sends no other reply. -/
theorem eq_of_replied {m m' : MarshalledMessage} {s : σ} {ran : Ran Stop Out σ Flow}
    (h : Turn.replied io (.done m s []) = ran) (hm : .reply m' ∈ ran.out) : m' = m := by
  subst h
  rw [Turn.replied] at hm
  split at hm
  · exact Out.reply.inj (List.mem_singleton.mp hm)
  · contradiction

theorem keeps_replyTo (hP : ∀ o : Out, o.answer? = none → P o) {call : MarshalledMessage}
    {handle : Turn σ MarshalledMessage} (h : Act.Keeps f P handle) :
    Act.Keeps f P (Turn.replyTo io filter call handle) :=
  .ite (fun _ ↦ .seq h fun res ↦ keeps_sendReply hP res) fun _ ↦ keeps_sendReply hP _

theorem keeps_onPart {α : Type} {view : σ → τ} {put : σ → τ → σ} {x : MayPanic τ α}
    (h : ∀ s a t, x (view s) = some (a, t) → f (put s t) = f s) :
    Act.Keeps f P (Turn.onPart view put x) := by
  intro s
  cases hrun : x (view s) with
  | none =>
      rw [Turn.onPart_none hrun]
      exact ⟨trivial, fun _ ho ↦ nomatch ho⟩
  | some r =>
      obtain ⟨a, t⟩ := r
      rw [Turn.onPart_some hrun]
      exact ⟨trivial, h s a t hrun, fun _ ho ↦ nomatch ho⟩

/-- The answer to a request for the handle. -/
theorem keeps_getHandle (handle : σ → UInt16) {answer : NonZeroU16 → Turn σ Flow}
    (h : ∀ handle, Act.Keeps f P (answer handle)) :
    Act.Keeps f P (do
      let handle ← Act.unwrap .panic (nonZeroU16 (handle (← Act.read)))
      answer handle) :=
  .read fun _ ↦ .seq (Act.Keeps.unwrap _ _) h

variable [Properties σ] (hread : ∀ c, Properties.Readable path fun s ↦ f s = c)
include hread

theorem keeps_getAllInterfaces :
    Act.Keeps f P (Turn.ofMayPanic (Properties.getAllInterfaces path) : Turn σ IfAndProps) :=
  within_getAllInterfaces (fun s ↦ hread (f s)) fun _ ↦ rfl

theorem eq_of_propertiesCall (hset : ∀ c, Properties.Settable path fun s : σ ↦ f s = c)
    {call : MethodCall path} {s s' : σ} {m : MarshalledMessage}
    (h : Properties.propertiesCall call.toMessage s = some (m, s')) : f s' = f s := by
  obtain ⟨m', t, hrun, ht, -⟩ :=
    Properties.propertiesCall_answers (hread (f s)) (hset (f s)) call rfl
  obtain ⟨-, rfl⟩ := Prod.mk.inj (Option.some.inj (hrun.symm.trans h))
  exact ht

end Shared

/-! ## The turns of a characteristic -/

namespace ChrcData

/-- What the view shows is not the handle, not the value, nothing of the sessions and of the
callback for notifications, and not what the write callback has been called with. -/
structure Fixed {γ : Type} (f : ChrcData → γ) : Prop where
  handle : ∀ s handle, f { s with handle := handle } = f s
  value : ∀ s value, f { s with value := value } = f s
  notify : ∀ s notify, f { s with notify := notify } = f s
  writeFd : ∀ s writeFd, f { s with writeFd := writeFd } = f s
  notifyCb : ∀ s notifyCb, f { s with notifyCb := notifyCb } = f s
  calls : ∀ s calls, f { s with writeCallback := { s.writeCallback with calls := calls } } = f s

section Keeps

variable {γ : Type} {f : ChrcData → γ} {P : Out → Prop} {io : Io} {path : ObjectPath}
  {call : MarshalledMessage} {filter : Option String}

variable (hf : Fixed f)

include hf

theorem keeps_toValue : Act.Keeps f P toValue := .embed (fun s ↦ hf.value s _) fun _ ↦ trivial

theorem keeps_setNotify (notify : Notify) : Act.Keeps f P (setNotify notify) :=
  .modify (fun s ↦ hf.notify s notify) trivial

theorem keeps_readValue : Act.Keeps f P (readValue call) := by
  refine .read fun s ↦ .ite (fun _ ↦ .pure trivial) fun _ ↦ ?_
  split
  · exact .pure trivial
  · exact .seq (keeps_toValue hf) fun v ↦ .seq (Act.Keeps.unwrap _ _) fun body ↦ .pure trivial

theorem keeps_updated (attVal : AttBytes) (offset : Nat) :
    Act.Keeps f P (updated attVal offset) :=
  .ite (fun _ ↦ .seq (keeps_toValue hf) fun _ ↦ Act.Keeps.unwrap _ _) fun _ ↦ .pure trivial

omit hf in
theorem keeps_acquired (fd : UnixFd) (mtu : Nat) : Act.Keeps f P (acquired call fd mtu) :=
  .seq (Act.Keeps.unwrap _ _) fun _ ↦ .seq (Act.Keeps.unwrap _ _) fun _ ↦ .pure trivial

theorem keeps_sessionInTheWay : Act.Keeps f P (sessionInTheWay io) := by
  refine .read fun s ↦ ?_
  split
  · exact .pure trivial
  · refine .seq (keeps_check _) fun hungUp ↦ .ite (fun _ ↦ ?_) fun _ ↦ .pure trivial
    exact .seq (keeps_setNotify hf _) fun _ ↦ .pure trivial
  · exact .pure trivial

theorem keeps_acquireNotify : Act.Keeps f P (acquireNotify io call) := by
  refine .read fun s ↦ .ite (fun _ ↦ .pure trivial) fun _ ↦ ?_
  refine .seq (keeps_sessionInTheWay hf) fun inTheWay ↦ .ite (fun _ ↦ .pure trivial) fun _ ↦ ?_
  split
  · exact .pure trivial
  · refine .seq (keeps_check _) fun socks ↦ .seq (keeps_setNotify hf _) fun _ ↦ ?_
    exact keeps_acquired _ _

theorem keeps_acquireWrite : Act.Keeps f P (acquireWrite io call) := by
  refine .read fun s ↦ .ite (fun _ ↦ .pure trivial) fun _ ↦ .ite (fun _ ↦ .pure trivial) fun _ ↦ ?_
  split
  · exact .pure trivial
  · refine .seq (keeps_check _) fun socks ↦ ?_
    refine .seq (.modify (fun s ↦ hf.writeFd s _) trivial) fun _ ↦ ?_
    exact keeps_acquired _ _

theorem keeps_startNotify : Act.Keeps f P (startNotify call) := by
  refine .read fun s ↦ .ite (fun _ ↦ .pure trivial) fun _ ↦ ?_
  split
  · exact .pure trivial
  · exact .pure trivial
  · exact .seq (keeps_setNotify hf _) fun _ ↦ .pure trivial

theorem keeps_stopNotify : Act.Keeps f P (stopNotify call) :=
  .read fun _ ↦ .ite (fun _ ↦ .pure trivial) fun _ ↦
    .seq (keeps_setNotify hf _) fun _ ↦ .pure trivial

variable (hP : ∀ o : Out, o.answer? = none → P o)
include hP

theorem keeps_sendNotification (optAtt : Option AttBytes) :
    Act.Keeps f P (sendNotification io path optAtt) := by
  have hvalue : Act.Keeps f P (valueOr optAtt) := by
    cases optAtt with
    | some v => exact .pure trivial
    | none => exact keeps_toValue hf
  refine hvalue.seq fun attVal ↦ .read fun s ↦ ?_
  split
  · exact .pure trivial
  · split
    · exact .seq (.emit (hP _ rfl) trivial) fun _ ↦ .pure trivial
    · exact .seq (keeps_setNotify hf _) fun _ ↦ .pure trivial
  · refine .seq (Act.Keeps.unwrap _ _) fun sig ↦ .seq (keeps_check _) fun _ ↦ ?_
    exact .seq (.emit (hP _ rfl) trivial) fun _ ↦ .pure trivial

theorem keeps_notifyIf (notify : Bool) : Act.Keeps f P (notifyIf io path notify) :=
  .ite (fun _ ↦ .seq (keeps_sendNotification hf hP none) fun _ ↦ .pure trivial)
    fun _ ↦ .pure trivial

theorem keeps_handleWrite (attVal : AttBytes) : Act.Keeps f P (handleWrite io path attVal) := by
  have hcallback : Act.Keeps f P (callWriteCallback attVal) := by
    refine .embed (fun s ↦ ?_) fun _ ↦ trivial
    let cb := { s.writeCallback with calls := s.writeCallback.calls ++ [attVal] }
    let value := (s.writeCallback.run s.writeCallback.calls attVal).1.getD s.value
    change f { s with writeCallback := cb, value := value } = f s
    exact (hf.value { s with writeCallback := cb } value).trans (hf.calls s cb.calls)
  exact hcallback.seq fun notify ↦ keeps_notifyIf hf hP notify

theorem keeps_writeValue : Act.Keeps f P (writeValue io call) := by
  refine .read fun s ↦ .ite (fun _ ↦ .pure trivial) fun _ ↦ ?_
  split
  · exact .pure trivial
  · refine .seq (keeps_updated hf _ _) fun v ↦ .seq (Act.Keeps.unwrap _ _) fun path ↦ ?_
    exact .seq (keeps_handleWrite hf hP v) fun _ ↦ .pure trivial

theorem keeps_method (member : String) : Act.Keeps f P (method io call member) := by
  unfold method
  split
  · exact keeps_readValue hf
  · exact keeps_writeValue hf hP
  · exact keeps_acquireNotify hf
  · exact keeps_acquireWrite hf
  · exact keeps_startNotify hf
  · exact keeps_stopNotify hf
  · exact .pure trivial

theorem keeps_handleCall
    (hprops : ∀ s m t, Properties.propertiesCall call s = some (m, t) → f t = f s) :
    Act.Keeps f P (handleCall io call) := by
  refine .seq (Act.Keeps.unwrap _ _) fun interface ↦ .ite (fun _ ↦ ?_) fun _ ↦ ?_
  · exact keeps_onPart hprops
  · refine .ite (fun _ ↦ .read fun _ ↦ .pure trivial) fun _ ↦ ?_
    refine .ite (fun _ ↦ ?_) fun _ ↦ .stop trivial
    exact .seq (Act.Keeps.unwrap _ _) fun member ↦ keeps_method hf hP member

theorem keeps_onNotifyFuture (shouldNot : ShouldNotify) :
    Act.Keeps f P (onNotifyFuture io path shouldNot) := by
  have hnotify : Act.Keeps f P (notifyAs io path shouldNot) := by
    cases shouldNot with
    | yes => exact keeps_notifyIf hf hP true
    | withSpecialValue v => exact .seq (keeps_sendNotification hf hP (some v)) fun _ ↦ .pure trivial
    | no => exact .pure trivial
  refine hnotify.seq fun _ ↦ .seq (.modify (fun s ↦ hf.notifyCb s _) trivial) fun _ ↦ ?_
  exact .pure trivial

theorem keeps_onWrite (res : Except IoError AttBytes) : Act.Keeps f P (onWrite io path res) := by
  have hwritten : Act.Keeps f P (handleWritten io path res) := by
    unfold handleWritten
    split
    · exact keeps_handleWrite hf hP _
    · exact .modify (fun s ↦ hf.writeFd s none) trivial
    · exact .stop trivial
  exact hwritten.seq fun _ ↦ .pure trivial

omit hP in
theorem keeps_onMsg (hpath : path ≠ .root) (msg : WorkerMsg) :
    Act.Keeps f (fun _ ↦ True) (onMsg io path msg) := by
  cases msg with
  | unregister => exact .pure trivial
  | update vf notify =>
      refine .seq (.modify (fun s ↦ hf.value s vf) trivial) fun _ ↦ ?_
      exact .seq (keeps_notifyIf hf (fun _ _ ↦ trivial) notify) fun _ ↦ .pure trivial
  | objMgr sender =>
      refine .seq (keeps_getAllInterfaces fun c ↦ ?_) fun map ↦ ?_
      · exact readable hpath fun d hd ↦ (hf.value d _).trans hd
      · exact keeps_answer io _ _
  | get sender => exact .seq (keeps_toValue hf) fun v ↦ keeps_answer io _ _
  | getHandle sender => exact keeps_getHandle handle fun h ↦ keeps_answer io _ _
  | notify optAtt =>
      exact .seq (keeps_sendNotification hf (fun _ _ ↦ trivial) optAtt) fun _ ↦ .pure trivial
  | notifying | notifyAcquired | notifyingSignal =>
      exact .read fun s ↦ keeps_answer io _ _
  | includedPaths paths => exact .stop trivial

end Keeps

/-- A call on the properties changes the handle and the value at most. -/
theorem Fixed.propertiesCall {γ : Type} {f : ChrcData → γ} (hf : Fixed f) {path : ObjectPath}
    (hpath : path ≠ .root) (c : MethodCall path) (s : ChrcData) (m : MarshalledMessage)
    (t : ChrcData) (h : Properties.propertiesCall c.toMessage s = some (m, t)) : f t = f s :=
  eq_of_propertiesCall (fun _ ↦ readable hpath fun d hd ↦ (hf.value d _).trans hd)
    (fun _ ↦ settable path fun d h hd ↦ (hf.handle d h).trans hd) h

end ChrcData

/-! ## The turns of a descriptor -/

namespace Descriptor

/-- What is known of a descriptor: its UUID and its flags. -/
def known (d : Descriptor) : UUID × DescFlags := (d.uuid, d.flags)

section Keeps

variable {io : Io} {path : ObjectPath} {filter : Option String} {call : MarshalledMessage}
  {s s' : Descriptor} {m : MarshalledMessage}

theorem readable_known (hpath : path ≠ .root) (c : UUID × DescFlags) :
    Properties.Readable path fun d : Descriptor ↦ d.known = c := readable hpath fun _ hd ↦ hd

theorem known_of_method {member : String} (h : method call member s = some (m, s')) :
    s'.known = s.known := by
  unfold method at h
  split at h
  · rw [readValue_eq] at h
    split at h
    · split at h
      all_goals obtain ⟨-, rfl⟩ := Prod.mk.inj (Option.some.inj h); rfl
    · obtain ⟨-, rfl⟩ := Prod.mk.inj (Option.some.inj h)
      rfl
  · rw [writeValue_eq] at h
    split at h
    · split at h
      · obtain ⟨-, rfl⟩ := Prod.mk.inj (Option.some.inj h)
        rfl
      · obtain ⟨v, -, h⟩ := Option.map_eq_some_iff.mp h
        obtain ⟨-, rfl⟩ := Prod.mk.inj h
        rfl
    · obtain ⟨-, rfl⟩ := Prod.mk.inj (Option.some.inj h)
      rfl
  · obtain ⟨-, rfl⟩ := Prod.mk.inj (Option.some.inj h)
    rfl

theorem known_of_handleCall (hpath : path ≠ .root) {c : MethodCall path}
    (h : handleCall c.toMessage s = some (m, s')) : s'.known = s.known := by
  have hinterface : c.toMessage.dynheader.interface = c.interface := rfl
  rw [handleCall, hinterface] at h
  cases hi : c.interface with
  | none =>
      rw [hi] at h
      contradiction
  | some i =>
      rw [hi, MayPanic.unwrap_some_bind] at h
      split at h
      · exact eq_of_propertiesCall (readable_known hpath) (fun c ↦ settable path fun _ _ hd ↦ hd) h
      split at h
      · obtain ⟨-, rfl⟩ := Prod.mk.inj (Option.some.inj h)
        rfl
      split at h
      · exact known_of_method h
      · contradiction

theorem keeps_onMsg (hpath : path ≠ .root) (msg : WorkerMsg) :
    Act.Keeps known (fun _ ↦ True) (onMsg io path msg) := by
  cases msg with
  | unregister => exact .pure trivial
  | update vf notify => exact .seq (.modify (fun _ ↦ rfl) trivial) fun _ ↦ .pure trivial
  | get sender =>
      refine .seq (.embed (fun _ ↦ rfl) fun _ ↦ trivial) fun v ↦ ?_
      exact keeps_answerOrStop io _ _
  | getHandle sender =>
      exact keeps_getHandle handle fun h ↦ keeps_answerOrStop io _ _
  | objMgr sender =>
      refine .seq (keeps_getAllInterfaces (readable_known hpath)) fun map ↦ ?_
      exact keeps_answerOrStop io _ _
  | includedPaths | notify | notifying | notifyAcquired | notifyingSignal => exact .stop trivial

theorem keeps_onCall (hpath : path ≠ .root) (c : MethodCall path) :
    Act.Keeps known (fun _ ↦ True) (onCall io filter c.toMessage) :=
  keeps_replyTo (fun _ _ ↦ trivial) (keeps_onPart fun _ _ _ ↦ known_of_handleCall hpath)

end Keeps

end Descriptor

/-! ## The turns of a service -/

namespace ServWorker

/-- What is known of a service: its UUID, whether it is primary, and what it is given back as. -/
def known (w : ServWorker) : UUID × Bool × Service :=
  (w.servData.uuid, w.servData.primary, w.self)

variable {io : Io} {path : ObjectPath} {filter : Option String}

theorem keeps_onMsg (msg : WorkerMsg) :
    Act.Keeps known (fun _ ↦ True) (onMsg io path msg) := by
  cases msg with
  | unregister => exact .pure trivial
  | includedPaths paths => exact .seq (.modify (fun _ ↦ rfl) trivial) fun _ ↦ .pure trivial
  | getHandle sender =>
      exact keeps_getHandle (fun w : ServWorker ↦ w.self.handle) fun h ↦
        keeps_answerOrStop io _ _
  | objMgr sender =>
      refine .seq (within_getAllInterfaces (fun _ ↦ ServData.readable path _) fun _ ↦ rfl)
        fun map ↦ ?_
      exact keeps_answerOrStop io _ _
  | update | get | notify | notifying | notifyAcquired | notifyingSignal => exact .stop trivial

theorem keeps_onCall (c : MethodCall path) :
    Act.Keeps known (fun _ ↦ True) (onCall io filter c.toMessage) := by
  refine keeps_replyTo (fun _ _ ↦ trivial) (keeps_onPart fun w m d hrun ↦ ?_)
  exact ServData.handleCall_keeps (I := fun d ↦ known { w with servData := d } = w.known)
    (fun _ _ hd ↦ hd) rfl hrun

end ServWorker

end Rustable.Gatt.Server
