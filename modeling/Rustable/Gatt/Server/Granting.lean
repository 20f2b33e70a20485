import Rustable.Gatt.Server.Turns
import Rustable.Granting

/-!
# Calls that are granted

A handler refuses what it cannot do with an error, and hardly any of the names it has for one is
the name of an error: `PermissionDenied`, `UnknownType` and most others have no dot.  A connection
does not take such a reply, and the worker that wants to send it ends.

`WorkerState.Grants` says of which calls the reply can be sent: the object has the property or the
method that is asked for, its flags and its sessions permit it, and the arguments can be read.  It
depends on the call and on the object before it, and `SendableIff` connects it with what the
handlers return.
-/

namespace Rustable

open DBus

namespace Gatt.Server

/-! ## Reading and writing -/

/-- The reply to a `ReadValue`. -/
def valueReply (call : MarshalledMessage) (bytes : List UInt8) : MarshalledMessage :=
  { call.dynheader.makeResponse with body := (Body.pushParam [] bytes).getD [] }

theorem pushParam_bytes (bytes : List UInt8) :
    Body.pushParam [] bytes = some ((Body.pushParam [] bytes).getD []) := by
  obtain ⟨w, hw⟩ := Option.isSome_iff_exists.mp (marshal_bases_isSome bytes)
  rw [Body.pushParam_eq hw]
  rfl

section Handlers

variable {call : MarshalledMessage}

/-- A peer may read the value of a characteristic. -/
def ChrcData.readable? (s : ChrcData) : Bool :=
  s.flags.read || s.flags.secureRead || s.flags.encryptRead || s.flags.encryptAuthRead

/-- A peer may read the value of a descriptor. -/
def Descriptor.readable? (s : Descriptor) : Bool :=
  s.flags.read || s.flags.secureRead || s.flags.encryptRead || s.flags.encryptAuthRead

/-- A peer may write the value of a descriptor. -/
def Descriptor.writable (s : Descriptor) : Bool :=
  s.flags.write || s.flags.encryptWrite || s.flags.encryptAuthWrite

theorem ChrcData.readValue_eq (s : ChrcData) : readValue call s =
    if s.readable? then
      match call.body.get Options with
      | .error _ => .done (call.dynheader.makeErrorResponse "UnknownType" none) s []
      | .ok options => .done (valueReply call (s.value.toValue.1.bytes.drop (offsetOption options)))
          { s with value := s.value.toValue.2 } []
    else .done (refusal call) s [] := by
  rw [readValue, Act.read_bind, readable?]
  cases s.flags.read || s.flags.secureRead || s.flags.encryptRead || s.flags.encryptAuthRead with
  | false => rfl
  | true =>
      cases call.body.get Options with
      | error e => rfl
      | ok options =>
          rw [Bool.not_true, if_neg Bool.false_ne_true, if_pos rfl]
          dsimp only
          rw [toValue, Act.embed_bind]
          have hpush : call.dynheader.makeResponse.body.pushParam
              (s.value.toValue.1.bytes.drop (offsetOption options)) = _ := pushParam_bytes _
          rw [hpush]
          rfl

theorem Descriptor.readValue_eq (s : Descriptor) : readValue call s =
    if s.readable? then
      match call.body.get Options with
      | .error _ => some (call.dynheader.makeErrorResponse "UnknownType" none, s)
      | .ok options => some (valueReply call (s.value.toValue.1.bytes.drop (offsetOption options)),
          { s with value := s.value.toValue.2 })
    else some (refusal call, s) := by
  rw [readValue, MayPanic.get_bind, readable?]
  cases s.flags.read || s.flags.secureRead || s.flags.encryptRead || s.flags.encryptAuthRead with
  | false => rfl
  | true =>
      cases call.body.get Options with
      | error e => rfl
      | ok options =>
          rw [Bool.not_true, if_neg Bool.false_ne_true, if_pos rfl]
          dsimp only
          have hpush : call.dynheader.makeResponse.body.pushParam
              (s.value.toValue.1.bytes.drop (offsetOption options)) = _ := pushParam_bytes _
          rw [hpush]
          rfl

theorem Descriptor.writeValue_eq (s : Descriptor) : writeValue call s =
    if s.writable then
      match call.body.get (AttBytes × Options) with
      | .error _ => some (call.dynheader.makeErrorResponse "UnknownType" none, s)
      | .ok (slice, options) =>
          (if offsetOption options ≠ 0 then
            s.value.toValue.1.update slice.bytes (offsetOption options)
          else some slice).map fun v ↦ (call.dynheader.makeResponse, { s with value := .value v })
    else some (refusal call, s) := by
  rw [writeValue, MayPanic.get_bind, writable]
  cases s.flags.write || s.flags.encryptWrite || s.flags.encryptAuthWrite with
  | false => rfl
  | true =>
      cases call.body.get (AttBytes × Options) with
      | error e => rfl
      | ok args =>
          obtain ⟨slice, options⟩ := args
          rw [Bool.not_true, if_neg Bool.false_ne_true, if_pos rfl]
          dsimp only
          split
          · cases s.value.toValue.1.update slice.bytes (offsetOption options) with
            | none => rfl
            | some v => rfl
          · rfl

/-- A call on the interface of descriptors goes to the method it names. -/
theorem Descriptor.handleCall_method {member : String}
    (hinterface : call.dynheader.interface = some bluezDesIf)
    (hmember : call.dynheader.member = some member) :
    handleCall call = method call member := by
  have hprops : bluezDesIf ≠ propsIf := by decide
  have hintro : bluezDesIf ≠ introIf := by decide
  funext s
  rw [handleCall, hinterface, hmember, MayPanic.unwrap_some_bind, if_neg hprops, if_neg hintro,
    if_pos rfl, MayPanic.unwrap_some_bind]

end Handlers

/-! ## Replies that can be sent -/

variable {σ τ : Type} {path : ObjectPath}

/-- If a handler returns, its reply can be sent just if `P` holds. -/
def SendableIff (ran : Ran Stop Out σ MarshalledMessage) (P : Prop) : Prop :=
  ∀ m s out, ran = .done m s out → (m.isSendable = true ↔ P)

namespace SendableIff

variable {P : Prop} {m : MarshalledMessage} {s : σ} {out : List Out}

theorem stop (why : Stop) (out : List Out) :
    SendableIff (.stop why out : Ran Stop Out σ MarshalledMessage) P := by
  rintro m s out' ⟨⟩

theorem granted (hm : m.isSendable = true) (h : P) : SendableIff (.done m s out) P := by
  rintro m' s' out' ⟨⟩
  exact iff_of_true hm h

/-- An error with a name that is none. -/
theorem refused {header : DynHeader} {name : String} {text : Option String}
    (hname : isErrorName name = false) (h : ¬P) :
    SendableIff (.done (header.makeErrorResponse name text) s out) P := by
  rintro m' s' out' ⟨⟩
  rw [isSendable_makeErrorResponse, hname]
  exact iff_of_false Bool.false_ne_true h

/-- The reply is known before the handler is done. -/
theorem map {α : Type} (hm : m.isSendable = true) (h : P) (ran : Ran Stop Out σ α) :
    SendableIff (ran.map fun _ ↦ m) P := by
  cases ran with
  | done a t out => exact granted hm h
  | stop why out => exact stop why out

theorem onPart {view : σ → τ} {put : σ → τ → σ} {x : MayPanic τ MarshalledMessage}
    (h : ∀ m t, x (view s) = some (m, t) → (m.isSendable = true ↔ P)) :
    SendableIff (Turn.onPart view put x s) P := by
  cases hrun : x (view s) with
  | none =>
      rw [Turn.onPart_none hrun]
      exact stop _ _
  | some r =>
      rw [Turn.onPart_some hrun]
      rintro m t out ⟨⟩
      exact h _ _ hrun

theorem congr {Q : Prop} {ran : Ran Stop Out σ MarshalledMessage} (h : SendableIff ran P)
    (hPQ : P ↔ Q) : SendableIff ran Q := fun m s out hrun ↦ (h m s out hrun).trans hPQ

end SendableIff

/-! ## What the objects grant -/

/-- The arguments of the call can be read. -/
def HasArgs (α : Type) [Signature α] [Unmarshal α] (c : MethodCall path) : Prop :=
  ∃ a, c.body.get α = .ok a

theorem not_hasArgs {α : Type} [Signature α] [Unmarshal α] {c : MethodCall path}
    {e : UnmarshalError} (h : c.toMessage.body.get α = .error e) : ¬HasArgs α c := by
  rintro ⟨a, ha⟩
  have hboth := h.symm.trans ha
  contradiction

/-- A characteristic does what a method asks for: the flags permit it, no session is in the way of
it, and the options and the value can be read. -/
def ChrcData.Grants (io : Io) (s : ChrcData) (c : MethodCall path) : Prop :=
  match c.member with
  | "ReadValue" => s.readable? = true ∧ HasArgs Options c
  | "WriteValue" => s.writable = true ∧ HasArgs (AttBytes × Options) c
  | "AcquireNotify" => s.flags.notify = true ∧ s.inTheWay io = .ok false ∧ HasArgs Options c
  | "AcquireWrite" => s.flags.writeWoResponse = true ∧ s.writeFd = none ∧ HasArgs Options c
  | "StartNotify" =>
      (s.flags.notify || s.flags.indicate) = true ∧ ∀ sock mtu, s.notify ≠ .socket sock mtu
  | "StopNotify" => s.notify = .signal
  | _ => False

/-- A descriptor does what a method asks for. -/
def Descriptor.Grants (s : Descriptor) (c : MethodCall path) : Prop :=
  match c.member with
  | "ReadValue" => s.readable? = true ∧ HasArgs Options c
  | "WriteValue" => s.writable = true ∧ HasArgs (AttBytes × Options) c
  | _ => False

namespace ChrcData

variable {io : Io} {c : MethodCall path} {s : ChrcData}

theorem sendable_readValue :
    SendableIff (readValue c.toMessage s) (s.readable? = true ∧ HasArgs Options c) := by
  rw [readValue_eq]
  cases hread : s.readable? with
  | false => exact .refused (by decide) fun h ↦ Bool.false_ne_true h.1
  | true =>
      rw [if_pos rfl]
      cases hbody : c.toMessage.body.get Options with
      | error e => exact .refused (by decide) fun h ↦ not_hasArgs hbody h.2
      | ok options => exact .granted rfl ⟨rfl, options, hbody⟩

theorem sendable_writeValue : SendableIff (writeValue io c.toMessage s)
    (s.writable = true ∧ HasArgs (AttBytes × Options) c) := by
  have hpath : c.toMessage.dynheader.object = some path := rfl
  rw [writeValue_eq hpath]
  cases haccepted : s.accepted c.toMessage with
  | some r =>
      obtain ⟨v, t⟩ := r
      refine .map rfl ⟨(still_accepted haccepted).2, ?_⟩ _
      rw [accepted, if_pos (still_accepted haccepted).2] at haccepted
      cases hbody : c.toMessage.body.get (AttBytes × Options) with
      | error e =>
          rw [hbody] at haccepted
          contradiction
      | ok args => exact ⟨args, hbody⟩
  | none =>
      dsimp only
      cases hwritable : s.writable with
      | false => exact .refused (by decide) fun h ↦ Bool.false_ne_true h.1
      | true =>
          rw [Bool.not_true, if_neg Bool.false_ne_true]
          cases hbody : c.toMessage.body.get (AttBytes × Options) with
          | error e => exact .refused (by decide) fun h ↦ not_hasArgs hbody h.2
          | ok args => exact .stop _ _

theorem sendable_acquire (t : ChrcData) (put : UnixFd → Nat → ChrcData) :
    SendableIff (acquire io c.toMessage t put) (HasArgs Options c) := by
  rw [acquire]
  cases hbody : c.toMessage.body.get Options with
  | error e => exact .refused (by decide) (not_hasArgs hbody)
  | ok options =>
      cases io.getSockSeqpacket with
      | error e => exact .stop _ _
      | ok fds => exact .granted rfl ⟨options, hbody⟩

theorem sendable_acquireNotify : SendableIff (acquireNotify io c.toMessage s)
    (s.flags.notify = true ∧ s.inTheWay io = .ok false ∧ HasArgs Options c) := by
  rw [acquireNotify_eq]
  cases hflag : s.flags.notify with
  | false => exact .refused (by decide) fun h ↦ Bool.false_ne_true h.1
  | true =>
      rw [Bool.not_true, if_neg Bool.false_ne_true]
      rcases hway : s.inTheWay io with e | _ | _
      · exact .stop _ _
      · exact (sendable_acquire _ _).congr ⟨fun h ↦ ⟨rfl, rfl, h⟩, fun h ↦ h.2.2⟩
      · refine .refused (by decide) fun h ↦ ?_
        exact Bool.noConfusion (Except.ok.inj h.2.1)

theorem sendable_acquireWrite : SendableIff (acquireWrite io c.toMessage s)
    (s.flags.writeWoResponse = true ∧ s.writeFd = none ∧ HasArgs Options c) := by
  rw [acquireWrite_eq]
  cases hflag : s.flags.writeWoResponse with
  | false => exact .refused (by decide) fun h ↦ Bool.false_ne_true h.1
  | true =>
      rw [Bool.not_true, if_neg Bool.false_ne_true]
      cases hfd : s.writeFd with
      | some fd =>
          rw [Option.isSome_some, if_pos rfl]
          exact .refused (by decide) fun h ↦ Option.some_ne_none _ h.2.1
      | none =>
          rw [Option.isSome_none, if_neg Bool.false_ne_true]
          exact (sendable_acquire _ _).congr ⟨fun h ↦ ⟨rfl, rfl, h⟩, fun h ↦ h.2.2⟩

/-- A session with signals is not in the way of another one: what is refused then has the name of
an error. -/
theorem sendable_startNotify : SendableIff (startNotify c.toMessage s)
    ((s.flags.notify || s.flags.indicate) = true ∧
      ∀ sock mtu, s.notify ≠ .socket sock mtu) := by
  rw [startNotify_eq]
  cases s.flags.notify || s.flags.indicate with
  | false => exact .refused (by decide) fun h ↦ Bool.false_ne_true h.1
  | true =>
      rw [Bool.not_true, if_neg Bool.false_ne_true]
      cases s.notify with
      | none => exact .granted rfl ⟨rfl, fun _ _ h ↦ Notify.noConfusion h⟩
      | signal =>
          refine .granted ?_ ⟨rfl, fun _ _ h ↦ Notify.noConfusion h⟩
          rw [isSendable_makeErrorResponse]
          decide
      | socket sock mtu => exact .refused (by decide) fun h ↦ h.2 sock mtu rfl

theorem sendable_stopNotify :
    SendableIff (stopNotify c.toMessage s) (s.notify = .signal) := by
  rw [stopNotify_eq]
  split
  · next h => exact .refused (by decide) h
  · next h => exact .granted rfl (not_not.mp h)

/-- **The reply of a method can be sent** just if the characteristic does what is asked for. -/
theorem sendable_method : SendableIff (method io c.toMessage c.member s) (s.Grants io c) := by
  generalize hmember : c.member = member
  rw [method.eq_def]
  split <;> rw [Grants, hmember]
  · exact sendable_readValue
  · exact sendable_writeValue
  · exact sendable_acquireNotify
  · exact sendable_acquireWrite
  · exact sendable_startNotify
  · exact sendable_stopNotify
  · split
    all_goals first | contradiction | exact .refused (by decide) id

end ChrcData

namespace Descriptor

variable {c : MethodCall path} {s : Descriptor}

theorem sendable_readValue {m : MarshalledMessage} {t : Descriptor}
    (h : readValue c.toMessage s = some (m, t)) :
    m.isSendable = true ↔ s.readable? = true ∧ HasArgs Options c := by
  rw [readValue_eq] at h
  cases hread : s.readable? with
  | false =>
      rw [hread] at h
      obtain ⟨rfl, -⟩ := Prod.mk.inj (Option.some.inj h)
      rw [isSendable_refusal]
      exact iff_of_false Bool.false_ne_true fun h ↦ Bool.false_ne_true h.1
  | true =>
      rw [hread, if_pos rfl] at h
      cases hbody : c.toMessage.body.get Options with
      | error e =>
          rw [hbody] at h
          obtain ⟨rfl, -⟩ := Prod.mk.inj (Option.some.inj h)
          refine iff_of_false ?_ fun h ↦ not_hasArgs hbody h.2
          rw [isSendable_makeErrorResponse]
          decide
      | ok options =>
          rw [hbody] at h
          obtain ⟨rfl, -⟩ := Prod.mk.inj (Option.some.inj h)
          exact iff_of_true rfl ⟨rfl, options, hbody⟩

theorem sendable_writeValue {m : MarshalledMessage} {t : Descriptor}
    (h : writeValue c.toMessage s = some (m, t)) :
    m.isSendable = true ↔ s.writable = true ∧ HasArgs (AttBytes × Options) c := by
  rw [writeValue_eq] at h
  cases hwritable : s.writable with
  | false =>
      rw [hwritable] at h
      obtain ⟨rfl, -⟩ := Prod.mk.inj (Option.some.inj h)
      rw [isSendable_refusal]
      exact iff_of_false Bool.false_ne_true fun h ↦ Bool.false_ne_true h.1
  | true =>
      rw [hwritable, if_pos rfl] at h
      cases hbody : c.toMessage.body.get (AttBytes × Options) with
      | error e =>
          rw [hbody] at h
          obtain ⟨rfl, -⟩ := Prod.mk.inj (Option.some.inj h)
          refine iff_of_false ?_ fun h ↦ not_hasArgs hbody h.2
          rw [isSendable_makeErrorResponse]
          decide
      | ok args =>
          rw [hbody] at h
          obtain ⟨v, -, hv⟩ := Option.map_eq_some_iff.mp h
          obtain ⟨rfl, -⟩ := Prod.mk.inj hv
          exact iff_of_true rfl ⟨rfl, args, hbody⟩

theorem sendable_method {m : MarshalledMessage} {t : Descriptor}
    (h : method c.toMessage c.member s = some (m, t)) : m.isSendable = true ↔ s.Grants c := by
  generalize hmember : c.member = member at h
  rw [method.eq_def] at h
  split at h <;> rw [Grants, hmember]
  · exact sendable_readValue h
  · exact sendable_writeValue h
  · obtain ⟨rfl, -⟩ := Prod.mk.inj (Option.some.inj h)
    split
    · contradiction
    · contradiction
    · refine iff_of_false ?_ id
      rw [isSendable_makeErrorResponse]
      decide

end Descriptor

/-! ## The dispatchers -/

/-- Of the properties of an attribute its handle can be set, on an interface. -/
def SetsHandle (gate interface prop : String) (v : BluezOptions) : Prop :=
  interface = gate ∧ prop = handleStr ∧ ∃ h, v = .u16 h

theorem accepts_of_handle {σ : Type} [Properties σ] {gate : String} (hset : ∀ h (s : σ),
      ∃ s', Properties.setInner path gate handleStr (.u16 h) s = some (.ok (), s'))
    (interface prop : String) (v : BluezOptions) (s : σ) (h : SetsHandle gate interface prop v) :
    ∃ s', Properties.setInner path interface prop v s = some (.ok (), s') := by
  obtain ⟨rfl, rfl, n, rfl⟩ := h
  exact hset n s

/-- **The object grants the call**: it can do what is asked for, if that is for its properties or
for its methods. -/
def WorkerState.Grants (io : Io) (c : MethodCall path) : WorkerState → Prop
  | app _ => True
  | serv _ => c.interface = some propsIf → Properties.Grants ServData (SetsHandle bluezSerIf) c
  | chrc s => (c.interface = some propsIf → Properties.Grants ChrcData (SetsHandle bluezChrIf) c) ∧
      (c.interface = some bluezChrIf → s.Grants io c)
  | desc s => (c.interface = some propsIf → Properties.Grants Descriptor (SetsHandle bluezChrIf) c) ∧
      (c.interface = some bluezDesIf → s.Grants c)

section Dispatchers

variable {io : Io} {c : MethodCall path}

/-- The application refuses nothing. -/
theorem WorkerData.sendable_handleCall (asked : Asked) (s : WorkerData) :
    SendableIff (handleCall asked c.toMessage s) True := by
  rw [handleCall]
  cases c.toMessage.dynheader.interface with
  | none => exact .stop _ _
  | some interface =>
      rw [Act.unwrap_some, Act.pure_bind]
      split
      · exact .granted rfl trivial
      split
      · rw [handleObjMgr, Act.read_bind]
        cases s.senders.mapM asked with
        | none => exact .stop _ _
        | some objects =>
            rw [Act.unwrap_some, Act.pure_bind]
            rcases Body.pushParam c.toMessage.dynheader.makeResponse.body _ with _ | body
            · exact .stop _ _
            · exact .granted rfl trivial
      · exact .stop _ _

theorem ServData.sendable_handleCall (io : Io) (s : ServWorker) : SendableIff
    (ServWorker.onData (handleCall c.toMessage) s) (WorkerState.Grants io c (.serv s)) := by
  refine .onPart fun m t h ↦ ?_
  have hinterface : c.toMessage.dynheader.interface = c.interface := rfl
  rw [handleCall, hinterface] at h
  rw [WorkerState.Grants]
  cases hi : c.interface with
  | none =>
      rw [hi] at h
      contradiction
  | some interface =>
      rw [hi, MayPanic.unwrap_some_bind] at h
      split at h
      · next hprops =>
          subst hprops
          rw [forall_prop_of_true rfl]
          exact Properties.sendable_propertiesCall (readable path _) (exact path)
            (accepts_of_handle fun h s ↦ ⟨_, rfl⟩) (setInner_cases path) h
      · next hprops =>
          split at h
          · obtain ⟨rfl, -⟩ := Prod.mk.inj (Option.some.inj h)
            exact iff_of_true rfl fun heq ↦ absurd (Option.some.inj heq) hprops
          · contradiction

theorem ChrcData.sendable_handleCall (io : Io) (hpath : path ≠ .root) (s : ChrcData) :
    SendableIff (handleCall io c.toMessage s) (WorkerState.Grants io c (.chrc s)) := by
  have hinterface : c.toMessage.dynheader.interface = c.interface := rfl
  rw [WorkerState.Grants]
  by_cases hchr : c.interface = some bluezChrIf
  · have hprops : bluezChrIf ≠ propsIf := by decide
    rw [handleCall_method (hinterface.trans hchr) (rfl : _ = some c.member)]
    refine sendable_method.congr ⟨fun h ↦ ⟨fun heq ↦ ?_, fun _ ↦ h⟩, fun h ↦ h.2 hchr⟩
    exact absurd (Option.some.inj (hchr.symm.trans heq)) hprops
  rw [and_iff_left fun h ↦ absurd h hchr, handleCall, hinterface]
  cases hi : c.interface with
  | none => exact .stop _ _
  | some interface =>
      rw [Act.unwrap_some, Act.pure_bind]
      split
      · next hprops =>
          subst hprops
          rw [forall_prop_of_true rfl]
          refine .onPart fun m t h ↦ ?_
          exact Properties.sendable_propertiesCall (readable hpath fun _ _ ↦ trivial)
            (exact hpath) (accepts_of_handle fun h s ↦ ⟨_, rfl⟩) (setInner_cases path) h
      · next hprops =>
          split
          · exact .granted rfl fun heq ↦ absurd (Option.some.inj heq) hprops
          split
          · next h => exact absurd (hi.trans (congrArg some h)) hchr
          · exact .stop _ _

theorem Descriptor.sendable_handleCall (io : Io) (hpath : path ≠ .root) (s : Descriptor) :
    SendableIff (Turn.ofMayPanic (handleCall c.toMessage) s)
      (WorkerState.Grants io c (.desc s)) := by
  refine .onPart fun m t h ↦ ?_
  have hinterface : c.toMessage.dynheader.interface = c.interface := rfl
  rw [WorkerState.Grants]
  by_cases hdes : c.interface = some bluezDesIf
  · have hprops : bluezDesIf ≠ propsIf := by decide
    rw [handleCall_method (hinterface.trans hdes) (rfl : _ = some c.member)] at h
    refine (sendable_method h).trans ⟨fun h ↦ ⟨fun heq ↦ ?_, fun _ ↦ h⟩, fun h ↦ h.2 hdes⟩
    exact absurd (Option.some.inj (hdes.symm.trans heq)) hprops
  rw [and_iff_left fun h ↦ absurd h hdes]
  rw [handleCall, hinterface] at h
  cases hi : c.interface with
  | none =>
      rw [hi] at h
      contradiction
  | some interface =>
      rw [hi, MayPanic.unwrap_some_bind] at h
      split at h
      · next hprops =>
          subst hprops
          rw [forall_prop_of_true rfl]
          exact Properties.sendable_propertiesCall (readable hpath fun _ _ ↦ trivial)
            (exact hpath) (accepts_of_handle fun h s ↦ ⟨_, rfl⟩) (setInner_cases path) h
      · next hprops =>
          split at h
          · obtain ⟨rfl, -⟩ := Prod.mk.inj (Option.some.inj h)
            exact iff_of_true rfl fun heq ↦ absurd (Option.some.inj heq) hprops
          split at h
          · next h' => exact absurd (hi.trans (congrArg some h')) hdes
          · contradiction

end Dispatchers

end Gatt.Server

end Rustable
