import Rustable.Gatt.Server.Attribute
import Rustable.Gatt.Server.Mailboxes

/-!
# Values as registers

A characteristic or a descriptor stores a value, or a callback that gives one.  It is stored
by an update or by a write of the peer; whoever reads it, reads what was stored last
(`content_of_turn`, `told_of_get`, `told_of_readValue`).  With channels that are queues, the
application reads the value of the last update it has sent before, unless the peer has written
since (`get_reads_last_update`).
-/

namespace Rustable.Gatt.Server

open DBus Mailbox

/-! ## What is stored -/

/-- A value, or a callback that gives one each time it is called. -/
abbrev Content := AttBytes ⊕ (Nat → AttBytes)

/-- The value can be read from what is stored. -/
def Content.Reads : Content → AttBytes → Prop
  | .inl w, v => v = w
  | .inr f, v => ∃ calls, v = f calls

theorem ValOrFn.reads_toValue (vf : ValOrFn) : Content.Reads vf.stored vf.toValue.1 := by
  cases vf with
  | value v => rfl
  | function f calls => exact ⟨calls, rfl⟩

/-- What a worker stores, if its attribute has a value. -/
def WorkerState.content : WorkerState → Option Content
  | app _ | serv _ => none
  | chrc s => some s.value.stored
  | desc s => some s.value.stored

/-- The input may be a write of the peer: a `WriteValue`, or data from the socket. -/
def Input.IsPeerWrite : Input → Prop
  | .call _ msg => msg.dynheader.member = some "WriteValue"
  | .written (.ok _) => True
  | .written (.error _) | .message _ | .notified _ => False

/-- The message stores a value. -/
def WorkerMsg.isUpdate : WorkerMsg → Bool
  | .update _ _ => true
  | .unregister | .get _ | .getHandle _ | .notify _ | .notifying _ | .notifyAcquired _
  | .notifyingSignal _ | .includedPaths _ | .objMgr _ => false

/-- The input stores nothing. -/
def Input.Reads (input : Input) : Prop :=
  ¬input.IsPeerWrite ∧ ∀ msg, input = .message msg → msg.isUpdate = false

section Turns

variable {io : Io} {path : ObjectPath} {filter : Option String} {flow : Flow} {out : List Out}

/-! ## Turns of a characteristic -/

/-- Only a write of the peer is passed to the write callback. -/
theorem ChrcData.passed_eq_none {s : ChrcData} {found : Found path}
    (hwritten : ∀ v, found ≠ .written (.ok v))
    (hcall : ∀ c, found = .call c → c.member ≠ "WriteValue") : s.passed filter found = none := by
  cases found with
  | message | closed | notified => rfl
  | written res =>
      cases res with
      | ok v => exact absurd rfl (hwritten v)
      | error e => rfl
  | call c =>
      cases hmethod : (Found.call c).method? filter with
      | none =>
          rw [passed, hmethod]
          · rfl
          · exact nofun
      | some call =>
          obtain ⟨rfl, -⟩ := method?_eq_some hmethod
          rw [passed, hmethod, Option.bind_some, if_neg (hcall call rfl)]
          exact nofun

/-- A turn with anything else than an update or a write of the peer stores nothing. -/
theorem ChrcData.stored_of_turn (hpath : path ≠ .root) {s s' : ChrcData} {found : Found path}
    (hwritten : ∀ v, found ≠ .written (.ok v))
    (hcall : ∀ c, found = .call c → c.member ≠ "WriteValue")
    (hmsg : ∀ vf notify, found ≠ .message (.update vf notify))
    (h : turn io filter found s = some (.done flow s' out)) :
    s'.value.stored = s.value.stored := by
  obtain hstored | ⟨vf, notify, hupdate⟩ | hpassed := (turn_spec hpath h).took.value
  · exact hstored
  · exact absurd hupdate (hmsg vf notify)
  · rw [passed_eq_none hwritten hcall] at hpassed
    contradiction

/-- An update stores its value. -/
theorem ChrcData.stored_of_update {s s' : ChrcData} {vf : ValOrFn} {notify : Bool}
    (h : onMsg io path (.update vf notify) s = .done flow s' out) :
    s'.value.stored = vf.stored := by
  rw [onMsg_update] at h
  have hnote : ({ s with value := vf }.noteIf notify).2.value.stored = vf.stored := by
    cases notify with
    | false => rfl
    | true => exact ValOrFn.stored_toValue vf
  obtain hsent | ⟨e, -, hsent, -⟩ := sentIf_eq io path ({ s with value := vf }.noteIf notify).1
    ({ s with value := vf }.noteIf notify).2
  · rw [hsent] at h
    obtain ⟨-, rfl, -⟩ := Ran.done.inj h
    exact hnote
  · rw [hsent] at h
    contradiction

/-! ## Turns of a descriptor -/

theorem Descriptor.stored_of_msg (hpath : path ≠ .root) {s s' : Descriptor} {msg : WorkerMsg}
    (hmsg : msg.isUpdate = false) (h : onMsg io path msg s = .done flow s' out) :
    s'.value.stored = s.value.stored := by
  let e : Effect Stop Out Descriptor := quiet (fun d ↦ d.value.stored) fun _ ↦ True
  have hread (s : Descriptor) : Properties.Readable path fun t ↦ e.changes s t :=
    readable hpath fun d h ↦ (ValOrFn.stored_toValue d.value).trans h
  have hanswer (sender : ReplyTo) (a : Answer) :
      Act.Within e (fun _ ↦ True) (Turn.answerOrStop io sender a) :=
    within_answerOrStop (Out.isQuiet_answer sender a) fun _ ↦ trivial
  have hwithin : (onMsg io path msg s).Within e (fun _ ↦ True) s := by
    cases msg with
    | update vf notify => contradiction
    | unregister => exact Act.Within.pure trivial s
    | get sender =>
        refine Act.Within.seq ?_ (fun _ ↦ ?_) s
        · exact .embed (fun d ↦ ValOrFn.stored_toValue d.value) fun _ ↦ trivial
        · exact .seq (hanswer sender _) fun _ ↦ .pure trivial
    | objMgr sender =>
        refine Act.Within.seq (within_getAllInterfaces hread fun _ ↦ rfl) (fun _ ↦ ?_) s
        exact .seq (hanswer sender _) fun _ ↦ .pure trivial
    | getHandle sender =>
        refine within_getHandle handle (fun _ ↦ trivial) fun h ↦ ?_
        exact .seq (hanswer sender _) fun _ ↦ .pure trivial
    | includedPaths | notify | notifying | notifyAcquired | notifyingSignal =>
        exact Act.Within.stop trivial s
  rw [h] at hwithin
  exact hwithin.2.1

/-- Any method but `WriteValue` leaves what is stored. -/
theorem Descriptor.stored_of_method (call : MarshalledMessage) (s : Descriptor)
    {member : String} (hmember : member ≠ "WriteValue") :
    ∃ m t, method call member s = some (m, t) ∧ t.value.stored = s.value.stored := by
  unfold method
  split
  · rw [readValue_eq]
    cases s.readable? with
    | false => exact ⟨_, s, rfl, rfl⟩
    | true =>
        cases call.body.get Options with
        | error e => exact ⟨_, s, rfl, rfl⟩
        | ok options => exact ⟨_, _, rfl, ValOrFn.stored_toValue s.value⟩
  · contradiction
  · exact ⟨_, s, rfl, rfl⟩

/-- A call of anything but `WriteValue` leaves what is stored. -/
theorem Descriptor.stored_of_handleCall (hpath : path ≠ .root) {s s' : Descriptor}
    {c : MethodCall path} (hcall : c.member ≠ "WriteValue") {m : MarshalledMessage}
    (h : handleCall c.toMessage s = some (m, s')) : s'.value.stored = s.value.stored := by
  have hinterface : c.toMessage.dynheader.interface = c.interface := rfl
  rw [handleCall, hinterface] at h
  cases hi : c.interface with
  | none =>
      rw [hi] at h
      contradiction
  | some i =>
      rw [hi, MayPanic.unwrap_some_bind] at h
      split at h
      · obtain ⟨m', t, hrun, ht, -⟩ := Properties.propertiesCall_answers
          (readable hpath (I := fun d ↦ d.value.stored = s.value.stored)
            fun d hd ↦ (ValOrFn.stored_toValue d.value).trans hd)
          (settable path fun d h hd ↦ hd) c rfl
        obtain ⟨-, rfl⟩ := Prod.mk.inj (Option.some.inj (hrun.symm.trans h))
        exact ht
      split at h
      · obtain ⟨-, rfl⟩ := Prod.mk.inj (Option.some.inj h)
        rfl
      split at h
      · obtain ⟨m', t, hrun, ht⟩ := stored_of_method c.toMessage s hcall
        obtain ⟨-, rfl⟩ := Prod.mk.inj (Option.some.inj (hrun.symm.trans h))
        exact ht
      · contradiction

theorem Descriptor.stored_of_call (hpath : path ≠ .root) {s s' : Descriptor} {c : MethodCall path}
    (hcall : c.member ≠ "WriteValue") (h : onCall io filter c.toMessage s = .done flow s' out) :
    s'.value.stored = s.value.stored := by
  rw [onCall] at h
  cases hfilter : isMsgBluez c.toMessage filter with
  | false =>
      rw [Turn.replyTo_refused hfilter] at h
      obtain ⟨m, out', heq, -⟩ := Turn.done_of_replied h
      obtain ⟨-, rfl, -⟩ := Ran.done.inj heq
      rfl
  | true =>
      rw [Turn.replyTo_passed hfilter] at h
      obtain ⟨m, out', heq, -⟩ := Turn.done_of_replied h
      cases hrun : handleCall c.toMessage s with
      | none =>
          rw [Turn.ofMayPanic, Turn.onPart_none hrun] at heq
          contradiction
      | some r =>
          obtain ⟨m', d⟩ := r
          rw [Turn.ofMayPanic, Turn.onPart_some hrun] at heq
          obtain ⟨-, rfl, -⟩ := Ran.done.inj heq
          exact stored_of_handleCall hpath hcall hrun

/-! ## Any turn -/

namespace WorkerState

/-- **Reading stores nothing.** -/
theorem content_of_turn {input : Input} {s s' : WorkerState} (hpath : path ≠ .root)
    (hrouted : input.Routed path) (hreads : input.Reads)
    (h : s.turn io path filter input = some (.done flow s' out)) : s'.content = s.content := by
  obtain ⟨hpeer, hmsg⟩ := hreads
  have hkind := turn_kind h
  cases s with
  | app s =>
      cases s' with
      | app s' => rfl
      | serv | chrc | desc => contradiction
  | serv s =>
      cases s' with
      | serv s' => rfl
      | app | chrc | desc => contradiction
  | chrc s =>
      -- What the characteristic finds, with the calls in the form in which they are routed.
      have hturn (found : Found path) {ran : Ran Stop Out ChrcData Flow}
          (hfound : ChrcData.turn io filter found s = some ran)
          (hran : ran.mapState chrc = .done flow s' out) (hwritten : ∀ v, found ≠ .written (.ok v))
          (hcall : ∀ c, found = .call c → c.member ≠ "WriteValue")
          (hupdate : ∀ vf notify, found ≠ .message (.update vf notify)) :
          s'.content = (chrc s).content := by
        obtain ⟨t, rfl, rfl⟩ := done_of_mapState hran
        exact congrArg some (ChrcData.stored_of_turn hpath hwritten hcall hupdate hfound)
      cases input with
      | message msg =>
          refine hturn (.message msg) rfl (Option.some.inj h) (by rintro _ ⟨⟩) (by rintro _ ⟨⟩)
            fun vf notify heq ↦ ?_
          have hno := hmsg msg rfl
          rw [Found.message.inj heq] at hno
          contradiction
      | call asked msg =>
          obtain ⟨c, rfl⟩ := hrouted asked msg rfl
          refine hturn (.call c) rfl (Option.some.inj h) (by rintro _ ⟨⟩) (fun c' heq hmember ↦ ?_)
            (by rintro _ _ ⟨⟩)
          rw [← Found.call.inj heq] at hmember
          exact hpeer (congrArg some hmember)
      | notified shouldNot =>
          exact hturn (.notified shouldNot) rfl (Option.some.inj h) (by rintro _ ⟨⟩)
            (by rintro _ ⟨⟩) (by rintro _ _ ⟨⟩)
      | written res =>
          rw [turn] at h
          split at h
          · next hfd =>
              refine hturn (.written res) (if_pos hfd) (Option.some.inj h) (fun v heq ↦ ?_)
                (by rintro _ ⟨⟩) (by rintro _ _ ⟨⟩)
              rw [Found.written.inj heq] at hpeer
              exact hpeer trivial
          · contradiction
  | desc s =>
      cases input with
      | message msg =>
          obtain ⟨t, rfl, hrun⟩ := done_of_mapState (Option.some.inj h)
          exact congrArg some (Descriptor.stored_of_msg hpath (hmsg msg rfl) hrun)
      | call asked msg =>
          obtain ⟨c, rfl⟩ := hrouted asked msg rfl
          obtain ⟨t, rfl, hrun⟩ := done_of_mapState (Option.some.inj h)
          refine congrArg some (Descriptor.stored_of_call hpath (fun hmember ↦ ?_) hrun)
          exact hpeer (congrArg some hmember)
      | notified | written => contradiction

/-- **An update stores its value**, if the worker takes it and goes on. -/
theorem content_of_update {vf : ValOrFn} {notify : Bool} {s s' : WorkerState}
    (h : s.onMsg io path (.update vf notify) = .done flow s' out) :
    s'.content = some vf.stored := by
  cases s with
  | app | serv => contradiction
  | chrc s =>
      obtain ⟨t, rfl, hrun⟩ := done_of_mapState h
      exact congrArg some (ChrcData.stored_of_update hrun)
  | desc s =>
      obtain ⟨-, rfl, -⟩ := Ran.done.inj h
      rfl

/-- **A `Get` is answered with what is stored**, if there is still somebody who waits for the
answer. -/
theorem told_of_get {s : WorkerState} {content : Content} (hs : s.content = some content)
    (sender : ReplyTo) : ∃ v, content.Reads v ∧ (s.onMsg io path (.get sender)).out =
      if io.receiverAlive then [.answer sender (.value v)] else [] := by
  cases s with
  | app | serv => contradiction
  | chrc s =>
      obtain rfl := Option.some.inj hs
      refine ⟨s.value.toValue.1, ValOrFn.reads_toValue s.value, ?_⟩
      rw [onMsg, ChrcData.onMsg, ChrcData.toValue, Act.embed_bind, Turn.answer]
      cases io.receiverAlive with
      | true | false => rfl
  | desc s =>
      obtain rfl := Option.some.inj hs
      refine ⟨s.value.toValue.1, ValOrFn.reads_toValue s.value, ?_⟩
      rw [onMsg, Descriptor.onMsg, Act.embed_bind, Turn.answerOrStop]
      cases io.receiverAlive with
      | true | false => rfl

end WorkerState

/-! ## Reads of the peer -/

/-- A characteristic panics on the methods of a descriptor, -/
theorem ChrcData.handleCall_panics (io : Io) {c : MethodCall path}
    (h : c.interface = some bluezDesIf) (s : ChrcData) :
    handleCall io c.toMessage s = .stop .panic [] := by
  have hinterface : c.toMessage.dynheader.interface = some bluezDesIf := h
  rw [handleCall, hinterface, Act.unwrap_some, Act.pure_bind, if_neg (by decide),
    if_neg (by decide), if_neg (by decide)]
  rfl

/-- and a descriptor on those of a characteristic. -/
theorem Descriptor.handleCall_panics {c : MethodCall path} (h : c.interface = some bluezChrIf)
    (s : Descriptor) : (Turn.ofMayPanic (handleCall c.toMessage) : Turn Descriptor _) s =
      .stop .panic [] := by
  have hinterface : c.toMessage.dynheader.interface = some bluezChrIf := h
  refine Turn.onPart_none ?_
  rw [handleCall, hinterface, MayPanic.unwrap_some_bind, if_neg (by decide), if_neg (by decide),
    if_neg (by decide)]
  rfl

theorem Ran.out_mapState {ω ο σ τ α : Type} (f : σ → τ) (r : Ran ω ο σ α) :
    (r.mapState f).out = r.out := by
  cases r <;> rfl

namespace Attribute

variable {a : Attribute} {c : MethodCall path}

theorem out_handleCall_readValue (io : Io) (hinterface : c.interface = some a.interface)
    (hmember : c.member = "ReadValue") : (handleCall io c.toMessage a).out = [] := by
  rw [handleCall_readValue hinterface hmember]
  cases a.readable with
  | false => rfl
  | true =>
      cases c.toMessage.body.get Options with
      | error e => rfl
      | ok options => rfl

/-- What `ReadValue` returns, unless it is an error. -/
theorem reply_of_readValue (hinterface : c.interface = some a.interface)
    (hmember : c.member = "ReadValue") {m : MarshalledMessage} {t : Attribute}
    (h : handleCall io c.toMessage a = .done m t out) (htyp : m.typ = .reply) :
    ∃ v options, Content.Reads a.value.stored v ∧ c.toMessage.body.get Options = .ok options ∧
      m = valueReply c.toMessage (v.bytes.drop (offsetOption options)) := by
  rw [handleCall_readValue hinterface hmember] at h
  split at h
  · cases hbody : c.toMessage.body.get Options with
    | error e =>
        rw [hbody] at h
        obtain ⟨rfl, -⟩ := Ran.done.inj h
        contradiction
    | ok options =>
        rw [hbody] at h
        obtain ⟨rfl, -⟩ := Ran.done.inj h
        refine ⟨a.read.1, options, ?_, rfl, rfl⟩
        cases a with
        | chrc data => exact ValOrFn.reads_toValue data.value
        | desc data => exact ValOrFn.reads_toValue data.value
  · obtain ⟨rfl, -⟩ := Ran.done.inj h
    contradiction

end Attribute

namespace WorkerState

/-- A successful reply to a call is what the handler has returned. -/
theorem reply_of_replyTo {σ : Type} {call m : MarshalledMessage}
    {handle : Turn σ MarshalledMessage} {s : σ}
    (hm : .reply m ∈ (Turn.replyTo io filter call handle s).out) (htyp : m.typ = .reply)
    (hhandle : ∀ m, .reply m ∉ (handle s).out) : ∃ t out, handle s = .done m t out := by
  cases hfilter : isMsgBluez call filter with
  | false =>
      rw [Turn.replyTo_refused hfilter, Turn.replied.eq_def] at hm
      dsimp only at hm
      split at hm
      · obtain rfl := Out.reply.inj (List.mem_singleton.mp hm)
        contradiction
      · contradiction
  | true =>
      rw [Turn.replyTo_passed hfilter, Turn.replied.eq_def] at hm
      split at hm
      · next m' t out hrun =>
          rw [hrun] at hhandle
          split at hm
          · rcases List.mem_append.mp hm with hm | hm
            · exact absurd hm (hhandle m)
            · obtain rfl := Out.reply.inj (List.mem_singleton.mp hm)
              exact ⟨t, out, hrun⟩
          · exact absurd hm (hhandle m)
      · next why out hrun =>
          rw [hrun] at hhandle
          exact absurd hm (hhandle m)

/-- **A successful reply to a `ReadValue` carries what is stored**, from the offset on. -/
theorem told_of_readValue {s : WorkerState} {content : Content} (hs : s.content = some content)
    {asked : Asked} {c : MethodCall path} (hmember : c.member = "ReadValue")
    (hinterface : c.interface = some bluezChrIf ∨ c.interface = some bluezDesIf)
    {m : MarshalledMessage} (hm : .reply m ∈ (s.onCall io filter asked c.toMessage).out)
    (htyp : m.typ = .reply) : ∃ v options, content.Reads v ∧
      c.toMessage.body.get Options = .ok options ∧
      m = valueReply c.toMessage (v.bytes.drop (offsetOption options)) := by
  cases s with
  | app | serv => contradiction
  | chrc s =>
      obtain rfl := Option.some.inj hs
      have hm : .reply m ∈ (Turn.replyTo io filter c.toMessage
          (ChrcData.handleCall io c.toMessage) s).out := Ran.out_mapState chrc _ ▸ hm
      rcases hinterface with hi | hi
      · have hout := @Attribute.out_handleCall_readValue path (.chrc s) c io hi hmember
        rw [Attribute.handleCall, Ran.out_mapState] at hout
        obtain ⟨t, out, hrun⟩ := reply_of_replyTo hm htyp fun _ ↦ hout ▸ List.not_mem_nil
        have hcall : Attribute.handleCall io c.toMessage (.chrc s) = .done m (.chrc t) out :=
          congrArg (Ran.mapState Attribute.chrc) hrun
        exact Attribute.reply_of_readValue hi hmember hcall htyp
      · have hpanic := ChrcData.handleCall_panics io hi s
        obtain ⟨t, out, hrun⟩ := reply_of_replyTo hm htyp fun _ ↦ hpanic ▸ List.not_mem_nil
        rw [hpanic] at hrun
        contradiction
  | desc s =>
      obtain rfl := Option.some.inj hs
      have hm : .reply m ∈ (Turn.replyTo io filter c.toMessage
          (Turn.ofMayPanic (Descriptor.handleCall c.toMessage)) s).out :=
        Ran.out_mapState desc _ ▸ hm
      rcases hinterface with hi | hi
      · have hpanic := Descriptor.handleCall_panics hi s
        obtain ⟨t, out, hrun⟩ := reply_of_replyTo hm htyp fun _ ↦ hpanic ▸ List.not_mem_nil
        rw [hpanic] at hrun
        contradiction
      · have hout := @Attribute.out_handleCall_readValue path (.desc s) c io hi hmember
        rw [Attribute.handleCall, Ran.out_mapState] at hout
        obtain ⟨t, out, hrun⟩ := reply_of_replyTo hm htyp fun _ ↦ hout ▸ List.not_mem_nil
        have hcall : Attribute.handleCall io c.toMessage (.desc s) = .done m (.desc t) out :=
          congrArg (Ran.mapState Attribute.desc) hrun
        exact Attribute.reply_of_readValue hi hmember hcall htyp

end WorkerState

/-- What a turn of the worker at the path tells of what is stored. -/
structure Tells (content : Content) (path : ObjectPath) (t : Io × Input) (out : List Out) :
    Prop where
  get : ∀ sender, t.2 = .message (.get sender) → ∃ v, content.Reads v ∧
    out = if t.1.receiverAlive then [.answer sender (.value v)] else []
  readValue : ∀ asked (c : MethodCall path) m, t.2 = .call asked c.toMessage →
    c.member = "ReadValue" → c.interface = some bluezChrIf ∨ c.interface = some bluezDesIf →
    .reply m ∈ out → m.typ = .reply → ∃ v options, content.Reads v ∧
      c.toMessage.body.get Options = .ok options ∧
      m = valueReply c.toMessage (v.bytes.drop (offsetOption options))

end Turns

/-! ## Runs of a worker -/

namespace Worker

variable {filter : Option String} {worker worker' : Worker} {t : Io × Input}
  {ts : List (Io × Input)}
  {out : List Out} {log : List ((Io × Input) × List Out)}

/-- A worker that takes turns is running. -/
theorem behaviour_turn_iff : (behaviour filter).turn worker t = some (out, worker') ↔
    worker.running = true ∧ ∃ ran, worker.state.turn t.1 worker.path filter t.2 = some ran ∧
      out = ran.out ∧ worker' = worker.after ran := by
  rw [behaviour]
  dsimp only
  split
  · next hrunning =>
      rw [Option.map_eq_some_iff, and_iff_right hrunning]
      refine exists_congr fun ran ↦ and_congr_right fun _ ↦ ?_
      rw [Prod.mk.injEq]
      exact and_congr eq_comm eq_comm
  · next hrunning => exact iff_of_false (Option.some_ne_none _).symm fun h ↦ hrunning h.1

theorem running_of_told (h : (behaviour filter).told worker (t :: ts) = some (log, worker')) :
    worker.running = true := by
  obtain ⟨out, u, rest, hturn, -⟩ := Behaviour.told_cons_iff.mp h
  exact (behaviour_turn_iff.mp hturn).1

/-- What is stored in the worker at the path. -/
structure Stores (path : ObjectPath) (content : Content) (worker : Worker) : Prop where
  path : worker.path = path
  content : worker.state.content = some content

variable {path : ObjectPath} {content : Content}

/-- A turn that reads leaves what is stored. -/
theorem Stores.turn (hpath : path ≠ .root) (hrouted : t.2.Routed path) (hreads : t.2.Reads)
    (h : worker.Stores path content)
    (hturn : (behaviour filter).turn worker t = some (out, worker')) :
    worker'.Stores path content := by
  obtain ⟨-, ran, hran, -, rfl⟩ := behaviour_turn_iff.mp hturn
  obtain ⟨hpath', -, ⟨flow, out', hdone⟩ | ⟨hsame, -⟩⟩ := after_spec worker worker.queue ran
  · refine ⟨hpath'.trans h.path, ?_⟩
    rw [h.path] at hran
    rw [← h.content]
    exact WorkerState.content_of_turn hpath hrouted hreads (hran.trans (congrArg some hdone))
  · exact ⟨hpath'.trans h.path, (congrArg WorkerState.content hsame).trans h.content⟩

/-- A turn tells what is stored. -/
theorem Stores.tells (h : worker.Stores path content)
    (hturn : (behaviour filter).turn worker t = some (out, worker')) :
    Tells content path t out := by
  obtain ⟨-, ran, hran, rfl, -⟩ := behaviour_turn_iff.mp hturn
  obtain ⟨io, input⟩ := t
  rw [h.path] at hran
  constructor
  · rintro sender rfl
    obtain rfl := Option.some.inj hran
    exact WorkerState.told_of_get h.content sender
  · rintro asked c m rfl hmember hinterface hm htyp
    obtain rfl := Option.some.inj hran
    exact WorkerState.told_of_readValue h.content hmember hinterface hm htyp

/-- No turn changes the path or the kind of a worker. -/
theorem same_of_turn (hturn : (behaviour filter).turn worker t = some (out, worker')) :
    worker'.path = worker.path ∧ worker'.state.kind = worker.state.kind := by
  obtain ⟨-, ran, hran, -, rfl⟩ := behaviour_turn_iff.mp hturn
  obtain ⟨hpath, -, ⟨flow, out', hdone⟩ | ⟨hsame, -⟩⟩ := after_spec worker worker.queue ran
  · exact ⟨hpath, WorkerState.turn_kind (hran.trans (congrArg some hdone))⟩
  · exact ⟨hpath, congrArg WorkerState.kind hsame⟩

/-- After an update its value is stored, if the worker goes on to another turn. -/
theorem stores_of_update {io : Io} {vf : ValOrFn} {notify : Bool} (hworker : worker.path = path)
    (hturn : (behaviour filter).turn worker (io, .message (.update vf notify)) =
      some (out, worker'))
    (hrunning : worker'.running = true) : worker'.Stores path vf.stored := by
  obtain ⟨-, ran, hran, -, rfl⟩ := behaviour_turn_iff.mp hturn
  obtain rfl := Option.some.inj hran
  obtain ⟨hpath, -, ⟨flow, out', hdone⟩ | ⟨-, why, out', hstop⟩⟩ :=
    after_spec worker worker.queue (worker.state.onMsg io worker.path (.update vf notify))
  · exact ⟨hpath.trans hworker, WorkerState.content_of_update hdone⟩
  · rw [hstop] at hrunning
    contradiction

/-- **Whoever reads the value after an update reads what it has stored**, unless something else
has been stored in between. -/
theorem tells_of_update (hworker : worker.path = path)
    (hpath : worker.state.kind ≠ .app → path ≠ .root) {first mid last : List (Io × Input)}
    {io : Io} {vf : ValOrFn} {notify : Bool}
    (hrouted : ∀ t ∈ mid, t.2.Routed path)
    (h : (behaviour filter).told worker
      (first ++ (io, .message (.update vf notify)) :: (mid ++ t :: last)) = some (log, worker')) :
    ∃ log₁ out₁ log₂ out log₃,
      log = log₁ ++ ((io, .message (.update vf notify)), out₁) :: (log₂ ++ (t, out) :: log₃) ∧
      log₁.map Prod.fst = first ∧ log₂.map Prod.fst = mid ∧
      ((∀ t ∈ mid, t.2.Reads) → Tells vf.stored path t out) := by
  obtain ⟨log₁, u, out₁, v, rest, hfirst, hupdate, hrest, rfl⟩ := Behaviour.told_middle h
  obtain ⟨log₂, w, out, x, log₃, hmid, hlast, -, rfl⟩ := Behaviour.told_middle hrest
  refine ⟨log₁, out₁, log₂, out, log₃, rfl, Behaviour.map_fst_told hfirst,
    Behaviour.map_fst_told hmid, fun hreads ↦ ?_⟩
  have hsame (s : Worker) (t : Io × Input) (_ : t ∈ first) (out : List Out) (s' : Worker)
      (hs : s.path = path ∧ s.state.kind = worker.state.kind)
      (hturn : (behaviour filter).turn s t = some (out, s')) :
      s'.path = path ∧ s'.state.kind = worker.state.kind :=
    ⟨(same_of_turn hturn).1.trans hs.1, (same_of_turn hturn).2.trans hs.2⟩
  obtain ⟨hu, hkind⟩ := Behaviour.told_invariant hsame hfirst ⟨hworker, rfl⟩
  have hrunning : v.running = true := by
    cases mid with
    | nil => exact running_of_told hrest
    | cons t' mid => exact running_of_told hrest
  have hv := stores_of_update hu hupdate hrunning
  have hroot : path ≠ .root := by
    refine hpath fun happ ↦ ?_
    rw [← hkind, ← (same_of_turn hupdate).2] at happ
    have hcontent := hv.content
    cases hs : v.state with
    | app s =>
        rw [hs] at hcontent
        contradiction
    | serv | chrc | desc =>
        rw [hs] at happ
        contradiction
  have hw : w.Stores path vf.stored := Behaviour.told_invariant
    (fun s t' ht' out s' hs hturn ↦ hs.turn hroot (hrouted t' ht') (hreads t' ht') hturn) hmid hv
  exact hw.tells hlast

theorem takes_eq_some_iff {msg : WorkerMsg} :
    (behaviour filter).takes t = some msg ↔ t.2 = .message msg := by
  obtain ⟨io, input⟩ := t
  cases input with
  | message msg' => exact ⟨fun h ↦ congrArg Input.message (Option.some.inj h),
      fun h ↦ congrArg some (Input.message.inj h)⟩
  | call | notified | written => exact iff_of_false nofun nofun

end Worker

/-! ## Runs of the application -/

namespace AppWorker

variable {app t : AppWorker} {es : List Event} {key : Key}

/-- A worker takes a message, or something else wakes it. -/
theorem turn_of_sees {self : AppWorker} {e : Event} {turn : Io × Input}
    (h : self.sees e key = .turn turn) : ∃ io input, turn = (io, input) ∧
      ((∃ msg, input = .message msg) ∨ e = .wake key io input) := by
  rw [sees.eq_def] at h
  cases e with
  | call | askObjects =>
      dsimp only [seesMsg] at h
      split at h
      · contradiction
      · contradiction
  | receive woken io =>
      dsimp only at h
      split at h
      · split at h
        · next msg _ => exact ⟨io, .message msg, (Seen.turn.inj h).symm, .inl ⟨msg, rfl⟩⟩
        · contradiction
      · contradiction
  | wake woken io input =>
      dsimp only at h
      split at h
      · next hkey =>
          subst hkey
          exact ⟨io, input, (Seen.turn.inj h).symm, .inr rfl⟩
      · contradiction

theorem lookup_of_wake {self self' : AppWorker} {io : Io} {input : Input}
    (h : self.next (.wake key io input) = some self') :
    ∃ worker, self.workers.lookup key = some worker := by
  cases input with
  | message msg => contradiction
  | call | notified | written =>
      obtain ⟨worker, hworker, -⟩ := Option.bind_eq_some_iff.mp h
      exact ⟨worker, (lookup_of_awake hworker).1⟩

/-- In a run whose calls are routed, a worker takes only calls for its path. -/
theorem routed_of_mem_history {before : Worker} (hbefore : app.workers.lookup key = some before)
    (hrun : Lts.Run RoutedStep app es t) :
    ∀ turn ∈ Seen.turns (app.history key es), turn.2.Routed before.path := by
  have hstep (s : AppWorker) (e : Event) (s' : AppWorker)
      (hs : ∀ worker, s.workers.lookup key = some worker → worker.path = before.path)
      (hnext : s.next e = some s') (hrouted : s.Routed e) :
      (∀ worker, s'.workers.lookup key = some worker → worker.path = before.path) ∧
        ∀ turn, s.sees e key = .turn turn → turn.2.Routed before.path := by
    constructor
    · intro worker' hworker'
      obtain ⟨worker, hworker, hfollows⟩ := next_follows hnext key worker' hworker'
      exact hfollows.path.trans (hs worker hworker)
    · intro turn hturn
      obtain ⟨io, input, rfl, hinput⟩ := turn_of_sees hturn
      rcases hinput with ⟨msg, rfl⟩ | rfl
      · intro asked call hcall
        contradiction
      · obtain ⟨worker, hworker⟩ := lookup_of_wake hnext
        rw [← hs worker hworker]
        exact hrouted key io input worker rfl hworker
  have hall : ∀ x ∈ app.history key es, ∀ turn, x = .turn turn → turn.2.Routed before.path := by
    refine forall_mem_history hstep hrun fun worker hworker ↦ ?_
    rw [Option.some.inj (hworker.symm.trans hbefore)]
  intro turn hturn
  obtain ⟨x, hx, hturn⟩ := List.mem_filterMap.mp hturn
  cases x with
  | idle | sent => contradiction
  | turn turn' =>
      obtain rfl := Option.some.inj hturn
      exact hall _ hx _ rfl

end AppWorker

/-- What is received of a queue, if all but some of the messages behind a place have been. -/
theorem received_of_append {α : Type} {taken queue before after : List α}
    (h : taken ++ queue = before ++ after) (hqueue : queue.length ≤ after.length) :
    ∃ more, taken = before ++ more ∧ after = more ++ queue := by
  rcases List.append_eq_append_iff.mp h with ⟨missing, rfl, rfl⟩ | ⟨more, rfl, rfl⟩
  · rw [List.length_append] at hqueue
    obtain rfl : missing = [] := List.length_eq_zero_iff.mp (by omega)
    exact ⟨[], by rw [List.append_nil, List.append_nil], rfl⟩
  · exact ⟨more, rfl, rfl⟩

/-- **The application reads what it has written.**  In a run of a registered application, let
the last update that is sent to a worker before some request for its value be one of `vf`, and
let the worker have received the request.  Then it has received the update before it, and unless
the peer has written in between, it has answered with a value of `vf`. -/
theorem get_reads_last_update {self : Application} {bus : Bus} {app t : AppWorker}
    {es : List Event} (h : self.register bus = pure app)
    (hrun : Lts.Run AppWorker.RoutedStep app es t) {key : Key} {before worker : Worker}
    (hbefore : app.workers.lookup key = some before) (hworker : t.workers.lookup key = some worker)
    {sent between rest : List WorkerMsg} {vf : ValOrFn} {notify : Bool} {sender : ReplyTo}
    (hsent : before.queue ++ Seen.sents (app.history key es) =
      sent ++ .update vf notify :: (between ++ .get sender :: rest))
    (hbetween : ∀ msg ∈ between, msg.isUpdate = false)
    (hreceived : worker.queue.length ≤ rest.length) :
    ∃ log₁ io₁ out₁ log₂ io₂ out₂ log₃,
      (Worker.behaviour app.filter).told before.alone (Seen.turns (app.history key es)) =
        some (log₁ ++ ((io₁, .message (.update vf notify)), out₁) ::
          (log₂ ++ ((io₂, .message (.get sender)), out₂) :: log₃), worker.alone) ∧
      ((∀ x ∈ log₂, ¬x.1.2.IsPeerWrite) → ∃ v, Content.Reads vf.stored v ∧
        out₂ = if io₂.receiverAlive then [.answer sender (.value v)] else []) := by
  obtain ⟨worker', hworker', ⟨log, hlog⟩, hqueue⟩ := AppWorker.runs_alone hrun.of_restrict hbefore
  obtain rfl := Option.some.inj (hworker'.symm.trans hworker)
  have hsplit : sent ++ .update vf notify :: (between ++ .get sender :: rest) =
      (sent ++ .update vf notify :: (between ++ [.get sender])) ++ rest := by
    rw [List.append_assoc, List.cons_append, List.append_assoc, List.singleton_append]
  rw [hsent, hsplit] at hqueue
  obtain ⟨more, htaken, -⟩ := received_of_append hqueue hreceived
  rw [List.append_assoc, List.cons_append, List.append_assoc, List.singleton_append] at htaken
  obtain ⟨first, ⟨io₁, input⟩, ts, hts, htake, -, hrest⟩ := Behaviour.takes_middle htaken
  obtain ⟨mid, ⟨io₂, input'⟩, last, rfl, htake', hmid, -⟩ := Behaviour.takes_middle hrest
  obtain rfl : input = _ := Worker.takes_eq_some_iff.mp htake
  obtain rfl : input' = _ := Worker.takes_eq_some_iff.mp htake'
  have hrouted : ∀ turn ∈ mid, turn.2.Routed before.path := by
    intro turn hturn
    refine AppWorker.routed_of_mem_history hbefore hrun turn ?_
    rw [hts]
    exact List.mem_append_right _ (List.mem_cons_of_mem _ (List.mem_append_left _ hturn))
  have hupdates : ∀ turn ∈ mid, ∀ msg, turn.2 = .message msg → msg.isUpdate = false := by
    intro turn hturn msg hmsg
    refine hbetween msg (hmid ▸ List.mem_filterMap.mpr ⟨turn, hturn, ?_⟩)
    exact Worker.takes_eq_some_iff.mpr hmsg
  have hpath : before.state.kind ≠ .app → before.path ≠ .root :=
    Application.below_of_reachable h (.refl app) key before hbefore
  rw [hts] at hlog ⊢
  obtain ⟨log₁, out₁, log₂, out₂, log₃, rfl, -, hlog₂, htells⟩ :=
    Worker.tells_of_update (rfl : before.alone.path = before.path) hpath hrouted hlog
  refine ⟨log₁, io₁, out₁, log₂, io₂, out₂, log₃, hlog, fun hpeer ↦ ?_⟩
  refine (htells fun turn hturn ↦ ⟨?_, hupdates turn hturn⟩).get sender rfl
  obtain ⟨x, hx, rfl⟩ := List.mem_map.mp (hlog₂ ▸ hturn)
  exact hpeer x hx

/-- It holds of an application that stores the empty value, and asks for it. -/
theorem get_reads_last_update_ofUuids : ∃ app before es,
    (Application.ofUuids ⟨1⟩ ⟨2⟩ ⟨3⟩).register .working = pure app ∧
    app.workers.lookup (⟨1⟩, ⟨2⟩, 0) = some before ∧
    ∃ log₁ io₁ out₁ log₂ io₂ out₂ log₃ after,
      (Worker.behaviour app.filter).told before.alone
          (Seen.turns (app.history (⟨1⟩, ⟨2⟩, 0) es)) =
        some (log₁ ++ ((io₁, .message (.update (.value .empty) false)), out₁) ::
          (log₂ ++ ((io₂, .message (.get 7)), out₂) :: log₃), after) ∧
      ((∀ x ∈ log₂, ¬x.1.2.IsPeerWrite) → ∃ v, v = AttBytes.empty ∧
        out₂ = if io₂.receiverAlive then [.answer 7 (.value v)] else []) := by
  obtain ⟨app, happ⟩ := Application.register_ofUuids ⟨1⟩ ⟨2⟩ ⟨3⟩
  obtain ⟨s, path, hbefore⟩ := Application.lookup_chrc_ofUuids happ
  obtain ⟨es, t, worker, hrun, hworker, hqueue, hsents, -, -⟩ :=
    AppWorker.update_get (AppWorker.awake_of_lookup hbefore rfl) .empty 7
  have hsent : [] ++ Seen.sents (app.history (⟨1⟩, ⟨2⟩, 0) es) =
      [] ++ .update (.value .empty) false :: ([] ++ .get 7 :: []) := hsents
  obtain ⟨log₁, io₁, out₁, log₂, io₂, out₂, log₃, hlog, hreads⟩ :=
    get_reads_last_update happ hrun hbefore hworker hsent nofun
      (Nat.le_of_eq (congrArg List.length hqueue))
  exact ⟨app, _, es, happ, hbefore, log₁, io₁, out₁, log₂, io₂, out₂, log₃, _, hlog, hreads⟩

end Rustable.Gatt.Server
