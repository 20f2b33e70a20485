import Rustable.Gatt.Server.Answering
import Rustable.Gatt.Server.Turns

/-!
# What any turn of a characteristic does

A characteristic has a notify session, opened by `StartNotify` or `AcquireNotify`, and a
socket it has handed out for writing.  `turn_spec` says what any turn does to both, which
value it takes, what it notifies and what it answers.
-/

namespace Rustable.Gatt.Server

open DBus

/-! ## Notes -/

/-- What subscribers may see: a signal or a datagram. -/
def Out.isNote : Out → Bool
  | .signal _ | .datagram _ _ => true
  | .answer _ _ | .reply _ => false

/-- What is sent to the subscribers when `v` is notified in the session. -/
def Notify.notes (io : Io) (path : ObjectPath) (v : AttBytes) : Notify → List Out
  | .none => []
  | .socket sock _ => match io.sockSend with
    | .ok _ => [.datagram sock v.bytes]
    | .error _ => []
  | .signal => match io.sendSignal with
    | .ok _ => ((ChrcData.propertiesChanged path v).map Out.signal).toList
    | .error _ => []

/-- The session after a notification: a socket that cannot be written to is closed. -/
def Notify.after (io : Io) : Notify → Notify
  | .none => .none
  | .socket sock mtu => match io.sockSend with
    | .ok _ => .socket sock mtu
    | .error _ => .none
  | .signal => .signal

theorem Notify.isNote_of_mem_notes {io : Io} {path : ObjectPath} {v : AttBytes} {n : Notify}
    {o : Out} (h : o ∈ n.notes io path v) : o.isNote = true := by
  cases n with
  | none => contradiction
  | socket sock mtu =>
      rw [notes] at h
      split at h
      · rw [List.mem_singleton.mp h]
        rfl
      · contradiction
  | signal =>
      rw [notes] at h
      split at h
      · obtain ⟨m, -, rfl⟩ := Option.map_eq_some_iff.mp (Option.mem_toList.mp h)
        rfl
      · contradiction

theorem Notify.filter_notes (io : Io) (path : ObjectPath) (v : AttBytes) (n : Notify) :
    (n.notes io path v).filter Out.isNote = n.notes io path v :=
  List.filter_eq_self.mpr fun _ ↦ isNote_of_mem_notes

theorem Notify.replies_notes (io : Io) (path : ObjectPath) (v : AttBytes) (n : Notify) :
    (n.notes io path v).filterMap Out.reply? = [] := by
  refine List.filterMap_eq_nil_iff.mpr fun o ho ↦ ?_
  have hnote := isNote_of_mem_notes ho
  cases o with
  | reply m => contradiction
  | answer | signal | datagram => rfl

variable {path : ObjectPath} {io : Io} {filter : Option String} {found : Found path}

/-! ## What a turn finds -/

/-- The call of a method of characteristics, if that is what is found and it passes the
filter. -/
def Found.method? (filter : Option String) : Found path → Option (MethodCall path)
  | .call c =>
      if isMsgBluez c.toMessage filter ∧ c.interface = some bluezChrIf then some c else none
  | _ => none

namespace ChrcData

/-- The value that is passed to the write callback, and the state then. -/
def passed (filter : Option String) (s : ChrcData) : Found path → Option (AttBytes × ChrcData)
  | .written (.ok v) => some (v, s)
  | found => (found.method? filter).bind fun call ↦
      if call.member = "WriteValue" then s.accepted call.toMessage else none

/-- The value that is to be notified, if there is one, and the state in which it is. -/
def prepared (filter : Option String) (s : ChrcData) : Found path → Option AttBytes × ChrcData
  | .message (.update vf notify) => { s with value := vf }.noteIf notify
  | .message (.notify optAtt) => (some (s.noteFor optAtt).1, (s.noteFor optAtt).2)
  | .notified .yes => s.noteIf true
  | .notified (.withSpecialValue v) => (some v, s)
  | found => match s.passed filter found with
    | some (v, t) => t.noteWritten v
    | none => (none, s)

/-- The value that is to be notified. -/
abbrev asked (filter : Option String) (s : ChrcData) (found : Found path) : Option AttBytes :=
  (s.prepared filter found).1

/-- What has happened to a state before it is notified in, or if it is not. -/
structure Prepared (filter : Option String) (found : Found path) (s t : ChrcData) : Prop where
  children : t.children = s.children
  notify : t.notify = s.notify
  flags : t.flags = s.flags
  notifyCb : t.notifyCb = s.notifyCb
  writeFd : t.writeFd = s.writeFd
  /-- A value is stored by an update or by the write callback only. -/
  value : t.value.stored = s.value.stored ∨ (∃ vf notify, found = .message (.update vf notify)) ∨
    (s.passed filter found).isSome
  /-- The write callback is called with what is passed to it, and with nothing else. -/
  writeCallback : t.writeCallback =
    { s.writeCallback with
      calls := s.writeCallback.calls ++ ((s.passed filter found).map Prod.fst).toList }

theorem Prepared.of_still {s t : ChrcData} (h : s.Still t) (hnone : s.passed filter found = none) :
    Prepared filter found s t where
  children := h.children
  notify := h.notify
  flags := h.flags
  notifyCb := h.notifyCb
  writeFd := h.writeFd
  value := .inl h.value
  writeCallback := by
    rw [hnone, h.writeCallback]
    exact congrArg (WriteCallback.mk _) (List.append_nil _).symm

theorem Prepared.noteIf {s t : ChrcData} (h : Prepared filter found s t) (notify : Bool) :
    Prepared filter found s (t.noteIf notify).2 := by
  cases notify with
  | false => exact h
  | true =>
      exact
        { h with
          value := h.value.imp_left fun hval ↦ (ValOrFn.stored_toValue t.value).trans hval }

theorem still_passed {s t : ChrcData} {v : AttBytes} (h : s.passed filter found = some (v, t)) :
    s.Still t := by
  rw [passed.eq_def] at h
  split at h
  · obtain ⟨-, rfl⟩ := Prod.mk.inj (Option.some.inj h)
    exact .refl s
  · obtain ⟨call, -, h⟩ := Option.bind_eq_some_iff.mp h
    split at h
    · exact (still_accepted h).1
    · contradiction

theorem Prepared.wrote {s t : ChrcData} {v : AttBytes} (h : s.passed filter found = some (v, t)) :
    Prepared filter found s (t.wrote v).2 := by
  have hstill := still_passed h
  exact
    { children := hstill.children
      notify := hstill.notify
      flags := hstill.flags
      notifyCb := hstill.notifyCb
      writeFd := hstill.writeFd
      value := .inr (.inr (by rw [h]; rfl))
      writeCallback := by
        rw [h, ← hstill.writeCallback]
        rfl }

theorem passed_message (msg : WorkerMsg) (s : ChrcData) :
    s.passed filter (.message msg : Found path) = none := rfl

theorem passed_notified (shouldNot : ShouldNotify) (s : ChrcData) :
    s.passed filter (.notified shouldNot : Found path) = none := rfl

/-- **What is prepared to be notified.** -/
theorem prepared_spec (filter : Option String) (found : Found path) (s : ChrcData) :
    Prepared filter found s (s.prepared filter found).2 := by
  rw [prepared.eq_def]
  split
  · next vf notify =>
      refine Prepared.noteIf ?_ notify
      exact
        { Prepared.of_still (Still.refl s) (passed_message _ s) with
          value := .inr (.inl ⟨vf, notify, rfl⟩) }
  · next optAtt =>
      refine .of_still ?_ (passed_message _ s)
      cases optAtt with
      | some v => exact .refl s
      | none => exact .toValue s
  · exact (Prepared.of_still (.refl s) (passed_notified _ s)).noteIf true
  · exact .of_still (.refl s) (passed_notified _ s)
  · cases hpassed : s.passed filter found with
    | none => exact .of_still (.refl s) hpassed
    | some r => exact (Prepared.wrote hpassed).noteIf _

/-! ## What a turn does -/

/-- The methods that are about sessions. -/
def sessionMethods : List String := ["StartNotify", "StopNotify", "AcquireNotify", "AcquireWrite"]

/-- The call does not open a notify session: it is refused, and if it is an `AcquireNotify` it
has found the session in the way. -/
structure Refused (io : Io) (s : ChrcData) (c : MethodCall path) (out : List Out) : Prop where
  error : ∃ m, out = [.reply m] ∧ m.typ = .error
  inTheWay : c.member = "AcquireNotify" → s.flags.notify = true → s.inTheWay io ≠ .ok false

/-- What a turn that goes on does to the notify session and to the socket for writing. -/
inductive Moved (io : Io) (filter : Option String) (found : Found path) (s s' : ChrcData)
    (out : List Out) : Prop
  | /-- Both stay. -/
    stays (hasked : s.asked filter found = none) (hnotify : s'.notify = s.notify)
      (hwrite : s'.writeFd = s.writeFd)
      (hrefused : ∀ call, found.method? filter = some call → call.member ∈ sessionMethods →
        Refused io s call out)
  | /-- A value is notified; a socket that cannot be written to is closed. -/
    notified (v : AttBytes) (hasked : s.asked filter found = some v)
      (hnotify : s'.notify = s.notify.after io) (hwrite : s'.writeFd = s.writeFd)
  | started (call : MethodCall path) (hcall : found.method? filter = some call)
      (hmember : call.member = "StartNotify") (hasked : s.asked filter found = none)
      (hflag : (s.flags.notify || s.flags.indicate) = true) (hnone : s.notify = .none)
      (hnotify : s'.notify = .signal) (hwrite : s'.writeFd = s.writeFd)
      (hout : out = [.reply call.toMessage.dynheader.makeResponse])
  | stopped (call : MethodCall path) (hcall : found.method? filter = some call)
      (hmember : call.member = "StopNotify") (hasked : s.asked filter found = none)
      (hsignal : s.notify = .signal)
      (hnotify : s'.notify = .none) (hwrite : s'.writeFd = s.writeFd)
      (hout : out = [.reply call.toMessage.dynheader.makeResponse])
  | /-- A socket that has hung up is closed, and no new one is handed out. -/
    dropped (call : MethodCall path) (hcall : found.method? filter = some call)
      (hmember : call.member = "AcquireNotify") (hasked : s.asked filter found = none)
      (hfree : s.inTheWay io = .ok false)
      (hnotify : s'.notify = .none) (hwrite : s'.writeFd = s.writeFd)
      (hout : ∃ m, out = [.reply m] ∧ m.typ = .error)
  | acquired (call : MethodCall path) (hcall : found.method? filter = some call)
      (hmember : call.member = "AcquireNotify") (hasked : s.asked filter found = none)
      (hflag : s.flags.notify = true) (hfree : s.inTheWay io = .ok false)
      (ours theirs : UnixFd) (mtu : Nat) (hmtu : mtu ≤ 517)
      (hnotify : s'.notify = .socket ours mtu)
      (hwrite : s'.writeFd = s.writeFd)
      (hout : out = [.reply (acquiredReply call.toMessage theirs mtu)])
  | acquiredWrite (call : MethodCall path) (hcall : found.method? filter = some call)
      (hmember : call.member = "AcquireWrite") (hasked : s.asked filter found = none)
      (hflag : s.flags.writeWoResponse = true) (hnone : s.writeFd = none)
      (ours theirs : UnixFd) (mtu : Nat) (hnotify : s'.notify = s.notify)
      (hwrite : s'.writeFd = some (ours, mtu))
      (hout : out = [.reply (acquiredReply call.toMessage theirs mtu)])
  | /-- The socket for writing has hung up. -/
    hungUp (hfound : found = .written (.error .notConnected)) (hasked : s.asked filter found = none)
      (hnotify : s'.notify = s.notify) (hwrite : s'.writeFd = none)

/-- The state that is sent in, and what is sent. -/
theorem sentIf_eq (io : Io) (path : ObjectPath) (note : Option AttBytes) (t : ChrcData) :
    sentIf io path note t =
        .done () { t with notify := note.elim t.notify fun _ ↦ t.notify.after io }
          (note.elim [] fun v ↦ t.notify.notes io path v) ∨
      ∃ e, io.sendSignal = .error e ∧ sentIf io path note t = .stop (.error (.io e)) [] ∧
        (note.elim [] fun v ↦ t.notify.notes io path v) = [] := by
  cases note with
  | none => exact .inl rfl
  | some v =>
      rw [sentIf, sent]
      cases hn : t.notify with
      | none =>
          have ht : { t with notify := .none } = t := by rw [← hn]
          exact .inl (congrArg (Ran.done () · []) ht.symm)
      | socket sock mtu =>
          have ht : { t with notify := .socket sock mtu } = t := by rw [← hn]
          dsimp only [Option.elim_some, Notify.after, Notify.notes]
          cases io.sockSend with
          | ok u => exact .inl (congrArg (Ran.done () · _) ht.symm)
          | error e => exact .inl rfl
      | signal =>
          have ht : { t with notify := .signal } = t := by rw [← hn]
          dsimp only [Option.elim_some, Notify.after, Notify.notes]
          cases io.sendSignal with
          | ok u => exact .inl (congrArg (Ran.done () · _) ht.symm)
          | error e => exact .inr ⟨e, rfl, rfl, rfl⟩

/-- What is sent to the subscribers in a turn. -/
abbrev notes (io : Io) (filter : Option String) (s : ChrcData) (found : Found path) : List Out :=
  (s.asked filter found).elim [] fun v ↦ s.notify.notes io path v

/-- The notify session after what is notified in a turn. -/
abbrev notifyAfter (io : Io) (filter : Option String) (s : ChrcData) (found : Found path) :
    Notify := (s.asked filter found).elim s.notify fun _ ↦ s.notify.after io

theorem sentIf_prepared (io : Io) (filter : Option String) (found : Found path) (s : ChrcData) :
    sentIf io path (s.prepared filter found).1 (s.prepared filter found).2 =
        .done () { (s.prepared filter found).2 with
            notify := s.notifyAfter io filter found
            writeFd := s.writeFd } (s.notes io filter found) ∨
      ∃ e, io.sendSignal = .error e ∧
        sentIf io path (s.prepared filter found).1 (s.prepared filter found).2 =
          .stop (.error (.io e)) [] ∧ s.notes io filter found = [] := by
  have hspec := prepared_spec filter found s
  have hsent := sentIf_eq io path (s.prepared filter found).1 (s.prepared filter found).2
  rw [hspec.notify] at hsent
  rwa [notes, notifyAfter, ← hspec.writeFd]

theorem moved_prepared {s s' : ChrcData} {out : List Out}
    (hnotify : s'.notify = s.notifyAfter io filter found) (hwrite : s'.writeFd = s.writeFd)
    (hsession : ∀ call, found.method? filter = some call → call.member ∉ sessionMethods) :
    Moved io filter found s s' out := by
  rw [notifyAfter] at hnotify
  cases hasked : s.asked filter found with
  | none =>
      rw [hasked] at hnotify
      exact .stays hasked hnotify hwrite fun call hcall hmem ↦ absurd hmem (hsession call hcall)
  | some v =>
      rw [hasked] at hnotify
      exact .notified v hasked hnotify hwrite

end ChrcData

/-- How many futures of the notify callback have been awaited. -/
def Found.futures : Found path → Nat
  | .notified _ => 1
  | .message _ | .closed | .call _ | .written _ => 0

/-- The D-Bus calls that are found. -/
def Found.calls : Found path → List (MethodCall path)
  | .call c => [c]
  | .message _ | .closed | .notified _ | .written _ => []

namespace ChrcData

/-- What a turn that goes on makes of the rest of the state: the notify callback is called
again for each future. -/
structure Took (filter : Option String) (found : Found path) (s s' : ChrcData) : Prop where
  children : s'.children = s.children
  flags : s'.flags = s.flags
  notifyCb : s'.notifyCb = s.notifyCb + found.futures
  value : s'.value.stored = s.value.stored ∨ (∃ vf notify, found = .message (.update vf notify)) ∨
    (s.passed filter found).isSome
  writeCallback : s'.writeCallback =
    { s.writeCallback with
      calls := s.writeCallback.calls ++ ((s.passed filter found).map Prod.fst).toList }

theorem Prepared.took {s t : ChrcData} (h : Prepared filter found s t)
    (hfutures : found.futures = 0) (notify : Notify) (writeFd : Option (UnixFd × Nat)) :
    Took filter found s { t with notify := notify, writeFd := writeFd } where
  children := h.children
  flags := h.flags
  notifyCb := by rw [hfutures, Nat.add_zero]; exact h.notifyCb
  value := h.value
  writeCallback := h.writeCallback

theorem filter_notes (found : Found path) (s : ChrcData) :
    (s.notes io filter found).filter Out.isNote = s.notes io filter found := by
  cases h : s.asked filter found with
  | none =>
      rw [notes, h]
      rfl
  | some v =>
      rw [notes, h]
      exact Notify.filter_notes io path v s.notify

theorem replies_notes (found : Found path) (s : ChrcData) :
    (s.notes io filter found).filterMap Out.reply? = [] := by
  cases h : s.asked filter found with
  | none =>
      rw [notes, h]
      rfl
  | some v =>
      rw [notes, h]
      exact Notify.replies_notes io path v s.notify

/-- What a turn that goes on, or ends as it should, has done. -/
structure Turned (io : Io) (filter : Option String) (found : Found path) (s s' : ChrcData)
    (flow : Flow) (out : List Out) : Prop where
  flow : flow = .next ∨ flow = .done ∧ found = .message .unregister
  took : Took filter found s s'
  moved : Moved io filter found s s' out
  notes : out.filter Out.isNote = s.notes io filter found
  replies : List.Forall₂ (fun m c ↦ Answers m c.toMessage.dynheader)
    (out.filterMap Out.reply?) found.calls

/-- What any turn has done: one that stops has not replied. -/
def Ended (io : Io) (filter : Option String) (found : Found path) (s : ChrcData) :
    Ran Stop Out ChrcData Flow → Prop
  | .done flow s' out => Turned io filter found s s' flow out
  | .stop _ out => out.filter Out.isNote = s.notes io filter found ∧ out.filterMap Out.reply? = []

/-- What the handler of a call has done. -/
def Handled (io : Io) (filter : Option String) (c : MethodCall path) (s : ChrcData) :
    Ran Stop Out ChrcData MarshalledMessage → Prop
  | .done m s' out => out = s.notes io filter (.call c) ∧ Took filter (.call c) s s' ∧
      Moved io filter (.call c) s s' (out ++ [.reply m]) ∧ Answers m c.toMessage.dynheader
  | .stop _ out => out = s.notes io filter (.call c)

theorem ended_replied {c : MethodCall path} {s : ChrcData}
    {ran : Ran Stop Out ChrcData MarshalledMessage} (h : Handled io filter c s ran) :
    Ended io filter (.call c) s (Turn.replied io ran) := by
  cases ran with
  | stop why out =>
      obtain rfl : out = _ := h
      exact ⟨filter_notes _ s, replies_notes _ s⟩
  | done m s' out =>
      obtain ⟨rfl, htook, hmoved, hm⟩ := h
      rw [Turn.replied]
      cases io.send m with
      | error e => exact ⟨filter_notes _ s, replies_notes _ s⟩
      | ok u =>
          refine ⟨.inl rfl, htook, hmoved, ?_, ?_⟩
          · rw [List.filter_append, filter_notes]
            exact List.append_nil _
          · rw [List.filterMap_append, replies_notes]
            exact .cons hm .nil

/-! ## Calls -/

theorem method?_eq_some {c call : MethodCall path}
    (h : (Found.call c).method? filter = some call) :
    call = c ∧ isMsgBluez c.toMessage filter = true ∧ c.interface = some bluezChrIf := by
  rw [Found.method?] at h
  split at h
  · next hc => exact ⟨(Option.some.inj h).symm, hc⟩
  · contradiction

section Calls

variable {c : MethodCall path} {s t : ChrcData} {m : MarshalledMessage}

theorem asked_call_none (h : s.passed filter (.call c) = none) :
    s.prepared filter (.call c) = (none, s) := by
  change (match s.passed filter (.call c) with
    | some (v, t) => t.noteWritten v
    | none => (none, s)) = _
  rw [h]

theorem Took.of_still (h : s.Still t) (hpassed : s.passed filter found = none)
    (hfutures : found.futures = 0) : Took filter found s t :=
  (Prepared.of_still h hpassed).took hfutures t.notify t.writeFd

/-- A call that is answered and changes little. -/
theorem handled_stays (hpassed : s.passed filter (.call c) = none) (hstill : s.Still t)
    (hm : Answers m c.toMessage.dynheader)
    (hrefused : ∀ call, (Found.call c).method? filter = some call →
      call.member ∈ sessionMethods → Refused io s call [.reply m]) :
    Handled io filter c s (.done m t []) := by
  have hasked := asked_call_none hpassed
  refine ⟨by rw [notes, asked, hasked]; rfl, .of_still hstill hpassed rfl, ?_, hm⟩
  exact .stays (by rw [asked, hasked]) hstill.notify hstill.writeFd hrefused

/-- A call that is refused. -/
theorem handled_refused (io : Io) (hpassed : s.passed filter (.call c) = none)
    (hway : (Found.call c).method? filter = some c → c.member = "AcquireNotify" →
      s.flags.notify = true → s.inTheWay io ≠ .ok false) (name : String) :
    Handled io filter c s (.done (c.toMessage.dynheader.makeErrorResponse name none) s []) := by
  refine handled_stays hpassed (.refl s) (answers_makeErrorResponse ..) fun call hcall _ ↦ ?_
  obtain ⟨rfl, -⟩ := method?_eq_some hcall
  exact ⟨⟨_, rfl, rfl⟩, hway hcall⟩

theorem handled_stop (hpassed : s.passed filter (.call c) = none) (why : Stop) :
    Handled io filter c s (.stop why []) := by
  change [] = s.notes io filter (.call c)
  rw [notes, asked, asked_call_none hpassed]
  rfl

/-- A call that is answered and changes a session. -/
theorem handled_moves (hpassed : s.passed filter (.call c) = none) (notify : Notify)
    (writeFd : Option (UnixFd × Nat)) (hm : Answers m c.toMessage.dynheader)
    (hmoved : s.asked filter (.call c) = none →
      Moved io filter (.call c) s { s with notify := notify, writeFd := writeFd } [.reply m]) :
    Handled io filter c s (.done m { s with notify := notify, writeFd := writeFd } []) := by
  have hasked := asked_call_none hpassed
  refine ⟨by rw [notes, asked, hasked]; rfl, ?_, hmoved (by rw [asked, hasked]), hm⟩
  exact (Prepared.of_still (.refl s) hpassed).took rfl notify writeFd

variable (hcall : (Found.call c).method? filter = some c)
include hcall

theorem passed_of_ne (hmember : c.member ≠ "WriteValue") : s.passed filter (.call c) = none := by
  change ((Found.call c).method? filter).bind _ = none
  rw [hcall, Option.bind_some, if_neg hmember]

theorem handled_startNotify (hmember : c.member = "StartNotify") :
    Handled io filter c s (startNotify c.toMessage s) := by
  have hpassed : s.passed filter (.call c) = none := passed_of_ne hcall (by rw [hmember]; decide)
  have hrefused := handled_refused io hpassed
    fun _ hacquire ↦ absurd (hmember.symm.trans hacquire) (by decide)
  rw [startNotify_eq]
  split
  · exact hrefused _
  · next hflag =>
      cases hn : s.notify with
      | socket sock mtu => exact hrefused _
      | signal => exact hrefused _
      | none =>
          refine handled_moves hpassed .signal s.writeFd (answers_makeResponse _) fun hasked ↦ ?_
          rw [Bool.not_eq_true, Bool.not_eq_false'] at hflag
          exact .started c hcall hmember hasked hflag hn rfl rfl rfl

theorem handled_stopNotify (hmember : c.member = "StopNotify") :
    Handled io filter c s (stopNotify c.toMessage s) := by
  have hpassed : s.passed filter (.call c) = none := passed_of_ne hcall (by rw [hmember]; decide)
  rw [stopNotify_eq]
  split
  · refine handled_refused io hpassed (fun _ hacquire ↦ ?_) _
    exact absurd (hmember.symm.trans hacquire) (by decide)
  · next hsignal =>
      refine handled_moves hpassed .none s.writeFd (answers_makeResponse _) fun hasked ↦ ?_
      exact .stopped c hcall hmember hasked (not_not.mp hsignal) rfl rfl rfl

theorem handled_acquireNotify (hmember : c.member = "AcquireNotify") :
    Handled io filter c s (acquireNotify io c.toMessage s) := by
  have hpassed : s.passed filter (.call c) = none := passed_of_ne hcall (by rw [hmember]; decide)
  rw [acquireNotify_eq]
  split
  · next hflag =>
      refine handled_refused io hpassed (fun _ _ hnotify ↦ ?_) _
      rw [hnotify] at hflag
      contradiction
  next hflag =>
  cases hfree : s.inTheWay io with
  | error e => exact handled_stop hpassed _
  | ok b =>
      cases b with
      | true =>
          refine handled_refused io hpassed (fun _ _ _ ↦ ?_) _
          rw [hfree]
          exact fun h ↦ Bool.noConfusion (Except.ok.inj h)
      | false =>
          dsimp only [acquire]
          cases c.toMessage.body.get Options with
          | error e =>
              refine handled_moves hpassed .none s.writeFd (answers_makeErrorResponse ..) ?_
              intro hasked
              exact .dropped c hcall hmember hasked hfree rfl rfl ⟨_, rfl, rfl⟩
          | ok options =>
              cases io.getSockSeqpacket with
              | error e => exact handled_stop hpassed _
              | ok fds =>
                  refine handled_moves hpassed (.socket fds.1 (mtuOption options)) s.writeFd
                    ((answers_makeResponse _).withBody _) fun hasked ↦ ?_
                  have hnotify : s.flags.notify = true := by simpa using hflag
                  exact .acquired c hcall hmember hasked hnotify hfree fds.1 fds.2
                    (mtuOption options) (mtuOption_le options) rfl rfl rfl

theorem handled_acquireWrite (hmember : c.member = "AcquireWrite") :
    Handled io filter c s (acquireWrite io c.toMessage s) := by
  have hpassed : s.passed filter (.call c) = none := passed_of_ne hcall (by rw [hmember]; decide)
  have hrefused := handled_refused io hpassed
    fun _ hacquire ↦ absurd (hmember.symm.trans hacquire) (by decide)
  rw [acquireWrite_eq]
  split
  · exact hrefused _
  next hflag =>
  split
  · exact hrefused _
  next hnone =>
  dsimp only [acquire]
  cases c.toMessage.body.get Options with
  | error e => exact hrefused _
  | ok options =>
      cases io.getSockSeqpacket with
      | error e => exact handled_stop hpassed _
      | ok fds =>
          refine handled_moves hpassed s.notify (some (fds.1, mtuOption options))
            ((answers_makeResponse _).withBody _) fun hasked ↦ ?_
          have hwrite : s.flags.writeWoResponse = true := by simpa using hflag
          exact .acquiredWrite c hcall hmember hasked hwrite (by simpa using hnone) fds.1 fds.2
            (mtuOption options) rfl rfl rfl

theorem handled_writeValue (hmember : c.member = "WriteValue") :
    Handled io filter c s (writeValue io c.toMessage s) := by
  have hpassed : s.passed filter (.call c) = s.accepted c.toMessage := by
    change ((Found.call c).method? filter).bind _ = _
    rw [hcall, Option.bind_some, if_pos hmember]
  rw [writeValue_eq rfl]
  cases haccepted : s.accepted c.toMessage with
  | none =>
      rw [haccepted] at hpassed
      have hrefused := handled_refused io hpassed
        fun _ hacquire ↦ absurd (hmember.symm.trans hacquire) (by decide)
      dsimp only
      split
      · exact hrefused _
      split
      · exact hrefused _
      · exact handled_stop hpassed _
  | some r =>
      obtain ⟨v, t⟩ := r
      rw [haccepted] at hpassed
      have hprepared : s.prepared filter (.call c) = t.noteWritten v := by
        change (match s.passed filter (.call c) with
          | some (v, t) => t.noteWritten v
          | none => (none, s)) = _
        rw [hpassed]
      dsimp only
      rw [handleWrite_eq, ← hprepared]
      obtain hsent | ⟨e, -, hsent, hnil⟩ := sentIf_prepared io filter (.call c) s
      · rw [hsent]
        refine ⟨rfl, (prepared_spec filter _ s).took rfl _ s.writeFd, ?_, answers_makeResponse _⟩
        refine moved_prepared rfl rfl fun call hcall' ↦ ?_
        obtain rfl := Option.some.inj (hcall.symm.trans hcall')
        rw [hmember]
        decide
      · rw [hsent]
        exact hnil.symm

/-- Every method does what it may do. -/
theorem handled_method : Handled io filter c s (method io c.toMessage c.member s) := by
  have hother (hmember : c.member ∉ "WriteValue" :: sessionMethods)
      {m : MarshalledMessage} {t : ChrcData} (hstill : s.Still t)
      (hm : Answers m c.toMessage.dynheader) : Handled io filter c s (.done m t []) := by
    obtain ⟨hwrite, hsession⟩ := not_or.mp (mt List.mem_cons.mpr hmember)
    refine handled_stays (passed_of_ne hcall hwrite) hstill hm fun call hcall' hmem ↦ ?_
    obtain rfl := Option.some.inj (hcall.symm.trans hcall')
    exact absurd hmem hsession
  generalize hmember : c.member = member
  rw [hmember] at hother
  unfold method
  split
  · obtain ⟨m, t, hrun, hstill, hm⟩ := readValue_calm c.toMessage s
    rw [hrun]
    exact hother (by decide) hstill hm
  · exact handled_writeValue hcall hmember
  · exact handled_acquireNotify hcall hmember
  · exact handled_acquireWrite hcall hmember
  · exact handled_startNotify hcall hmember
  · exact handled_stopNotify hcall hmember
  · next hwrite hnotify hacquire hstart hstop =>
      refine hother ?_ (.refl s) (answers_makeErrorResponse ..)
      simp only [sessionMethods, List.mem_cons, List.not_mem_nil, or_false]
      tauto

end Calls

theorem passed_of_method_none {c : MethodCall path} {s : ChrcData}
    (h : (Found.call c).method? filter = none) : s.passed filter (.call c) = none := by
  change ((Found.call c).method? filter).bind _ = none
  rw [h]
  rfl

/-- **The dispatcher.** -/
theorem handled_handleCall (hpath : path ≠ .root) {c : MethodCall path} (s : ChrcData)
    (hfilter : isMsgBluez c.toMessage filter = true) :
    Handled io filter c s (handleCall io c.toMessage s) := by
  have hinterface : c.toMessage.dynheader.interface = c.interface := rfl
  have hmember : c.toMessage.dynheader.member = some c.member := rfl
  by_cases hchr : c.interface = some bluezChrIf
  · have hcall : (Found.call c).method? filter = some c := by
      rw [Found.method?, if_pos ⟨hfilter, hchr⟩]
    rw [handleCall_method (hinterface.trans hchr) hmember]
    exact handled_method hcall
  · have hnone : (Found.call c).method? filter = none := by
      rw [Found.method?, if_neg fun h ↦ hchr h.2]
    have hpassed : s.passed filter (.call c) = none := passed_of_method_none hnone
    have hrefused (m : MarshalledMessage) (call : MethodCall path)
        (h : (Found.call c).method? filter = some call) :
        call.member ∈ sessionMethods → Refused io s call [.reply m] := by
      rw [hnone] at h
      contradiction
    rw [handleCall, hinterface]
    cases hi : c.interface with
    | none => exact handled_stop hpassed _
    | some i =>
        rw [Act.unwrap_some, Act.pure_bind]
        split
        · obtain ⟨m, t, hrun, hstill, hm⟩ := propertiesCall_calm hpath c s
          rw [Turn.ofMayPanic, Turn.onPart_some hrun]
          exact handled_stays hpassed hstill hm (hrefused m)
        split
        · exact handled_stays hpassed (.refl s) (answers_introReply ..) (hrefused _)
        split
        · next heq => exact absurd (heq ▸ hi) hchr
        · exact handled_stop hpassed _

/-! ## Turns -/

/-- A turn that notifies, or might have. -/
theorem ended_sentIf {s : ChrcData} (hsession : ∀ call, found.method? filter ≠ some call)
    (hcalls : found.calls = []) (hfutures : found.futures = 0) :
    Ended io filter found s
      ((sentIf io path (s.prepared filter found).1 (s.prepared filter found).2).map
        fun _ ↦ .next) := by
  obtain hsent | ⟨e, -, hsent, hnil⟩ := sentIf_prepared io filter found s
  · rw [hsent]
    refine ⟨.inl rfl, (prepared_spec filter found s).took hfutures _ s.writeFd, ?_,
      filter_notes found s, ?_⟩
    · exact moved_prepared rfl rfl fun call hcall ↦ absurd hcall (hsession call)
    · rw [replies_notes, hcalls]
      exact .nil
  · rw [hsent]
    exact ⟨hnil.symm, rfl⟩

/-- A turn that neither notifies nor stores. -/
theorem ended_calm {s : ChrcData} {S : Stop → Prop} {ran : Ran Stop Out ChrcData Flow}
    (h : ran.Within (calm S) (· = .next) s) (hprepared : s.prepared filter found = (none, s))
    (hpassed : s.passed filter found = none) (hmethod : found.method? filter = none)
    (hcalls : found.calls = []) (hfutures : found.futures = 0) : Ended io filter found s ran := by
  have hasked : s.asked filter found = none := by rw [asked, hprepared]
  have hnotes : s.notes io filter found = [] := by
    rw [notes, hasked]
    rfl
  -- Only answers are sent, which are neither notes nor replies.
  have hnone {out : List Out} (hout : ∀ o ∈ out, (calm S).sends o) :
      out.filter Out.isNote = [] ∧ out.filterMap Out.reply? = [] := by
    rw [List.filter_eq_nil_iff, List.filterMap_eq_nil_iff]
    constructor
    · intro o ho
      obtain ⟨sender, a, rfl⟩ := hout o ho
      exact Bool.false_ne_true
    · intro o ho
      obtain ⟨sender, a, rfl⟩ := hout o ho
      rfl
  cases ran with
  | stop why out =>
      obtain ⟨hfilter, hreplies⟩ := hnone h.2
      exact ⟨hfilter.trans hnotes.symm, hreplies⟩
  | done flow t out =>
      obtain ⟨hflow, hstill, hout⟩ := h
      obtain ⟨hfilter, hreplies⟩ := hnone hout
      refine ⟨.inl hflow, .of_still hstill hpassed hfutures, ?_, hfilter.trans hnotes.symm, ?_⟩
      · refine .stays hasked hstill.notify hstill.writeFd fun call hcall ↦ ?_
        rw [hmethod] at hcall
        contradiction
      · rw [hreplies, hcalls]
        exact .nil

theorem ended_onMsg (hpath : path ≠ .root) (msg : WorkerMsg) (s : ChrcData) :
    Ended io filter (.message msg : Found path) s (onMsg io path msg s) := by
  have hsession (msg : WorkerMsg) (call : MethodCall path) :
      (Found.message msg : Found path).method? filter ≠ some call :=
    fun h ↦ Option.some_ne_none call h.symm
  cases hask : asksOnly msg with
  | true =>
      have hcalm : (onMsg io path msg s).Within (calm fun _ ↦ True) (· = .next) s :=
        within_asks hpath hask Still.toValue (fun _ ↦ calm_sends _) fun _ ↦ trivial
      refine ended_calm hcalm ?_ rfl rfl rfl rfl
      cases msg with
      | unregister | update _ _ | notify _ => contradiction
      | _ => rfl
  | false =>
      cases msg with
      | unregister =>
          refine ⟨.inr ⟨rfl, rfl⟩, .of_still (.refl s) rfl rfl, ?_, rfl, .nil⟩
          exact .stays rfl rfl rfl fun call hcall ↦ absurd hcall (hsession _ call)
      | update vf notify =>
          rw [onMsg_update]
          exact ended_sentIf (hsession (.update vf notify)) rfl rfl
      | notify optAtt =>
          rw [onMsg_notify]
          exact ended_sentIf (hsession (.notify optAtt)) rfl rfl
      | objMgr _ | get _ | getHandle _ | notifying _ | notifyAcquired _ | notifyingSignal _
      | includedPaths _ => contradiction

theorem notifyAs_eq (io : Io) (filter : Option String) (shouldNot : ShouldNotify) (s : ChrcData) :
    notifyAs io path shouldNot s = sentIf io path
      (s.prepared filter (.notified shouldNot : Found path)).1
      (s.prepared filter (.notified shouldNot : Found path)).2 := by
  cases shouldNot with
  | yes => exact notifyIf_eq true s
  | withSpecialValue v => exact sendNotification_bind (some v) s
  | no => rfl

theorem ended_onNotifyFuture (shouldNot : ShouldNotify) (s : ChrcData) :
    Ended io filter (.notified shouldNot : Found path) s (onNotifyFuture io path shouldNot s) := by
  have hsession (call : MethodCall path) :
      (Found.notified shouldNot : Found path).method? filter ≠ some call :=
    fun h ↦ Option.some_ne_none call h.symm
  rw [onNotifyFuture, Act.bind_apply, notifyAs_eq io filter]
  obtain hsent | ⟨e, -, hsent, hnil⟩ :=
    sentIf_prepared io filter (.notified shouldNot) s
  · rw [hsent]
    have hspec := prepared_spec filter (.notified shouldNot : Found path) s
    refine ⟨.inl rfl, ⟨hspec.children, hspec.flags, ?_, hspec.value, hspec.writeCallback⟩, ?_, ?_, ?_⟩
    · exact congrArg (· + 1) hspec.notifyCb
    · exact moved_prepared rfl rfl fun call hcall ↦ absurd hcall (hsession call)
    · simp only [List.append_nil]
      exact filter_notes _ s
    · simp only [List.append_nil]
      rw [replies_notes]
      exact .nil
  · rw [hsent]
    exact ⟨hnil.symm, rfl⟩

theorem ended_onWrite (res : Except IoError AttBytes) (s : ChrcData) :
    Ended io filter (.written res : Found path) s (onWrite io path res s) := by
  have hsession (call : MethodCall path) :
      (Found.written res : Found path).method? filter ≠ some call :=
    fun h ↦ Option.some_ne_none call h.symm
  cases res with
  | ok v =>
      rw [onWrite_ok]
      exact ended_sentIf hsession rfl rfl
  | error e =>
      cases e with
      | notConnected =>
          have hspec : Prepared filter (.written (.error .notConnected) : Found path) s s :=
            .of_still (.refl s) rfl
          exact ⟨.inl rfl, hspec.took rfl s.notify none, .hungUp rfl rfl rfl rfl, rfl, .nil⟩
      | other => exact ⟨rfl, rfl⟩

theorem ended_onCall (hpath : path ≠ .root) (c : MethodCall path) (s : ChrcData) :
    Ended io filter (.call c) s (onCall io filter c.toMessage s) := by
  cases hfilter : isMsgBluez c.toMessage filter with
  | true =>
      rw [onCall, Turn.replyTo_passed hfilter]
      exact ended_replied (handled_handleCall hpath s hfilter)
  | false =>
      rw [onCall, Turn.replyTo_refused hfilter]
      have hnone : (Found.call c).method? filter = none := by
        rw [Found.method?, hfilter]
        exact if_neg fun h ↦ Bool.false_ne_true h.1
      refine ended_replied (handled_refused io (passed_of_method_none hnone) (fun hcall ↦ ?_) _)
      rw [hnone] at hcall
      contradiction

/-- **What a turn does**: how it changes the state, how it moves the sessions, what it sends
to the subscribers and what it replies. -/
theorem turn_spec (hpath : path ≠ .root) {s : ChrcData} {ran : Ran Stop Out ChrcData Flow}
    (h : turn io filter found s = some ran) : Ended io filter found s ran := by
  cases found with
  | message msg =>
      obtain rfl := Option.some.inj h
      exact ended_onMsg hpath msg s
  | closed =>
      obtain rfl := Option.some.inj h
      exact ⟨rfl, rfl⟩
  | call c =>
      obtain rfl := Option.some.inj h
      exact ended_onCall hpath c s
  | notified shouldNot =>
      obtain rfl := Option.some.inj h
      exact ended_onNotifyFuture shouldNot s
  | written res =>
      rw [turn] at h
      split at h
      · obtain rfl := Option.some.inj h
        exact ended_onWrite res s
      · contradiction

end ChrcData

end Rustable.Gatt.Server
