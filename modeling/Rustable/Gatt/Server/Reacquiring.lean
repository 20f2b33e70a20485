import Rustable.Gatt.Server.Sessions
import Rustable.Gatt.Server.Writes

/-!
# Acquiring a socket again after a hang-up

`acquire_write` refuses a call while `write_fd` is held, and unlike `acquire_notify` it does
not ask whether the peer has hung up.  It relies on the order of the polls: the socket is
looked at before the calls, so a hang-up that comes before a call is seen before it.

That is so unless both come after the socket has been looked at and before the calls are
(`SlipsIn`).  Each call is sent together with the number of the socket whose peer had closed
its end by then, if the worker held one; `Unblocked` says that this socket is gone when an
`AcquireWrite` is handled.
-/

namespace Rustable.Gatt.Server

open DBus

variable {path : ObjectPath} {filter : Option String}

/-- The call asks for a socket for writing. -/
def AsksForWrite (c : MethodCall path) : Prop :=
  c.interface = some bluezChrIf ∧ c.member = "AcquireWrite"

instance (c : MethodCall path) : Decidable (AsksForWrite c) :=
  inferInstanceAs (Decidable (_ ∧ _))

/-- The reply says that somebody else has the socket. -/
def AlreadyAcquired (m : MarshalledMessage) : Prop :=
  m.dynheader.errorName = some "AlreadyAcquired"

theorem not_alreadyAcquired {name : String} (h : name ≠ "AlreadyAcquired") (hdr : DynHeader) :
    ¬ AlreadyAcquired (hdr.makeErrorResponse name none) :=
  fun hname ↦ h (Option.some.inj hname)

theorem not_alreadyAcquired_acquireWrite {io : Io} {call m : MarshalledMessage}
    {data data' : ChrcData} {out : List Out} (h : data.writeFd = none)
    (hrun : data.acquireWrite io call = .done m data' out) : ¬ AlreadyAcquired m := by
  rw [ChrcData.acquireWrite_eq, h] at hrun
  split at hrun
  · obtain ⟨rfl, -⟩ := Ran.done.inj hrun
    exact not_alreadyAcquired (by decide) _
  · rw [if_neg (by decide), ChrcData.acquire] at hrun
    cases hopts : call.body.get Options with
    | error e =>
        rw [hopts] at hrun
        obtain ⟨rfl, -⟩ := Ran.done.inj hrun
        exact not_alreadyAcquired (by decide) _
    | ok options =>
        rw [hopts] at hrun
        cases hfds : io.getSockSeqpacket with
        | error e =>
            rw [hfds] at hrun
            contradiction
        | ok fds =>
            rw [hfds] at hrun
            obtain ⟨rfl, -⟩ := Ran.done.inj hrun
            intro hacquired
            contradiction

/-- Without a socket, nobody is told that somebody else has it. -/
theorem writeFd_of_alreadyAcquired {io : Io} {c : MethodCall path} {data data' : ChrcData}
    {m : MarshalledMessage} {out : List Out} (hcall : AsksForWrite c)
    (hrun : data.handleCall io c.toMessage = .done m data' out) (hacquired : AlreadyAcquired m) :
    data.writeFd.isSome = true := by
  by_contra hfd
  have hnone : data.writeFd = none := by simpa using hfd
  have hinterface : c.toMessage.dynheader.interface = some bluezChrIf := hcall.1
  have hmember : c.toMessage.dynheader.member = some c.member := rfl
  rw [ChrcData.handleCall_method hinterface hmember, hcall.2] at hrun
  exact not_alreadyAcquired_acquireWrite hnone hrun hacquired

namespace EventLoop

variable {s t : State path} {p : Place path}

namespace State

/-- The task is about to look at the calls. -/
def looksAtCalls (s : State path) : Bool :=
  match s.phase with
  | .polling _ (.op .call _) => true
  | _ => false

/-- An `AcquireWrite` is sent right when the task is about to look at the calls, of which
there are no others, and the peer has hung up since it has looked at the socket. -/
def SlipsIn (s : State path) : Event path → Prop
  | .call c => AsksForWrite c ∧ s.looksAtCalls = true ∧ s.calls.queue.isEmpty = true ∧
      s.sock.any (·.closed) = true
  | .message _ | .dropSenders | .datagram _ | .hangUp | .resolve _ _ | .work _ => False

/-- No `AcquireWrite` slips in. -/
def InTime (s : State path) (e : Event path) : Prop := ¬ s.SlipsIn e

instance (s : State path) : ∀ e, Decidable (s.InTime e)
  | .call c => inferInstanceAs (Decidable (¬ (AsksForWrite c ∧ _ ∧ _ ∧ _)))
  | .message _ | .dropSenders | .datagram _ | .hangUp | .resolve _ _ | .work _ =>
      .isTrue not_false

/-- The socket that had hung up when the call was sent is not held any more. -/
def Cleared (s : State path) (sent : Sent path) : Prop :=
  AsksForWrite sent.call → ∀ id, sent.hungUp = some id → id < s.released.length

/-- What is known of the calls that have been sent. -/
structure Tagged (s : State path) (p : Place path) : Prop where
  tags : ∀ sent ∈ s.calls.sent, ∀ id, sent.hungUp = some id →
    id < s.released.length ∨ s.hungUp? = some id
  /-- The call that is taken next. -/
  head : ∀ data, p = .poll data .call → ∀ sent ∈ s.calls.queue.head?, s.Cleared sent
  /-- The call that has been taken last. -/
  last : ∀ data c, p = .poll data (.ready (.call c)) →
    ∃ sent, s.calls.seen.getLast? = some sent ∧ sent.call = c ∧ s.Cleared sent

/-- The call that is about to be handled. -/
def handles (s : State path) : Option (ChrcData × MethodCall path) :=
  match s.phase with
  | .polling data (.ret (.ready (.inr (.inr call, _)))) => some (data, call)
  | _ => none

/-- An `AcquireWrite` that is about to be handled finds the socket cleared that had hung up
when it was sent; if the handler says that a socket is acquired, this is a later one. -/
def Unblocked (s : State path) : Prop :=
  ∀ data c, s.handles = some (data, c) → AsksForWrite c →
    ∃ sent, s.calls.seen.getLast? = some sent ∧ sent.call = c ∧
      ∀ id, sent.hungUp = some id → id < s.released.length ∧
        ∀ io m data' out, data.handleCall io c.toMessage = .done m data' out →
          AlreadyAcquired m → s.sock.isSome = true

theorem handles_eq_some {data : ChrcData} {c : MethodCall path} (h : s.handles = some (data, c)) :
    ∃ recvNotF, s.phase = .polling data (.ret (.ready (.inr (.inr c, recvNotF)))) := by
  rw [handles] at h
  split at h
  · next data' call recvNotF hphase =>
      obtain ⟨rfl, rfl⟩ := Prod.mk.inj (Option.some.inj h)
      exact ⟨recvNotF, hphase⟩
  · contradiction

theorem hungUp?_eq_some {id : Nat} (h : s.hungUp? = some id) :
    id = s.released.length ∧ s.sock.any (·.closed) = true := by
  rw [hungUp?] at h
  split at h
  · next hclosed => exact ⟨(Option.some.inj h).symm, hclosed⟩
  · contradiction

theorem hungUp?_of_open (h : s.sock.any (·.closed) = false) : s.hungUp? = none := by
  rw [hungUp?, h]
  rfl

/-- When the socket is known to be open, all calls that were sent before are cleared. -/
theorem Tagged.cleared (h : s.Tagged p) (hopen : s.sock.any (·.closed) = false) :
    ∀ sent ∈ s.calls.queue.head?, s.Cleared sent := by
  intro sent hsent _ id hid
  have hmem : sent ∈ s.calls.sent := List.mem_append_right _ (List.mem_of_mem_head? hsent)
  rcases h.tags sent hmem id hid with hlt | heq
  · exact hlt
  · rw [hungUp?_of_open hopen] at heq
    contradiction

end State

/-- Whatever else the task does, it keeps what is known of the calls. -/
theorem State.Tagged.mono (hs : s.Tagged p) {p' : Place path} (hcalls : t.calls = s.calls)
    (hreleased : t.released = s.released) (hhungUp : t.hungUp? = s.hungUp?)
    (hhead : ∀ data, p' ≠ .poll data .call)
    (hlast : ∀ data c, p' ≠ .poll data (.ready (.call c))) : t.Tagged p' where
  tags := by
    rw [hcalls, hreleased, hhungUp]
    exact hs.tags
  head data hp := absurd hp (hhead data)
  last data c hp := absurd hp (hlast data c)

/-- What a poll does to the calls. -/
theorem Looked.tagged {data : ChrcData} {stage stage' : Stage path} {u : State path}
    (h : Looked data s stage u stage') (hs : s.Tagged (.poll data stage)) (phase : Phase path) :
    State.Tagged { u with phase := phase } (.poll data stage') := by
  cases h with
  | message | closed | noMessage | resolved | unresolved | endOfStream | hungUp | notHungUp
  | noCall | again =>
      exact hs.mono rfl rfl rfl (by simp) (by simp)
  | @datagram sock bytes queue hsock hqueue =>
      refine hs.mono rfl rfl ?_ ?_ ?_
      · rw [State.hungUp?, State.hungUp?, hsock]
        rfl
      · intro data'
        split <;> simp
      · intro data' c
        split <;> simp
  | noSocket hresolved hsock =>
      have hopen : s.sock.any (·.closed) = false := by rw [hsock]; rfl
      exact ⟨hs.tags, fun _ _ ↦ hs.cleared hopen, by simp⟩
  | noDatagram hsock hqueue hclosed =>
      have hopen : s.sock.any (·.closed) = false := by rw [hsock]; exact hclosed
      exact ⟨hs.tags, fun _ _ ↦ hs.cleared hopen, by simp⟩
  | @call sent queue hqueue =>
      refine ⟨?_, by simp, ?_⟩
      · intro sent' hmem
        refine hs.tags sent' ?_
        have hsame : (s.calls.seen ++ [sent]) ++ queue = s.calls.sent := by
          rw [Channel.sent, hqueue, List.append_assoc]
          rfl
        exact hsame ▸ hmem
      · intro data' c hp
        obtain ⟨-, hc⟩ := Place.poll.inj hp
        refine ⟨sent, List.getLast?_concat .., Found.call.inj (Stage.ready.inj hc), ?_⟩
        exact hs.head data rfl sent (by rw [hqueue]; rfl)

/-- **What each step keeps, if no `AcquireWrite` slips in.** -/
theorem State.Tagged.step {e : Event path} {p' : Place path} (hrunning : s.Running p)
    (hs : s.Tagged p) (hintime : s.InTime e) (h : Stepped filter s p e t p') : t.Tagged p' := by
  cases h with
  | message | dropSenders | resolve => exact ⟨hs.tags, hs.head, hs.last⟩
  | @call _ c =>
      refine ⟨?_, ?_, hs.last⟩
      · intro sent hmem id hid
        rw [Channel.sent_push] at hmem
        rcases List.mem_append.mp hmem with hmem | hmem
        · exact hs.tags sent hmem id hid
        · obtain rfl := List.mem_singleton.mp hmem
          exact .inr hid
      · rintro data rfl sent hsent hasks id hid
        cases hqueue : s.calls.queue with
        | cons first queue =>
            refine hs.head data rfl sent ?_ hasks id hid
            rw [Channel.queue_push, hqueue] at hsent
            rw [hqueue]
            exact hsent
        | nil =>
            rw [Channel.queue_push, hqueue] at hsent
            obtain rfl := Option.some.inj hsent
            obtain ⟨-, hclosed⟩ := hungUp?_eq_some hid
            refine absurd ⟨hasks, ?_, by rw [hqueue]; rfl, hclosed⟩ hintime
            rw [State.looksAtCalls, hrunning.phase]
            rfl
  | @datagram _ bytes sock hsock hclosed =>
      refine ⟨?_, hs.head, hs.last⟩
      have hsame : State.hungUp?
          { s with sock := some { sock with datagrams := sock.datagrams.push bytes } } =
            s.hungUp? := by
        rw [State.hungUp?, State.hungUp?, hsock]
        rfl
      rw [hsame]
      exact hs.tags
  | @hangUp _ sock hsock =>
      refine ⟨?_, hs.head, hs.last⟩
      intro sent hmem id hid
      rcases hs.tags sent hmem id hid with hlt | heq
      · exact .inl hlt
      · obtain ⟨rfl, -⟩ := hungUp?_eq_some heq
        exact .inr rfl
  | looked hlooked => exact hlooked.tagged hs _
  | turned hturn hended hsocketed =>
      refine ⟨?_, ?_, ?_⟩
      · intro sent hmem id hid
        have htag := hs.tags sent hmem id hid
        cases hsocketed with
        | same hfound => exact htag
        | released hfound hsock =>
            have hle : id ≤ s.released.length := by
              rcases htag with hlt | heq
              · exact hlt.le
              · exact (hungUp?_eq_some heq).1.le
            refine .inl ?_
            rw [List.length_append]
            exact Nat.lt_succ_of_le hle
        | acquired mtu hfound hsock =>
            rcases htag with hlt | heq
            · exact .inl hlt
            · obtain ⟨-, hclosed⟩ := hungUp?_eq_some heq
              rw [hsock] at hclosed
              contradiction
      · intro data hp
        obtain ⟨out, -, hstage⟩ := ofRan_eq_poll hp
        contradiction
      · intro data c hp
        obtain ⟨out, -, hstage⟩ := ofRan_eq_poll hp
        contradiction

/-- **A socket that has hung up does not block the next one**, in a run in which no
`AcquireWrite` slips in. -/
theorem hung_up_never_blocks (hpath : path ≠ .root) (chrc : Characteristic) (children : Nat)
    {es : List (Event path)}
    (h : Lts.Run (Lts.restrict (State.Step filter) State.InTime)
      (.start path chrc children) es s) : s.Unblocked := by
  have hinv : ∃ p, s.Running p ∧ s.Tagged p := by
    refine invariant_of_run hpath ?_ h ⟨_, running_start path chrc children, ?_, ?_, ?_⟩
    · rintro s p e t p' hrunning htagged hintime - - hstepped
      exact htagged.step hrunning hintime hstepped
    · intro sent hmem
      contradiction
    · simp
    · simp
  obtain ⟨p, hrunning, htagged⟩ := hinv
  intro data c hhandles hasks
  obtain ⟨recvNotF, hphase⟩ := State.handles_eq_some hhandles
  have hp := hrunning.phase.symm.trans hphase
  cases p with
  | finished | failed => contradiction
  | poll data' stage =>
      obtain ⟨rfl, hlook⟩ := Phase.polling.inj hp
      obtain ⟨found, rfl, hwoken⟩ := eq_ready hlook
      have hfound : .call c = found := by
        rw [← found_wokenBy data' found, ← hwoken]
        rfl
      obtain ⟨sent, hsent, hcall, hcleared⟩ := htagged.last data' c (by rw [hfound])
      refine ⟨sent, hsent, hcall, fun id hid ↦ ⟨hcleared (hcall ▸ hasks) id hid, ?_⟩⟩
      intro io m data'' out hrun hacquired
      have hfd := writeFd_of_alreadyAcquired hasks hrun hacquired
      have hmtu := congrArg Option.isSome (hrunning.holds data' _ rfl).mtu
      rw [Option.isSome_map, Option.isSome_map] at hmtu
      exact hmtu ▸ hfd

/-- A socket is acquired, its peer hangs up, and another one is asked for. -/
def reacquiredEvents : List (Event Worker.ofService.path) :=
  .call acquireWriteCall :: works 4 ++ [.hangUp, .call acquireWriteCall] ++ works 8

/-- The first socket is gone when the second call is handled. -/
theorem hung_up_never_blocks_reacquired : ∃ t : State Worker.ofService.path,
    t.released.length = 1 ∧ t.calls.seen.map Sent.hungUp = [none, some 0] ∧
      t.Unblocked := by
  have hreplay : (Lts.replayIf (State.next none) State.InTime
      (.start Worker.ofService.path written 0) reacquiredEvents).map
        (fun t ↦ (t.released.length, t.calls.seen.map Sent.hungUp)) =
          some (1, [none, some 0]) := rfl
  obtain ⟨t, ht, hseen⟩ := Option.map_eq_some_iff.mp hreplay
  obtain ⟨hreleased, hcalls⟩ := Prod.mk.inj hseen
  have hunblocked := hung_up_never_blocks Worker.isAttribute_ofService.path written 0
    (Lts.Run.of_replayIf ht)
  exact ⟨t, hreleased, hcalls, hunblocked⟩

/-- A socket is acquired.  Between a look at the socket and the look at the calls its peer
hangs up, and another one is asked for. -/
def slippedEvents : List (Event Worker.ofService.path) :=
  .call acquireWriteCall :: works 7 ++ [.hangUp, .call acquireWriteCall] ++ works 1

/-- A call that slips in finds the socket that has hung up. -/
theorem hung_up_blocks :
    ¬∀ (path : ObjectPath) (filter : Option String) (chrc : Characteristic) (children : Nat)
      (es : List (Event path)) (s : State path), path ≠ .root →
      Lts.Run (State.Step filter) (.start path chrc children) es s → s.Unblocked := by
  intro hall
  have hreplay : (Lts.replay (State.next none) (.start Worker.ofService.path written 0)
      slippedEvents).map (fun t ↦ (t.handles.map Prod.snd, t.calls.seen.getLast?.map Sent.hungUp,
        t.released.length)) = some (some acquireWriteCall, some (some 0), 0) := rfl
  obtain ⟨t, ht, hseen⟩ := Option.map_eq_some_iff.mp hreplay
  obtain ⟨hhandles, hseen⟩ := Prod.mk.inj hseen
  obtain ⟨hlast, hreleased⟩ := Prod.mk.inj hseen
  obtain ⟨⟨data, c⟩, hhandles, rfl⟩ := Option.map_eq_some_iff.mp hhandles
  obtain ⟨sent, hsent, htag⟩ := Option.map_eq_some_iff.mp hlast
  obtain ⟨sent', hsent', -, hcleared⟩ := hall _ none written 0 _ t
    Worker.isAttribute_ofService.path (Lts.Run.of_replay ht) data _ hhandles ⟨rfl, rfl⟩
  obtain rfl := Option.some.inj (hsent.symm.trans hsent')
  obtain ⟨hlt, -⟩ := hcleared 0 htag
  rw [hreleased] at hlt
  exact absurd hlt (Nat.lt_irrefl 0)

end EventLoop

end Rustable.Gatt.Server
