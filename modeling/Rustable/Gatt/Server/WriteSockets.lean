import Rustable.Gatt.Client
import Rustable.Gatt.Server.Reacquiring

/-!
# Values written through a socket

Two limits are agreed on when a socket is acquired for writing, and two are fixed.  The
server takes the smaller of 517 and the option of the caller for the MTU, replies it as a
`u16` and reads datagrams into a buffer of at most 512 bytes; the client cuts a value, which
has at most 512 bytes, to the MTU it was told.

`write_path` says that these fit together: whatever the client cuts off, the server takes
the rest as it is.
-/

namespace Rustable.Gatt.Server

open DBus

variable {path : ObjectPath} {filter : Option String}

/-! ## The receive buffer -/

namespace ChrcData

/-- What `check_for_write` makes of a datagram: the buffer, with as much of the datagram as
fits. -/
def received (mtu : Nat) (datagram : List UInt8) : Outcome :=
  match AttValue.new (min 512 mtu) with
  | (none, attVal) =>
      -- `socket.recv(&mut att_val)`
      let read := min datagram.length attVal.len
      match attVal.writeSlice fun i byte ↦ datagram.getD i byte with
      | (none, attVal) => attVal.resize read 0
      | (some e, attVal) => (some e, attVal)
  | (some e, attVal) => (some e, attVal)

end ChrcData

/-- Writing a datagram over a buffer writes what fits. -/
theorem writeSlice_take {buf : AttBytes} (datagram : List UInt8) :
    (buf.writeSlice fun i byte ↦ datagram.getD i byte) =
      buf.writeSlice fun i byte ↦ (datagram.take buf.bytes.length).getD i byte := by
  rw [AttBytes.writeSlice, AttBytes.writeSlice, AttBytes.mk.injEq]
  apply List.ext_getElem
  · rw [List.length_mapIdx, List.length_mapIdx]
  · intro i hi hi'
    have hlt : i < buf.bytes.length := by simpa using hi
    simp [List.getElem?_take, hlt]

/-- **A datagram is read as far as it fits**, and no assertion fails. -/
theorem received_represents (mtu : Nat) (datagram : List UInt8) :
    ∃ v, ChrcData.received mtu datagram = (none, v) ∧
      Represents v (EventLoop.attVal ⟨datagram.take (min 512 mtu), List.length_take_le ..⟩) := by
  have hlen : (List.replicate (min 512 mtu) (0 : UInt8)).length = min 512 mtu :=
    List.length_replicate
  have hle : (List.replicate (min 512 mtu) (0 : UInt8)).length ≤ 512 :=
    hlen.trans_le (Nat.min_le_left ..)
  let zeros : AttBytes := ⟨List.replicate (min 512 mtu) 0, hle⟩
  have hzeros : AttBytes.new (min 512 mtu) = some zeros := fits_of_le hle
  have hresult := EventLoop.attVal_eq (⟨datagram.take (min 512 mtu), List.length_take_le ..⟩ :
    { bytes : List UInt8 // bytes.length ≤ min 512 mtu })
  rw [hzeros, Option.bind_some] at hresult
  have hnew := meets_new (min 512 mtu)
  rw [hzeros] at hnew
  obtain ⟨buf, hbuf, hbufs⟩ := hnew.eq_none
  obtain ⟨written, hwritten, hwrittens⟩ :=
    (meets_writeSlice hbufs fun i byte ↦ datagram.getD i byte).eq_none
  have hmeets := meets_resize hwrittens (min datagram.length buf.len) 0
  have hread : min datagram.length buf.len = (datagram.take (min 512 mtu)).length := by
    rw [hbufs.len_eq, List.length_take, Nat.min_comm]
    exact congrArg (min · _) hlen
  have hcut : zeros.bytes.length = min 512 mtu := hlen
  rw [hread, writeSlice_take, hcut, hresult] at hmeets
  obtain ⟨v, hv, hrep⟩ := hmeets.eq_none
  refine ⟨v, ?_, hrep⟩
  rw [ChrcData.received, hbuf]
  dsimp only
  rw [hwritten, hread]
  exact hv

/-! ## What is agreed on -/

/-- What a client gets from a call: the options it has called with, and the socket it makes
of the reply. -/
def granted : MethodCall path × MarshalledMessage → Option (Options × Client.WriteSocket)
  | (call, m) =>
      if AsksForWrite call then
        match call.toMessage.body.get Options, (Client.acquireWriteReply m).run with
        | .ok options, some (.ok ws) => some (options, ws)
        | _, _ => none
      else none

theorem granted_error {call : MethodCall path} {m : MarshalledMessage} (hm : m.typ = .error) :
    granted (call, m) = none := by
  obtain ⟨e, he⟩ := readReply_error (fun body ↦
    (body.get2 UnixFd UInt16).mapError unmarshalFailed) hm
  have hreply : (Client.acquireWriteReply m).run = some (.error e) := by
    rw [Client.acquireWriteReply, Client.acquireReply, isMsgErr2, he]
    rfl
  rw [granted, hreply]
  split
  · split
    · next hrun => simp at hrun
    · rfl
  · rfl

theorem granted_acquiredReply {call : MethodCall path} (hcall : AsksForWrite call)
    {options : Options} (hbody : call.toMessage.body.get Options = .ok options) (fd : UnixFd)
    (mtu : Nat) : granted (call, ChrcData.acquiredReply call.toMessage fd mtu) =
      some (options, { sock := fd, mtu := UInt16.ofNat mtu }) := by
  have hreply : Client.acquireWriteReply (ChrcData.acquiredReply call.toMessage fd mtu) =
      pure { sock := fd, mtu := UInt16.ofNat mtu } := by
    have hpair : Client.acquireReply (ChrcData.acquiredReply call.toMessage fd mtu) =
        pure (fd, UInt16.ofNat mtu) := isMsgErr2_reply rfl rfl rfl rfl
    rw [Client.acquireWriteReply, hpair, pure_bind]
  rw [granted, if_pos hcall, hbody, hreply]
  rfl

/-- What an `AcquireWrite` is answered, and what the worker keeps. -/
theorem acquireWrite_granted {io : Io} {c : MethodCall path} {data data' : ChrcData} {flow : Flow}
    {out : List Out} (hcall : AsksForWrite c)
    (hturn : data.turn io filter (.call c) = some (.done flow data' out)) :
    ∃ m, out = [.reply m] ∧ ((granted (c, m) = none ∧ data'.writeFd = data.writeFd) ∨
      ∃ options ws ours, granted (c, m) = some (options, ws) ∧
        ws.mtu.toNat = mtuOption options ∧ data.writeFd = none ∧
          data'.writeFd = some (ours, mtuOption options)) := by
  cases hfilter : isMsgBluez c.toMessage filter with
  | false =>
      have hrefused : Turn.replied io (.done (refusal c.toMessage) data []) =
          .done flow data' out :=
        (Turn.replyTo_refused hfilter _ data).symm.trans (Option.some.inj hturn)
      obtain ⟨m, out', hdone, -, rfl, -⟩ := Turn.done_of_replied hrefused
      obtain ⟨rfl, rfl, rfl⟩ := Ran.done.inj hdone
      exact ⟨_, rfl, .inl ⟨granted_error rfl, rfl⟩⟩
  | true =>
      rw [ChrcData.turn_method hfilter hcall.1, hcall.2] at hturn
      obtain ⟨m, out', hdone, -, rfl, -⟩ := Turn.done_of_replied (Option.some.inj hturn)
      have hran : data.acquireWrite io c.toMessage = .done m data' out' := hdone
      have herror {m' : MarshalledMessage} (hm' : m'.typ = .error)
          (h : Ran.done m' data [] = (.done m data' out' : Ran Stop Out _ _)) :
          out' = [] ∧ granted (c, m) = none ∧ data'.writeFd = data.writeFd := by
        obtain ⟨rfl, rfl, rfl⟩ := Ran.done.inj h
        exact ⟨rfl, granted_error hm', rfl⟩
      rw [ChrcData.acquireWrite_eq] at hran
      split at hran
      · obtain ⟨rfl, hm⟩ := herror rfl hran
        exact ⟨m, rfl, .inl hm⟩
      split at hran
      · obtain ⟨rfl, hm⟩ := herror rfl hran
        exact ⟨m, rfl, .inl hm⟩
      next hfree =>
      rw [ChrcData.acquire] at hran
      cases hbody : c.toMessage.body.get Options with
      | error e =>
          rw [hbody] at hran
          obtain ⟨rfl, hm⟩ := herror rfl hran
          exact ⟨m, rfl, .inl hm⟩
      | ok options =>
          rw [hbody] at hran
          cases hfds : io.getSockSeqpacket with
          | error e =>
              rw [hfds] at hran
              contradiction
          | ok fds =>
              rw [hfds] at hran
              obtain ⟨rfl, rfl, rfl⟩ := Ran.done.inj hran
              refine ⟨_, rfl, .inr ⟨options, _, fds.1, granted_acquiredReply hcall hbody _ _,
                ?_, by simpa using hfree, rfl⟩⟩
              have hle := ChrcData.mtuOption_le options
              rw [UInt16.toNat_ofNat']
              exact Nat.mod_eq_of_lt (by omega)

namespace EventLoop

variable {s t : State path} {p p' : Place path}

namespace State

/-- The calls that the turns have found, with their replies. -/
def exchanges (s : State path) : List (MethodCall path × MarshalledMessage) :=
  (s.log.flatMap Found.calls).zip (s.out.filterMap Out.reply?)

/-- What clients have got from the calls, in order. -/
def writeSockets (s : State path) : List (Options × Client.WriteSocket) :=
  s.exchanges.filterMap granted

/-- Both sides know the MTU that follows from the options. -/
structure Agrees (s : State path) : Prop where
  socks : s.socks.map Sock.mtu = s.writeSockets.map fun given ↦ mtuOption given.1
  told : ∀ given ∈ s.writeSockets, given.2.mtu.toNat = mtuOption given.1

theorem Agrees.congr (h : s.Agrees) (hlog : t.log = s.log) (hout : t.out = s.out)
    (hreleased : t.released = s.released) (hsock : t.sock.map Sock.mtu = s.sock.map Sock.mtu) :
    t.Agrees := by
  have hsockets : t.writeSockets = s.writeSockets := by
    rw [writeSockets, writeSockets, exchanges, exchanges, hlog, hout]
  have hsocks : t.socks.map Sock.mtu = s.socks.map Sock.mtu := by
    rw [State.socks, State.socks, List.map_append, List.map_append, hreleased,
      ← Option.toList_map, ← Option.toList_map, hsock]
  exact ⟨by rw [hsocks, hsockets]; exact h.socks, hsockets ▸ h.told⟩

theorem Agrees.append (h : s.Agrees) {given : List (Options × Client.WriteSocket)}
    (hsockets : t.writeSockets = s.writeSockets ++ given)
    (hsocks : t.socks.map Sock.mtu =
      s.socks.map Sock.mtu ++ given.map fun given ↦ mtuOption given.1)
    (htold : ∀ g ∈ given, g.2.mtu.toNat = mtuOption g.1) : t.Agrees where
  socks := by rw [hsocks, hsockets, h.socks, List.map_append]
  told g hg := (List.mem_append.mp (hsockets ▸ hg)).elim (h.told g) (htold g)

/-- What clients have got after a turn. -/
theorem writeSockets_turned {data : ChrcData} {found : Found path} {out : List Out}
    (hs : s.Replied (.poll data (.ready found))) (hlog : t.log = s.log ++ [found])
    (hout : t.out = s.out ++ out) : t.writeSockets =
      s.writeSockets ++ (found.calls.zip (out.filterMap Out.reply?)).filterMap granted := by
  obtain ⟨answered, hanswered, hcalls⟩ := hs
  have hlength : (s.log.flatMap Found.calls).length = (s.out.filterMap Out.reply?).length := by
    have hlog : s.log.flatMap Found.calls = answered := hcalls
    rw [hlog]
    exact hanswered.length_eq.symm
  rw [writeSockets, writeSockets, exchanges, exchanges, hlog, hout, List.flatMap_append,
    List.flatMap_singleton, List.filterMap_append, List.zip_append hlength,
    List.filterMap_append]

end State

/-- A turn that fails leaves the sockets as they are. -/
theorem socks_stop {data : ChrcData} {found : Found path} {io : Io} {why : Stop} {out : List Out}
    (hs : s.Running (.poll data (.ready found)))
    (hturn : data.turn io filter found = some (.stop why out))
    (h : State.Step filter s (.work io) t) : t.socks = s.socks := by
  have hwork : s.work filter io = some t := h
  have hphase : s.phase = .polling data (.ret (.ready (wokenBy data found))) := hs.phase
  rw [State.work, hphase] at hwork
  dsimp only at hwork
  rw [found_wokenBy, hturn] at hwork
  obtain rfl := Option.some.inj hwork
  rfl

/-- Only an `AcquireWrite` makes the worker hold a socket. -/
theorem asksForWrite_of_acquired {data data' : ChrcData} {found : Found path} {io : Io}
    {flow : Flow} {out : List Out} (h : ChrcData.Turned io filter found data data' flow out)
    (hfree : data.writeFd = none) {fd : UnixFd × Nat} (hheld : data'.writeFd = some fd) :
    ∃ c, found = .call c ∧ AsksForWrite c := by
  have hkept (hwrite : data'.writeFd = data.writeFd) : ∃ c, found = .call c ∧ AsksForWrite c := by
    rw [hwrite, hfree] at hheld
    contradiction
  cases h.moved with
  | stays _ _ hwrite | notified _ _ _ hwrite => exact hkept hwrite
  | started _ _ _ _ _ _ _ hwrite => exact hkept hwrite
  | stopped _ _ _ _ _ _ hwrite | dropped _ _ _ _ _ _ hwrite => exact hkept hwrite
  | acquired _ _ _ _ _ _ _ _ _ _ _ hwrite => exact hkept hwrite
  | hungUp _ _ _ hwrite =>
      rw [hwrite] at hheld
      contradiction
  | acquiredWrite c hcall hmember =>
      refine ⟨c, found_of_method? hcall, ?_, hmember⟩
      obtain rfl := found_of_method? hcall
      exact (ChrcData.method?_eq_some hcall).2.2

/-- What clients get from a turn, and whether the worker acquires a socket in it. -/
theorem granted_turned {data data' : ChrcData} {found : Found path} {io : Io} {flow : Flow}
    {out : List Out} (hturn : data.turn io filter found = some (.done flow data' out))
    (h : ChrcData.Turned io filter found data data' flow out) :
    ((found.calls.zip (out.filterMap Out.reply?)).filterMap granted = [] ∧
        (data.writeFd = none → data'.writeFd = none)) ∨
      ∃ options ws fd, (found.calls.zip (out.filterMap Out.reply?)).filterMap granted =
          [(options, ws)] ∧ ws.mtu.toNat = mtuOption options ∧ data.writeFd = none ∧
        data'.writeFd = some (fd, mtuOption options) := by
  by_cases hasks : ∃ c, found = .call c ∧ AsksForWrite c
  · obtain ⟨c, rfl, hasks⟩ := hasks
    obtain ⟨m, rfl, ⟨hm, hsame⟩ | ⟨options, ws, fd, hm, hgiven⟩⟩ :=
      acquireWrite_granted hasks hturn
    · exact .inl ⟨by simp [Found.calls, Out.reply?, hm], fun hfree ↦ hsame.trans hfree⟩
    · exact .inr ⟨options, ws, fd, by simp [Found.calls, Out.reply?, hm], hgiven⟩
  · refine .inl ⟨?_, fun hfree ↦ ?_⟩
    · apply List.filterMap_eq_nil_iff.mpr
      rintro ⟨c, m⟩ hmem
      cases found with
      | call c' =>
          obtain rfl := List.mem_singleton.mp (List.of_mem_zip hmem).1
          exact if_neg fun hc ↦ hasks ⟨c, rfl, hc⟩
      | message | closed | notified | written =>
          have hcalls := (List.of_mem_zip hmem).1
          simp [Found.calls] at hcalls
    · by_contra hheld
      obtain ⟨fd, hfd⟩ := Option.ne_none_iff_exists'.mp hheld
      exact hasks (asksForWrite_of_acquired h hfree hfd)

/-- What a turn does to the sockets. -/
theorem mtus_turned {data data' : ChrcData} {found : Found path} {io : Io} {flow : Flow}
    {out : List Out} {sock : Option Sock} {released : List Sock}
    (hs : s.Running (.poll data (.ready found)))
    (hturn : data.turn io filter found = some (.done flow data' out))
    (h : ChrcData.Turned io filter found data data' flow out)
    (hsocketed : Socketed found s sock released)
    (hmtu : flow = .next → data'.writeFd.map Prod.snd = sock.map Sock.mtu) :
    (released ++ sock.toList).map Sock.mtu = s.socks.map Sock.mtu ++
        ((found.calls.zip (out.filterMap Out.reply?)).filterMap granted).map
          (fun given ↦ mtuOption given.1) ∧
      ∀ given ∈ (found.calls.zip (out.filterMap Out.reply?)).filterMap granted,
        given.2.mtu.toNat = mtuOption given.1 := by
  have hholds := hs.holds data _ rfl
  obtain ⟨hgiven, hfree⟩ | ⟨options, ws, fd, hgiven, htold, hfree, hheld⟩ := granted_turned hturn h
  · rw [hgiven, List.map_nil, List.append_nil]
    refine ⟨?_, fun given hmem ↦ (List.not_mem_nil hmem).elim⟩
    cases hsocketed with
    | same hfound => rfl
    | released hfound hsock => simp [State.socks, hsock]
    | @acquired call mtu hfound hsock =>
        have hnext : flow = .next := h.flow.resolve_right fun hdone ↦ by
          rw [hdone.2] at hfound
          contradiction
        have hnone := hmtu hnext
        rw [hfree (hholds.of_none hsock)] at hnone
        contradiction
  · have hsock : s.sock = none := by
      have hmtus := hholds.mtu
      rw [hfree] at hmtus
      exact Option.map_eq_none_iff.mp hmtus.symm
    have hcalls : found.calls ≠ [] := by
      intro hnil
      rw [hnil] at hgiven
      contradiction
    have hnext : flow = .next := h.flow.resolve_right fun hdone ↦ hcalls (by rw [hdone.2]; rfl)
    have hmtus := hmtu hnext
    rw [hheld] at hmtus
    rw [hgiven]
    refine ⟨?_, fun given hmem ↦ by obtain rfl := List.mem_singleton.mp hmem; exact htold⟩
    cases hsocketed with
    | same hfound =>
        rw [hsock] at hmtus
        contradiction
    | released hfound hold =>
        rw [hsock] at hold
        contradiction
    | acquired mtu hfound _ =>
        obtain rfl : mtuOption options = mtu := Option.some.inj hmtus
        simp [State.socks, hsock]

/-- **What each step keeps.** -/
theorem State.Agrees.step {chrc : Characteristic} {e : Event path} (hrunning : s.Running p)
    (hplumbed : s.Plumbed chrc p) (hs : s.Agrees) (hstep : State.Step filter s e t)
    (hrunning' : t.Running p') (h : Stepped filter s p e t p') : t.Agrees := by
  cases h with
  | message | dropSenders | call | resolve => exact hs.congr rfl rfl rfl rfl
  | datagram hsock | hangUp hsock => exact hs.congr rfl rfl rfl (by rw [hsock]; rfl)
  | @looked data stage stage' u io hlooked =>
      have hholds := hrunning.holds data stage rfl
      obtain ⟨hlog, hout⟩ := hlooked.log_eq
      refine hs.congr hlog hout hlooked.released_eq ?_
      exact (hlooked.holds hholds).mtu.symm.trans hholds.mtu
  | @turned data found io ran sock released hturn hended hsocketed =>
      cases ran with
      | stop why out =>
          refine hs.append (State.writeSockets_turned hplumbed.replied rfl rfl) ?_ ?_
          · have hnone : out.filterMap Out.reply? = [] := hended.2
            rw [socks_stop hrunning hturn hstep, Ran.out, hnone, List.zip_nil_right]
            exact (List.append_nil _).symm
          · have hnone : out.filterMap Out.reply? = [] := hended.2
            rw [Ran.out, hnone, List.zip_nil_right]
            exact fun given hmem ↦ (List.not_mem_nil hmem).elim
      | done flow data' out =>
          have hmtu (hnext : flow = .next) : data'.writeFd.map Prod.snd = sock.map Sock.mtu := by
            subst hnext
            exact (hrunning'.holds data' .recv rfl).mtu
          obtain ⟨hmtus, htold⟩ := mtus_turned hrunning hturn hended hsocketed hmtu
          exact hs.append (State.writeSockets_turned hplumbed.replied rfl rfl) hmtus htold

/-! ## What the worker gets -/

/-- The datagrams of a socket, but for an empty one that is taken for the end of the
stream. -/
def Sock.Kept (sock : Sock) (vs : List AttBytes) : Prop :=
  vs = sock.values ∨ vs ++ [.empty] = sock.values

/-- Something is taken for the end of the stream. -/
def Place.Gone (p : Place path) : Prop := ∃ data, p = .poll data (.ready (gone path))

/-- What the turns have found so far: `kept` of the sockets that are released, and `held` of
the one that is held. -/
structure State.Keeps (s : State path) (p : Place path) (kept : List (List AttBytes))
    (held : List AttBytes) : Prop where
  values : s.log.flatMap Found.values = kept.flatten ++ held
  released : List.Forall₂ Sock.Kept s.released kept
  free : s.sock = none → held = []
  inFlight : ∀ sock, s.sock = some sock → ¬ p.Gone →
    held ++ p.inFlight.toList.flatMap Found.values = sock.values
  hungUp : ∀ sock, s.sock = some sock → p.Gone → sock.Kept held

variable {kept : List (List AttBytes)} {held : List AttBytes}

/-- Whatever happens to the socket outside the task, nothing is read from it. -/
theorem State.Keeps.mono (h : s.Keeps p kept held) (hlog : t.log = s.log)
    (hreleased : t.released = s.released)
    (hsock : t.sock.map Sock.values = s.sock.map Sock.values) : t.Keeps p kept held := by
  have hsame {sock : Sock} (hs : t.sock = some sock) :
      ∃ old, s.sock = some old ∧ old.values = sock.values := by
    rw [hs] at hsock
    exact Option.map_eq_some_iff.mp hsock.symm
  constructor
  · rw [hlog]
    exact h.values
  · rw [hreleased]
    exact h.released
  · intro hnone
    rw [hnone] at hsock
    exact h.free (Option.map_eq_none_iff.mp hsock.symm)
  · intro sock hs hgone
    obtain ⟨old, hold, heq⟩ := hsame hs
    exact heq ▸ h.inFlight old hold hgone
  · intro sock hs hgone
    obtain ⟨old, hold, heq⟩ := hsame hs
    rw [Sock.Kept, ← heq]
    exact h.hungUp old hold hgone

theorem not_gone {data : ChrcData} {stage : Stage path} (h : stage ≠ .ready (gone path)) :
    ¬ (Place.poll data stage).Gone := by
  rintro ⟨data', hp⟩
  exact h (Place.poll.inj hp).2

/-- Something is taken from another source. -/
theorem State.Keeps.elsewhere {data : ChrcData} {stage stage' : Stage path}
    (h : s.Keeps (.poll data stage) kept held) (hlog : t.log = s.log)
    (hreleased : t.released = s.released) (hsock : t.sock = s.sock)
    (hstage : stage ≠ .ready (gone path)) (hstage' : stage' ≠ .ready (gone path))
    (hvalues : (Place.poll data stage').inFlight.toList.flatMap Found.values =
      (Place.poll data stage).inFlight.toList.flatMap Found.values) :
    t.Keeps (.poll data stage') kept held where
  values := hlog ▸ h.values
  released := hreleased ▸ h.released
  free hnone := h.free (hsock ▸ hnone)
  inFlight sock hs _ := by
    rw [hvalues]
    exact h.inFlight sock (hsock ▸ hs) (not_gone hstage)
  hungUp sock hs hgone := absurd hgone (not_gone hstage')

/-- What a poll takes. -/
theorem Looked.keeps {data : ChrcData} {stage stage' : Stage path} {u : State path}
    (h : Looked data s stage u stage') (hknows : stage.Knows s)
    (hs : s.Keeps (.poll data stage) kept held) : u.Keeps (.poll data stage') kept held := by
  cases h with
  | message | closed | resolved | call => exact hs.elsewhere rfl rfl rfl (by simp) (by simp) rfl
  | noMessage | unresolved | noSocket | endOfStream | noDatagram | noCall | again =>
      exact hs.elsewhere rfl rfl rfl (by simp) (by simp) rfl
  | @datagram sock bytes queue hsock hqueue =>
      have hheld := hs.inFlight sock hsock (not_gone (by simp))
      have hnot : ¬ (Place.poll data (if sock.value bytes = .empty then .isHungUp true
          else .ready (.written (.ok (sock.value bytes)))) : Place path).Gone := by
        apply not_gone
        split <;> simp
      refine ⟨hs.values, hs.released, ?_, ?_, ?_⟩
      · intro hnone
        contradiction
      · intro sock' hsock' _
        obtain rfl := Option.some.inj hsock'
        rw [inFlight_datagram]
        change held ++ [sock.value bytes] = (sock.datagrams.seen ++ [bytes]).map sock.value
        rw [List.map_append]
        exact congrArg (· ++ [sock.value bytes]) ((List.append_nil held).symm.trans hheld)
      · intro _ _ hgone
        exact absurd hgone hnot
  | @hungUp sock datagram hsock hclosed =>
      refine ⟨hs.values, hs.released, hs.free, fun sock' _ hnot ↦ (hnot ⟨_, rfl⟩).elim, ?_⟩
      intro sock' hsock' _
      have hheld := hs.inFlight sock' hsock' (not_gone (by simp))
      cases datagram with
      | false => exact .inl ((List.append_nil held).symm.trans hheld)
      | true => exact .inr hheld
  | @notHungUp sock datagram hsock hclosed =>
      cases datagram with
      | true => exact hs.elsewhere rfl rfl rfl (by simp) (by simp) rfl
      | false =>
          obtain ⟨sock', hsock', hclosed', -⟩ := hknows
          obtain rfl := Option.some.inj (hsock.symm.trans hsock')
          rw [hclosed] at hclosed'
          contradiction

theorem not_gone_ofRan (ran : Ran Stop Out ChrcData Flow) :
    ¬ (Place.ofRan ran : Place path).Gone := by
  rintro ⟨data, hp⟩
  obtain ⟨out, -, hstage⟩ := ofRan_eq_poll hp
  contradiction

/-- A turn finds what has been taken. -/
theorem State.Keeps.turned {data : ChrcData} {found : Found path}
    {ran : Ran Stop Out ChrcData Flow} (hknows : (Stage.ready found).Knows s)
    (h : s.Keeps (.poll data (.ready found)) kept held) (hlog : t.log = s.log ++ [found])
    (hsocketed : Socketed found s t.sock t.released) :
    ∃ kept' held', t.Keeps (.ofRan ran) kept' held' := by
  have hvalues : t.log.flatMap Found.values = kept.flatten ++ (held ++ found.values) := by
    rw [hlog, List.flatMap_append, List.flatMap_singleton, h.values, List.append_assoc]
  have hafter {sock : Sock} {vs : List AttBytes} (heq : vs = sock.values) :
      vs ++ (Place.ofRan ran : Place path).inFlight.toList.flatMap Found.values = sock.values := by
    rw [inFlight_ofRan]
    exact (List.append_nil vs).trans heq
  generalize hsock' : t.sock = sock, hreleased' : t.released = released at hsocketed
  cases hsocketed with
  | same hfound =>
      refine ⟨kept, held ++ found.values, hvalues, hreleased' ▸ h.released, ?_, ?_,
        fun _ _ hgone ↦ absurd hgone (not_gone_ofRan ran)⟩
      · intro hnone
        rw [hsock'] at hnone
        cases found with
        | message | closed | call | notified => rw [h.free hnone]; rfl
        | written res =>
            have hsome := (hknows res rfl).1
            rw [hnone] at hsome
            contradiction
      · intro sock hs _
        have hheld := h.inFlight sock (hsock' ▸ hs) (not_gone fun hready ↦
          hfound (Stage.ready.inj hready))
        refine hafter (Eq.trans ?_ hheld)
        exact congrArg _ (List.flatMap_singleton ..).symm
  | @released sock hfound hsock =>
      have hkept := h.hungUp sock hsock ⟨data, by rw [hfound]⟩
      refine ⟨kept ++ [held], [], ?_, ?_, fun _ ↦ rfl, ?_, ?_⟩
      · rw [hvalues, hfound, List.flatten_append, List.flatten_singleton]
        simp [Found.values]
      · rw [hreleased']
        exact List.rel_append h.released (.cons hkept .nil)
      · intro sock hs
        rw [hsock'] at hs
        contradiction
      · intro sock hs
        rw [hsock'] at hs
        contradiction
  | acquired mtu hfound hsock =>
      refine ⟨kept, [], ?_, hreleased' ▸ h.released, fun _ ↦ rfl, ?_,
        fun _ _ hgone ↦ absurd hgone (not_gone_ofRan ran)⟩
      · rw [hvalues, hfound, h.free hsock]
        rfl
      · intro sock hs _
        rw [hsock'] at hs
        obtain rfl := Option.some.inj hs
        exact hafter rfl

/-- **What each step keeps.** -/
theorem State.Keeps.step {e : Event path} (hrunning : s.Running p) (hs : s.Keeps p kept held)
    (h : Stepped filter s p e t p') : ∃ kept' held', t.Keeps p' kept' held' := by
  cases h with
  | message | dropSenders | call => exact ⟨kept, held, hs.mono rfl rfl rfl⟩
  | datagram hsock | hangUp hsock => exact ⟨kept, held, hs.mono rfl rfl (by rw [hsock]; rfl)⟩
  | resolve hn hnone => exact ⟨kept, held, hs.mono rfl rfl rfl⟩
  | @looked data stage stage' u io hlooked =>
      have hu := hlooked.keeps (hrunning.holds data stage rfl).knows hs
      exact ⟨kept, held, hu.mono rfl rfl rfl⟩
  | @turned data found io ran sock released _ _ hsocketed =>
      exact hs.turned (hrunning.holds data _ rfl).knows rfl hsocketed

/-! ## Both sides -/

/-- The socket serves a client that has got the other end of it. -/
structure Sock.Serves (sock : Sock) (given : Options × Client.WriteSocket) : Prop where
  mtu : sock.mtu = mtuOption given.1
  /-- The client is told the MTU of the socket. -/
  told : given.2.mtu.toNat = sock.mtu
  /-- The buffer is made and resized, and holds what is read. -/
  received : ∀ datagram, ∃ v, ChrcData.received sock.mtu datagram = (none, v) ∧
    Represents v (sock.value datagram)
  /-- There is room for whatever the client writes. -/
  fits : ∀ v : AttBytes, (given.2.write v).length ≤ min 512 sock.mtu
  /-- A value that is written is cut to the MTU. -/
  value : ∀ v : AttBytes,
    (sock.value (given.2.write v)).bytes = v.bytes.take (min v.bytes.length given.2.mtu.toNat)

theorem Sock.serves {sock : Sock} {given : Options × Client.WriteSocket}
    (hmtu : sock.mtu = mtuOption given.1) (htold : given.2.mtu.toNat = mtuOption given.1) :
    sock.Serves given := by
  have hsame : given.2.mtu.toNat = sock.mtu := htold.trans hmtu.symm
  have hfits (v : AttBytes) : (given.2.write v).length ≤ min 512 sock.mtu := by
    rw [Client.WriteSocket.write, List.length_take, hsame]
    have hle := v.length_le
    omega
  exact ⟨hmtu, hsame, received_represents sock.mtu, hfits, fun v ↦ Sock.bytes_value (hfits v)⟩

/-- What the worker has got through the sockets, while it has `o` in its hands. -/
structure State.Receives (chrc : Characteristic) (s : State path) (o : Option (Found path)) :
    Prop where
  carries : s.Carries o
  /-- The turns find the datagrams of each socket, once each and in order; only an empty one
  may be taken for the end of the stream. -/
  values : ∃ kept, List.Forall₂ Sock.Kept s.socks kept ∧
    (s.log ++ o.toList).flatMap Found.values = kept.flatten
  /-- What the turns find is passed to the write callback. -/
  writeCallback : ∀ data, s.phase.data? = some data → ∃ passed,
    List.Forall₂ Passes s.log passed ∧
      data.writeCallback.calls = chrc.writeCallback.calls ++ passed.flatten

/-- Without a socket nothing that has been read is on its way. -/
theorem inFlight_of_free (hs : s.Running p) (hfree : s.sock = none) :
    p.inFlight.toList.flatMap Found.values = [] := by
  cases p with
  | finished | failed => rfl
  | poll data stage =>
      have hknows := (hs.holds data stage rfl).knows
      have hnot (hsome : s.sock.isSome = true) :
          (Place.poll data stage).inFlight.toList.flatMap Found.values = [] := by
        rw [hfree] at hsome
        contradiction
      cases stage with
      | recv | notified | read | call | waiting => rfl
      | isHungUp datagram =>
          cases datagram with
          | false => rfl
          | true => exact hnot hknows
      | ready found =>
          cases found with
          | message | closed | call | notified => rfl
          | written res => exact hnot (hknows res rfl).1

/-- What has been taken so far, socket by socket. -/
theorem State.Keeps.kept_socks (hs : s.Running p) (h : s.Keeps p kept held) : ∃ kept,
    List.Forall₂ Sock.Kept s.socks kept ∧ (s.taken p).flatMap Found.values = kept.flatten := by
  have htaken : (s.taken p).flatMap Found.values =
      kept.flatten ++ (held ++ p.inFlight.toList.flatMap Found.values) := by
    rw [taken, List.flatMap_append, h.values, List.append_assoc]
  cases hsock : s.sock with
  | none =>
      rw [inFlight_of_free hs hsock, h.free hsock] at htaken
      refine ⟨kept, ?_, by simpa using htaken⟩
      rw [State.socks, hsock, Option.toList_none, List.append_nil]
      exact h.released
  | some sock =>
      have hlast : sock.Kept (held ++ p.inFlight.toList.flatMap Found.values) := by
        by_cases hgone : p.Gone
        · have hkept := h.hungUp sock hsock hgone
          obtain ⟨data, rfl⟩ := hgone
          exact (List.append_nil held).symm ▸ hkept
        · exact .inl (h.inFlight sock hsock hgone)
      refine ⟨kept ++ [held ++ p.inFlight.toList.flatMap Found.values], ?_, ?_⟩
      · rw [State.socks, hsock]
        exact List.rel_append h.released (.cons hlast .nil)
      · rw [htaken, List.flatten_append, List.flatten_singleton]

/-- What holds in every state of a run. -/
theorem agrees_of_run (hpath : path ≠ .root) (chrc : Characteristic) (children : Nat)
    {es : List (Event path)}
    (h : Lts.Run (State.Step filter) (.start path chrc children) es s) :
    ∃ p, s.Running p ∧ s.Plumbed chrc p ∧ s.Agrees ∧ ∃ kept held, s.Keeps p kept held := by
  refine invariant_of_run hpath (G := fun _ _ ↦ True)
    (I := fun s p ↦ s.Plumbed chrc p ∧ s.Agrees ∧ ∃ kept held, s.Keeps p kept held) ?_
    (h.restrict_of_forall fun _ _ ↦ trivial)
    ⟨_, running_start path chrc children, plumbed_start path chrc children, ?_, ?_⟩
  · rintro s p e t p' hrunning ⟨hplumbed, hagrees, kept, held, hkeeps⟩ - hstep hrunning' hstepped
    exact ⟨hplumbed.step hstepped, hagrees.step hrunning hplumbed hstep hrunning' hstepped,
      hkeeps.step hrunning hstepped⟩
  · exact ⟨rfl, fun given hmem ↦ (List.not_mem_nil hmem).elim⟩
  · refine ⟨[], [], rfl, .nil, fun _ ↦ rfl, ?_, ?_⟩
    · intro sock hsock
      contradiction
    · intro sock hsock
      contradiction

/-- **What is written through a socket arrives as it is**, up to the MTU that both sides have
agreed on. -/
theorem write_path (hpath : path ≠ .root) (chrc : Characteristic) (children : Nat)
    {es : List (Event path)}
    (h : Lts.Run (State.Step filter) (.start path chrc children) es s) :
    List.Forall₂ Sock.Serves s.socks s.writeSockets ∧ ∃ o, s.Receives chrc o := by
  obtain ⟨p, hrunning, hplumbed, hagrees, kept, held, hkeeps⟩ :=
    agrees_of_run hpath chrc children h
  constructor
  · have hmtus : List.Forall₂ (fun (mtu : Nat) (given : Options × Client.WriteSocket) ↦
        mtu = mtuOption given.1 ∧ given.2.mtu.toNat = mtuOption given.1)
        (s.socks.map Sock.mtu) s.writeSockets := by
      rw [hagrees.socks, List.forall₂_map_left_iff]
      exact List.forall₂_same.mpr fun given hmem ↦ ⟨rfl, hagrees.told given hmem⟩
    exact (List.forall₂_map_left_iff.mp hmtus).imp fun sock given h ↦ Sock.serves h.1 h.2
  · refine ⟨p.inFlight, carries_inFlight hrunning, hkeeps.kept_socks hrunning, ?_⟩
    intro data hdata
    rw [hrunning.phase, data?_phase] at hdata
    exact (hplumbed.called data hdata).writeCallback

/-- A socket is acquired with an MTU of 23, and 30 bytes are written through it. -/
def writtenEvents : List (Event Worker.ofService.path) :=
  .call acquireWriteCall :: works 4 ++
    [.datagram (Client.WriteSocket.write ⟨⟨4⟩, 23⟩ ⟨List.replicate 30 7, by decide⟩)] ++ works 4

/-- The write callback gets 23 of them. -/
theorem write_path_long : ∃ t : State Worker.ofService.path,
    (t.phase.data?.map fun data ↦ data.writeCallback.calls.map AttBytes.bytes) =
        some [List.replicate 23 7] ∧
      List.Forall₂ Sock.Serves t.socks t.writeSockets ∧ ∃ o, t.Receives written o := by
  have hreplay : (Lts.replay (State.next none) (.start Worker.ofService.path written 0)
      writtenEvents).map (fun t ↦
        t.phase.data?.map fun data ↦ data.writeCallback.calls.map AttBytes.bytes) =
          some (some [List.replicate 23 7]) := rfl
  obtain ⟨t, ht, hcalls⟩ := Option.map_eq_some_iff.mp hreplay
  have hpath := write_path Worker.isAttribute_ofService.path written 0 (Lts.Run.of_replay ht)
  exact ⟨t, hcalls, hpath⟩

end EventLoop

end Rustable.Gatt.Server
