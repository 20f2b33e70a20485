import Rustable.Gatt.Server.Polls

/-!
# One step of the event loop

A step is something that happens to a source, something the task does in a poll, or a
turn.  `step_cases` lists the steps from a place the task can be at, and what is proved of
each of them holds of every run by `invariant_of_run`.
-/

namespace Rustable.Gatt.Server.EventLoop

open DBus

variable {path : ObjectPath} {filter : Option String}

/-! ## Places -/

/-- Where the task is. -/
inductive Place (path : ObjectPath)
  | poll (data : ChrcData) (stage : Stage path)
  | finished (data : ChrcData)
  | failed (why : Stop)

/-- The phase of the task at a place. -/
def Place.phase : Place path → Phase path
  | poll data stage => .polling data (stage.look data)
  | finished data => .finished data
  | failed why => .failed why

/-- Where the task is after a turn. -/
def Place.ofRan : Ran Stop Out ChrcData Flow → Place path
  | .done .next data _ => poll data .recv
  | .done .done data _ => finished data
  | .stop why _ => failed why

/-- What holds in every state, for the place the task is at. -/
structure State.Running (s : State path) (p : Place path) : Prop where
  phase : s.phase = p.phase
  holds : ∀ data stage, p = .poll data stage → s.Holds data stage
  /-- A future that the notify callback has not returned yet is not resolved. -/
  fresh : ∀ data stage, p = .poll data stage → ∀ n, data.notifyCb < n → s.resolved n = none

/-- What a step does. -/
inductive Stepped (filter : Option String) (s : State path) :
    Place path → Event path → State path → Place path → Prop
  | message {p : Place path} {msg : WorkerMsg} (hsenders : s.senders = true)
      (hroom : s.msgs.queue.length < 8) :
      Stepped filter s p (.message msg) { s with msgs := s.msgs.push msg } p
  | dropSenders {p : Place path} :
      Stepped filter s p .dropSenders { s with senders := false } p
  | call {p : Place path} {call : MethodCall path} :
      Stepped filter s p (.call call) { s with calls := s.calls.push ⟨call, s.hungUp?⟩ } p
  | datagram {p : Place path} {bytes : List UInt8} {sock : Sock} (hsock : s.sock = some sock)
      (hclosed : sock.closed = false) :
      Stepped filter s p (.datagram bytes)
        { s with sock := some { sock with datagrams := sock.datagrams.push bytes } } p
  | hangUp {p : Place path} {sock : Sock} (hsock : s.sock = some sock) :
      Stepped filter s p .hangUp { s with sock := some { sock with closed := true } } p
  | resolve {data : ChrcData} {stage : Stage path} {n : Nat} {shouldNot : ShouldNotify}
      (hn : n ≤ data.notifyCb) (hnone : s.resolved n = none) :
      Stepped filter s (.poll data stage) (.resolve n shouldNot)
        { s with resolved := Function.update s.resolved n (some shouldNot) } (.poll data stage)
  | looked {data : ChrcData} {stage stage' : Stage path} {u : State path} {io : Io}
      (hlooked : Looked data s stage u stage') :
      Stepped filter s (.poll data stage) (.work io)
        { u with phase := (Place.poll data stage').phase } (.poll data stage')
  | turned {data : ChrcData} {found : Found path} {io : Io} {ran : Ran Stop Out ChrcData Flow}
      {sock : Option Sock} {released : List Sock} (hturn : data.turn io filter found = some ran)
      (hended : ChrcData.Ended io filter found data ran)
      (hsocketed : Socketed found s sock released) :
      Stepped filter s (.poll data (.ready found)) (.work io)
        { s with
          phase := (Place.ofRan ran : Place path).phase
          log := s.log ++ [found]
          out := s.out ++ ran.out
          sock := sock
          released := released } (.ofRan ran)

/-! ## Steps -/

variable {s t : State path} {p : Place path}

theorem phase_ofRan {io : Io} {data : ChrcData} {found : Found path}
    {ran : Ran Stop Out ChrcData Flow} (h : ChrcData.Ended io filter found data ran) :
    Phase.ofRan (wokenBy data found) ran = (Place.ofRan ran).phase := by
  cases ran with
  | stop why out => rfl
  | done flow data' out =>
      have hturned : ChrcData.Turned io filter found data data' flow out := h
      cases flow with
      | done => rfl
      | next =>
          rw [Phase.ofRan, Phase.iterate, recvNotFut_wokenBy hturned.took.notifyCb]
          exact congrArg (Phase.polling data') (poll_waitAll data')

theorem ofRan_eq_poll {ran : Ran Stop Out ChrcData Flow} {data : ChrcData} {stage : Stage path}
    (h : Place.ofRan ran = .poll data stage) : ∃ out, ran = .done .next data out ∧ stage = .recv := by
  cases ran with
  | stop why out => contradiction
  | done flow data' out =>
      cases flow with
      | done => contradiction
      | next =>
          obtain ⟨rfl, rfl⟩ := Place.poll.inj h
          exact ⟨out, rfl, rfl⟩

/-- What may happen to a socket outside the task: a closed one takes no more datagrams. -/
structure Sock.Later (sock sock' : Sock) : Prop where
  mtu : sock'.mtu = sock.mtu
  closed : sock.closed = true → sock'.closed = true ∧ sock'.datagrams = sock.datagrams

/-- What may happen to the socket that is held. -/
def LaterSock (s t : State path) : Prop :=
  (s.sock = none ∧ t.sock = none) ∨
    ∃ sock sock', s.sock = some sock ∧ t.sock = some sock' ∧ sock.Later sock'

theorem LaterSock.of_eq (h : t.sock = s.sock) : LaterSock s t := by
  cases hsock : s.sock with
  | none => exact .inl ⟨hsock, h.trans hsock⟩
  | some sock => exact .inr ⟨sock, sock, hsock, h.trans hsock, rfl, fun hclosed ↦ ⟨hclosed, rfl⟩⟩

theorem LaterSock.mtu (h : LaterSock s t) : s.sock.map Sock.mtu = t.sock.map Sock.mtu := by
  obtain ⟨hs, ht⟩ | ⟨sock, sock', hs, ht, hlater⟩ := h
  · rw [hs, ht]
  · rw [hs, ht]
    exact congrArg some hlater.mtu.symm

/-- What happens outside the task does not change what is known of the socket. -/
theorem Stage.Knows.mono {stage : Stage path} (h : stage.Knows s) (hsock : LaterSock s t) :
    stage.Knows t := by
  have hsome (hs : s.sock.isSome = true) : t.sock.isSome = true := by
    obtain ⟨hnone, -⟩ | ⟨sock, sock', -, ht, -⟩ := hsock
    · rw [hnone] at hs
      contradiction
    · rw [ht]
      rfl
  cases stage with
  | recv | notified | call | waiting => trivial
  | read => exact hsome h
  | ready found => exact fun res hres ↦ ⟨hsome (h res hres).1, (h res hres).2⟩
  | isHungUp datagram =>
      cases datagram with
      | true => exact hsome h
      | false =>
          obtain ⟨sock, hs, hclosed, hqueue⟩ := h
          obtain ⟨hnone, -⟩ | ⟨sock₁, sock', hs', ht, hlater⟩ := hsock
          · rw [hnone] at hs
            contradiction
          · obtain rfl := Option.some.inj (hs'.symm.trans hs)
            obtain ⟨hclosed', hsame⟩ := hlater.closed hclosed
            exact ⟨sock', ht, hclosed', hsame ▸ hqueue⟩

theorem State.Running.mono (h : s.Running p) (hphase : t.phase = s.phase)
    (hsock : LaterSock s t)
    (hresolved : ∀ data stage, p = .poll data stage → ∀ n, data.notifyCb < n →
      t.resolved n = s.resolved n) : t.Running p where
  phase := hphase.trans h.phase
  holds data stage hp :=
    { mtu := (h.holds data stage hp).mtu.trans hsock.mtu
      knows := (h.holds data stage hp).knows.mono hsock }
  fresh data stage hp n hn := (hresolved data stage hp n hn).trans (h.fresh data stage hp n hn)

/-- What a poll does to the socket, and what it comes to know of it. -/
theorem Looked.holds {data : ChrcData} {stage stage' : Stage path} {u : State path}
    (h : Looked data s stage u stage') (hs : s.Holds data stage) : u.Holds data stage' := by
  cases h with
  | noMessage | noSocket | noDatagram | noCall | again => exact ⟨hs.mtu, trivial⟩
  | message | closed | resolved | call =>
      refine ⟨hs.mtu, fun res hres ↦ ?_⟩
      contradiction
  | unresolved _ hsock => exact ⟨hs.mtu, by rw [Stage.Knows, hsock]; rfl⟩
  | datagram hsock hqueue =>
      constructor
      · rw [hs.mtu, hsock]
        rfl
      · split
        · rfl
        · rintro res hres
          obtain rfl := Found.written.inj hres
          exact ⟨rfl, fun e he ↦ nomatch he⟩
  | endOfStream hsock hqueue hclosed => exact ⟨hs.mtu, _, hsock, hclosed, hqueue⟩
  | hungUp hsock hclosed =>
      refine ⟨hs.mtu, ?_⟩
      rintro res hres
      obtain rfl := Found.written.inj hres
      exact ⟨by rw [hsock]; rfl, fun e he ↦ (Except.error.inj he).symm⟩
  | notHungUp hsock hclosed =>
      refine ⟨hs.mtu, ?_⟩
      rintro res hres
      obtain rfl := Found.written.inj hres
      exact ⟨by rw [hsock]; rfl, fun e he ↦ nomatch he⟩

theorem Looked.resolved_eq {data : ChrcData} {stage stage' : Stage path} {u : State path}
    (h : Looked data s stage u stage') : u.resolved = s.resolved := by
  cases h <;> rfl

/-- What the task does. -/
theorem work_cases (hpath : path ≠ .root) {data : ChrcData} {stage : Stage path} {io : Io}
    (hs : s.Running (.poll data stage)) (h : s.work filter io = some t) :
    ∃ p', t.Running p' ∧ Stepped filter s (.poll data stage) (.work io) t p' := by
  have hat : s.At data stage := hs.phase
  have hholds := hs.holds data stage rfl
  by_cases hready : ∃ found, stage = .ready found
  · obtain ⟨found, rfl⟩ := hready
    obtain ⟨ran, sock, released, hturn, hended, hsocketed, hmtu, hwork⟩ :=
      work_turned filter io hpath hat hholds
    rw [phase_ofRan hended] at hwork
    obtain rfl := Option.some.inj (hwork.symm.trans h)
    refine ⟨.ofRan ran, ⟨rfl, ?_, ?_⟩, .turned hturn hended hsocketed⟩
    · rintro data' stage hp
      obtain ⟨out, rfl, rfl⟩ := ofRan_eq_poll hp
      exact ⟨hmtu _ _ _ rfl, trivial⟩
    · rintro data' stage hp n hn
      obtain ⟨out, rfl, rfl⟩ := ofRan_eq_poll hp
      have hturned : ChrcData.Turned io filter found data data' .next out := hended
      rw [hturned.took.notifyCb] at hn
      exact hs.fresh data _ rfl n (by omega)
  · obtain ⟨u, stage', hlooked, hwork⟩ :=
      work_looked filter io hat hholds fun found hfound ↦ hready ⟨found, hfound⟩
    obtain rfl := Option.some.inj (hwork.symm.trans h)
    refine ⟨.poll data stage', ⟨rfl, ?_, ?_⟩, .looked hlooked⟩
    · rintro data' stage'' hp
      obtain ⟨rfl, rfl⟩ := Place.poll.inj hp
      have hu := hlooked.holds hholds
      exact ⟨hu.mtu, hu.knows.mono (.of_eq rfl)⟩
    · rintro data' stage'' hp n hn
      obtain ⟨rfl, rfl⟩ := Place.poll.inj hp
      exact (congrFun hlooked.resolved_eq n).trans (hs.fresh _ _ rfl n hn)

/-- **What happens.** -/
theorem step_cases (hpath : path ≠ .root) (hs : s.Running p) {e : Event path}
    (h : State.Step filter s e t) : ∃ p', t.Running p' ∧ Stepped filter s p e t p' := by
  have hnext : s.next filter e = some t := h
  cases e with
  | message msg =>
      rw [State.next] at hnext
      split at hnext
      · next hroom =>
          obtain rfl := Option.some.inj hnext
          exact ⟨p, hs.mono rfl (.of_eq rfl) (fun _ _ _ _ _ ↦ rfl), .message hroom.1 hroom.2⟩
      · contradiction
  | dropSenders =>
      obtain rfl := Option.some.inj hnext
      exact ⟨p, hs.mono rfl (.of_eq rfl) (fun _ _ _ _ _ ↦ rfl), .dropSenders⟩
  | call call =>
      obtain rfl := Option.some.inj hnext
      exact ⟨p, hs.mono rfl (.of_eq rfl) (fun _ _ _ _ _ ↦ rfl), .call⟩
  | datagram bytes =>
      rw [State.next] at hnext
      split at hnext
      · next sock hsock =>
          split at hnext
          · contradiction
          · next hopen =>
              obtain rfl := Option.some.inj hnext
              have hclosed : sock.closed = false := by simpa using hopen
              have hlater : LaterSock s { s with
                  sock := some { sock with datagrams := sock.datagrams.push bytes } } :=
                .inr ⟨sock, _, hsock, rfl, rfl, fun h ↦ nomatch hclosed.symm.trans h⟩
              exact ⟨p, hs.mono rfl hlater (fun _ _ _ _ _ ↦ rfl), .datagram hsock hclosed⟩
      · contradiction
  | hangUp =>
      rw [State.next] at hnext
      split at hnext
      · next sock hsock =>
          obtain rfl := Option.some.inj hnext
          have hlater : LaterSock s { s with sock := some { sock with closed := true } } :=
            .inr ⟨sock, _, hsock, rfl, rfl, fun _ ↦ ⟨rfl, rfl⟩⟩
          exact ⟨p, hs.mono rfl hlater (fun _ _ _ _ _ ↦ rfl), .hangUp hsock⟩
      · contradiction
  | resolve n shouldNot =>
      rw [State.next] at hnext
      split at hnext
      · next data look hphase =>
          split at hnext
          · next hn =>
              obtain rfl := Option.some.inj hnext
              cases p with
              | finished | failed => exact absurd (hphase.symm.trans hs.phase) nofun
              | poll data' stage =>
                  obtain ⟨rfl, -⟩ := Phase.polling.inj (hphase.symm.trans hs.phase)
                  refine ⟨_, hs.mono rfl (.of_eq rfl) ?_,
                    .resolve hn.1 (Option.isNone_iff_eq_none.mp hn.2)⟩
                  rintro data' stage' hp m hm
                  obtain ⟨rfl, -⟩ := Place.poll.inj hp
                  exact Function.update_of_ne (by omega) _ _
          · contradiction
      · contradiction
      · contradiction
  | work io =>
      have hwork : s.work filter io = some t := hnext
      cases p with
      | finished | failed =>
          rw [State.work, hs.phase] at hwork
          contradiction
      | poll data stage => exact work_cases hpath hs hwork

/-! ## Runs -/

/-- The task starts with a poll. -/
theorem running_start (path : ObjectPath) (chrc : Characteristic) (children : Nat) :
    (State.start path chrc children).Running (.poll (.start chrc children) .recv) where
  phase := congrArg (Phase.polling _) (poll_waitAll _)
  holds data stage hp := by
    obtain ⟨rfl, rfl⟩ := Place.poll.inj hp
    exact ⟨rfl, trivial⟩
  fresh _ _ _ _ _ := rfl

/-- **What every step keeps, at the place the task is at, holds at the end of a run.** -/
theorem invariant_of_run (hpath : path ≠ .root) {G : State path → Event path → Prop}
    {I : State path → Place path → Prop}
    (hstep : ∀ s p e t p', s.Running p → I s p → G s e → State.Step filter s e t → t.Running p' →
      Stepped filter s p e t p' → I t p')
    {es : List (Event path)} (h : Lts.Run (Lts.restrict (State.Step filter) G) s es t)
    (hs : ∃ p, s.Running p ∧ I s p) : ∃ p, t.Running p ∧ I t p := by
  apply h.invariant ?_ hs
  rintro s e t ⟨p, hrunning, hi⟩ ⟨he, hg⟩
  obtain ⟨p', hrunning', hstepped⟩ := step_cases hpath hrunning he
  exact ⟨p', hrunning', hstep s p e t p' hrunning hi hg he hrunning' hstepped⟩

end Rustable.Gatt.Server.EventLoop
