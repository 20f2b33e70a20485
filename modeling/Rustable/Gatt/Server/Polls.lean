import Rustable.Gatt.Server.EventLoop
import Rustable.Gatt.Server.Moves

/-!
# One poll of the event loop

The nested selects of the loop look at the four sources in a fixed order, and stop at the
first one that has something.  `poll_loopFut` says so; the places at which the poll can be
are the `Stage`s, and `Looked` is what the task can do from each of them.
-/

namespace Rustable.Gatt.Server.EventLoop

open DBus

variable {path : ObjectPath} {filter : Option String} {io : Io}

/-! ## The order of the sources -/

/-- How `select` says what has been found; whatever else has been polled is handed back. -/
def wokenBy (data : ChrcData) : Found path → Woken path
  | .message msg => .inl (.inl (some msg, ⟨data.notifyCb⟩), dropSelect ⟨data.writeFd⟩ ⟨⟩)
  | .closed => .inl (.inl (none, ⟨data.notifyCb⟩), dropSelect ⟨data.writeFd⟩ ⟨⟩)
  | .notified shouldNot => .inl (.inr (shouldNot, ⟨⟩), dropSelect ⟨data.writeFd⟩ ⟨⟩)
  | .written res => .inr (.inl res, ⟨⟨⟩, ⟨data.notifyCb⟩⟩)
  | .call call => .inr (.inr call, ⟨⟨⟩, ⟨data.notifyCb⟩⟩)

/-- The future of each iteration: the pending future of the notify callback is the last one
that the callback has returned. -/
abbrev waitAll (path : ObjectPath) (data : ChrcData) : LoopFut path :=
  loopFut path data ⟨⟨⟩, ⟨data.notifyCb⟩⟩

/-- A place in a poll of the event loop. -/
inductive Stage (path : ObjectPath)
  | recv
  | notified
  | /-- A socket has been acquired. -/
    read
  | /-- Nothing has been read, from an empty datagram or at the end of the stream. -/
    isHungUp (datagram : Bool)
  | call
  | ready (found : Found path)
  | waiting

/-- What is left of a poll. -/
abbrev Rest (path : ObjectPath) : Type := Look path (Poll (LoopFut path) (Woken path))

section Rest

variable (data : ChrcData)

/-- It ends with what has been found. -/
def lookReady (found : Found path) : Rest path := .ret (.ready (wokenBy data found))

/-- It looks at the calls, and then it has looked at everything. -/
def lookCall : Rest path := .op .call fun
  | some call => lookReady data (.call call)
  | none => .ret (.pending (waitAll path data))

/-- Nothing has been read. -/
def lookHungUp : Rest path := .op .isHungUp fun (hungUp : Bool) ↦
  lookReady data (.written (if hungUp then .error .notConnected else .ok .empty))

/-- It looks at the socket, if there is one, and at the calls. -/
def lookRead : Rest path := match data.writeFd with
  | none => lookCall data
  | some (_, mtu) => .op (.read (min 512 mtu)) fun
    | none => lookCall data
    | some read =>
        if read.1.length = 0 then lookHungUp data
        else lookReady data (.written (.ok (attVal read)))

/-- It looks at the future of the notify callback, and at what follows. -/
def lookNotified : Rest path := .op (.notified data.notifyCb) fun
  | some shouldNot => lookReady data (.notified shouldNot)
  | none => lookRead data

/-- It looks at the messages, and at what follows. -/
def lookRecv : Rest path := .op .recv fun
  | some (some msg) => lookReady data (.message msg)
  | some none => lookReady data .closed
  | none => lookNotified data

/-- What is left of the poll at each place. -/
def Stage.look : Stage path → Rest path
  | recv => lookRecv data
  | notified => lookNotified data
  | read => lookRead data
  | isHungUp _ => lookHungUp data
  | call => lookCall data
  | ready found => lookReady data found
  | waiting => .ret (.pending (waitAll path data))

end Rest

/-- **The nested selects look at one source after the other.** -/
theorem poll_waitAll (data : ChrcData) :
    Future.poll (waitAll path data) = lookRecv data := by
  refine congrArg (Prog.op Op.recv) (funext fun msg ↦ ?_)
  rcases msg with _ | _ | msg
  · refine congrArg (Prog.op (Op.notified data.notifyCb)) (funext fun shouldNot ↦ ?_)
    cases shouldNot with
    | some shouldNot => rfl
    | none =>
        obtain ⟨children, value, uuid, notify, flags, cb, n, fd, handle⟩ := data
        rcases fd with _ | ⟨fd, mtu⟩
        · refine congrArg (Prog.op Op.call) (funext fun call ↦ ?_)
          cases call <;> rfl
        · refine congrArg (Prog.op (Op.read (min 512 mtu))) (funext fun read ↦ ?_)
          rcases read with _ | ⟨bytes, hlen⟩
          · refine congrArg (Prog.op Op.call) (funext fun call ↦ ?_)
            cases call <;> rfl
          · cases bytes with
            | nil =>
                refine congrArg (Prog.op Op.isHungUp) (funext fun (hungUp : Bool) ↦ ?_)
                cases hungUp <;> rfl
            | cons b bytes => rfl
  · rfl
  · rfl

/-! ## What the task does in a poll -/

/-- A datagram as the worker reads it. -/
def Sock.value (sock : Sock) (bytes : List UInt8) : AttBytes where
  bytes := bytes.take (min 512 sock.mtu)
  length_le := (List.length_take_le ..).trans (Nat.min_le_left ..)

/-- A datagram that fits is read as it is. -/
theorem Sock.bytes_value {sock : Sock} {bytes : List UInt8}
    (h : bytes.length ≤ min 512 sock.mtu) : (sock.value bytes).bytes = bytes :=
  List.take_of_length_le h

theorem Sock.value_eq_empty_iff {sock : Sock} {bytes : List UInt8} :
    sock.value bytes = .empty ↔ (bytes.take (min 512 sock.mtu)).length = 0 := by
  rw [List.length_eq_zero_iff]
  exact ⟨congrArg AttBytes.bytes, fun h ↦ AttBytes.mk.injEq .. ▸ h⟩

/-- What the task may do from a place in a poll, apart from taking a turn: what it takes
from the sources, and where it gets to. -/
inductive Looked (data : ChrcData) (s : State path) : Stage path → State path → Stage path → Prop
  | message {msg : WorkerMsg} {queue : List WorkerMsg} (hqueue : s.msgs.queue = msg :: queue) :
      Looked data s .recv { s with msgs := ⟨s.msgs.seen ++ [msg], queue⟩ } (.ready (.message msg))
  | closed (hqueue : s.msgs.queue = []) (hsenders : s.senders = false) :
      Looked data s .recv s (.ready .closed)
  | noMessage (hqueue : s.msgs.queue = []) (hsenders : s.senders = true) :
      Looked data s .recv s .notified
  | resolved {shouldNot : ShouldNotify} (hresolved : s.resolved data.notifyCb = some shouldNot) :
      Looked data s .notified s (.ready (.notified shouldNot))
  | unresolved {sock : Sock} (hresolved : s.resolved data.notifyCb = none)
      (hsock : s.sock = some sock) : Looked data s .notified s .read
  | noSocket (hresolved : s.resolved data.notifyCb = none) (hsock : s.sock = none) :
      Looked data s .notified s .call
  | datagram {sock : Sock} {bytes : List UInt8} {queue : List (List UInt8)}
      (hsock : s.sock = some sock) (hqueue : sock.datagrams.queue = bytes :: queue) :
      Looked data s .read
        { s with
          sock := some { sock with datagrams := ⟨sock.datagrams.seen ++ [bytes], queue⟩ } }
        (if sock.value bytes = .empty then .isHungUp true
          else .ready (.written (.ok (sock.value bytes))))
  | endOfStream {sock : Sock} (hsock : s.sock = some sock) (hqueue : sock.datagrams.queue = [])
      (hclosed : sock.closed = true) : Looked data s .read s (.isHungUp false)
  | noDatagram {sock : Sock} (hsock : s.sock = some sock) (hqueue : sock.datagrams.queue = [])
      (hclosed : sock.closed = false) : Looked data s .read s .call
  | hungUp {sock : Sock} {datagram : Bool} (hsock : s.sock = some sock)
      (hclosed : sock.closed = true) :
      Looked data s (.isHungUp datagram) s (.ready (.written (.error .notConnected)))
  | notHungUp {sock : Sock} {datagram : Bool} (hsock : s.sock = some sock)
      (hclosed : sock.closed = false) :
      Looked data s (.isHungUp datagram) s (.ready (.written (.ok .empty)))
  | call {sent : Sent path} {queue : List (Sent path)} (hqueue : s.calls.queue = sent :: queue) :
      Looked data s .call { s with calls := ⟨s.calls.seen ++ [sent], queue⟩ }
        (.ready (.call sent.call))
  | noCall (hqueue : s.calls.queue = []) : Looked data s .call s .waiting
  | again : Looked data s .waiting s .recv

/-- The task is at a place in a poll. -/
def State.At (s : State path) (data : ChrcData) (stage : Stage path) : Prop :=
  s.phase = .polling data (stage.look data)

/-- What is known of the socket at a place in a poll. -/
def Stage.Knows (s : State path) : Stage path → Prop
  | recv | notified | call | waiting => True
  | read | isHungUp true => s.sock.isSome = true
  | isHungUp false =>
      ∃ sock, s.sock = some sock ∧ sock.closed = true ∧ sock.datagrams.queue = []
  | ready found => ∀ res, found = .written res →
      s.sock.isSome = true ∧ ∀ e, res = .error e → e = .notConnected

/-- The socket that is held is the one in `write_fd`. -/
structure State.Holds (s : State path) (data : ChrcData) (stage : Stage path) : Prop where
  mtu : data.writeFd.map Prod.snd = s.sock.map Sock.mtu
  knows : stage.Knows s

variable {s t : State path} {data : ChrcData} {stage : Stage path}

theorem State.Holds.of_sock (h : s.Holds data stage) {sock : Sock} (hsock : s.sock = some sock) :
    ∃ fd, data.writeFd = some (fd, sock.mtu) := by
  have hmtu := h.mtu
  rw [hsock] at hmtu
  obtain ⟨⟨fd, mtu⟩, hfd, hmtu⟩ := Option.map_eq_some_iff.mp hmtu
  exact ⟨fd, hfd.trans (congrArg (fun mtu ↦ some (fd, mtu)) hmtu)⟩

theorem State.Holds.of_none (h : s.Holds data stage) (hsock : s.sock = none) :
    data.writeFd = none := by
  have hmtu := h.mtu
  rw [hsock] at hmtu
  exact Option.map_eq_none_iff.mp hmtu

/-- Looking at a source is one step. -/
theorem work_op (filter : Option String) (io : Io) {op : Op} {k : op.Answer path → Rest path}
    {answer : op.Answer path} {u : State path} (hphase : s.phase = .polling data (.op op k))
    (hlook : s.look op = (answer, u)) :
    s.work filter io = some { u with phase := .polling data (k answer) } := by
  rw [State.work, hphase]
  dsimp only
  rw [hlook]

theorem look_recv_of_nil (hqueue : s.msgs.queue = []) :
    s.look .recv = (if s.senders then none else some none, s) := by
  rw [State.look, Channel.take_nil hqueue]
  rfl

theorem look_recv_of_cons {msg : WorkerMsg} {queue : List WorkerMsg}
    (hqueue : s.msgs.queue = msg :: queue) : s.look .recv =
      (some (some msg), { s with msgs := ⟨s.msgs.seen ++ [msg], queue⟩ }) := by
  rw [State.look, Channel.take_cons hqueue]
  rfl

theorem look_read {sock : Sock} (hsock : s.sock = some sock) (size : Nat) :
    s.look (.read size) =
      ((sock.recv size).1, { s with sock := some (sock.recv size).2 }) := by
  rw [State.look, hsock]
  rfl

theorem look_read_of_nil {sock : Sock} (hsock : s.sock = some sock)
    (hqueue : sock.datagrams.queue = []) (size : Nat) : s.look (.read size) =
      (if sock.closed then some ⟨[], Nat.zero_le size⟩ else none, s) := by
  have hrecv : sock.recv size =
      (if sock.closed then some ⟨[], Nat.zero_le size⟩ else none, sock) := by
    rw [Sock.recv, Channel.take_nil hqueue]
  rw [look_read hsock, hrecv, ← hsock]

theorem look_read_of_cons {sock : Sock} {bytes : List UInt8} {queue : List (List UInt8)}
    (hsock : s.sock = some sock) (hqueue : sock.datagrams.queue = bytes :: queue) (size : Nat) :
    s.look (.read size) = (some ⟨bytes.take size, List.length_take_le size bytes⟩,
      { s with
        sock := some { sock with datagrams := ⟨sock.datagrams.seen ++ [bytes], queue⟩ } }) := by
  have hrecv : sock.recv size = (some ⟨bytes.take size, List.length_take_le size bytes⟩,
      { sock with datagrams := ⟨sock.datagrams.seen ++ [bytes], queue⟩ }) := by
    rw [Sock.recv, Channel.take_cons hqueue]
  rw [look_read hsock, hrecv]

theorem look_isHungUp {sock : Sock} (hsock : s.sock = some sock) :
    s.look .isHungUp = (sock.closed, s) := by
  rw [State.look, hsock]
  rfl

theorem look_call_of_nil (hqueue : s.calls.queue = []) : s.look .call = (none, s) := by
  rw [State.look, Channel.take_nil hqueue]
  rfl

theorem look_call_of_cons {sent : Sent path} {queue : List (Sent path)}
    (hqueue : s.calls.queue = sent :: queue) : s.look .call =
      (some sent.call, { s with calls := ⟨s.calls.seen ++ [sent], queue⟩ }) := by
  rw [State.look, Channel.take_cons hqueue]
  rfl

theorem lookRead_some {fd : UnixFd} {mtu : Nat} (hfd : data.writeFd = some (fd, mtu)) :
    (lookRead data : Rest path) = .op (.read (min 512 mtu)) fun
      | none => lookCall data
      | some read =>
          if read.1.length = 0 then lookHungUp data
          else lookReady data (.written (.ok (attVal read))) := by
  rw [lookRead, hfd]

theorem lookRead_none (hfd : data.writeFd = none) : (lookRead data : Rest path) = lookCall data := by
  rw [lookRead, hfd]

theorem look_value (data : ChrcData) (sock : Sock) (bytes : List UInt8) :
    (if sock.value bytes = .empty then Stage.isHungUp true
      else .ready (.written (.ok (sock.value bytes))) : Stage path).look data =
        if (bytes.take (min 512 sock.mtu)).length = 0 then lookHungUp data
        else lookReady data (.written (.ok (sock.value bytes))) := by
  by_cases h : sock.value bytes = .empty
  · rw [if_pos h, if_pos (Sock.value_eq_empty_iff.mp h)]
    rfl
  · rw [if_neg h, if_neg (mt Sock.value_eq_empty_iff.mpr h)]
    rfl

/-- **What the task does in a poll.** -/
theorem work_looked (filter : Option String) (io : Io) (hat : s.At data stage)
    (hholds : s.Holds data stage) (hready : ∀ found, stage ≠ .ready found) :
    ∃ u stage', Looked data s stage u stage' ∧
      s.work filter io = some { u with phase := .polling data (stage'.look data) } := by
  cases stage with
  | ready found => exact absurd rfl (hready found)
  | recv =>
      cases hqueue : s.msgs.queue with
      | cons msg queue =>
          exact ⟨_, _, .message hqueue, work_op filter io hat (look_recv_of_cons hqueue)⟩
      | nil =>
          have hlook := look_recv_of_nil hqueue
          cases hsenders : s.senders with
          | true =>
              rw [hsenders] at hlook
              exact ⟨_, _, .noMessage hqueue hsenders, work_op filter io hat hlook⟩
          | false =>
              rw [hsenders] at hlook
              exact ⟨_, _, .closed hqueue hsenders, work_op filter io hat hlook⟩
  | notified =>
      have hlook : s.look (.notified data.notifyCb) = (s.resolved data.notifyCb, s) := rfl
      have hwork := work_op filter io hat hlook
      cases hresolved : s.resolved data.notifyCb with
      | some shouldNot =>
          rw [hresolved] at hwork
          exact ⟨_, _, .resolved hresolved, hwork⟩
      | none =>
          rw [hresolved] at hwork
          cases hsock : s.sock with
          | some sock => exact ⟨_, _, .unresolved hresolved hsock, hwork⟩
          | none =>
              refine ⟨_, _, .noSocket hresolved hsock, ?_⟩
              rw [Stage.look, ← lookRead_none (hholds.of_none hsock)]
              exact hwork
  | read =>
      obtain ⟨sock, hsock⟩ := Option.isSome_iff_exists.mp hholds.knows
      obtain ⟨fd, hfd⟩ := hholds.of_sock hsock
      rw [State.At, Stage.look, lookRead_some hfd] at hat
      cases hqueue : sock.datagrams.queue with
      | cons bytes queue =>
          have hlook := look_read_of_cons hsock hqueue (min 512 sock.mtu)
          refine ⟨_, _, .datagram hsock hqueue, (work_op filter io hat hlook).trans ?_⟩
          rw [look_value]
          rfl
      | nil =>
          have hlook := look_read_of_nil hsock hqueue (min 512 sock.mtu)
          cases hclosed : sock.closed with
          | true =>
              rw [hclosed] at hlook
              exact ⟨_, _, .endOfStream hsock hqueue hclosed, work_op filter io hat hlook⟩
          | false =>
              rw [hclosed] at hlook
              exact ⟨_, _, .noDatagram hsock hqueue hclosed, work_op filter io hat hlook⟩
  | isHungUp datagram =>
      have hsome : s.sock.isSome = true := by
        cases datagram with
        | true => exact hholds.knows
        | false =>
            obtain ⟨sock, hsock, -⟩ := hholds.knows
            rw [hsock]
            rfl
      obtain ⟨sock, hsock⟩ := Option.isSome_iff_exists.mp hsome
      have hlook := look_isHungUp hsock
      cases hclosed : sock.closed with
      | true =>
          rw [hclosed] at hlook
          exact ⟨_, _, .hungUp hsock hclosed, work_op filter io hat hlook⟩
      | false =>
          rw [hclosed] at hlook
          exact ⟨_, _, .notHungUp hsock hclosed, work_op filter io hat hlook⟩
  | call =>
      cases hqueue : s.calls.queue with
      | cons sent queue =>
          exact ⟨_, _, .call hqueue, work_op filter io hat (look_call_of_cons hqueue)⟩
      | nil =>
          exact ⟨_, _, .noCall hqueue, work_op filter io hat (look_call_of_nil hqueue)⟩
  | waiting =>
      refine ⟨_, _, .again, ?_⟩
      rw [State.work, hat, Stage.look]
      exact congrArg (fun rest ↦ some { s with phase := .polling data rest }) (poll_waitAll data)

/-- Only a poll that has looked at everything leaves something to wait for. -/
theorem eq_waiting {rest : LoopFut path} (h : stage.look data = .ret (.pending rest)) :
    stage = .waiting := by
  cases stage with
  | waiting => rfl
  | read =>
      rw [Stage.look, lookRead] at h
      split at h <;> simp [lookCall] at h
  | recv | notified | isHungUp | call | ready =>
      simp [Stage.look, lookRecv, lookNotified, lookHungUp, lookCall, lookReady] at h

/-- Only a poll that has found something ends with it. -/
theorem eq_ready {woken : Woken path} (h : stage.look data = .ret (.ready woken)) :
    ∃ found, stage = .ready found ∧ woken = wokenBy data found := by
  cases stage with
  | ready found => exact ⟨found, rfl, (Poll.ready.inj (Prog.ret.inj h)).symm⟩
  | read =>
      rw [Stage.look, lookRead] at h
      split at h <;> simp [lookCall] at h
  | recv | notified | isHungUp | call | waiting =>
      simp [Stage.look, lookRecv, lookNotified, lookHungUp, lookCall] at h

/-! ## Turns -/

@[simp] theorem found_wokenBy (data : ChrcData) (found : Found path) :
    (wokenBy data found).found = found := by
  cases found <;> rfl

/-- **Each branch puts back the right half**: what is awaited next is the last future that
the notify callback has returned. -/
theorem recvNotFut_wokenBy {data' : ChrcData} {found : Found path}
    (h : data'.notifyCb = data.notifyCb + found.futures) :
    (wokenBy data found).recvNotFut data' = ⟨⟨⟩, ⟨data'.notifyCb⟩⟩ := by
  cases found with
  | notified => rfl
  | message | closed | call | written => rw [h]; rfl

/-- The sockets after a turn: the one that is held, and those that were. -/
inductive Socketed (found : Found path) (s : State path) : Option Sock → List Sock → Prop
  | same (hfound : found ≠ .written (.error .notConnected)) : Socketed found s s.sock s.released
  | released {sock : Sock} (hfound : found = .written (.error .notConnected))
      (hsock : s.sock = some sock) : Socketed found s none (s.released ++ [sock])
  | acquired {call : MethodCall path} (mtu : Nat) (hfound : found = .call call)
      (hsock : s.sock = none) : Socketed found s (some { mtu := mtu }) s.released

theorem follow_same {writeFd : Option (UnixFd × Nat)}
    (h : writeFd.map Prod.snd = s.sock.map Sock.mtu) : s.follow writeFd = s := by
  rw [State.follow.eq_def]
  split
  · next hsock => rw [hsock] at h; contradiction
  · next hsock => rw [hsock] at h; contradiction
  · rfl

/-- What was read from a socket whose peer has hung up. -/
abbrev gone (path : ObjectPath) : Found path := .written (.error .notConnected)

theorem found_of_method? {found : Found path} {call : MethodCall path}
    (h : found.method? filter = some call) : found = .call call := by
  cases found with
  | call c =>
      obtain ⟨rfl, -⟩ := ChrcData.method?_eq_some h
      rfl
  | message | closed | notified | written => contradiction

theorem turn_gone (hfd : data.writeFd.isSome = true) :
    data.turn io filter (gone path) = some (.done .next { data with writeFd := none } []) :=
  if_pos hfd

/-- The worker waits for what the poll has found. -/
theorem turn_isSome (filter : Option String) (io : Io) {found : Found path}
    (h : s.Holds data (.ready found)) : ∃ ran, data.turn io filter found = some ran := by
  cases found with
  | message | closed | call | notified => exact ⟨_, rfl⟩
  | written res =>
      obtain ⟨hsome, -⟩ := h.knows res rfl
      obtain ⟨sock, hsock⟩ := Option.isSome_iff_exists.mp hsome
      obtain ⟨fd, hfd⟩ := h.of_sock hsock
      exact ⟨_, if_pos (by rw [hfd]; rfl)⟩

/-- Only a call acquires a socket, and only if none is held. -/
theorem writeFd_turned {found : Found path} {data' : ChrcData} {flow : Flow} {out : List Out}
    (h : ChrcData.Turned io filter found data data' flow out) (hgone : found ≠ gone path) :
    data'.writeFd = data.writeFd ∨ (∃ call, found = .call call) ∧ data.writeFd = none ∧
      ∃ fd mtu, data'.writeFd = some (fd, mtu) := by
  cases h.moved with
  | stays _ _ hwrite => exact .inl hwrite
  | notified _ _ _ hwrite => exact .inl hwrite
  | started _ _ _ _ _ _ _ hwrite => exact .inl hwrite
  | stopped _ _ _ _ _ _ hwrite => exact .inl hwrite
  | dropped _ _ _ _ _ _ hwrite => exact .inl hwrite
  | acquired _ _ _ _ _ _ _ _ _ _ _ hwrite => exact .inl hwrite
  | acquiredWrite call hcall _ _ _ hnone fd _ mtu _ hwrite =>
      exact .inr ⟨⟨call, found_of_method? hcall⟩, hnone, fd, mtu, hwrite⟩
  | hungUp hfound => exact absurd hfound hgone

/-- **What a turn does to the task and its sources.** -/
theorem work_turned (filter : Option String) (io : Io) (hpath : path ≠ .root) {found : Found path}
    (hat : s.At data (.ready found)) (hholds : s.Holds data (.ready found)) :
    ∃ ran sock released, data.turn io filter found = some ran ∧
      ChrcData.Ended io filter found data ran ∧ Socketed found s sock released ∧
      (∀ flow data' out, ran = .done flow data' out →
        data'.writeFd.map Prod.snd = sock.map Sock.mtu) ∧
      s.work filter io = some
        { s with
          phase := .ofRan (wokenBy data found) ran
          log := s.log ++ [found]
          out := s.out ++ ran.out
          sock := sock
          released := released } := by
  have hwork (ran : Ran Stop Out ChrcData Flow) (hran : data.turn io filter found = some ran) :
      s.work filter io = some (s.after (wokenBy data found) ran) := by
    rw [State.work, hat, Stage.look, lookReady]
    dsimp only
    rw [found_wokenBy, hran]
    rfl
  by_cases hgone : found = gone path
  · subst hgone
    obtain ⟨hsome, -⟩ := hholds.knows _ rfl
    obtain ⟨sock, hsock⟩ := Option.isSome_iff_exists.mp hsome
    obtain ⟨fd, hfd⟩ := hholds.of_sock hsock
    have hran : data.turn io filter (gone path) = _ := turn_gone (by rw [hfd]; rfl)
    refine ⟨_, _, _, hran, ChrcData.turn_spec hpath hran, .released rfl hsock, ?_, (hwork _ hran).trans ?_⟩
    · intro flow data' out hdone
      obtain ⟨-, rfl, -⟩ := Ran.done.inj hdone
      rfl
    · rw [State.after, found_wokenBy, State.follow.eq_def, hsock]
  · obtain ⟨ran, hran⟩ := turn_isSome filter io hholds
    have hended := ChrcData.turn_spec hpath hran
    cases ran with
    | stop why out =>
        refine ⟨_, _, _, hran, hended, .same hgone, ?_, (hwork _ hran).trans ?_⟩
        · intro flow data' out hdone
          contradiction
        · rw [State.after, found_wokenBy]
    | done flow data' out =>
        have hturned : ChrcData.Turned io filter found data data' flow out := hended
        have hsame (hwrite : data'.writeFd = data.writeFd) :
            data'.writeFd.map Prod.snd = s.sock.map Sock.mtu := hwrite ▸ hholds.mtu
        obtain hwrite | ⟨⟨call, hcall⟩, hnone, fd, mtu, hwrite⟩ := writeFd_turned hturned hgone
        · refine ⟨_, _, _, hran, hended, .same hgone, ?_, (hwork _ hran).trans ?_⟩
          · intro flow' data'' out' hdone
            obtain ⟨-, rfl, -⟩ := Ran.done.inj hdone
            exact hsame hwrite
          · rw [State.after, found_wokenBy]
            exact congrArg some (follow_same (hsame hwrite))
        · have hmtu := hholds.mtu
          rw [hnone] at hmtu
          have hsock : s.sock = none := Option.map_eq_none_iff.mp hmtu.symm
          refine ⟨_, _, _, hran, hended, .acquired mtu hcall hsock, ?_, (hwork _ hran).trans ?_⟩
          · intro flow' data'' out' hdone
            obtain ⟨-, rfl, -⟩ := Ran.done.inj hdone
            rw [hwrite]
            rfl
          · rw [State.after, found_wokenBy, State.follow.eq_def, hsock, hwrite]

end Rustable.Gatt.Server.EventLoop
