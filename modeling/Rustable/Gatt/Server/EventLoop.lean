import Rustable.Gatt.Server.Runs
import Rustable.Lib.Future

/-!
# The event loop of a characteristic

`Characteristic::start_worker` waits for four things at once: a worker message, the future
of the notify callback, a datagram on the socket acquired for writing, and a D-Bus call.
They are combined by nested selects, part of which is kept from one iteration of the loop
to the next and part of which is made anew.

Here a poll of these futures is a program that looks at one source at a time, and a
`State` holds what is left of this program next to the sources it looks at.  So anything
may happen between two looks: messages, calls and datagrams arrive, the peer hangs up, a
future is resolved.  What the loop does with what it has found is the turn `ChrcData.turn`.
-/

namespace Rustable.Gatt.Server

open DBus

namespace EventLoop

variable {path : ObjectPath}

/-! ## What a poll looks at -/

/-- The operations by which a poll looks at the sources. -/
inductive Op
  | /-- Take a message from the channel of the worker. -/
    recv
  | /-- Poll a future of the notify callback, by its number. -/
    notified (n : Nat)
  | /-- Read a datagram from the socket, into a buffer of this size. -/
    read (size : Nat)
  | /-- `is_hung_up` -/
    isHungUp
  | /-- Take a D-Bus call. -/
    call

/-- What the operations answer; a source that has nothing to give says `none`. -/
def Op.Answer (path : ObjectPath) : Op → Type
  -- A message, or nothing because the channel is closed.
  | recv => Option (Option WorkerMsg)
  | notified _ => Option ShouldNotify
  -- What fits into the buffer.
  | read size => Option { bytes : List UInt8 // bytes.length ≤ size }
  | isHungUp => Bool
  | call => Option (MethodCall path)

/-- A poll. -/
abbrev Look (path : ObjectPath) (α : Type) : Type := Prog (Op.Answer path) α

namespace Look

/-- Look at the channel of the worker. -/
def recv : Look path (Option (Option WorkerMsg)) := .op .recv .ret

/-- Look at a future of the notify callback. -/
def notified (n : Nat) : Look path (Option ShouldNotify) := .op (.notified n) .ret

/-- Look at the socket. -/
def read (size : Nat) : Look path (Option { bytes : List UInt8 // bytes.length ≤ size }) :=
  .op (.read size) .ret

/-- Look whether the peer has hung up. -/
def isHungUp : Look path Bool := .op .isHungUp .ret

/-- Look at the calls. -/
def call : Look path (Option (MethodCall path)) := .op .call .ret

end Look

/-- The future of one operation. -/
def pollOnce {φ α : Type} (fut : φ) : Look path (Option α) → Look path (Poll φ α)
  | look => do
      match ← look with
      | some a => return .ready a
      | none => return .pending fut

/-- `recv.recv()` -/
structure RecvFut

instance : Future (Op.Answer path) RecvFut (Option WorkerMsg) where
  poll fut := pollOnce fut .recv

/-- What the notify callback has returned when it was called for the `number`th time. -/
structure NotFut where
  number : Nat

instance : Future (Op.Answer path) NotFut ShouldNotify where
  poll fut := pollOnce fut (.notified fut.number)

/-- `call_recv.recv()` -/
structure CallFut (path : ObjectPath)

instance : Future (Op.Answer path) (CallFut path) (MethodCall path) where
  poll fut := pollOnce fut .call

/-- `AttValue::new(512.min(*mtu))` with the bytes of a datagram read into it, resized to
what has been read. -/
def attVal {mtu : Nat} (read : { bytes : List UInt8 // bytes.length ≤ min 512 mtu }) :
    AttBytes := ⟨read.1, read.2.trans (Nat.min_le_left 512 mtu)⟩

/-- The buffer is made, written to and resized as the code does it. -/
theorem attVal_eq {mtu : Nat} (read : { bytes : List UInt8 // bytes.length ≤ min 512 mtu }) :
    (AttBytes.new (min 512 mtu)).bind (fun buf ↦
      (buf.writeSlice fun i b ↦ read.1.getD i b).resize read.1.length 0) =
        some (attVal read) := by
  obtain ⟨bytes, hlen⟩ := read
  have hle : (List.replicate (min 512 mtu) (0 : UInt8)).length ≤ 512 := by
    rw [List.length_replicate]
    exact Nat.min_le_left 512 mtu
  have hwritten : ((List.replicate (min 512 mtu) (0 : UInt8)).mapIdx
      fun i b ↦ bytes.getD i b).take bytes.length = bytes := by
    apply List.ext_getElem
    · simp [hlen]
    · intro i hi hi'
      simp [hi']
  rw [AttBytes.new, fits_of_le hle, Option.bind_some, AttBytes.resize, AttBytes.writeSlice]
  dsimp only
  rw [hwritten]
  have hpad : bytes.length - ((List.replicate (min 512 mtu) (0 : UInt8)).mapIdx
      fun i b ↦ bytes.getD i b).length = 0 := by
    rw [List.length_mapIdx, List.length_replicate]
    exact Nat.sub_eq_zero_of_le hlen
  rw [hpad, List.replicate_zero, List.append_nil]
  exact fits_of_le (hlen.trans (Nat.min_le_left 512 mtu))

/-- The future of `ChrcData::check_for_write`, which has borrowed `write_fd`. -/
structure WriteFut where
  writeFd : Option (UnixFd × Nat)

instance : Future (Op.Answer path) WriteFut (Except IoError AttBytes) where
  poll fut := match fut.writeFd with
    | none => return .pending fut
    | some (_, mtu) => do
        match ← Look.read (min 512 mtu) with
        | none => return .pending fut
        | some read =>
            if read.1.length = 0 then
              if ← Look.isHungUp then
                return .ready (.error .notConnected)
            return .ready (.ok (attVal read))

/-- `factor_fut` -/
def factorFut {φ ψ α β : Type} : (α × ψ) ⊕ (β × φ) → α ⊕ β
  | .inl (out, _) => .inl out
  | .inr (out, _) => .inr out

/-- The future of `drop_select`. -/
structure DropSelect (φ ψ : Type) where
  select : Select φ ψ

/-- `drop_select` -/
def dropSelect {φ ψ : Type} (left : φ) (right : ψ) : DropSelect φ ψ := ⟨⟨left, right⟩⟩

instance {φ ψ α β : Type} [Future (Op.Answer path) φ α] [Future (Op.Answer path) ψ β] :
    Future (Op.Answer path) (DropSelect φ ψ) (α ⊕ β) where
  poll fut := do
    match ← (Future.poll fut.select : Look path (Poll (Select φ ψ) _)) with
    | .ready either => return .ready (factorFut either)
    | .pending select => return .pending ⟨select⟩

/-! ## The loop -/

/-- `recv_not_fut` -/
abbrev RecvNot := Select RecvFut NotFut

/-- `call_write` -/
abbrev CallWrite (path : ObjectPath) := DropSelect WriteFut (CallFut path)

/-- `select(recv_not_fut, call_write)` -/
abbrev LoopFut (path : ObjectPath) := Select RecvNot (CallWrite path)

/-- What `recv_not_fut` returns. -/
abbrev CallNot := (Option WorkerMsg × NotFut) ⊕ (ShouldNotify × RecvFut)

/-- What is awaited in each iteration. -/
abbrev Woken (path : ObjectPath) :=
  (CallNot × CallWrite path) ⊕ ((Except IoError AttBytes ⊕ MethodCall path) × RecvNot)

/-- The future of an iteration: `call_fut` and `write_fut` are made anew. -/
def loopFut (path : ObjectPath) (data : ChrcData) (recvNotFut : RecvNot) : LoopFut path :=
  ⟨recvNotFut, dropSelect ⟨data.writeFd⟩ ⟨⟩⟩

/-- What the loop has found. -/
def Woken.found : Woken path → Found path
  | .inl (.inl (some msg, _), _) => .message msg
  | .inl (.inl (none, _), _) => .closed
  | .inl (.inr (shouldNot, _), _) => .notified shouldNot
  | .inr (.inl res, _) => .written res
  | .inr (.inr call, _) => .call call

/-- `recv_not_fut` for the next iteration; `data` is the state after the turn, in which
the notify callback has been called again if its future was ready. -/
def Woken.recvNotFut (data : ChrcData) : Woken path → RecvNot
  | .inl (.inl (_, notFut), _) => ⟨⟨⟩, notFut⟩
  | .inl (.inr (_, recvF), _) => ⟨recvF, ⟨data.notifyCb⟩⟩
  | .inr (_, recvNotF) => recvNotF

/-- Where the task of the worker is. -/
inductive Phase (path : ObjectPath)
  | /-- In a poll, or behind one. -/
    polling (data : ChrcData) (look : Look path (Poll (LoopFut path) (Woken path)))
  | /-- It has been told to unregister. -/
    finished (data : ChrcData)
  | /-- It has ended before its time. -/
    failed (why : Stop)

/-- The first poll of an iteration. -/
def Phase.iterate (data : ChrcData) (recvNotFut : RecvNot) : Phase path :=
  .polling data (Future.poll (loopFut path data recvNotFut))

/-- Where the task is after a turn. -/
def Phase.ofRan (woken : Woken path) : Ran Stop Out ChrcData Flow → Phase path
  | .done .next data _ => iterate data (woken.recvNotFut data)
  | .done .done data _ => finished data
  | .stop why _ => failed why

/-! ## The sources -/

/-- A D-Bus call that has been sent. -/
structure Sent (path : ObjectPath) where
  call : MethodCall path
  /-- The acquired socket that its peer had closed by then, by its number. -/
  hungUp : Option Nat

/-- A socket acquired for writing. -/
structure Sock where
  mtu : Nat
  datagrams : Channel (List UInt8) := {}
  /-- The peer has closed its end. -/
  closed : Bool := false

/-- `socket.recv`: the next datagram as far as it fits, or the end of the stream. -/
def Sock.recv (size : Nat) (sock : Sock) :
    Option { bytes : List UInt8 // bytes.length ≤ size } × Sock :=
  match sock.datagrams.take with
  | (some bytes, datagrams) =>
      (some ⟨bytes.take size, List.length_take_le size bytes⟩,
        { sock with datagrams := datagrams })
  | (none, _) => (if sock.closed then some ⟨[], Nat.zero_le size⟩ else none, sock)

/-- The task of the worker and the sources it looks at. -/
structure State (path : ObjectPath) where
  phase : Phase path
  msgs : Channel WorkerMsg := {}
  /-- Somebody can still send messages. -/
  senders : Bool := true
  calls : Channel (Sent path) := {}
  /-- The futures of the notify callback that are resolved. -/
  resolved : Nat → Option ShouldNotify := fun _ ↦ none
  /-- The socket that is held. -/
  sock : Option Sock := none
  /-- The sockets that were held before. -/
  released : List Sock := []
  /-- What the turns so far have found. -/
  log : List (Found path) := []
  /-- What they have sent. -/
  out : List Out := []

namespace State

/-- The number of the socket that is held, if its peer has closed it. -/
def hungUp? (s : State path) : Option Nat :=
  if s.sock.any (·.closed) then some s.released.length else none

/-- Look at a source. -/
def look (s : State path) : (op : Op) → op.Answer path × State path
  | .recv => match s.msgs.take with
    | (some msg, msgs) => (some (some msg), { s with msgs := msgs })
    | (none, _) => (if s.senders then none else some none, s)
  | .notified n => (s.resolved n, s)
  | .read size => match s.sock with
    | none => (none, s)
    | some sock =>
        let (read, sock) := sock.recv size
        (read, { s with sock := some sock })
  | .isHungUp => (s.sock.any (·.closed), s)
  | .call => match s.calls.take with
    | (some sent, calls) => (some sent.call, { s with calls := calls })
    | (none, _) => (none, s)

/-- The sockets after a turn that has left `write_fd` as given. -/
def follow (writeFd : Option (UnixFd × Nat)) (s : State path) : State path :=
  match s.sock, writeFd with
  | none, some (_, mtu) => { s with sock := some { mtu := mtu } }
  | some sock, none => { s with sock := none, released := s.released ++ [sock] }
  | _, _ => s

/-- The state after a turn. -/
def after (woken : Woken path) (ran : Ran Stop Out ChrcData Flow) (s : State path) : State path :=
  let s :=
    { s with
      phase := .ofRan woken ran
      log := s.log ++ [woken.found]
      out := s.out ++ ran.out }
  match ran with
  | .done _ data _ => s.follow data.writeFd
  | .stop _ _ => s

/-- The task does something: it looks at a source, polls again or takes a turn. -/
def work (filter : Option String) (s : State path) (io : Io) : Option (State path) :=
  match s.phase with
  | .polling data (.op op k) =>
      let (answer, s) := s.look op
      some { s with phase := .polling data (k answer) }
  | .polling data (.ret (.pending rest)) =>
      some { s with phase := .polling data (Future.poll rest) }
  | .polling data (.ret (.ready woken)) =>
      (ChrcData.turn io filter woken.found data).map fun ran ↦ s.after woken ran
  | .finished _ | .failed _ => none

end State

/-- What happens. -/
inductive Event (path : ObjectPath)
  | /-- A worker message is sent. -/
    message (msg : WorkerMsg)
  | /-- Nobody can send messages any more. -/
    dropSenders
  | /-- A D-Bus call is sent. -/
    call (call : MethodCall path)
  | /-- The peer puts a datagram on the socket that is held. -/
    datagram (bytes : List UInt8)
  | /-- The peer closes it. -/
    hangUp
  | /-- The application resolves a future of the notify callback. -/
    resolve (n : Nat) (shouldNot : ShouldNotify)
  | /-- The task does something. -/
    work (io : Io)

namespace State

/-- The next state.  A future is resolved once, and not before the callback has returned it. -/
def next (filter : Option String) (s : State path) : Event path → Option (State path)
  | .message msg =>
      if s.senders ∧ s.msgs.queue.length < 8 then some { s with msgs := s.msgs.push msg } else none
  | .dropSenders => some { s with senders := false }
  | .call call => some { s with calls := s.calls.push ⟨call, s.hungUp?⟩ }
  | .datagram bytes => match s.sock with
    | some sock =>
        if sock.closed then none
        else some { s with sock := some { sock with datagrams := sock.datagrams.push bytes } }
    | none => none
  | .hangUp => match s.sock with
    | some sock => some { s with sock := some { sock with closed := true } }
    | none => none
  | .resolve n shouldNot => match s.phase with
    | .polling data _ =>
        if n ≤ data.notifyCb ∧ (s.resolved n).isNone then
          some { s with resolved := Function.update s.resolved n (some shouldNot) }
        else none
    | .finished _ | .failed _ => none
  | .work io => s.work filter io

/-- One step. -/
def Step (filter : Option String) : State path → Event path → State path → Prop :=
  Lts.ofNext (next filter)

/-- `Characteristic::start_worker` -/
def start (path : ObjectPath) (chrc : Characteristic) (children : Nat) : State path where
  phase :=
    let chrcData := ChrcData.start chrc children
    .iterate chrcData ⟨⟨⟩, ⟨chrcData.notifyCb⟩⟩

end State

end EventLoop

end Rustable.Gatt.Server
