import Rustable.Gatt.Basic
import Rustable.Introspect
import Rustable.Lib.Action
import Rustable.Properties

/-!
# What the workers of attributes have in common

Every attribute has a worker, a task that takes worker messages and D-Bus calls one at
a time and ends when it is told to unregister.  One turn of its loop is a `Turn` on
its state.  What the turn does to the world outside is in its outputs `Out`;
how the world answers (whether a transport operation fails, whether a socket has hung
up, whether somebody still waits for an answer) is given by an `Io`.
-/

namespace Rustable.Gatt.Server

open DBus

/-- Who waits for an answer: the receiving end of a one-time channel, by number. -/
abbrev ReplyTo := Nat

/-- `enum WorkerMsg` -/
inductive WorkerMsg
  | unregister
  | update (vf : ValOrFn) (notify : Bool)
  | get (sender : ReplyTo)
  | getHandle (sender : ReplyTo)
  | notify (val : Option AttBytes)
  | notifying (sender : ReplyTo)
  | notifyAcquired (sender : ReplyTo)
  | notifyingSignal (sender : ReplyTo)
  | includedPaths (paths : List ObjectPath)
  | objMgr (sender : ReplyTo)

/-- What is sent through a one-time channel. -/
inductive Answer
  | value (v : AttBytes)
  | handle (h : NonZeroU16)
  | flag (b : Bool)
  | objects (path : ObjectPath) (map : IfAndProps)

/-- What a worker sends. -/
inductive Out
  | /-- An answer to a worker message. -/
    answer (sender : ReplyTo) (a : Answer)
  | /-- A reply to a D-Bus call. -/
    reply (m : MarshalledMessage)
  | /-- A D-Bus signal. -/
    signal (m : MarshalledMessage)
  | /-- A datagram, into a socket. -/
    datagram (sock : UnixFd) (bytes : List UInt8)

/-- Why a worker ends before its time. -/
inductive Stop
  | panic
  | error (e : Error)
deriving DecidableEq

/-- Whether the loop goes on after a turn. -/
inductive Flow
  | next
  | done
deriving DecidableEq, Repr

/-- How the operations of one turn end that the worker does not decide by itself. -/
structure Io where
  /-- Somebody still waits for the answer to the message. -/
  receiverAlive : Bool := true
  /-- Sending a reply that the connection takes. -/
  sendReply : Except IoError Unit := .ok ()
  /-- Sending a signal. -/
  sendSignal : Except IoError Unit := .ok ()
  /-- Sending a datagram. -/
  sockSend : Except IoError Unit := .ok ()
  /-- `is_hung_up` -/
  isHungUp : Except IoError Bool := .ok false
  /-- `get_sock_seqpacket`: our end and theirs. -/
  getSockSeqpacket : Except IoError (UnixFd × UnixFd) := .ok (⟨3⟩, ⟨4⟩)

/-- No socket or connection operation fails. -/
structure Io.Works (io : Io) : Prop where
  sendReply : io.sendReply = .ok ()
  sendSignal : io.sendSignal = .ok ()
  sockSend : io.sockSend = .ok ()
  isHungUp : ∃ b, io.isHungUp = .ok b
  getSockSeqpacket : ∃ fds, io.getSockSeqpacket = .ok fds

/-- How sending a reply ends: the connection does not take every message. -/
def Io.send (io : Io) (m : MarshalledMessage) : Except IoError Unit :=
  if m.isSendable then io.sendReply else .error .other

theorem Io.send_eq {io : Io} {m : MarshalledMessage} (h : m.isSendable = true) :
    io.send m = io.sendReply := if_pos h

theorem Io.send_refused {io : Io} {m : MarshalledMessage} (h : m.isSendable = false) :
    io.send m = .error .other := by
  rw [send, h]
  rfl

/-- An action of a worker with the state `σ`. -/
abbrev Turn (σ α : Type) := Act Stop Out σ α

namespace Turn

variable {σ τ α : Type}

/-- A computation on a part of the state. -/
def onPart (view : σ → τ) (put : σ → τ → σ) (x : MayPanic τ α) : Turn σ α := fun s ↦
  match x (view s) with
  | some (a, t) => .done a (put s t) []
  | none => .stop .panic []

/-- A computation on the state. -/
def ofMayPanic (x : MayPanic σ α) : Turn σ α := onPart id (fun _ s ↦ s) x

/-- The `?` on an I/O result. -/
def check : Except IoError α → Turn σ α
  | .ok a => pure a
  | .error e => Act.stop (.error (.io e))

/-- `sender.send(a).ok()` -/
def answer (io : Io) (sender : ReplyTo) (a : Answer) : Turn σ Unit :=
  if io.receiverAlive then Act.emit (.answer sender a) else pure ()

/-- `sender.send(a)?` -/
def answerOrStop (io : Io) (sender : ReplyTo) (a : Answer) : Turn σ Unit :=
  if io.receiverAlive then Act.emit (.answer sender a)
  else Act.stop (.error .threadClosed)

/-- `conn.send_msg_wo_rsp(&m).await?` -/
def sendReply (io : Io) (m : MarshalledMessage) : Turn σ Unit := do
  check (io.send m)
  Act.emit (.reply m)

/-- What is proved of a computation on a part carries over to the whole. -/
theorem onPart_some {view : σ → τ} {put : σ → τ → σ} {x : MayPanic τ α} {s : σ} {a : α} {t : τ}
    (h : x (view s) = some (a, t)) : onPart view put x s = .done a (put s t) [] := by
  rw [onPart, h]

theorem onPart_none {view : σ → τ} {put : σ → τ → σ} {x : MayPanic τ α} {s : σ}
    (h : x (view s) = none) : onPart view put x s = .stop .panic [] := by
  rw [onPart, h]

theorem bind_onPart {β : Type} {view : σ → τ} {put : σ → τ → σ} {x : MayPanic τ α} {s : σ} {a : α}
    {t : τ} (h : x (view s) = some (a, t)) (f : α → Turn σ β) :
    (onPart view put x >>= f) s = f a (put s t) := Act.bind_done (onPart_some h) f

/-- Somebody who waits for the answer gets it. -/
theorem answer_eq {io : Io} (hio : io.receiverAlive = true) (sender : ReplyTo) (a : Answer) :
    (answer io sender a : Turn σ Unit) = Act.emit (.answer sender a) := if_pos hio

theorem answerOrStop_eq {io : Io} (hio : io.receiverAlive = true) (sender : ReplyTo) (a : Answer) :
    (answerOrStop io sender a : Turn σ Unit) = Act.emit (.answer sender a) := if_pos hio

end Turn

/-- `is_msg_bluez` -/
def isMsgBluez (call : MarshalledMessage) (filter : Option String) : Bool :=
  match filter with
  | none => true
  | some selfDest => match call.dynheader.sender with
    | some d => d = bluezDest || d = selfDest
    | none => false

/-- One turn of a worker with a D-Bus call: the call is handled if it passes the filter, and
answered. -/
def Turn.replyTo {σ : Type} (io : Io) (filter : Option String) (call : MarshalledMessage)
    (handle : Turn σ MarshalledMessage) : Turn σ Flow :=
  if isMsgBluez call filter then do
    let res ← handle
    Turn.sendReply io res
    return .next
  else do
    Turn.sendReply io (call.dynheader.makeErrorResponse "PermissionDenied" none)
    return .next

/-- Send the answer a handler has returned, and go on. -/
def Turn.replied {σ : Type} (io : Io) :
    Ran Stop Out σ MarshalledMessage → Ran Stop Out σ Flow
  | .done m s out => match io.send m with
    | .ok _ => .done .next s (out ++ [.reply m])
    | .error e => .stop (.error (.io e)) out
  | .stop why out => .stop why out

section Replies

variable {σ : Type} {io : Io} {filter : Option String} {call : MarshalledMessage}

/-- The refusal of a call that does not pass the filter. -/
abbrev refusal (call : MarshalledMessage) : MarshalledMessage :=
  call.dynheader.makeErrorResponse "PermissionDenied" none

/-- The refusal is never sent: its name is not that of an error. -/
theorem isSendable_refusal (call : MarshalledMessage) : (refusal call).isSendable = false := by
  rw [isSendable_makeErrorResponse]
  decide

theorem Turn.replied_mapState {σ τ : Type} (f : σ → τ) (m : MarshalledMessage) (s : σ) :
    (Turn.replied io (.done m s [])).mapState f = Turn.replied io (.done m (f s) []) := by
  rw [Turn.replied, Turn.replied]
  cases io.send m with
  | ok u => rfl
  | error e => rfl

/-- A reply that the connection does not take ends the worker. -/
theorem Turn.replied_unsendable {m : MarshalledMessage} (hm : m.isSendable = false) (s : σ)
    (out : List Out) : Turn.replied io (.done m s out) = .stop (.error (.io .other)) out := by
  rw [Turn.replied, Io.send_refused hm]

/-- Any other is sent, if the connection does not fail. -/
theorem Turn.replied_sendable {m : MarshalledMessage} (hm : m.isSendable = true)
    (hio : io.sendReply = .ok ()) (s : σ) (out : List Out) :
    Turn.replied io (.done m s out) = .done .next s (out ++ [.reply m]) := by
  rw [Turn.replied, Io.send_eq hm, hio]

theorem Turn.sendReply_next (m : MarshalledMessage) (s : σ) :
    (do Turn.sendReply io m; return Flow.next : Turn σ Flow) s = Turn.replied io (.done m s []) := by
  rw [Turn.sendReply, Turn.replied]
  cases io.send m with
  | ok u => rfl
  | error e => rfl

theorem Turn.replyTo_passed (h : isMsgBluez call filter = true)
    (handle : Turn σ MarshalledMessage) (s : σ) :
    Turn.replyTo io filter call handle s = Turn.replied io (handle s) := by
  rw [Turn.replyTo, if_pos h, Act.bind_apply]
  cases handle s with
  | stop why out => rfl
  | done m t out =>
      change Ran.after out ((do Turn.sendReply io m; return Flow.next : Turn σ Flow) t) = _
      rw [Turn.sendReply_next, Turn.replied, Turn.replied]
      cases io.send m with
      | ok u => rfl
      | error e => exact congrArg (Ran.stop _) (List.append_nil out)

theorem Turn.replyTo_refused (h : isMsgBluez call filter = false)
    (handle : Turn σ MarshalledMessage) (s : σ) :
    Turn.replyTo io filter call handle s = Turn.replied io (.done (refusal call) s []) := by
  rw [Turn.replyTo, h]
  exact Turn.sendReply_next _ s

/-- A turn that goes on after a call has replied what the handler returned. -/
theorem Turn.done_of_replied {ran : Ran Stop Out σ MarshalledMessage} {flow : Flow} {s : σ}
    {out : List Out} (h : Turn.replied io ran = .done flow s out) :
    ∃ m out', ran = .done m s out' ∧ flow = .next ∧ out = out' ++ [.reply m] ∧
      m.isSendable = true := by
  cases ran with
  | stop why out => contradiction
  | done m t out' =>
      cases hm : m.isSendable with
      | false =>
          rw [Turn.replied_unsendable hm] at h
          contradiction
      | true =>
          rw [Turn.replied] at h
          split at h
          · obtain ⟨rfl, rfl, rfl⟩ := Ran.done.inj h
            exact ⟨m, out', rfl, rfl, rfl, hm⟩
          · contradiction

end Replies

/-- The options a method of an attribute is called with. -/
abbrev Options := HashMap String BluezOptions

/-- `if let Some(BluezOptions::U16(off)) = options.get("offset")` -/
def offsetOption (options : Options) : Nat :=
  match options.lookup "offset" with
  | some (.u16 off) => off.toNat
  | _ => 0

/-- `mtu.min(..)` with the option of that name. -/
def mtuOption (options : Options) : Nat :=
  match options.lookup "mtu" with
  | some (.u16 off) => min 517 off.toNat
  | _ => 517

/-- The introspection reply of an attribute: its interfaces and its children. -/
def introReply (call : MarshalledMessage) (interfaces : String) (children : List String) :
    MarshalledMessage :=
  let s := Introspect.introspectFmtP1 ++ interfaces
  let s := Introspect.childNodes children s ++ Introspect.introspectFmtP3
  { call.dynheader.makeResponse with body := [⟨sig String, .base s⟩] }

theorem answers_introReply (call : MarshalledMessage) (interfaces : String)
    (children : List String) : Answers (introReply call interfaces children) call.dynheader :=
  (answers_makeResponse _).withBody _

end Rustable.Gatt.Server
