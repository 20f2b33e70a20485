import Rustable.Lib.DBus.Message
import Rustable.Options

/-!
# Errors, replies and property calls

What the rest of the crate takes from `lib.rs`: the names of the interfaces, `Error`,
the three functions that look at a reply, and the builders of `Properties.Get` and
`Properties.Set` calls.
-/

namespace Rustable

open DBus

/-! ## Names -/

def bluezDevIf := "org.bluez.Device1"
def bluezSerIf := "org.bluez.GattService1"
def bluezChrIf := "org.bluez.GattCharacteristic1"
def bluezDesIf := "org.bluez.GattDescriptor1"
def bluezAdvIf := "org.bluez.LEAdvertisement1"
def propsIf := "org.freedesktop.DBus.Properties"
def introIf := "org.freedesktop.DBus.Introspectable"
def objmgrIf := "org.freedesktop.DBus.ObjectManager"
def bluezDest := "org.bluez"

/-! ## Errors -/

/-- What is told apart of a `std::io::Error`. -/
inductive IoError
  | notConnected
  | other
deriving DecidableEq, Repr

/-- `enum Error` -/
inductive Error
  | bluez (text : String)
  | dbus (text : String)
  | threadClosed
  | socketHungUp
  | unknownDevice (mac : MAC)
  | unknownServ (service : UUID)
  | unknownChrc (service character : UUID)
  | unknownDesc (service character descriptor : UUID)
  | io (e : IoError)
deriving DecidableEq

/-- A computation that may fail with an error, and may panic (`none`). -/
abbrev MayFail (α : Type) := ExceptT Error Option α

/-- A panic. -/
def MayFail.panic {α : Type} : MayFail α := ExceptT.mk none

/-- A sequence returns if both of its parts do. -/
theorem MayFail.bind_eq_pure {α β : Type} {x : MayFail α} {f : α → MayFail β} {b : β} :
    (x >>= f) = pure b ↔ ∃ a, x = pure a ∧ f a = pure b := by
  constructor
  · intro h
    cases x with
    | none => contradiction
    | some r =>
        cases r with
        | error e => exact nomatch Option.some.inj h
        | ok a => exact ⟨a, rfl, h⟩
  · rintro ⟨a, rfl, h⟩
    rw [pure_bind, h]

/-! ## Replies -/

/-- `s.starts_with("org.bluez")` -/
def fromBluez (text : String) : Bool := "org.bluez".toList.isPrefixOf text.toList

/-- `format!("Failed to unmarshal: {:?}", e)`, as an error. -/
def unmarshalFailed (e : UnmarshalError) : Error := .dbus ("Failed to unmarshal: " ++ e.debug)

/-- What the functions below have in common: the body of a response is left to `read`,
an error reply becomes the error it carries, and nothing else is a reply. -/
def readReply {α : Type} (read : Body → Except Error α) (msg : MarshalledMessage) : MayFail α :=
  match msg.typ with
  | .reply => ExceptT.mk (some (read msg.body))
  | .error => match msg.body.get String with
    | .error e => throw (.dbus ("Failed to unmarshal msg_err: " ++ e.debug))
    | .ok text => throw (if fromBluez text then .bluez text else .dbus text)
  | .call | .signal => .panic

/-- `is_msg_err` -/
def isMsgErr (α : Type) [Signature α] [Unmarshal α] : MarshalledMessage → MayFail α :=
  readReply fun body ↦ (body.get α).mapError unmarshalFailed

/-- `is_msg_err2` -/
def isMsgErr2 (α β : Type) [Signature α] [Unmarshal α] [Signature β] [Unmarshal β] :
    MarshalledMessage → MayFail (α × β) :=
  readReply fun body ↦ (body.get2 α β).mapError unmarshalFailed

/-- `is_msg_err_empty` -/
def isMsgErrEmpty : MarshalledMessage → MayFail Unit := readReply fun _ ↦ .ok ()

/-- An error is read as an error. -/
theorem readReply_error {α : Type} (read : Body → Except Error α) {msg : MarshalledMessage}
    (hty : msg.typ = .error) : ∃ e, readReply read msg = throw e := by
  rw [readReply, hty]
  dsimp only
  split
  · exact ⟨_, rfl⟩
  · exact ⟨_, rfl⟩

section Replies

variable {α β : Type} [Signature α] [Unmarshal α] [Signature β] [Unmarshal β]
  {msg : MarshalledMessage}

/-- A response whose body is a value of the type asked for. -/
theorem isMsgErr_reply (hty : msg.typ = .reply) {v : Val (sig α)} {rest : Body}
    (hbody : msg.body = ⟨sig α, v⟩ :: rest) {a : α} (ha : unmarshal v = some a) :
    isMsgErr α msg = pure a := by
  simp only [isMsgErr, readReply, hty, hbody, Body.get, Body.next_cons ha]
  rfl

/-- A response whose body is a value of another type. -/
theorem isMsgErr_of_ne (hty : msg.typ = .reply) {s : Sig} {v : Val s} {rest : Body}
    (hbody : msg.body = ⟨s, v⟩ :: rest) (hs : s ≠ sig α) :
    isMsgErr α msg = throw (unmarshalFailed .wrongSignature) := by
  simp only [isMsgErr, readReply, hty, hbody, Body.get, Body.next_of_ne hs]
  rfl

/-- A response with two values of the types asked for. -/
theorem isMsgErr2_reply (hty : msg.typ = .reply) {v : Val (sig α)} {w : Val (sig β)}
    {rest : Body} (hbody : msg.body = ⟨sig α, v⟩ :: ⟨sig β, w⟩ :: rest) {a : α} {b : β}
    (ha : unmarshal v = some a) (hb : unmarshal w = some b) :
    isMsgErr2 α β msg = pure (a, b) := by
  simp only [isMsgErr2, readReply, hty, hbody, Body.get2_cons ha hb]
  rfl

end Replies

/-! ## Property calls -/

/-- `prop_if_call` -/
def propIfCall (path : ObjectPath) (dest interface prop : String) : MarshalledMessage where
  typ := .call
  dynheader :=
    { interface := some propsIf
      member := some ""
      object := some path
      destination := some dest }
  body := [⟨sig String, .base interface⟩, ⟨sig String, .base prop⟩]

/-- `get_prop_call` -/
def getPropCall (path : ObjectPath) (dest interface prop : String) : MarshalledMessage :=
  let msg := propIfCall path dest interface prop
  { msg with dynheader := { msg.dynheader with member := some "Get" } }

end Rustable
