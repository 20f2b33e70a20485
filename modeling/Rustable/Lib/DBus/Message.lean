import Rustable.Lib.DBus.Path
import Rustable.Lib.DBus.Wire

/-!
# D-Bus messages

A message as a program handles it: its type, the header fields, all of which are
optional, and the body.  Replies are made from the header of the call they answer.

Not every message can be sent: a connection takes an error only if its name is one
(`isSendable`).
-/

namespace DBus

/-- The types of messages. -/
inductive MessageType
  | call
  | reply
  | error
  | signal
deriving DecidableEq, Repr

/-- The header fields that are looked at or filled in. -/
structure DynHeader where
  interface : Option String := none
  member : Option String := none
  object : Option ObjectPath := none
  destination : Option String := none
  sender : Option String := none
  serial : Option Nat := none
  responseSerial : Option Nat := none
  errorName : Option String := none
deriving DecidableEq

/-- A message. -/
structure MarshalledMessage where
  typ : MessageType
  dynheader : DynHeader
  body : Body

namespace DynHeader

/-- An empty reply to the call with this header. -/
def makeResponse (h : DynHeader) : MarshalledMessage where
  typ := .reply
  dynheader := { destination := h.sender, responseSerial := h.serial }
  body := []

/-- An error reply to the call with this header, with an optional text. -/
def makeErrorResponse (h : DynHeader) (errorName : String) (errorMsg : Option String) :
    MarshalledMessage where
  typ := .error
  dynheader := { destination := h.sender, responseSerial := h.serial, errorName := some errorName }
  body := (errorMsg.map fun text ↦ (⟨sig String, .base text⟩ : Sigma Val)).toList

/-- The error reply to a call of a method that does not exist. -/
def unknownMethod (h : DynHeader) : MarshalledMessage :=
  h.makeErrorResponse "org.freedesktop.DBus.Error.UnknownMethod"
    (some ("No calls to " ++ h.interface.getD "" ++ "." ++ h.member.getD "" ++
      " are accepted for object " ++ (h.object.map fun p ↦ String.ofList p.toChars).getD ""))

end DynHeader

/-- A method call as it arrives at the object `path`.  Of the header fields a call has
to have the object and the member; the interface is optional. -/
structure MethodCall (path : ObjectPath) where
  member : String
  interface : Option String := none
  destination : Option String := none
  sender : Option String := none
  serial : Option Nat := none
  body : Body := []

/-- The message that arrives. -/
def MethodCall.toMessage {path : ObjectPath} (call : MethodCall path) : MarshalledMessage where
  typ := .call
  dynheader :=
    { interface := call.interface
      member := some call.member
      object := some path
      destination := call.destination
      sender := call.sender
      serial := call.serial }
  body := call.body

/-- `m` answers the call with header `h`: it is a response or an error, and goes back to
where the call came from. -/
structure Answers (m : MarshalledMessage) (h : DynHeader) : Prop where
  typ : m.typ = .reply ∨ m.typ = .error
  destination : m.dynheader.destination = h.sender
  responseSerial : m.dynheader.responseSerial = h.serial

theorem answers_makeResponse (h : DynHeader) : Answers h.makeResponse h := ⟨.inl rfl, rfl, rfl⟩

theorem answers_makeErrorResponse (h : DynHeader) (errorName : String)
    (errorMsg : Option String) : Answers (h.makeErrorResponse errorName errorMsg) h :=
  ⟨.inr rfl, rfl, rfl⟩

/-- An error is not a response. -/
theorem makeErrorResponse_ne (h h' : DynHeader) (errorName : String) (errorMsg : Option String) :
    h.makeErrorResponse errorName errorMsg ≠ h'.makeResponse := by
  intro heq
  have htyp := congrArg MarshalledMessage.typ heq
  contradiction

theorem answers_unknownMethod (h : DynHeader) : Answers h.unknownMethod h :=
  answers_makeErrorResponse ..

/-- A response stays one when its body is filled in. -/
theorem Answers.withBody {m : MarshalledMessage} {h : DynHeader} (hm : Answers m h)
    (body : Body) : Answers { m with body := body } h := ⟨hm.typ, hm.destination, hm.responseSerial⟩

/-! ## What can be sent -/

/-- What may stand between two dots of the name of an error. -/
def IsNameElement (e : List Char) : Prop := IsElement e ∧ e.head?.all (!·.isDigit) = true

instance (e : List Char) : Decidable (IsNameElement e) := inferInstanceAs (Decidable (_ ∧ _))

/-- The name of an error has at least two elements, and at most 255 characters. -/
def isErrorName (name : String) : Bool :=
  name.length ≤ 255 && 2 ≤ (name.toList.splitOn '.').length &&
    (name.toList.splitOn '.').all (IsNameElement ·)

/-- A connection takes the message: the name of its error, if it has one, is the name of one. -/
def MarshalledMessage.isSendable (m : MarshalledMessage) : Bool :=
  m.dynheader.errorName.all isErrorName

@[simp] theorem isSendable_makeResponse (h : DynHeader) : h.makeResponse.isSendable = true := rfl

@[simp] theorem isSendable_withBody (m : MarshalledMessage) (body : Body) :
    { m with body := body }.isSendable = m.isSendable := rfl

@[simp] theorem isSendable_makeErrorResponse (h : DynHeader) (errorName : String)
    (errorMsg : Option String) :
    (h.makeErrorResponse errorName errorMsg).isSendable = isErrorName errorName := rfl

theorem isSendable_unknownMethod (h : DynHeader) : h.unknownMethod.isSendable = true := by
  rw [DynHeader.unknownMethod, isSendable_makeErrorResponse]
  decide

end DBus
