import Rustable.Gatt.Basic

/-!
# The client side

`gatt/client.rs`, and of `lib.rs` the properties of adapters and devices: the messages
that are sent and what is made of the replies.  A method of the client that sends a
call is split in two, the message it builds (`none` where pushing a parameter panics)
and the reading of the reply.
-/

namespace Rustable.Gatt.Client

open DBus

/-! ## Attributes and their UUIDs -/

/-- A service, characteristic or descriptor of a remote device.  The connection is left
out. -/
structure Attribute where
  path : ObjectPath
  uuid : UUID

/-- What `get_service`, `get_char` and `get_desc` make of the reply to the request for
the UUID. -/
def uuidOfReply (res : MarshalledMessage) : MayFail (Option UUID) :=
  match (isMsgErr BluezOptions res).run with
  | some (.ok (.str s)) => match (UUID.fromStr s.toList).run with
    | some (.ok u) => pure (some u)
    | some (.error _) => pure none
    | none => .panic
  | some _ => pure none
  | none => .panic

/-- `name.starts_with(prefix)` for the last element of a path. -/
def namedLike (kind : String) (child : ObjectPath) : Bool :=
  match child.fileName with
  | some name => kind.toList.isPrefixOf name
  | none => false

/-- What the three lookups have in common: children with another name are skipped, and
so are those that do not answer with a UUID. -/
def lookupAttribute (kind : String) (child : ObjectPath) (res : MarshalledMessage) :
    MayFail (Option Attribute) :=
  match child.fileName with
  | none => .panic
  | some _ =>
      if namedLike kind child then do
        match ← uuidOfReply res with
        | some uuid => return some { path := child, uuid := uuid }
        | none => return none
      else return none

/-- `Service::get_service` -/
def getService := lookupAttribute "service"

/-- `Characteristic::get_char` -/
def getChar := lookupAttribute "char"

/-- `Descriptor::get_desc` -/
def getDesc := lookupAttribute "desc"

/-- `Service::get_includes`, up to the lookup of the services. -/
def includesOfReply (res : MarshalledMessage) : MayFail (List ObjectPath) := do
  match ← isMsgErr BluezOptions res with
  | .paths ps => return ps
  | _ => throw (.dbus "Variant was wrong type!")

/-! ## Methods of a characteristic -/

/-- `Characteristic::build_call`, with the name of the method filled in. -/
def buildCall (path : ObjectPath) (member : String) (body : Body) : MarshalledMessage where
  typ := .call
  dynheader :=
    { interface := some bluezChrIf
      member := some member
      object := some path
      destination := some bluezDest }
  body := body

/-- The options of a method call. -/
abbrev Options := HashMap String BluezOptions

/-- `Characteristic::read_value` -/
def readValueCall (path : ObjectPath) (offset : UInt16) : Option MarshalledMessage := do
  let options : Options := (∅ : Options).insert "offset" (.u16 offset)
  let body ← Body.pushParam [] options
  return buildCall path "ReadValue" body

/-- The reply to `read_value`. -/
def readValueReply (res : MarshalledMessage) : MayFail AttBytes := do
  let value ← isMsgErr (List UInt8) res
  match fits value with
  | some v => return v
  | none => throw (.bluez "AttValue received was too long!")

/-- `Characteristic::write_value_base` -/
def writeValueBase (path : ObjectPath) (value : AttBytes) (options : Options) :
    Option MarshalledMessage := do
  let body ← Body.pushParam [] value
  let body ← body.pushParam options
  return buildCall path "WriteValue" body

/-- The options of `write_value` (`"request"`) and `write_value_wo_response`
(`"command"`). -/
def writeOptions (offset : UInt16) (kind : String) : Options :=
  ((∅ : Options).insert "offset" (.u16 offset)).insert "type" (.str kind)

/-- `Characteristic::acquire_notify` and `Characteristic::acquire_write` -/
def acquireCall (path : ObjectPath) (member : String) : Option MarshalledMessage := do
  let body ← Body.pushParam [] (∅ : Options)
  return buildCall path member body

/-- The reply to both: the socket and its MTU. -/
def acquireReply (res : MarshalledMessage) : MayFail (UnixFd × UInt16) :=
  isMsgErr2 UnixFd UInt16 res

/-- `struct WriteSocket` -/
structure WriteSocket where
  sock : UnixFd
  mtu : UInt16

/-- What `acquire_write` makes of the reply. -/
def acquireWriteReply (res : MarshalledMessage) : MayFail WriteSocket := do
  let (fd, mtu) ← acquireReply res
  return { mtu := mtu, sock := fd }

/-- `WriteSocket::write`: the datagram that is sent. -/
def WriteSocket.write (self : WriteSocket) (val : AttBytes) : List UInt8 :=
  val.bytes.take (min val.bytes.length self.mtu.toNat)

/-- `struct NotifySocket` -/
structure NotifySocket where
  sock : UnixFd
  mtu : UInt16

/-- What `acquire_notify` makes of the reply. -/
def acquireNotifyReply (res : MarshalledMessage) : MayFail NotifySocket := do
  let (fd, mtu) ← acquireReply res
  return { sock := fd, mtu := mtu }

/-- `NotifySocket::recv_notification`, with the datagram that `recv` reads and what
`is_hung_up` returns. -/
def recvNotification (datagram : List UInt8) (isHungUp : Except IoError Bool) :
    Option (Except IoError AttBytes) :=
  -- `let mut buf = [0; 512]`
  let buf := datagram.take 512
  if buf.length = 0 ∧ isHungUp.toOption.getD false = true then some (.error .notConnected)
  else (fits buf).map .ok

/-- What is received is returned, unless it is empty and the socket has hung up. -/
theorem recvNotification_eq {v : AttBytes} {isHungUp : Except IoError Bool}
    (h : v.bytes = [] → isHungUp ≠ .ok true) :
    recvNotification v.bytes isHungUp = some (.ok v) := by
  have htake : v.bytes.take 512 = v.bytes := List.take_of_length_le v.length_le
  rw [recvNotification, htake]
  have hopen : ¬(v.bytes.length = 0 ∧ isHungUp.toOption.getD false = true) := by
    rintro ⟨hempty, hhungUp⟩
    refine h (List.eq_nil_of_length_eq_zero hempty) ?_
    match isHungUp, hhungUp with
    | .ok true, _ => rfl
  rw [if_neg hopen, fits_of_le v.length_le]
  rfl

/-- The end of a socket that has hung up is reported. -/
theorem recvNotification_hungUp :
    recvNotification [] (.ok true) = some (.error .notConnected) := rfl

/-- `Characteristic::flags` -/
def flagsOfReply (res : MarshalledMessage) : MayFail CharFlags := do
  let props ← isMsgErr (List String) res
  match CharFlags.fromStrings props with
  | some flags => return flags
  | none => .panic

/-! ## Methods of a descriptor -/

/-- `Descriptor::build_call`, with the name of the method filled in. -/
def Descriptor.buildCall (path : ObjectPath) (member : String) (body : Body) :
    MarshalledMessage where
  typ := .call
  dynheader :=
    { interface := some bluezDesIf
      member := some member
      object := some path
      destination := some bluezDest }
  body := body

/-- `Descriptor::read_value` -/
def Descriptor.readValueCall (path : ObjectPath) (offset : UInt16) :
    Option MarshalledMessage := do
  let options : Options := (∅ : Options).insert "offset" (.u16 offset)
  let body ← Body.pushParam [] options
  return buildCall path "ReadValue" body

/-- The reply to `read_value`. -/
def Descriptor.readValueReply (res : MarshalledMessage) : MayFail AttBytes := do
  let value ← isMsgErr (List UInt8) res
  match fits value with
  | some v => return v
  | none => throw (.bluez "AttValue received was too long!")

/-! ## Adapters and devices -/

/-- `{:?}` of an `IDParseError`. -/
def debugParseError : IDParseError → String
  | .invalidLength => "InvalidLength"
  | .invalidDelimiter => "InvalidDelimiter"
  | .invalidRadix => "InvalidRadix"

/-- `Adapter::addr` -/
def addrOfReply (res : MarshalledMessage) : MayFail MAC := do
  match ← isMsgErr BluezOptions res with
  | .str s => match (MAC.fromStr s.toList).run with
    | some (.ok mac) => return mac
    | some (.error e) =>
        throw (.bluez ("Invalid address received: " ++ s ++ " (" ++ debugParseError e ++ ")"))
    | none => .panic
  | _ => throw (.bluez "Received invalid type for address!")

/-- `Adapter::get_powered` -/
def poweredOfReply (res : MarshalledMessage) : MayFail Bool := isMsgErr Bool res

/-- `Device::connected` -/
def connectedOfReply (res : MarshalledMessage) : MayFail Bool := do
  match ← isMsgErr BluezOptions res with
  | .bool b => return b
  | _ => throw (.bluez "Bluez returned unexpected type!")

end Rustable.Gatt.Client
