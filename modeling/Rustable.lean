import Rustable.Lib.Action
import Rustable.Lib.Cells
import Rustable.Lib.Fields
import Rustable.Lib.Fuel
import Rustable.Lib.Future
import Rustable.Lib.InsertionOrder
import Rustable.Lib.Keyed
import Rustable.Lib.Lts
import Rustable.Lib.Mailbox
import Rustable.Lib.Text
import Rustable.Lib.Decimal
import Rustable.Lib.TryJoin
import Rustable.Lib.Unordered
import Rustable.Lib.Xml
import Rustable.Lib.DBus.CallPaths
import Rustable.Lib.DBus.Path
import Rustable.Lib.DBus.Wire
import Rustable.Lib.DBus.Message
import Rustable.Id
import Rustable.Id.Alias
import Rustable.Id.Panics
import Rustable.Id.Grammar
import Rustable.Id.Checks
import Rustable.Options
import Rustable.Id.RoundTrip
import Rustable.Basic
import Rustable.Introspect
import Rustable.Children.Loops
import Rustable.Children.Documents
import Rustable.Children.Texts
import Rustable.Children.Streams
import Rustable.Properties
import Rustable.Advertising
import Rustable.Advertising.Registering
import Rustable.Advertising.Serving
import Rustable.Gatt.AttValue
import Rustable.Gatt.Basic
import Rustable.Gatt.Client
import Rustable.Gatt.Flags
import Rustable.Devices
import Rustable.Adapters
import Rustable.Gatt.Lookups
import Rustable.Gatt.Includes
import Rustable.Gatt.Server.OneTime
import Rustable.Gatt.Server.Worker
import Rustable.Gatt.Server.Descriptor
import Rustable.Gatt.Server.Characteristic
import Rustable.Gatt.Server.Service
import Rustable.Existence
import Rustable.Granting
import Rustable.Gatt.Readers
import Rustable.Gatt.Methods
import Rustable.Gatt.Server.Application
import Rustable.Gatt.Server.Containers
import Rustable.BusName
import Rustable.Gatt.Server.Register
import Rustable.Gatt.Server.Task
import Rustable.Gatt.Server.Unregister
import Rustable.Gatt.Server.Bounds
import Rustable.Gatt.Server.AppWorker
import Rustable.Gatt.Server.Granting
import Rustable.Gatt.Server.Delivery
import Rustable.Gatt.Server.Answering
import Rustable.Gatt.Server.Handle
import Rustable.Gatt.Server.Runs
import Rustable.Gatt.Server.Turns
import Rustable.Gatt.Server.Moves
import Rustable.Gatt.Server.Sessions
import Rustable.Gatt.Server.History
import Rustable.Gatt.Server.Subscribers
import Rustable.Gatt.Server.Serving
import Rustable.Gatt.Server.Filtering
import Rustable.Gatt.Server.Tree
import Rustable.Gatt.Server.Telling
import Rustable.Gatt.Server.Introspection
import Rustable.Children.Served
import Rustable.Gatt.Server.Managed
import Rustable.Gatt.Server.Mailboxes
import Rustable.Gatt.Server.Registers
import Rustable.Gatt.Server.Collecting
import Rustable.Gatt.Server.EventLoop
import Rustable.Gatt.Server.Polls
import Rustable.Gatt.Server.Iterations
import Rustable.Gatt.Server.Plumbing
import Rustable.Gatt.Server.HangUps
import Rustable.Gatt.Server.Settling
import Rustable.Gatt.Server.Writes
import Rustable.Gatt.Server.Reacquiring
import Rustable.Gatt.Server.WriteSockets
import Rustable.Gatt.Server.Attribute
import Rustable.Gatt.Server.NotifySockets
import Rustable.Gatt.Server.Frames
import Rustable.Gatt.Server.Answers
import Rustable.Gatt.Server.Identity
import Rustable.Gatt.Server.Recovered
import Rustable.Gatt.Server.Discovery
import Rustable.Gatt.Server.OffsetWrites
import Rustable.Gatt.Server.LongWrites
import Rustable.Gatt.Server.RemoteReads
import Rustable.Gatt.Server.Registering
import Rustable.Gatt.Server.CallPaths
import Rustable.CallPaths
