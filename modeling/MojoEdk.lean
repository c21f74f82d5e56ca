import MojoEdk.Library.AssocList
import MojoEdk.Library.MultisetList
import MojoEdk.Library.LockTrace
import MojoEdk.Library.DepthFirst
import MojoEdk.Ports.Basic
import MojoEdk.Ports.Node
import MojoEdk.Ports.System
import MojoEdk.Ports.Net
import MojoEdk.Ports.Net.Shape
import MojoEdk.Ports.Net.Cargo
import MojoEdk.Ports.Net.Ring
import MojoEdk.Ports.Net.Sequence
import MojoEdk.Ports.Net.Front
import MojoEdk.Ports.Net.Collapse
import MojoEdk.Ports.Net.Answer
import MojoEdk.Ports.Refine
import MojoEdk.Ports.Refine.Calls
import MojoEdk.Ports.Refine.Events
import MojoEdk.Ports.Refine.Runs
import MojoEdk.Ports.Refine.Reachable
import MojoEdk.Ports.Routing
import MojoEdk.Ports.Ownership
import MojoEdk.Ports.Disconnection
import MojoEdk.Ports.Delivery
import MojoEdk.Ports.Refine.Losses
import MojoEdk.Ports.Every
import MojoEdk.Ports.Status
import MojoEdk.Ports.Threads
import MojoEdk.Ports.Bootstrap
import MojoEdk.Ports.Locks
import MojoEdk.Ports.Sending
import MojoEdk.Ports.Locked
import MojoEdk.Ports.Closing
import MojoEdk.Ports.Shutdown
import MojoEdk.Ports.Notification
import MojoEdk.Ports.Retry
import MojoEdk.Ports.Eager
import MojoEdk.Ports.Collapse
import MojoEdk.Ports.Skipping
import MojoEdk.Ports.Termination
import MojoEdk.Ports.MessageQueue
import MojoEdk.Channel.Reading
import MojoEdk.Channel.Batch
import MojoEdk.Channel.Writing
import MojoEdk.Channel.NodeChannel
import MojoEdk.Library.Memory
import MojoEdk.Channel.ReadBuffer
import MojoEdk.Channel.PortsMessage
import MojoEdk.Channel.Connection
import MojoEdk.Channel.NodeMessages
import MojoEdk.Core.Dispatcher
import MojoEdk.Core.HandleTable
import MojoEdk.Core.MessagePipe
import MojoEdk.Core.Transit
import MojoEdk.Core.WriteMessage
import MojoEdk.Core.WriteLocks
import MojoEdk.Core.Admission
import MojoEdk.Core.Decoding
import MojoEdk.Core.Handles
import MojoEdk.Core.Creation
import MojoEdk.Core.ReadMessage
import MojoEdk.Controller.Introductions
import MojoEdk.Controller.Messages
import MojoEdk.Controller.Queues
import MojoEdk.Controller.Reservations
import MojoEdk.Controller.Network
import MojoEdk.Controller.Transport
import MojoEdk.DataPipe.Conservation
import MojoEdk.DataPipe.Received
import MojoEdk.DataPipe.AllOrNone
import MojoEdk.DataPipe.Elements
import MojoEdk.DataPipe.Offsets
import MojoEdk.DataPipe.Stale
import MojoEdk.WaitSet.Locking
import MojoEdk.WaitSet.Nesting
import MojoEdk.WaitSet.Partition
import MojoEdk.WaitSet.Fairness
import MojoEdk.Core.WaitMany
import MojoEdk.Core.Waking
import MojoEdk.Ports.Quiescence
import MojoEdk.Controller.BootstrapRuns
import MojoEdk.Controller.Shutdowns
