import DataBroker.Lib.Method
import DataBroker.Lib.Transition
import DataBroker.Lib.BigEndian
import DataBroker.Lib.HashMap
import DataBroker.Lib.Locks
import DataBroker.Lib.Tiling
import DataBroker.Lib.Memory
import DataBroker.Lib.Framing
import DataBroker.Lib.FairLock
import DataBroker.Lib.Program
import DataBroker.Lib.Contract
import DataBroker.Lib.Completion
import DataBroker.Lib.Parking
import DataBroker.Lib.Session
import DataBroker.Lib.Alone
import DataBroker.Lib.Notify
import DataBroker.Lib.Utf8
import DataBroker.Lib.Largest
import DataBroker.Lib.Reader
import DataBroker.Lib.Regex
import DataBroker.Queue.Basic
import DataBroker.Queue.Order
import DataBroker.Queue.Calls
import DataBroker.Queue.Ownership
import DataBroker.Queue.Unconfigured
import DataBroker.Queue.Retention
import DataBroker.Queue.Contents
import DataBroker.Queue.Refusals
import DataBroker.Queue.Requeue
import DataBroker.Queue.Nack
import DataBroker.Queue.AutoFail
import DataBroker.Queue.Expiry
import DataBroker.Queue.Isolation
import DataBroker.Queue.Cursor
import DataBroker.Queue.Line
import DataBroker.Queue.Ascending
import DataBroker.Queue.Keyed
import DataBroker.Queue.Arrival
import DataBroker.Queue.Delivery
import DataBroker.Queue.Biggest
import DataBroker.Queue.Tombstones
import DataBroker.Memory.Layout
import DataBroker.Memory.FreeList
import DataBroker.Memory.Allocator
import DataBroker.Memory.Accounting
import DataBroker.Memory.Recovery
import DataBroker.Memory.Threads
import DataBroker.Memory.Races
import DataBroker.Memory.Sequential
import DataBroker.Server.Response
import DataBroker.Server.Request
import DataBroker.Server.Registry
import DataBroker.Server.Names
import DataBroker.Server.Payloads
import DataBroker.Server.Handlers
import DataBroker.Server.Client
import DataBroker.Server.Writes
import DataBroker.Server.Discipline
import DataBroker.Server.Answers
import DataBroker.Server.Serving
import DataBroker.Server.Linearization
import DataBroker.Server.Provenance
import DataBroker.Server.Queues
import DataBroker.Server.Deadlock
import DataBroker.Server.Workers
import DataBroker.Server.Completion
import DataBroker.Server.Drain
import DataBroker.Server.Connections
import DataBroker.Server.Orphans
import DataBroker.Server.Shutdown
import DataBroker.Server.Guards
import DataBroker.Server.Pipelining
import DataBroker.Server.Handout
import DataBroker.Server.Reservation
import DataBroker.Server.Admission
import DataBroker.Server.Frames
import DataBroker.Server.Codecs
import DataBroker.Server.Pool
import DataBroker.Server.Pressure
import DataBroker.Server.Config
import DataBroker.Server.Settings
import DataBroker.Server.Arguments
import DataBroker.Server.Process
