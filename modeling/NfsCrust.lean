import NfsCrust.Agreement
import NfsCrust.Attrs.Bitmap
import NfsCrust.Attrs.Decode
import NfsCrust.CallRules
import NfsCrust.Client
import NfsCrust.Codec
import NfsCrust.Compound
import NfsCrust.Connect.Handshake
import NfsCrust.Connect.Program
import NfsCrust.Connect.Replies
import NfsCrust.Connect.Sound
import NfsCrust.Connect.Welcome
import NfsCrust.DecoderSpec
import NfsCrust.Delivery
import NfsCrust.Error
import NfsCrust.Exchange
import NfsCrust.Latch.Machine
import NfsCrust.Latch.Owner
import NfsCrust.Latch.Refused
import NfsCrust.Lib.BigEndian
import NfsCrust.Lib.Bits
import NfsCrust.Lib.FileTree
import NfsCrust.Lib.Language
import NfsCrust.Lib.Ledger
import NfsCrust.Lib.Must
import NfsCrust.Lib.Observer
import NfsCrust.Lib.Prog
import NfsCrust.Lib.Ranges
import NfsCrust.Lib.Replay
import NfsCrust.Lib.Runs
import NfsCrust.Lib.StateExcept
import NfsCrust.Lib.Traces
import NfsCrust.Lib.Tracked
import NfsCrust.Lib.Transition
import NfsCrust.Lib.Utf8
import NfsCrust.Limits
import NfsCrust.Listing.Complete
import NfsCrust.Listing.Cursor
import NfsCrust.Listing.Program
import NfsCrust.Negotiation
import NfsCrust.OpCode
import NfsCrust.Ops
import NfsCrust.Path
import NfsCrust.Path.Components
import NfsCrust.Path.Scan
import NfsCrust.Put.Batches
import NfsCrust.Put.Closes
import NfsCrust.Put.Deferred
import NfsCrust.Put.Fallback
import NfsCrust.Put.Once
import NfsCrust.Put.Orphans
import NfsCrust.Put.Parents
import NfsCrust.Put.Program
import NfsCrust.Put.Publish
import NfsCrust.Put.Rules
import NfsCrust.Put.Tidy
import NfsCrust.Put.Writes
import NfsCrust.Read.Correct
import NfsCrust.Read.Entry
import NfsCrust.Read.Gets
import NfsCrust.Read.Honest
import NfsCrust.Read.Mismatch
import NfsCrust.Read.Pipelined
import NfsCrust.Read.Program
import NfsCrust.Read.Reassembly
import NfsCrust.Read.Served
import NfsCrust.Read.Tiling
import NfsCrust.Read.Versions
import NfsCrust.Reconnect.Coordinator
import NfsCrust.Reconnect.Generations
import NfsCrust.Reply
import NfsCrust.Request
import NfsCrust.Rpc.Framing
import NfsCrust.Rpc.Pending
import NfsCrust.Rpc.Reading
import NfsCrust.Rpc.Transport
import NfsCrust.Rpc.Writing
import NfsCrust.Safety.Compounds
import NfsCrust.Safety.Readers
import NfsCrust.Server.Counting
import NfsCrust.Server.Environment
import NfsCrust.Server.Events
import NfsCrust.Server.Keeps
import NfsCrust.Server.Names
import NfsCrust.Server.Paths
import NfsCrust.Server.Requests
import NfsCrust.Server.Script
import NfsCrust.Session
import NfsCrust.Setup
import NfsCrust.Slots.Active
import NfsCrust.Slots.Atomic
import NfsCrust.Slots.Life
import NfsCrust.Slots.Sequence
import NfsCrust.Slots.Table
import NfsCrust.Slots.Wakeup
import NfsCrust.Sweep.Counts
import NfsCrust.Sweep.Delete
import NfsCrust.Sweep.Program
import NfsCrust.Walk
import NfsCrust.Xdr
import NfsCrust.Xdr.Combined
import NfsCrust.Xdr.Items
import NfsCrust.Xdr.Language
