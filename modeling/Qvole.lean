import Qvole.Cli.Command
import Qvole.Cli.Flags
import Qvole.Cli.Proof.Command
import Qvole.Cli.Proof.Flags
import Qvole.Config.Env
import Qvole.Config.Proof.Bounds
import Qvole.Copy.Bidirectional
import Qvole.Copy.Proof.Bytes
import Qvole.Copy.Proof.Steps
import Qvole.Copy.Proof.Stream
import Qvole.Exchange.Connect
import Qvole.Exchange.Handshake
import Qvole.Exchange.Hex
import Qvole.Exchange.Loop
import Qvole.Exchange.Proof.Adopted
import Qvole.Exchange.Proof.Advertised
import Qvole.Exchange.Proof.Agreement
import Qvole.Exchange.Proof.Binding
import Qvole.Exchange.Proof.Candidates
import Qvole.Exchange.Proof.Codecs
import Qvole.Exchange.Proof.Formats
import Qvole.Exchange.Proof.Order
import Qvole.Exchange.Proof.Panics
import Qvole.Exchange.Proof.Payload
import Qvole.Exchange.Proof.Read
import Qvole.Exchange.Proof.Reflection
import Qvole.Exchange.Proof.Target
import Qvole.Exchange.Proof.Turns
import Qvole.Exchange.Punch
import Qvole.Exchange.Register
import Qvole.Exec.Command
import Qvole.Exec.Proof.Bridged
import Qvole.Exec.Proof.Command
import Qvole.Exec.Proof.Run
import Qvole.Exec.Run
import Qvole.Lib.Alone
import Qvole.Lib.Brackets
import Qvole.Lib.Bytes
import Qvole.Lib.Locks
import Qvole.Lib.Log
import Qvole.Lib.Outcome
import Qvole.Lib.Permits
import Qvole.Lib.Run
import Qvole.Lib.Source
import Qvole.Lib.Table
import Qvole.Lib.Threads
import Qvole.Lib.Utf8
import Qvole.Lib.Window
import Qvole.Net.Addr
import Qvole.Net.Parse
import Qvole.Net.Proof.Port
import Qvole.Net.Proof.RoundTrip
import Qvole.Net.Resolver
import Qvole.Pipe.Proof.HalfClose
import Qvole.Pipe.Proof.Progress
import Qvole.Pipe.Proof.StdinReader
import Qvole.Pipe.Stdin
import Qvole.Pipe.StdinReader
import Qvole.Relay.Concurrent
import Qvole.Relay.Hex
import Qvole.Relay.Proof.Alone
import Qvole.Relay.Proof.Answers
import Qvole.Relay.Proof.Attached
import Qvole.Relay.Proof.Caps
import Qvole.Relay.Proof.Counters
import Qvole.Relay.Proof.Delivery
import Qvole.Relay.Proof.Drain
import Qvole.Relay.Proof.DropLog
import Qvole.Relay.Proof.Entries
import Qvole.Relay.Proof.Forgets
import Qvole.Relay.Proof.Frame
import Qvole.Relay.Proof.Holds
import Qvole.Relay.Proof.KeepAlive
import Qvole.Relay.Proof.LatestCookie
import Qvole.Relay.Proof.Ledger
import Qvole.Relay.Proof.Limits
import Qvole.Relay.Proof.Links
import Qvole.Relay.Proof.LockOrder
import Qvole.Relay.Proof.Represents
import Qvole.Relay.Proof.Rooms
import Qvole.Relay.Proof.Routability
import Qvole.Relay.Proof.Serial
import Qvole.Relay.Proof.Serve
import Qvole.Relay.Proof.Steps
import Qvole.Relay.Proof.Tables
import Qvole.Relay.Proof.Trim
import Qvole.Relay.Proof.Uninterrupted
import Qvole.Relay.Proof.Waiting
import Qvole.Relay.Proof.Wire
import Qvole.Relay.Room
import Qvole.Relay.Sections
import Qvole.Relay.Serve
import Qvole.Relay.Server
import Qvole.Relay.Threads
import Qvole.Spake2.Code
import Qvole.Spake2.Curve
import Qvole.Spake2.Pake
import Qvole.Spake2.Proof.Codes
import Qvole.Spake2.Proof.Confirm
import Qvole.Spake2.Proof.Panics
import Qvole.Spake2.Proof.Points
import Qvole.Tunnel.Allow
import Qvole.Tunnel.Config
import Qvole.Tunnel.Idle
import Qvole.Tunnel.Proof.Allowlist
import Qvole.Tunnel.Proof.Announce
import Qvole.Tunnel.Proof.Capacity
import Qvole.Tunnel.Proof.Config
import Qvole.Tunnel.Proof.Delivered
import Qvole.Tunnel.Proof.Dial
import Qvole.Tunnel.Proof.Ends
import Qvole.Tunnel.Proof.Handlers
import Qvole.Tunnel.Proof.HostPort
import Qvole.Tunnel.Proof.Idle
import Qvole.Tunnel.Proof.Lines
import Qvole.Tunnel.Proof.Parts
import Qvole.Tunnel.Proof.Reading
import Qvole.Tunnel.Proof.Spec
import Qvole.Tunnel.Proof.Tasks
import Qvole.Tunnel.Proof.Through
import Qvole.Tunnel.Request
import Qvole.Tunnel.Spec
import Qvole.Tunnel.Stream
import Qvole.Tunnel.Tasks
import Qvole.Tunnel.Through
