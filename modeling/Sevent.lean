import Sevent.Basic
import Sevent.Trace
import Sevent.Chain
import Sevent.While
import Sevent.Loop.Context
import Sevent.Loop.NeverEarly
import Sevent.Loop.Dispatch
import Sevent.Loop.Posts
import Sevent.Loop.Ticks
import Sevent.Loop.Timing
import Sevent.Loop.Starvation
import Sevent.Loop.Again
import Sevent.Tcp.Conn
import Sevent.Tcp.WriteQueue
import Sevent.Tcp.HalfClose
import Sevent.Tcp.Contract
import Sevent.Tcp.Object
import Sevent.Tcp.Ownership
import Sevent.Tcp.Reopen
import Sevent.Tcp.Acceptor
import Sevent.Tls.Conn
import Sevent.Tls.VerifyName
import Sevent.Tls.Session
import Sevent.Tls.Channel
import Sevent.Tls.Flow
import Sevent.Tls.Writing
import Sevent.Tls.Feed
import Sevent.Tls.Rounds
import Sevent.Http.Parse
import Sevent.Http.Tokens
import Sevent.Http.Framing
import Sevent.Http.Stability
import Sevent.Http.Decimal
import Sevent.Http.Head
import Sevent.Http.Query
import Sevent.Stream
import Sevent.Http.Server
import Sevent.Http.Untouched
import Sevent.Http.Visit
import Sevent.Http.Idle
import Sevent.Http.Pipeline
import Sevent.Http.Quiet
import Sevent.Http.Requests
import Sevent.Http.Reached
import Sevent.Http.Respond
import Sevent.Http.Reparse
import Sevent.Http.HeaderList
import Sevent.Http.Lifecycle
import Sevent.Http.Exchange
import Sevent.Http.Handover
import Sevent.Ws.Frame
import Sevent.Ws.Utf8
import Sevent.Ws.Scalars
import Sevent.Decoder
import Sevent.Fips
import Sevent.Rfc4648
import Sevent.Ws.Digest
import Sevent.Ws.Base64
import Sevent.Ws.Sha1
import Sevent.Ws.Handshake
import Sevent.Ws.TokenLists
import Sevent.Ws.Offer
import Sevent.Ws.Response
import Sevent.Ws.Sent
import Sevent.Ws.Shutdown
import Sevent.Ws.Agreement
import Sevent.Ws.Contexts
import Sevent.Ws.Accord
import Sevent.Ws.Upgrade
import Sevent.Ws.Accept
import Sevent.Ws.Deflate
import Sevent.Ws.Conn
import Sevent.Ws.Receive
import Sevent.Ws.Session
import Sevent.Ws.Visit
import Sevent.Ws.Moves
import Sevent.Ws.Acts
import Sevent.Ws.Work
import Sevent.Ws.Steps
import Sevent.Ws.Bypass
import Sevent.Ws.Delivery
import Sevent.Ws.Terminal
import Sevent.Ws.Parting
import Sevent.Ws.Verdict
import Sevent.Ws.ClientOpen
import Sevent.Ws.Gentle
import Sevent.Ws.Mild
import Sevent.Ws.Wire
import Sevent.Ws.Codec
import Sevent.Ws.Pump
import Sevent.Ws.Sink
import Sevent.Ws.Reassembly
import Sevent.Ws.Plain
import Sevent.Ws.Leaves
import Sevent.Ws.Shown
import Sevent.Ws.Unmasking
import Sevent.Ws.Ledger
import Sevent.Ws.Totals
import Sevent.Ws.Room
import Sevent.Ws.Residue
import Sevent.Ws.Inflate
import Sevent.Ws.Stored
import Sevent.Ws.Packed
import Sevent.Ws.Lone
import Sevent.Ws.Compress
import Sevent.Ws.Transmit
import Sevent.Ws.OverTcp
import Sevent.Ws.Transfer
import Sevent.Ws.Alone
import Sevent.Ws.BadData
import Sevent.Http.Connections
