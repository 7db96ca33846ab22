import KestrelSdk.Asyncio.Lock
import KestrelSdk.Asyncio.Machine
import KestrelSdk.Asyncio.Effects
import KestrelSdk.Subprocess.State
import KestrelSdk.Subprocess.Retirement
import KestrelSdk.Subprocess.Operations
import KestrelSdk.Subprocess.Stop
import KestrelSdk.Subprocess.Step
import KestrelSdk.Subprocess.Custody
import KestrelSdk.Subprocess.Records
import KestrelSdk.Subprocess.Transfer
import KestrelSdk.Subprocess.Retire
import KestrelSdk.Subprocess.Hold
import KestrelSdk.Subprocess.Invariant
import KestrelSdk.Subprocess.Events
import KestrelSdk.Subprocess.Callers
import KestrelSdk.Subprocess.Claims
import KestrelSdk.Subprocess.Start
import KestrelSdk.Subprocess.Stopping
import KestrelSdk.Subprocess.Detach
import KestrelSdk.Subprocess.Run
import KestrelSdk.Subprocess.Book
import KestrelSdk.Subprocess.Outcome
import KestrelSdk.Subprocess.Ownership
import KestrelSdk.Subprocess.Ledger
import KestrelSdk.Subprocess.RetireEffects
import KestrelSdk.Subprocess.CallEffects
import KestrelSdk.Subprocess.StopEffects
import KestrelSdk.Subprocess.AtMostOnce
import KestrelSdk.Subprocess.Generation
import KestrelSdk.Subprocess.ConfigRetention
import KestrelSdk.Json.Value
import KestrelSdk.Json.Encode
import KestrelSdk.Json.Decode
import KestrelSdk.Json.Plain
import KestrelSdk.Json.RoundTrip
import KestrelSdk.Json.Bytes
import KestrelSdk.Json.Progress
import KestrelSdk.Protocol.Message
import KestrelSdk.Protocol.Ingress
import KestrelSdk.Protocol.Capabilities
import KestrelSdk.Protocol.Context
import KestrelSdk.Protocol.Tools
import KestrelSdk.Protocol.Wire
import KestrelSdk.Protocol.Grammar
import KestrelSdk.Encoding.Base64
import KestrelSdk.Security.Aead
import KestrelSdk.Security.Token
import KestrelSdk.Client.Desk
import KestrelSdk.Client.Mail
import KestrelSdk.Client.Engine
import KestrelSdk.Client.Signals
import KestrelSdk.Client.State
import KestrelSdk.Client.Step
import KestrelSdk.Client.Fence
import KestrelSdk.Client.Moves
import KestrelSdk.Client.Table
import KestrelSdk.Client.Pairing
import KestrelSdk.Client.Queue
import KestrelSdk.Client.Waiters
import KestrelSdk.Client.Order
import KestrelSdk.Client.Events
import KestrelSdk.Client.Gaps
import KestrelSdk.Client.Closing
import KestrelSdk.Client.Closed
import KestrelSdk.Order.Greedy
import KestrelSdk.Features.Setup
import KestrelSdk.Features.SetupOrder
import KestrelSdk.Frozen.Walk
import KestrelSdk.Frozen.Bill
import KestrelSdk.Frozen.Measure
import KestrelSdk.Frozen.Account
import KestrelSdk.Frozen.Size
import KestrelSdk.Frozen.Thaw
import KestrelSdk.Frozen.Hash
import KestrelSdk.Frozen.Agree
import KestrelSdk.Stdio.Writer
import KestrelSdk.Stdio.Flow
import KestrelSdk.Stdio.Drains
import KestrelSdk.Stdio.Delivery
import KestrelSdk.Encoding.Strip
import KestrelSdk.Encoding.Words
import KestrelSdk.Encoding.IsoFormat
import KestrelSdk.Security.Salt
import KestrelSdk.Security.SaltFile
import KestrelSdk.Security.DataKey
import KestrelSdk.Security.Keyring
import KestrelSdk.Security.Ring
import KestrelSdk.Security.Opening
import KestrelSdk.Security.Routes
import KestrelSdk.Security.Reading
import KestrelSdk.Security.Sibling
import KestrelSdk.Json.Sorted
import KestrelSdk.Order.Mapping
import KestrelSdk.Commands.Tokens
import KestrelSdk.Commands.Parse
import KestrelSdk.Commands.Routing
import KestrelSdk.Commands.Quoting
import KestrelSdk.Protocol.Discovery
import KestrelSdk.Protocol.Provenance
import KestrelSdk.ComputerUse.Models
import KestrelSdk.ComputerUse.Acquisition
import KestrelSdk.ComputerUse.Custody
import KestrelSdk.ComputerUse.Codec
import KestrelSdk.ComputerUse.Bounds
import KestrelSdk.ComputerUse.Private
import KestrelSdk.Tools.Result
import KestrelSdk.Tools.Deferred
import KestrelSdk.Tools.Delivery
import KestrelSdk.Tools.Capability
import KestrelSdk.Tools.Parts
import KestrelSdk.Tools.Riding
import KestrelSdk.Subprocess.Hosted
import KestrelSdk.Subprocess.Unsent
import KestrelSdk.Security.Outbound
import KestrelSdk.Security.Pinned
import KestrelSdk.Asyncio.ContextVar
import KestrelSdk.Service.Requests
import KestrelSdk.Service.Scope
import KestrelSdk.ComputerUse.HumanControl
import KestrelSdk.Encoding.Calendar
import KestrelSdk.ComputerUse.Spelling
import KestrelSdk.ComputerUse.Zones
import KestrelSdk.ComputerUse.Payload
import KestrelSdk.ComputerUse.Originals
import KestrelSdk.ComputerUse.Binding
import KestrelSdk.ComputerUse.RequireOriginal
import KestrelSdk.Llm.PublicKeys
import KestrelSdk.Llm.PublicMetadata
import KestrelSdk.Json.Repr
import KestrelSdk.Tools.Coercion
import KestrelSdk.Tools.Arguments
import KestrelSdk.Tools.Validation
import KestrelSdk.Encoding.Url
import KestrelSdk.Encoding.Unquote
import KestrelSdk.Operator.Href
import KestrelSdk.Security.Canonical
import KestrelSdk.Json.Utf8
import KestrelSdk.Json.Equal
import KestrelSdk.Frozen.Decode
import KestrelSdk.Frozen.Embed
import KestrelSdk.Llm.Decisions
import KestrelSdk.Llm.DecisionRequests
import KestrelSdk.Features.Owner
import KestrelSdk.Tracing.Identity
import KestrelSdk.Storage.Records
import KestrelSdk.Training.Records
import KestrelSdk.Artifacts.Paths
import KestrelSdk.Artifacts.Manifest
import KestrelSdk.Workspaces.Transfer
import KestrelSdk.Regex.Backtrack
import KestrelSdk.Validation.SemanticVersion
import KestrelSdk.Operator.Discovery
import KestrelSdk.Numbers.Double
import KestrelSdk.Llm.InferenceLease
import KestrelSdk.Testing.Conformance
import KestrelSdk.Testing.Streaming
import KestrelSdk.Encoding.Unsplit
import KestrelSdk.Storage.Privacy
import KestrelSdk.Graph.DepthFirst
import KestrelSdk.Exceptions.Discard
import KestrelSdk.Graph.Traversal
import KestrelSdk.Exceptions.Evidence
import KestrelSdk.Json.Loaded
import KestrelSdk.Service.Handle
import KestrelSdk.Service.Frames
import KestrelSdk.Service.Serve
import KestrelSdk.Service.Fence
import KestrelSdk.Asyncio.Queue
import KestrelSdk.Service.Turns
import KestrelSdk.Service.Jobs
import KestrelSdk.Service.Replies
import KestrelSdk.Service.Lines
import KestrelSdk.Asyncio.StreamReader
import KestrelSdk.Protocol.Envelope
import KestrelSdk.Service.Streams
import KestrelSdk.Service.Oversize
import KestrelSdk.Client.Leases
import KestrelSdk.Client.Firsts
import KestrelSdk.Service.Posting
import KestrelSdk.Service.Interleaving
import KestrelSdk.Service.Ledger
import KestrelSdk.Service.Transitions
import KestrelSdk.Service.Accounts
import KestrelSdk.Link.Frames
import KestrelSdk.Link.Streams
import KestrelSdk.Link.Agreement
import KestrelSdk.Service.Hooks
import KestrelSdk.Client.Calls
import KestrelSdk.Link.Calls
import KestrelSdk.Service.Barrier
import KestrelSdk.Client.Lifecycle
import KestrelSdk.Service.Emissions
import KestrelSdk.Link.Events
import KestrelSdk.Stdio.Reader
