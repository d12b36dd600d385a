import NetherNet.Library.Machine
import NetherNet.Library.Dict
import NetherNet.Signaling.Messages
import NetherNet.Transport.Framing
import NetherNet.Transport.FramingDelivery
import NetherNet.Transport.Sdp
import NetherNet.Session.Session
import NetherNet.Session.Loop
import NetherNet.Manager.Manager
import NetherNet.Session.Moves
import NetherNet.Session.Closing
import NetherNet.Manager.Steps
import NetherNet.Manager.Closing
import NetherNet.Session.Answering
import NetherNet.Manager.Answering
import NetherNet.Manager.Waiting
import NetherNet.Session.Provenance
import NetherNet.Manager.Provenance
import NetherNet.Session.Dialing
import NetherNet.Peers.Agreement
import NetherNet.Discovery.Packets
import NetherNet.Discovery.Crypto
import NetherNet.Discovery.Lan
import NetherNet.Api.Connection
import NetherNet.Api.Endpoint
import NetherNet.Manager.Histories
import NetherNet.Api.Settling
import NetherNet.Session.Opening
import NetherNet.Api.Http
import NetherNet.Api.Streams
import NetherNet.Library.Lines
import NetherNet.Library.Base64
import NetherNet.Library.Json
import NetherNet.Library.JsonRoundTrip
import NetherNet.Identity.Identity
import NetherNet.Identity.Verifying
import NetherNet.Identity.Binding
import NetherNet.Identity.Escaping
import NetherNet.Identity.Algorithms
import NetherNet.Identity.Signing
import NetherNet.Session.Candidates
import NetherNet.Manager.Ledger
import NetherNet.Manager.Candidates
import NetherNet.Library.ChunkFifo
import NetherNet.Transport.Fragmenting
import NetherNet.Transport.Reading
import NetherNet.Transport.Channels
import NetherNet.Session.Timing
import NetherNet.Identity.Inserting
import NetherNet.Transport.SdpLines
import NetherNet.Transport.LocalSdp
import NetherNet.Transport.StunIntegrity
import NetherNet.Protocol.Uuid
import NetherNet.Signaling.Parsing
import NetherNet.Api.HttpServer
import NetherNet.Session.Serving
import NetherNet.Api.Offers
import NetherNet.Manager.Buffers
import NetherNet.Api.Registry
import NetherNet.Api.Routing
import NetherNet.Api.Shutdown
import NetherNet.Discovery.LanEvents
import NetherNet.Protocol.NetworkTexts
import NetherNet.Discovery.LanNetwork
import NetherNet.Signaling.HttpAnswer
import NetherNet.Session.Requesting
import NetherNet.Api.HttpClient
import NetherNet.Api.Connecting
import NetherNet.Api.OfferTexts
import NetherNet.Peers.HttpPeers
import NetherNet.Session.DataChannels
import NetherNet.Peers.Delivery
import NetherNet.Api.Transport
import NetherNet.Peers.LanSegment
import NetherNet.Peers.LanPeers
import NetherNet.Api.Waiting
import NetherNet.Manager.Connecting
import NetherNet.Api.Ending
import NetherNet.Api.LanClient
import NetherNet.Api.LanConnecting
import NetherNet.Api.Handlers
import NetherNet.Api.Server
import NetherNet.Api.Serving
import NetherNet.Api.HttpHost
import NetherNet.Api.HttpServing
import NetherNet.Peers.LanSearch
