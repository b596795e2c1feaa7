import NexusProxy.Lib.Transition
import NexusProxy.Lib.Threads
import NexusProxy.Lib.FixedWidth
import NexusProxy.Lib.Semaphore
import NexusProxy.Lib.SwapRemove
import NexusProxy.Lib.Readers
import NexusProxy.Lib.Checks
import NexusProxy.Lib.Collections
import NexusProxy.Lib.Calls
import NexusProxy.Lib.RoundRobin
import NexusProxy.Lib.Accrual
import NexusProxy.Lib.Multiplexer
import NexusProxy.Lib.NestedMaps
import NexusProxy.Lib.LinkedList
import NexusProxy.Lib.Budget
import NexusProxy.Lib.Slices
import NexusProxy.Lib.Recognizers
import NexusProxy.Protocol
import NexusProxy.Hostnames
import NexusProxy.Hostnames.Canonical
import NexusProxy.Client.CreditLedger
import NexusProxy.Client.LedgerSteps
import NexusProxy.Client.LedgerInvariants
import NexusProxy.Client.Connection
import NexusProxy.Client.ConnSteps
import NexusProxy.Client.Wakeup
import NexusProxy.Client.LedgerRuns
import NexusProxy.Client.OverSend
import NexusProxy.Client.Teardown
import NexusProxy.Client.Sessions
import NexusProxy.Client.LocalDial
import NexusProxy.Client.PortMapping
import NexusProxy.Client.Socks5
import NexusProxy.Client.Socks5Target
import NexusProxy.Client.OutboundRequests
import NexusProxy.Client.LocalDelivery
import NexusProxy.Client.TokenProviders
import NexusProxy.Flow.ReverseCredits
import NexusProxy.Flow.ForwardCredits
import NexusProxy.Client.Gauges
import NexusProxy.Flow.ForwardOverflow
import NexusProxy.Flow.PauseResume
import NexusProxy.Hub.LoadBalancer
import NexusProxy.Hub.Registry
import NexusProxy.Hub.LocalRoutes
import NexusProxy.Hub.Fairness
import NexusProxy.Hub.Claims
import NexusProxy.Hub.PortClaims
import NexusProxy.Hub.UDPRouteClaims
import NexusProxy.Hub.UDPIdleTimeouts
import NexusProxy.Hub.Handshake
import NexusProxy.Hub.Validator
import NexusProxy.Hub.CloseReason
import NexusProxy.Hub.ClientMaps
import NexusProxy.Hub.ClientStart
import NexusProxy.Hub.GracefulClose
import NexusProxy.Hub.BufferedConn
import NexusProxy.Hub.ClientStreams
import NexusProxy.Hub.Outbound
import NexusProxy.Hub.OutboundLimit
import NexusProxy.Hub.OutboundSlots
import NexusProxy.Hub.OutboundCancel
import NexusProxy.Hub.Reauth
import NexusProxy.Hub.ReauthExchange
import NexusProxy.Hub.ChallengeResponse
import NexusProxy.Hub.Maintenance
import NexusProxy.Routing.Table
import NexusProxy.Proxy.Sniff
import NexusProxy.Proxy.Listener
import NexusProxy.Proxy.Frames
import NexusProxy.Proxy.PortRoutes
import NexusProxy.Proxy.UDPFlowTable
import NexusProxy.Proxy.UDPListener
import NexusProxy.Peer.Frames
import NexusProxy.Peer.Tunnel
import NexusProxy.Peer.TunnelClose
import NexusProxy.Peer.TunnelReturns
import NexusProxy.Peer.TunnelCredits
import NexusProxy.Peer.Announcements
import NexusProxy.Peer.UDPFlows
import NexusProxy.Peer.FlowTable
import NexusProxy.Peer.FlowTableRefinement
import NexusProxy.Peer.UDPRegistrations
import NexusProxy.Bandwidth.ActiveCount
import NexusProxy.Bandwidth.SharedRefs
import NexusProxy.Bandwidth.Refill
import NexusProxy.Bandwidth.Deficits
import NexusProxy.Bandwidth.Calls
import NexusProxy.Bandwidth.Bounds
import NexusProxy.Bandwidth.Credits
import NexusProxy.Client.HMACTokens
import NexusProxy.Client.Downstream
import NexusProxy.Client.Upstream
