import PCom.Lib.Bytes
import PCom.Lib.OnesComplement
import PCom.Lib.Masks
import PCom.Lib.Bisection
import PCom.Lib.Runs
import PCom.Lib.Text
import PCom.Lib.Pieces
import PCom.Lib.Http
import PCom.Lib.Qsort
import PCom.Lib.LinkedList
import PCom.Lib.Refinement
import PCom.Lib.Framing
import PCom.Lib.Utf8
import PCom.Lib.Appending
import PCom.Lib.Scanning
import PCom.Lib.Rounding
import PCom.Lib.Strtod
import PCom.Lib.PrintDouble
import PCom.Lib.Floating
import PCom.Lib.Association
import PCom.Router.RoutingTable
import PCom.Router.RoutingTableLaws
import PCom.Router.SubnetMasks
import PCom.Router.InternetChecksum
import PCom.Router.LongestPrefixMatch
import PCom.Router.SortedTables
import PCom.Router.Packet
import PCom.Router.ChecksumLaws
import PCom.Router.Main
import PCom.Router.MainLaws
import PCom.Router.QueueDrain
import PCom.Router.Dispatch
import PCom.Router.Turns
import PCom.Router.LinkedQueue
import PCom.Router.LinkedDrain
import PCom.Router.ArpTable
import PCom.Router.HeldPackets
import PCom.Router.Originated
import PCom.Router.Conservation
import PCom.Router.ArpRequests
import PCom.Router.InterfaceRange
import PCom.Router.Residue
import PCom.Router.RouteFile
import PCom.Router.HeaderLength
import PCom.Router.IcmpPackets
import PCom.Router.EchoReplies
import PCom.PubSub.Protocol
import PCom.PubSub.Server
import PCom.PubSub.ServerLaws
import PCom.PubSub.Registry
import PCom.PubSub.Subscriptions
import PCom.PubSub.Handshake
import PCom.PubSub.Topics
import PCom.PubSub.StoreForward
import PCom.PubSub.Select
import PCom.PubSub.Survival
import PCom.PubSub.Delivery
import PCom.PubSub.Comeback
import PCom.PubSub.Subscriber
import PCom.PubSub.Codec
import PCom.PubSub.Printing
import PCom.PubSub.Bodies
import PCom.PubSub.Session
import PCom.PubSub.Interleaving
import PCom.PubSub.Segmentation
import PCom.PubSub.Commands
import PCom.PubSub.Arrivals
import PCom.Library.Requests
import PCom.Library.BufferSearch
import PCom.Library.Client
import PCom.Library.Credentials
import PCom.Library.Decoding
import PCom.Library.Responses
import PCom.Library.InputLines
import PCom.Library.RequestSizes
import PCom.Library.SessionCookie
import PCom.Library.JsonText
import PCom.Library.CookieHeaders
import PCom.Library.MainLoop
import PCom.Library.BookIds
import PCom.Library.Json.Value
import PCom.Library.Json.Utf8
import PCom.Library.Json.Strings
import PCom.Library.Json.Parser
import PCom.Library.Json.Doubles
import PCom.Library.Json.Grammar
import PCom.Library.Json.Soundness
import PCom.Library.Json.Serialize
import PCom.Library.Json.RoundTrip
import PCom.Library.Json.Objects
import PCom.Library.Json.Paths
import PCom.Library.Payloads
import PCom.Lib.GrowingArray
import PCom.Router.GrowingTables
