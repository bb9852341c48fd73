import ApplicationLayerFirewall.ByteOrder
import ApplicationLayerFirewall.AccessPolicy
import ApplicationLayerFirewall.PacketReading
import ApplicationLayerFirewall.RuleMatching
import ApplicationLayerFirewall.RuleVerdict
import ApplicationLayerFirewall.ReadingInstants
import ApplicationLayerFirewall.RuleConstraints
import ApplicationLayerFirewall.RuleOrder
import ApplicationLayerFirewall.InetAddress
import ApplicationLayerFirewall.PicoJson
import ApplicationLayerFirewall.BinaryRounding
import ApplicationLayerFirewall.SortedMaps
import ApplicationLayerFirewall.JsonTexts
import ApplicationLayerFirewall.JsonParser
import ApplicationLayerFirewall.JsonTokens
import ApplicationLayerFirewall.JsonNumerals
import ApplicationLayerFirewall.JsonAcceptance
import ApplicationLayerFirewall.JsonSoundness
import ApplicationLayerFirewall.JsonDocuments
import ApplicationLayerFirewall.JsonInvariants
import ApplicationLayerFirewall.JsonOverflows
import ApplicationLayerFirewall.JsonErrors
import ApplicationLayerFirewall.JsonPrinter
import ApplicationLayerFirewall.PrintedNumerals
import ApplicationLayerFirewall.JsonRoundTrip
import ApplicationLayerFirewall.RuleJson
import ApplicationLayerFirewall.MalformedRules
import ApplicationLayerFirewall.RuleMeaning
import ApplicationLayerFirewall.ExportReload
import ApplicationLayerFirewall.Netlink
import ApplicationLayerFirewall.QueuedPackets
import ApplicationLayerFirewall.ReceiveLoop
import ApplicationLayerFirewall.NetlinkWriting
import ApplicationLayerFirewall.QueryDispatch
import ApplicationLayerFirewall.QueueSetup
import ApplicationLayerFirewall.StaleBytes
import ApplicationLayerFirewall.RequestHandler
import ApplicationLayerFirewall.RuleLoading
import ApplicationLayerFirewall.UpdateAnswers
import ApplicationLayerFirewall.ProxyRequests
import ApplicationLayerFirewall.ProxyAnswers
import ApplicationLayerFirewall.ConnectionLoop
import ApplicationLayerFirewall.JsonRequests
import ApplicationLayerFirewall.TransitionRuns
import ApplicationLayerFirewall.JudgedPackets
import ApplicationLayerFirewall.PrototypeFilter
import ApplicationLayerFirewall.LogBuffer
import ApplicationLayerFirewall.SurvivedRequests
import ApplicationLayerFirewall.LogReaders
import ApplicationLayerFirewall.ConcurrentUpdates
import ApplicationLayerFirewall.CollectionLifetimes
import ApplicationLayerFirewall.ThreadTable
import ApplicationLayerFirewall.ConsoleRoundTrip
import ApplicationLayerFirewall.FramedMessages
import ApplicationLayerFirewall.ConnectionThread
import ApplicationLayerFirewall.FirewallRuns
import ApplicationLayerFirewall.JsonRemains
import ApplicationLayerFirewall.ServerStartup
import ApplicationLayerFirewall.ConsolePage
import ApplicationLayerFirewall.ConsoleRules
import ApplicationLayerFirewall.ConsoleRuns
