import LeptosWasi.StaticCallback
import LeptosWasi.BodyPolicy
import LeptosWasi.FirstClaim
import LeptosWasi.HeadAgreement
import LeptosWasi.Redirects
import LeptosWasi.Defaults
import LeptosWasi.WaitQueueSafety
import LeptosWasi.Abandonment
import LeptosWasi.Scheduling
import LeptosWasi.ExactlyOnce
import LeptosWasi.RedirectSanitizer
import LeptosWasi.ContentLengthPolicy
import LeptosWasi.BodyCollection
import LeptosWasi.BodyTermination
import LeptosWasi.StaticReachability
import LeptosWasi.Losslessness
import LeptosWasi.ReadyPartition
import LeptosWasi.OptionsMerge
import LeptosWasi.RouteExclusion
import LeptosWasi.RootCleanup
import LeptosWasi.Negotiation
import LeptosWasi.AppendedFields
import LeptosWasi.TraceAgreement
import LeptosWasi.CompletionEvents
import LeptosWasi.AdmissionAccounting
import LeptosWasi.QueueIsolation
import LeptosWasi.BodyStreams
import LeptosWasi.PreviewParity
import LeptosWasi.InitializationProtocol
import LeptosWasi.StreamDeadlines
import LeptosWasi.RouteReuse
import LeptosWasi.RedirectProtocol
import LeptosWasi.RequestRoundTrip
import LeptosWasi.TrustBoundary
import LeptosWasi.IslandLedger
import LeptosWasi.LatencyQuantiles
import LeptosWasi.TerminalHealth
import LeptosWasi.TerminalSelection
