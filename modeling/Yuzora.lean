import Yuzora.SessionAuthority
import Yuzora.SessionDesktop
import Yuzora.SessionCommands
import Yuzora.PairingConduct
import Yuzora.WriteAnswers
import Yuzora.WriteOutcome
import Yuzora.InputCover
import Yuzora.MergeConflict
import Yuzora.ConnectionRun
import Yuzora.ResultPages
import Yuzora.SmartCheckoutRuns
import Yuzora.TrustCover
import Yuzora.ProfileGrants
import Yuzora.RuntimeConnections
import Yuzora.CompanionSupervised
import Yuzora.ConnectorLines
import Yuzora.HostStreamRuns
import Yuzora.KnownHostsRuns
import Yuzora.WatcherConduct
import Yuzora.RemoteFilesConduct
import Yuzora.WriteAuditConduct
import Yuzora.GitRegistryConduct
import Yuzora.AskpassConduct
import Yuzora.TransportConduct
import Yuzora.NativeClientsConduct
import Yuzora.LineDiff
import Yuzora.CeremonyRuns
import Yuzora.GraphLayout
import Yuzora.ConflictBlocks
import Yuzora.KittyImages
import Yuzora.PostgresUnits
import Yuzora.SqlTarget
import Yuzora.SqlQuote
import Yuzora.HerdrHydrate
import Yuzora.GitPairings
import Yuzora.SearchRuns
import Yuzora.NdjsonLines
import Yuzora.SftpSaveRuns
import Yuzora.Clock
import Yuzora.LogQuery
