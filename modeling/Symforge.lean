import Symforge.Index.BlastRadius
import Symforge.Lifecycle.AdmissionAgreement
import Symforge.Lifecycle.CandidatePublication
import Symforge.Lifecycle.CapacityConservation
import Symforge.Lifecycle.ObservationCuts
import Symforge.Lifecycle.RegistrySafety
import Symforge.Lifecycle.RootReplacement
import Symforge.Lifecycle.SourceHistory
import Symforge.Lifecycle.WriteProtocol
import Symforge.Idempotency.AtMostOnce
import Symforge.Idempotency.VerifiedReplay
import Symforge.Store.TextCompleteness
import Symforge.Parsing.JsonSpans
import Symforge.Parsing.TomlSpans
import Symforge.Edit.EditWithinStyle
import Symforge.Edit.GuardedWrite
import Symforge.Edit.Neighbours
import Symforge.Edit.Reindex
import Symforge.Edit.DeleteCleanup
import Symforge.Index.SymbolSelector
import Symforge.Sidecar.Governor
import Symforge.Sidecar.PromptAlias
import Symforge.Knowledge.ScanWindow
import Symforge.Knowledge.SecretRemediation
import Symforge.Store.WatcherFence
import Symforge.Discovery.RepoPath
import Symforge.Store.SnapshotStamps
import Symforge.Edit.RenameSplices
import Symforge.Daemon.WorkingSetRefresh
import Symforge.Protocol.Repeat
import Symforge.Lifecycle.ObserverHandoff
import Symforge.Idempotency.RequestIdentity
import Symforge.Index.CouplingPruning
import Symforge.Cli.GuidanceBlock
