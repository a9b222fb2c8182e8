import Romi.KeyedTable
import Romi.GroupedRows
import Romi.CachedTransactions
import Romi.SaturatingSum
import Romi.CivilDate
import Romi.JsonValue
import Romi.StoreSchema
import Romi.StoreRelations
import Romi.StoreGuard
import Romi.TrafficFold
import Romi.HourlyRollup
import Romi.StoreJobs
import Romi.StoreInvariant
import Romi.CrashRecovery
import Romi.TrafficConservation
import Romi.AgentCounters
import Romi.CountedTraffic
import Romi.GroupCommit
import Romi.StoreOperations
import Romi.WriterBatch
import Romi.ArchiveTables
import Romi.BackupArchive
import Romi.RestoreStaging
import Romi.StoreVersion
import Romi.LiveDatabase
import Romi.WriterQueue
import Romi.WriterRuns
import Romi.WriterGuarantees
import Romi.BackupRoundTrip
import Romi.NotifySweep
import Romi.SweepOutcome
import Romi.NodeContinuity
import Romi.SweepRuns
import Romi.Announcements
import Romi.FlapSpacing
import Romi.AgentSessions
import Romi.SessionRetirement
import Romi.SessionGuarantees
import Romi.SignInSteps
import Romi.CredentialChanges
import Romi.AdmissionLog
import Romi.RegistrationSteps
import Romi.NodeCreation
import Romi.RegistrationKeys
import Romi.RevokedKeys
import Romi.RegistrationBudget
import Romi.ProbeConvergence
import Romi.ProbeGuarantees
import Romi.FoldedRows
import Romi.HistoryQueries
import Romi.HistoryRuns
import Romi.PrunedHistory
import Romi.TrafficThresholds
import Romi.JsonObjects
import Romi.NodeFrames
import Romi.PublicFrames
import Romi.TrafficTable
import Romi.BookedTraffic
import Romi.LiveReports
import Romi.ReportGuarantees
import Romi.SnapshotCache
import Romi.SnapshotFreshness
import Romi.WriterTurns
import Romi.WriterAccounting
import Romi.HubShutdown
import Romi.ShutdownBarrier
import Romi.ArchiveAcceptance
import Romi.SchemaUpgrade
import Romi.UpgradePaths
import Romi.RestorableFlag
import Romi.BillingBoundary
import Romi.BrowserPeriods
import Romi.ExpiryRenewal
import Romi.LazyRestart
import Romi.HistogramRanks
import Romi.LatencyBuckets
import Romi.LatencyRange
import Romi.ClientAddress
import Romi.FailureWindows
import Romi.ThrottledRequests
import Romi.ThrottleBounds
import Romi.JsonText
import Romi.JsonHoles
import Romi.WebhookBodies
import Romi.AddressBytes
import Romi.ProbeTargets
import Romi.AgentProbes
import Romi.UnbrokenSuffix
import Romi.OnlineStreak
import Romi.NodeColumns
import Romi.NodeOrder
import Romi.NodeCountry
import Romi.SavedProbes
import Romi.IssuedIds
import Romi.ReachedStores
import Romi.ProbeCeiling
import Romi.SettingChecks
import Romi.WritePlans
import Romi.SettingsSaves
import Romi.ChunkedUploads
import Romi.RisingTotals
import Romi.LogWindows
import Romi.MinuteMeans
import Romi.MinuteRows
import Romi.AnsweredReports
import Romi.RowAccounts
import Romi.LostMinutes
import Romi.MountTable
import Romi.HistoryWindows
import Romi.UriSyntax
import Romi.ServerUrl
import Romi.CountryUpdates
import Romi.UpdateOutcomes
import Romi.FailedUndo
import Romi.IdLineage
import Romi.LoggedRuns
import Romi.HubLifetime
import Romi.HeldCounts
import Romi.ViewerSeats
import Romi.NoteDelivery
import Romi.DayNumbers
import Romi.ExpiryDigest
import Romi.Housekeeping
import Romi.HousekeepingRuns
import Romi.MachineReadings
import Romi.ReportPath
import Romi.LiveRates
import Romi.FieldScan
import Romi.AgentDistribution
import Romi.AgentInstaller
import Romi.AgentLoop
import Romi.AgentWatchdog
import Romi.AgentPace
import Romi.ProbeRounds
import Romi.ProbedHistory
import Romi.ReaderPool
import Romi.Base64
import Romi.ShellPolicy
import Romi.LivePage
import Romi.FirstRun
