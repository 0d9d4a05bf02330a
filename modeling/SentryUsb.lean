import SentryUsb.Cache.Validity
import SentryUsb.Archive.Reflash
import SentryUsb.Sync.ChargePublication
import SentryUsb.Sync.TagMigration
import SentryUsb.Sync.DrivePublication
import SentryUsb.Sync.FeedProgress
import SentryUsb.Charging.DeleteOutbox
import SentryUsb.Charging.SweepCursor
import SentryUsb.Charging.ListProjection
import SentryUsb.Rates.RateMerge
import SentryUsb.Snapshot.LinkDebts
import SentryUsb.Snapshot.FreeSpace
import SentryUsb.Sync.IntentTables
import SentryUsb.Store.StoredAggregates
import SentryUsb.Grouper.GapFillPasses
import SentryUsb.Sync.Pairing
import SentryUsb.Store.RowCounters
import SentryUsb.Api.KeepAwake
import SentryUsb.Api.DriveRequests
import SentryUsb.Api.AwayModeOwner
import SentryUsb.Sync.SummaryJournal
import SentryUsb.Api.UpdateVersion
import SentryUsb.Rates.PublicationSafety
import SentryUsb.Cache.Previews
import SentryUsb.Video.FrameRuns
import SentryUsb.Archive.CycleSafety
import SentryUsb.Grouper.WindowPartition
import SentryUsb.Ble.SignedTraffic
import SentryUsb.Video.SampleSpans
import SentryUsb.Crypto.AssociatedData
import SentryUsb.Ble.Framing
import SentryUsb.Cache.OverlapFilter
import SentryUsb.Media.ByteRanges
import SentryUsb.Disk.MergedSources
import SentryUsb.Sync.MergeIntent
import SentryUsb.Store.BlobCodecs
import SentryUsb.Charging.HomeFreeze
import SentryUsb.Grouper.Summon
import SentryUsb.Media.IndexFirst
import SentryUsb.Snapshot.Reclaim
import SentryUsb.Sync.RouteSweep
import SentryUsb.Api.TtlCache
import SentryUsb.Api.PushRetry
import SentryUsb.Video.EmulationPrevention
import SentryUsb.Archive.WorkGuards
import SentryUsb.Api.AuthSessions
import SentryUsb.Grouper.Downsample
import SentryUsb.Api.ConfigBackup
import SentryUsb.Telemetry.KeepAccessory
import SentryUsb.Api.UploadPublish
import SentryUsb.Api.WavProcessing
import SentryUsb.Api.FileCollisions
import SentryUsb.Grouper.SafetySeams
import SentryUsb.Snapshot.Releases
import SentryUsb.Sync.DocumentQueues
