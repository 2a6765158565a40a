import Hound.Engine.Replacement
import Hound.Core.Companion
import Hound.Core.Appearance
import Hound.Storage.CrashAtomicity
import Hound.Records.RoundTrip
import Hound.Records.ExportPrivacy
import Hound.Watch.TravelWatch
import Hound.Storage.BackupSafety
import Hound.Storage.RecoverySafety
import Hound.Storage.HandoffSafety
import Hound.Storage.EjectSafety
import Hound.Core.MealGuard
import Hound.Json.CursorExact
import Hound.Core.BleCursor
import Hound.Core.UuidRules
import Hound.Core.WifiCursor
import Hound.Engine.Firing
import Hound.Engine.Statistics
import Hound.Engine.DeauthBurst
import Hound.Engine.SecurityDifference
import Hound.Engine.RecentCounts
import Hound.Engine.Corroboration
import Hound.Watch.FollowScent
import Hound.Watch.DroneCache
import Hound.Ui.AlertWindows
import Hound.Ui.AlertTarget
import Hound.Storage.BackupRequests
import Hound.Lib.Suppression
import Hound.Core.PetNeeds
import Hound.Records.UtcCodec
import Hound.Ui.Battery
import Hound.Storage.BackupCodec
import Hound.Core.PrintableNames
import Hound.Records.TokenLetters
import Hound.Json.WriterBuffer
import Hound.Ui.Sprite
import Hound.Records.AggregateReference
import Hound.Records.EmittedRecords
import Hound.App.SavedStates
import Hound.App.DemoFrame
import Hound.App.ExportStatus
import Hound.App.EjectStatus
import Hound.Lib.Stdio
import Hound.Storage.ExportAtomicity
import Hound.Storage.ExportCompletes
import Hound.Storage.ExportReports
import Hound.Storage.LaterExports
