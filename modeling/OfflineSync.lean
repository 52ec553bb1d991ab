import OfflineSync.Lib.Machine
import OfflineSync.Lib.Dedup
import OfflineSync.Lib.SortKey
import OfflineSync.Lib.Snapshot
import OfflineSync.Lib.LockOrder
import OfflineSync.Core
import OfflineSync.Item
import OfflineSync.ItemStorage
import OfflineSync.DeviceEventLog
import OfflineSync.ServerEventLog
import OfflineSync.Sync
import OfflineSync.SyncInvariant
import OfflineSync.Rounds
import OfflineSync.NetRun
import OfflineSync.Device
import OfflineSync.Delivery
import OfflineSync.Causality
import OfflineSync.Convergence
import OfflineSync.Authoring
import OfflineSync.Table
import OfflineSync.Freshness
import OfflineSync.Backend
import OfflineSync.Deletion
import OfflineSync.Runner
import OfflineSync.NetworkStatus
import OfflineSync.Agreement
import OfflineSync.Creation
import OfflineSync.Fold
import OfflineSync.OptimisticStore
import OfflineSync.ServerStream
import OfflineSync.Replay
import OfflineSync.SyncEngine
import OfflineSync.SyncTermination
import OfflineSync.SyncResult
import OfflineSync.SyncProtocol
import OfflineSync.Listing
import OfflineSync.Locks
import OfflineSync.Phones
import OfflineSync.Connectivity
import OfflineSync.Notification
import OfflineSync.Restore
import OfflineSync.Provenance
import OfflineSync.Retry
import OfflineSync.UuidText
import OfflineSync.ItemView
import OfflineSync.ItemService
import OfflineSync.Range
import OfflineSync.Server
import OfflineSync.GetItems
import OfflineSync.PlainCrates
import OfflineSync.Http
import OfflineSync.HttpSystem
import OfflineSync.SyncPoint
