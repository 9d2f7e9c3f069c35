import CloudBackup.Backup.Agreement
import CloudBackup.Backup.Collection
import CloudBackup.Backup.Convergence
import CloudBackup.Backup.Deletion
import CloudBackup.Backup.Depiction
import CloudBackup.Backup.Detection
import CloudBackup.Backup.FileGraph
import CloudBackup.Backup.Rerun
import CloudBackup.Backup.Reset
import CloudBackup.Backup.Rollback
import CloudBackup.Backup.Run
import CloudBackup.Backup.SizeGate
import CloudBackup.Backup.StoredContents
import CloudBackup.Backup.Versions
import CloudBackup.Cbcrypto.Integrity
import CloudBackup.Cbcrypto.Nonces
import CloudBackup.Client.FetchFileList
import CloudBackup.Config.Aliasing
import CloudBackup.Config.CopyErrors
import CloudBackup.Config.Saving
import CloudBackup.Daemon.Shutdown
import CloudBackup.Database.Access
import CloudBackup.Database.DbFiles
import CloudBackup.Database.Exclusive
import CloudBackup.Database.Lock
import CloudBackup.Httpd.Access
import CloudBackup.Httpd.Descend
import CloudBackup.Httpd.DryRun
import CloudBackup.Httpd.FileList
import CloudBackup.Httpd.LostUpdate
import CloudBackup.Httpd.ReportPaging
import CloudBackup.Notifications.Execute
import CloudBackup.ObjectStore.Bootstrap
import CloudBackup.ObjectStore.Frame
import CloudBackup.ObjectStore.Instantiation
import CloudBackup.ObjectStore.Keys
import CloudBackup.ObjectStore.RateLimiter
import CloudBackup.ObjectStore.Squashing
import CloudBackup.Restore.Abandoned
import CloudBackup.Restore.BackupRestore
import CloudBackup.Restore.Classification
import CloudBackup.Restore.Confinement
import CloudBackup.Restore.Exclusions
import CloudBackup.Restore.RequestPaths
import CloudBackup.Restore.RestoreJob
import CloudBackup.Restore.RestoreOne
import CloudBackup.Restore.RestoredTree
import CloudBackup.Restore.Resuming
import CloudBackup.Restore.Selection
import CloudBackup.Scheduler.Commands
import CloudBackup.Scheduler.JobUuid
import CloudBackup.Scheduler.KeystoreBringUp
import CloudBackup.Scheduler.NextRuns
import CloudBackup.Scheduler.Outcome
import CloudBackup.Scheduler.Reload
import CloudBackup.Shared.JobListing
import CloudBackup.Shared.JobsState
import CloudBackup.Watcher.LastMessage
