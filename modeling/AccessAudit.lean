import AccessAudit.Main
import AccessAudit.Proofs.Calendar.PeriodText
import AccessAudit.Proofs.CommandLine.Options
import AccessAudit.Proofs.Configuration.Validation
import AccessAudit.Proofs.Decimal.Groups
import AccessAudit.Proofs.Directory.NamedLines
import AccessAudit.Proofs.Directory.ReferenceSet
import AccessAudit.Proofs.Enrichment.History
import AccessAudit.Proofs.Mail.Delivery
import AccessAudit.Proofs.Network.BlockText
import AccessAudit.Proofs.Network.Membership
import AccessAudit.Proofs.Program.Ending
import AccessAudit.Proofs.Registry.Description
import AccessAudit.Proofs.Registry.Request
import AccessAudit.Proofs.Scope.Serial
import AccessAudit.Proofs.Store.History
import AccessAudit.Proofs.Store.StoredIds
import AccessAudit.Proofs.Table.Rendering
import AccessAudit.Proofs.Task.AccountRanking
import AccessAudit.Proofs.Task.CountrySummary
import AccessAudit.Proofs.Task.DailyBalance
import AccessAudit.Proofs.Task.Expiry
import AccessAudit.Proofs.Task.OpenRanking
import AccessAudit.Proofs.Task.OpenTransaction
import AccessAudit.Proofs.Task.Rehearsal
import AccessAudit.Proofs.Task.SessionLists
import AccessAudit.Proofs.Task.Shuffling
import AccessAudit.Proofs.Task.SuccessRanking
import AccessAudit.Proofs.Task.Tables
import AccessAudit.Proofs.Task.VolumeRanking
