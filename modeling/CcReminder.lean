import CcReminder.Commands.Settings
import CcReminder.Commands.Vault
import CcReminder.Installer.Trust
import CcReminder.Installer.Words
import CcReminder.Pipeline.Attribution
import CcReminder.Pipeline.Calls
import CcReminder.Pipeline.Deferral
import CcReminder.Pipeline.Housekeeping
import CcReminder.Pipeline.Leases
import CcReminder.Pipeline.Recording
import CcReminder.Pipeline.Recovery
import CcReminder.Pipeline.Release
import CcReminder.Pipeline.SpoolSafety
import CcReminder.Pipeline.Targets
import CcReminder.Pipeline.Templates
import CcReminder.Pipeline.WindowCap
import CcReminder.Storage.ProjectCache.Health
import CcReminder.Storage.Queue.Attempts
import CcReminder.Storage.Queue.Backoff
import CcReminder.Storage.Queue.Decision
import CcReminder.Storage.Queue.Expiry
import CcReminder.Storage.Queue.Fencing
import CcReminder.Worker.Compose
import CcReminder.Worker.Pacing
import CcReminder.Worker.Strikes
import CcReminder.Channels.DingTalk
import CcReminder.Channels.Fallback
import CcReminder.Channels.Signature
import CcReminder.Installer.Downgrade
import CcReminder.Installer.Replace
import CcReminder.Projects.LongestPrefix
import CcReminder.Rules.QuietHours
import CcReminder.Storage.Queue.Aggregate
import CcReminder.Storage.Queue.ManualRetry
import CcReminder.Channels.Inert
import CcReminder.Diagnostics
import CcReminder.HookInput
import CcReminder.Installer.Health
import CcReminder.Installer.SelfHeal
import CcReminder.Ipc
import CcReminder.Lib.Calendar
import CcReminder.Lib.Fallible
import CcReminder.Lib.FixedWidth
import CcReminder.Lib.Pruning
import CcReminder.Lib.Regex
import CcReminder.Pipeline.HandOff
import CcReminder.Pipeline.Keys
import CcReminder.Rules.TemplateGrammar
import CcReminder.Security.Crypto
import CcReminder.Security.Redact
import CcReminder.Storage.RetentionPass
import CcReminder.Storage.TimeText
import CcReminder.Events.Capture
import CcReminder.Pipeline.Noninterference
import CcReminder.Installer.Phases
import CcReminder.Installer.Serial
import CcReminder.Lib.Outcomes
import CcReminder.Security.CorrelationKey
import CcReminder.Storage.Migrations
import CcReminder.Installer.OwnedHandlers
