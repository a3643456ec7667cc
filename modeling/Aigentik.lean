import Aigentik.Engine.Admission
import Aigentik.Engine.Exclusion
import Aigentik.Engine.Confirmation
import Aigentik.Engine.Cancellation
import Aigentik.Engine.PolicyGate
import Aigentik.Engine.MailReplies
import Aigentik.Engine.NotificationReplies
import Aigentik.Engine.PublicReply
import Aigentik.Engine.NeverContact
import Aigentik.Core.ContactIdentity
import Aigentik.Core.ContactStorage
import Aigentik.Email.SenderIdentity
import Aigentik.Email.HistoryCursor
import Aigentik.Smollm.Isolation
import Aigentik.Smollm.ResponseStream
import Aigentik.Smollm.ChatHistory
import Aigentik.Smollm.ContextCache
import Aigentik.Smollm.NativeHandle
import Aigentik.Ai.HandleSafety
import Aigentik.Chat.Attribution
import Aigentik.Llm.LastLoad
import Aigentik.Llm.NativeOverlap
import Aigentik.Sms.ReplyMaps
import Aigentik.Sms.SelfReplies
import Aigentik.Email.SingleFetch
import Aigentik.Email.WakeUps
import Aigentik.Email.Deliveries
import Aigentik.Email.MarkedRead
import Aigentik.Engine.Switches
import Aigentik.Auth.SessionWindow
import Aigentik.Auth.CredentialsRoundTrip
import Aigentik.Email.PurgedCursor
import Aigentik.Benchmark.SmallTier
import Aigentik.Benchmark.MetricRows
import Aigentik.Core.ActionAgreement
import Aigentik.Hub.HFModelsAPI
import Aigentik.Data.ReferentialIntegrity
import Aigentik.Chat.ChatUpdates
import Aigentik.Ai.InterpretCommand
import Aigentik.Sms.SenderResolution
import Aigentik.Core.ContactCommands
import Aigentik.Core.ContactSync
import Aigentik.Core.LegacyContacts
import Aigentik.Engine.ReplyReports
import Aigentik.Engine.ChannelToggles
import Aigentik.Ai.SimpleCommands
import Aigentik.Sms.SenderMixing
import Aigentik.Email.RecentContexts
import Aigentik.Email.BodyExtraction
import Aigentik.Email.FromHeader
import Aigentik.Auth.PasswordCheck
import Aigentik.Chat.EditedMessage
import Aigentik.Smollm.ContextBound
import Aigentik.Core.AgentNotificationManager
import Aigentik.Benchmark.MetricsExporter
import Aigentik.Benchmark.MetricsSummary
import Aigentik.Benchmark.ErrorCounts
import Aigentik.Collections.PriorityQueue
import Aigentik.Smolvectordb.VectorDB
import Aigentik.Smolvectordb.NearestNeighbor
import Aigentik.Smolvectordb.SmolVectorDB
import Aigentik.Collections.FirstFew
import Aigentik.Calendar.CalendarService
import Aigentik.Calendar.SuggestedTimes
import Aigentik.Calendar.EventCreation
import Aigentik.Files.FileTree
import Aigentik.ManageAsr.UnzipModel
import Aigentik.ManageAsr.UnzipTermination
import Aigentik.ManageAsr.UnzipContainment
import Aigentik.Effects.StepRuns
import Aigentik.System.ConnectionWatchdog
import Aigentik.Speech.AudioTranscriptionService
import Aigentik.Speech.MyTranscriber
import Aigentik.Collections.SortedRanks
import Aigentik.Benchmark.Percentiles
import Aigentik.Strings.Utf8Groups
import Aigentik.Smollm.ValidUtf8
import Aigentik.Core.NormalForm
import Aigentik.Auth.RemoteToggles
import Aigentik.Collections.SegmentChain
import Aigentik.Llama.Symbols
import Aigentik.Llama.Vocab
import Aigentik.Llama.SpmTokenizer
import Aigentik.Llama.Rendering
import Aigentik.Llama.Unicode
import Aigentik.Llama.BpeTokenizer
import Aigentik.Collections.Tally
import Aigentik.Llama.KvCells
import Aigentik.Llama.KvCache
import Aigentik.Llama.KvPrepare
import Aigentik.Llama.AttentionMask
import Aigentik.Llama.Context
import Aigentik.Smollm.ContextMemory
