import AllAiTools.Foundation.Run
import AllAiTools.NewApi.Controller.MidjourneyConserves
import AllAiTools.NewApi.Controller.RetrySchedule
import AllAiTools.NewApi.Controller.ServingGroup
import AllAiTools.NewApi.Model.AbilitiesMirror
import AllAiTools.NewApi.Model.AmountUsed
import AllAiTools.NewApi.Model.BatchConserves
import AllAiTools.NewApi.Model.GroupUnwinds
import AllAiTools.NewApi.Model.OneShotCredit
import AllAiTools.NewApi.Model.DisabledChannels
import AllAiTools.NewApi.Model.DisabledStays
import AllAiTools.NewApi.Model.MultiKeyStatus
import AllAiTools.NewApi.Model.SelectorsAgree
import AllAiTools.NewApi.Model.QuotaPeriods
import AllAiTools.NewApi.Model.PreConsumeTwice
import AllAiTools.NewApi.Model.AttemptsBounded
import AllAiTools.NewApi.Model.ExactSelection
import AllAiTools.NewApi.Model.PollingFair
import AllAiTools.NewApi.Model.SubscriptionZone
import AllAiTools.NewApi.Model.SubscriptionRefund
import AllAiTools.NewApi.Model.QuotaCoherent
import AllAiTools.NewApi.Service.NewSession
import AllAiTools.NewApi.Service.OwnedWorkspaces
import AllAiTools.NewApi.Relay.MappingIndependent
import AllAiTools.NewApi.Relay.AdjustedQuota
import AllAiTools.NewApi.Relay.MoveKeeps
import AllAiTools.NewApi.Relay.NegativeIndices
import AllAiTools.NewApi.Relay.PrunesMatches
import AllAiTools.NewApi.Relay.WildcardsExact
import AllAiTools.NewApi.Relay.ToolCallsWhole
import AllAiTools.NewApi.Relay.ClaudeStreamAgrees
import AllAiTools.NewApi.Service.TextQuotaSound
import AllAiTools.NewApi.Service.TieredPartition
import AllAiTools.NewApi.Service.TaskBilledOnce
import AllAiTools.NewApi.Middleware.RotationKeeps
import AllAiTools.NewApi.Relay.ImagesKeepText
import AllAiTools.NewApi.Relay.SchemasConform
import AllAiTools.NewApi.Relay.OllamaAgrees
import AllAiTools.NewApi.Controller.UpstreamSettles
import AllAiTools.NewApi.Service.ResponsesLossless
import AllAiTools.NewApi.Relay.ConversationKept
import AllAiTools.NewApi.Service.AffinityRecall
import AllAiTools.NewApi.Relay.ThinkingConverted
import AllAiTools.NewApi.Common.BucketBounded
import AllAiTools.NewApi.Common.WindowBounded
import AllAiTools.NewApi.Middleware.RateLimitsAgree
import AllAiTools.NewApi.Service.ClaudePreserved
import AllAiTools.NewApi.Service.GeminiPreserved
import AllAiTools.NewApi.Service.AnswerTogether
import AllAiTools.NewApi.Service.PaymentOnce
import AllAiTools.NewApi.Common.SsrfCovers
import AllAiTools.NewApi.Setting.HistoryIndependent
import AllAiTools.NewApi.Setting.RangeSets
import AllAiTools.ChatGpt2Api.Protocol.ReplayedHistory
import AllAiTools.ChatGpt2Api.Protocol.AnthropicAgrees
import AllAiTools.ChatGpt2Api.Protocol.CacheSafe
import AllAiTools.ChatGpt2Api.Protocol.CacheKeys
import AllAiTools.ChatGpt2Api.Services.AuthKeysKept
import AllAiTools.NewApi.Relay.LegacyOverride
import AllAiTools.ChatGpt2Api.Services.TokenAliases
import AllAiTools.ChatGpt2Api.Services.ImageTasksStable
import AllAiTools.ChatGpt2Api.Protocol.ImageSlots
import AllAiTools.ChatGpt2Api.Protocol.AcquisitionEnds
import AllAiTools.ChatGpt2Api.Services.LogKept
import AllAiTools.ChatGpt2Api.Protocol.ToolCallsKept
import AllAiTools.Foundation.Breaks
import AllAiTools.NewApi.Relay.GeminiAnswer
import AllAiTools.NewApi.Relay.GeminiAnswerStreamed
import AllAiTools.NewApi.Controller.OneAnswer
import AllAiTools.NewApi.Relay.StreamScanner
import AllAiTools.NewApi.Relay.StreamDelivers
import AllAiTools.NewApi.Relay.RealtimeCharged
import AllAiTools.NewApi.Relay.StreamReturns
import AllAiTools.NewApi.Service.StreamOpenAI2Claude
import AllAiTools.NewApi.Service.ClaudeStreamForms
import AllAiTools.NewApi.Service.ClaudeStreamKeeps
import AllAiTools.NewApi.Controller.FeeRace
