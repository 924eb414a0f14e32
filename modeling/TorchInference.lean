import TorchInference.AcquireHint
import TorchInference.AddressBlocks
import TorchInference.AdmissionOrder
import TorchInference.AgentEvents
import TorchInference.AgentExecutor
import TorchInference.AgentRequests
import TorchInference.AgentRuns
import TorchInference.AgentSpeech
import TorchInference.AgentTools
import TorchInference.AgenticTools
import TorchInference.ArgumentPieces
import TorchInference.ArrayQueue
import TorchInference.AudioFrames
import TorchInference.AudioFraming
import TorchInference.AudioPostprocess
import TorchInference.AudioSession
import TorchInference.Base64
import TorchInference.BatchLedger
import TorchInference.BatchProcessor
import TorchInference.BatchProcessorCounters
import TorchInference.BatchReadiness
import TorchInference.Binary64
import TorchInference.BoundedChannel
import TorchInference.BreakerAgreement
import TorchInference.BreakerRecovery
import TorchInference.BufferPool
import TorchInference.CacheStates
import TorchInference.CachedDecoding
import TorchInference.CanonicalJson
import TorchInference.CatalogueAvailability
import TorchInference.CatalogueDownload
import TorchInference.CatalogueFetches
import TorchInference.ChatAgreement
import TorchInference.ChatCompletions
import TorchInference.ChatSessionReply
import TorchInference.ChatStream
import TorchInference.ChatStreamRoundTrip
import TorchInference.CircuitBreaker
import TorchInference.ClassPatterns
import TorchInference.ClassifyPostprocess
import TorchInference.ClassifyStream
import TorchInference.ConfigDefaults
import TorchInference.ConfigKeys
import TorchInference.CountingSemaphore
import TorchInference.DecimalRounding
import TorchInference.DetectConfiguration
import TorchInference.DetectSession
import TorchInference.DownloadCompleteness
import TorchInference.DownloadDirectories
import TorchInference.DownloadHosts
import TorchInference.DownloadLifecycle
import TorchInference.DownloadManager
import TorchInference.DownloadPathCheck
import TorchInference.DownloadProgress
import TorchInference.DownloadRequests
import TorchInference.DownloadTransfers
import TorchInference.DownloadWorkerSteps
import TorchInference.EngineLease
import TorchInference.ExceptSteps
import TorchInference.ExecutedSteps
import TorchInference.ExpiredVictims
import TorchInference.FallbackAnswers
import TorchInference.FetchLimit
import TorchInference.FieldReadings
import TorchInference.FileTree
import TorchInference.FinalDelivery
import TorchInference.FixedWindows
import TorchInference.FlatRows
import TorchInference.FloatGrid
import TorchInference.ForgedFields
import TorchInference.FreeIndexQueue
import TorchInference.GenerationStops
import TorchInference.GreedySelection
import TorchInference.HrmEngine
import TorchInference.HttpFetch
import TorchInference.HttpFetchSandbox
import TorchInference.ImageLimits
import TorchInference.ImagePipeline
import TorchInference.ImageRows
import TorchInference.InferenceEngine
import TorchInference.InflightBatch
import TorchInference.InflightBatchConservation
import TorchInference.InflightBatchCriterion
import TorchInference.IpAddresses
import TorchInference.JsonValue
import TorchInference.KeyedDefaults
import TorchInference.KeyedPool
import TorchInference.KokoroEngine
import TorchInference.KokoroStream
import TorchInference.LinkedTree
import TorchInference.LlmWatchdog
import TorchInference.LogFiles
import TorchInference.LogLines
import TorchInference.LogOverview
import TorchInference.LossyUtf8
import TorchInference.LruCache
import TorchInference.MemoryGate
import TorchInference.MisakiVocabulary
import TorchInference.ModelCacheKeys
import TorchInference.ModelListing
import TorchInference.ModelPool
import TorchInference.ModelPoolLimit
import TorchInference.ModelRegistry
import TorchInference.Monitor
import TorchInference.MonitorAccounting
import TorchInference.NonMaximumSuppression
import TorchInference.NucleusSampling
import TorchInference.OrderedInsertion
import TorchInference.OrtClassify
import TorchInference.PerModelBreaker
import TorchInference.PieceCover
import TorchInference.PlannedLines
import TorchInference.PlannerDsl
import TorchInference.PlannerDslRoundTrip
import TorchInference.PredictAccounting
import TorchInference.PredictHandler
import TorchInference.PredictNeutrality
import TorchInference.PriorityHeap
import TorchInference.QueueDrains
import TorchInference.RateEnvelope
import TorchInference.RateLimitCharging
import TorchInference.RateLimitCleanup
import TorchInference.RateLimitRaces
import TorchInference.RateLimitWindow
import TorchInference.RateLimiter
import TorchInference.RegistrySandbox
import TorchInference.RegistryScan
import TorchInference.RegistrySessions
import TorchInference.RepetitionPenalty
import TorchInference.RequestDeduplicator
import TorchInference.RequestLogger
import TorchInference.ResultBudget
import TorchInference.RetryAfter
import TorchInference.RetryDelay
import TorchInference.RoundedNumbers
import TorchInference.SanitizedOutput
import TorchInference.SanitizedShape
import TorchInference.Sanitizer
import TorchInference.SentenceLimit
import TorchInference.SentenceSplitter
import TorchInference.SeparatedBlocks
import TorchInference.SessionPool
import TorchInference.SinglePrecision
import TorchInference.SmolVlmEngine
import TorchInference.SmolVlmPrompt
import TorchInference.SpeechPipeline
import TorchInference.SpendingBudget
import TorchInference.SpokenText
import TorchInference.StepCounts
import TorchInference.StreamedPieces
import TorchInference.TaskSubscription
import TorchInference.TensorPool
import TorchInference.TextLines
import TorchInference.TokenBucket
import TorchInference.ToolBlocks
import TorchInference.TranscriptionWindow
import TorchInference.TransitionRuns
import TorchInference.TrimmedFields
import TorchInference.TtlCache
import TorchInference.TtlCacheCapacity
import TorchInference.TtlCacheFreshness
import TorchInference.TtlCacheRefinement
import TorchInference.TtsCacheKeys
import TorchInference.TtsCacheTransparency
import TorchInference.TtsManager
import TorchInference.TtsSelection
import TorchInference.UniqueReading
import TorchInference.UnixPath
import TorchInference.Utf8Units
import TorchInference.VisionResponses
import TorchInference.VoiceFallback
import TorchInference.WavRoundTrip
import TorchInference.WebSocketHook
import TorchInference.WebSocketHookRuns
import TorchInference.WebSocketHookState
import TorchInference.WhisperVocabulary
import TorchInference.WorkerPool
import TorchInference.WorkerPoolCounters
import TorchInference.WorkerPoolHandOut
import TorchInference.WorkerPoolIdleQueue
import TorchInference.WorkerPoolRemoval
import TorchInference.WorkerPoolStates
import TorchInference.YoloBoxes
import TorchInference.KeyedRateLimiter
