import TorchInference.KeyedDefaults
import Mathlib.Data.UInt

/-!
# The keys of the configuration

A configuration is a record whose keys come in sections.  The defaults of the
keys are written down up to three times: in `Config::default`, in the `Default`
of each section, and in the functions that serde calls for a single key.  Each
of these is a table of its own here.
-/

namespace TorchInference

/-- A number of 32 bits in the binary interchange format. -/
structure Binary32 where
  bits : UInt32
  deriving DecidableEq

namespace Binary32

def magnitude (value : Binary32) : Nat :=
  value.bits.toNat % 2 ^ 31

def isNaN (value : Binary32) : Bool :=
  0x7F800000 < value.magnitude

/-- Numbers that are not NaN are ordered by sign and magnitude; the two zeros
are equal. -/
def position (value : Binary32) : Int :=
  if value.bits.toNat < 2 ^ 31 then value.magnitude else -value.magnitude

def le (value other : Binary32) : Bool :=
  !value.isNaN && !other.isNaN && value.position ≤ other.position

/-- `(low..=high).contains`. -/
def inRange (low high value : Binary32) : Bool :=
  low.le value && value.le high

end Binary32

/-! ## Types of values -/

inductive ValueType where
  | bool | u8 | u16 | u32 | u64 | usize | f32
  | string | pathBuf | strings | optionalIndices
  deriving DecidableEq

abbrev ValueType.Denotes : ValueType → Type
  | bool => Bool
  | u8 => UInt8
  | u16 => UInt16
  | u32 => UInt32
  | u64 | usize => UInt64
  | f32 => Binary32
  | string | pathBuf => String
  | strings => List String
  | optionalIndices => Option (List UInt64)

instance : ∀ type : ValueType, DecidableEq type.Denotes
  | .bool => inferInstanceAs (DecidableEq Bool)
  | .u8 => inferInstanceAs (DecidableEq UInt8)
  | .u16 => inferInstanceAs (DecidableEq UInt16)
  | .u32 => inferInstanceAs (DecidableEq UInt32)
  | .u64 | .usize => inferInstanceAs (DecidableEq UInt64)
  | .f32 => inferInstanceAs (DecidableEq Binary32)
  | .string | .pathBuf => inferInstanceAs (DecidableEq String)
  | .strings => inferInstanceAs (DecidableEq (List String))
  | .optionalIndices => inferInstanceAs (DecidableEq (Option (List UInt64)))

/-- The `Default` of the type. -/
def ValueType.default : (type : ValueType) → type.Denotes
  | bool => false
  | u8 => (0 : UInt8)
  | u16 => (0 : UInt16)
  | u32 => (0 : UInt32)
  | u64 | usize => (0 : UInt64)
  | f32 => (⟨0⟩ : Binary32)
  | string | pathBuf => ""
  | strings => []
  | optionalIndices => none

/-! ## `[server]` -/

inductive ServerKey where
  | host | port | logLevel | workers | keepAliveSecs | requestTimeoutSecs
  | disconnectTimeoutSecs | shutdownTimeoutSecs | jsonBodyLimitMb
  | proxyTimeoutSecs | multipartAudioLimitMb | multipartImageLimitMb
  | classifyImageLimitMb | audioMaxDurationSecs | ttsChunkTimeoutSecs
  | classifyItemTimeoutSecs
  deriving DecidableEq

namespace ServerKey

abbrev type : ServerKey → ValueType
  | host | logLevel => .string
  | port => .u16
  | workers | jsonBodyLimitMb | multipartAudioLimitMb
  | multipartImageLimitMb | classifyImageLimitMb => .usize
  | keepAliveSecs | requestTimeoutSecs | disconnectTimeoutSecs
  | shutdownTimeoutSecs | proxyTimeoutSecs | ttsChunkTimeoutSecs
  | classifyItemTimeoutSecs => .u64
  | audioMaxDurationSecs => .u32

/-- The functions `default_…` of the keys. -/
def serdeDefault (numCpus : UInt64) : (key : ServerKey) → key.type.Denotes
  | host => "127.0.0.1"
  | port => 8000
  | logLevel => "info"
  | workers => numCpus
  | keepAliveSecs => 75
  | requestTimeoutSecs => 5
  | disconnectTimeoutSecs => 1
  | shutdownTimeoutSecs => 30
  | jsonBodyLimitMb => 50
  | proxyTimeoutSecs => 300
  | multipartAudioLimitMb => 100
  | multipartImageLimitMb => 10
  | classifyImageLimitMb => 5
  | audioMaxDurationSecs => 1800
  | ttsChunkTimeoutSecs => 30
  | classifyItemTimeoutSecs => 30

def configDefault (numCpus : UInt64) : (key : ServerKey) → key.type.Denotes
  | host => serdeDefault numCpus host
  | port => 8000
  | logLevel => "info"
  | workers => numCpus
  | keepAliveSecs => 75
  | requestTimeoutSecs => 5
  | disconnectTimeoutSecs => 1
  | shutdownTimeoutSecs => 30
  | jsonBodyLimitMb => 50
  | proxyTimeoutSecs => 300
  | multipartAudioLimitMb => 100
  | multipartImageLimitMb => 10
  | classifyImageLimitMb => 5
  | audioMaxDurationSecs => 1800
  | ttsChunkTimeoutSecs => 30
  | classifyItemTimeoutSecs => 30

end ServerKey

/-! ## `[device]` -/

inductive DeviceKey where
  | deviceType | deviceId | deviceIds | useFp16 | useTensorrt
  | useTorchCompile | metalUseMlx | metalCacheShaders
  | metalOptimizeForAppleSilicon | enableJit | enableJitProfiling
  | enableJitExecutor | enableJitFusion | numThreads | numInteropThreads
  | cudnnBenchmark | enableAutocast | torchWarmupIterations
  deriving DecidableEq

namespace DeviceKey

abbrev type : DeviceKey → ValueType
  | deviceType => .string
  | deviceId | numThreads | numInteropThreads | torchWarmupIterations =>
      .usize
  | deviceIds => .optionalIndices
  | useFp16 | useTensorrt | useTorchCompile | metalUseMlx
  | metalCacheShaders | metalOptimizeForAppleSilicon | enableJit
  | enableJitProfiling | enableJitExecutor | enableJitFusion
  | cudnnBenchmark | enableAutocast => .bool

def configDefault (numCpus : UInt64) : (key : DeviceKey) → key.type.Denotes
  | deviceType => "auto"
  | deviceId => 0
  | deviceIds => none
  | useFp16 => false
  | useTensorrt => false
  | useTorchCompile => false
  | metalUseMlx => false
  | metalCacheShaders => true
  | metalOptimizeForAppleSilicon => true
  | enableJit => true
  | enableJitProfiling => false
  | enableJitExecutor => true
  | enableJitFusion => true
  | numThreads => numCpus
  | numInteropThreads => 1
  | cudnnBenchmark => true
  | enableAutocast => false
  | torchWarmupIterations => 5

end DeviceKey

/-! ## `[batch]` -/

inductive BatchKey where
  | batchSize | maxBatchSize | enableDynamicBatching
  deriving DecidableEq

namespace BatchKey

abbrev type : BatchKey → ValueType
  | batchSize | maxBatchSize => .usize
  | enableDynamicBatching => .bool

def configDefault : (key : BatchKey) → key.type.Denotes
  | batchSize => 1
  | maxBatchSize => 8
  | enableDynamicBatching => true

end BatchKey

/-! ## `[performance]` -/

inductive PerformanceKey where
  | warmupIterations | enableCaching | enableProfiling | cacheSizeMb
  | enableCudaGraphs | enableModelQuantization | quantizationBits
  | enableTensorPooling | maxPooledTensors | enableAsyncModelLoading
  | preloadModelsOnStartup | enableResultCompression | compressionLevel
  | enableRequestBatching | adaptiveBatchTimeout | minBatchSize
  | enableInflightBatching | maxInflightBatches | enableWorkerPool
  | minWorkers | maxWorkers | enableAutoScaling | enableZeroScaling
  deriving DecidableEq

namespace PerformanceKey

abbrev type : PerformanceKey → ValueType
  | warmupIterations | cacheSizeMb | maxPooledTensors | minBatchSize
  | maxInflightBatches | minWorkers | maxWorkers => .usize
  | quantizationBits => .u8
  | compressionLevel => .u32
  | enableCaching | enableProfiling | enableCudaGraphs
  | enableModelQuantization | enableTensorPooling | enableAsyncModelLoading
  | preloadModelsOnStartup | enableResultCompression
  | enableRequestBatching | adaptiveBatchTimeout | enableInflightBatching
  | enableWorkerPool | enableAutoScaling | enableZeroScaling => .bool

def configDefault : (key : PerformanceKey) → key.type.Denotes
  | warmupIterations => 3
  | enableCaching => true
  | enableProfiling => false
  | cacheSizeMb => 1024
  | enableCudaGraphs => false
  | enableModelQuantization => false
  | quantizationBits => 8
  | enableTensorPooling => true
  | maxPooledTensors => 100
  | enableAsyncModelLoading => true
  | preloadModelsOnStartup => false
  | enableResultCompression => false
  | compressionLevel => 6
  | enableRequestBatching => true
  | adaptiveBatchTimeout => true
  | minBatchSize => 1
  | enableInflightBatching => false
  | maxInflightBatches => 4
  | enableWorkerPool => true
  | minWorkers => 2
  | maxWorkers => 16
  | enableAutoScaling => true
  | enableZeroScaling => false

end PerformanceKey

/-! ## `[auth]` -/

inductive AuthKey where
  | enabled | jwtSecret | jwtAlgorithm | accessTokenExpireMinutes
  deriving DecidableEq

namespace AuthKey

abbrev type : AuthKey → ValueType
  | enabled => .bool
  | jwtSecret | jwtAlgorithm => .string
  | accessTokenExpireMinutes => .u32

/-- Authentication is off, with a placeholder for its secret. -/
def configDefault : (key : AuthKey) → key.type.Denotes
  | enabled => false
  | jwtSecret => "your-secret-key-here"
  | jwtAlgorithm => "HS256"
  | accessTokenExpireMinutes => 60

end AuthKey

/-! ## `[models]` -/

inductive ModelsKey where
  | autoLoad | cacheDir | maxLoadedModels | classifyModel | classifyLabels
  | audioModelDir | yoloConfThreshold | yoloIouThreshold
  deriving DecidableEq

namespace ModelsKey

abbrev type : ModelsKey → ValueType
  | autoLoad => .strings
  | cacheDir | classifyModel | classifyLabels | audioModelDir => .pathBuf
  | maxLoadedModels => .usize
  | yoloConfThreshold | yoloIouThreshold => .f32

def configDefault : (key : ModelsKey) → key.type.Denotes
  | autoLoad => ["example"]
  | cacheDir => "models"
  | maxLoadedModels => 5
  | classifyModel => "models/classify/efficientnet-lite4-11-int8.onnx"
  | classifyLabels => "models/classify/imagenet1000.txt"
  | audioModelDir => "models/audio"
  | yoloConfThreshold => ⟨0x3E800000⟩ -- 0.25
  | yoloIouThreshold => ⟨0x3EE66666⟩ -- 0.45

end ModelsKey

/-! ## `[microservices]` -/

inductive MicroservicesKey where
  | llmHost | llmPort
  deriving DecidableEq

namespace MicroservicesKey

abbrev type : MicroservicesKey → ValueType
  | llmHost => .string
  | llmPort => .u16

def serdeDefault : (key : MicroservicesKey) → key.type.Denotes
  | llmHost => "127.0.0.1"
  | llmPort => 8001

def configDefault : (key : MicroservicesKey) → key.type.Denotes
  | llmHost => "127.0.0.1"
  | llmPort => 8001

end MicroservicesKey

/-! ## `[sanitizer]` -/

inductive SanitizerKey where
  | maxTextLength | sanitizeText | sanitizeImageDimensions | maxImageWidth
  | maxImageHeight | roundProbabilities | probabilityDecimals
  | removeNullValues
  deriving DecidableEq

namespace SanitizerKey

abbrev type : SanitizerKey → ValueType
  | maxTextLength => .usize
  | sanitizeText | sanitizeImageDimensions | roundProbabilities
  | removeNullValues => .bool
  | maxImageWidth | maxImageHeight | probabilityDecimals => .u32

/-- The `Default` of the section; its keys have no defaults of their own. -/
def sectionDefault : (key : SanitizerKey) → key.type.Denotes
  | maxTextLength => 10000
  | sanitizeText => true
  | sanitizeImageDimensions => true
  | maxImageWidth => 4096
  | maxImageHeight => 4096
  | roundProbabilities => true
  | probabilityDecimals => 4
  | removeNullValues => true

def configDefault : (key : SanitizerKey) → key.type.Denotes
  | maxTextLength => 10000
  | sanitizeText => true
  | sanitizeImageDimensions => true
  | maxImageWidth => 4096
  | maxImageHeight => 4096
  | roundProbabilities => true
  | probabilityDecimals => 4
  | removeNullValues => true

/-- In the order of the fields. -/
def all : List SanitizerKey :=
  [maxTextLength, sanitizeText, sanitizeImageDimensions, maxImageWidth,
    maxImageHeight, roundProbabilities, probabilityDecimals,
    removeNullValues]

theorem mem_all (key : SanitizerKey) : key ∈ all := by
  cases key <;> decide

end SanitizerKey

/-! ## `[postprocess]` -/

inductive AudioPostprocessKey where
  | enabled | targetPeak | silenceThreshold | padMs
  deriving DecidableEq

namespace AudioPostprocessKey

abbrev type : AudioPostprocessKey → ValueType
  | enabled => .bool
  | targetPeak | silenceThreshold => .f32
  | padMs => .u32

def serdeDefault : (key : AudioPostprocessKey) → key.type.Denotes
  | enabled => true
  | targetPeak => ⟨0x3F733333⟩ -- 0.95
  | silenceThreshold => ⟨0x3C23D70A⟩ -- 0.01
  | padMs => 50

def sectionDefault : (key : AudioPostprocessKey) → key.type.Denotes
  | enabled => true
  | targetPeak => ⟨0x3F733333⟩
  | silenceThreshold => ⟨0x3C23D70A⟩
  | padMs => 50

end AudioPostprocessKey

inductive ClassifyPostprocessKey where
  | enabled | temperature | minConfidence
  deriving DecidableEq

namespace ClassifyPostprocessKey

abbrev type : ClassifyPostprocessKey → ValueType
  | enabled => .bool
  | temperature | minConfidence => .f32

def serdeDefault : (key : ClassifyPostprocessKey) → key.type.Denotes
  | enabled => true
  | temperature => ⟨0x3F800000⟩ -- 1.0
  | minConfidence => ⟨0x3C23D70A⟩ -- 0.01

def sectionDefault : (key : ClassifyPostprocessKey) → key.type.Denotes
  | enabled => true
  | temperature => ⟨0x3F800000⟩
  | minConfidence => ⟨0x3C23D70A⟩

end ClassifyPostprocessKey

inductive YoloPostprocessKey where
  | enabled | highConfidenceThreshold | mediumConfidenceThreshold
  deriving DecidableEq

namespace YoloPostprocessKey

abbrev type : YoloPostprocessKey → ValueType
  | enabled => .bool
  | highConfidenceThreshold | mediumConfidenceThreshold => .f32

def serdeDefault : (key : YoloPostprocessKey) → key.type.Denotes
  | enabled => true
  | highConfidenceThreshold => ⟨0x3F333333⟩ -- 0.7
  | mediumConfidenceThreshold => ⟨0x3ECCCCCD⟩ -- 0.4

def sectionDefault : (key : YoloPostprocessKey) → key.type.Denotes
  | enabled => true
  | highConfidenceThreshold => ⟨0x3F333333⟩
  | mediumConfidenceThreshold => ⟨0x3ECCCCCD⟩

end YoloPostprocessKey

/-! ## Sections -/

/-- The tables of a configuration file.  A file without `[postprocess]` leaves
its three tables out, which have the same defaults either way. -/
inductive ConfigSection where
  | server | device | batch | performance | auth | models | microservices
  | sanitizer | postprocessAudio | postprocessClassify | postprocessYolo
  deriving DecidableEq

namespace ConfigSection

abbrev Key : ConfigSection → Type
  | server => ServerKey
  | device => DeviceKey
  | batch => BatchKey
  | performance => PerformanceKey
  | auth => AuthKey
  | models => ModelsKey
  | microservices => MicroservicesKey
  | sanitizer => SanitizerKey
  | postprocessAudio => AudioPostprocessKey
  | postprocessClassify => ClassifyPostprocessKey
  | postprocessYolo => YoloPostprocessKey

abbrev type : (part : ConfigSection) → part.Key → ValueType
  | server => ServerKey.type
  | device => DeviceKey.type
  | batch => BatchKey.type
  | performance => PerformanceKey.type
  | auth => AuthKey.type
  | models => ModelsKey.type
  | microservices => MicroservicesKey.type
  | sanitizer => SanitizerKey.type
  | postprocessAudio => AudioPostprocessKey.type
  | postprocessClassify => ClassifyPostprocessKey.type
  | postprocessYolo => YoloPostprocessKey.type

abbrev Value (part : ConfigSection) (key : part.Key) : Type :=
  (part.type key).Denotes

/-- The `Default` of a section, which stands for a section that is missing. -/
def sectionDefault (numCpus : UInt64) :
    (part : ConfigSection) → (key : part.Key) → part.Value key
  | server => ServerKey.serdeDefault numCpus
  | device => fun key => key.type.default
  | batch => fun key => key.type.default
  | performance => fun key => key.type.default
  | auth => fun key => key.type.default
  | models => fun key => key.type.default
  | microservices => MicroservicesKey.serdeDefault
  | sanitizer => SanitizerKey.sectionDefault
  | postprocessAudio => AudioPostprocessKey.sectionDefault
  | postprocessClassify => ClassifyPostprocessKey.sectionDefault
  | postprocessYolo => YoloPostprocessKey.sectionDefault

/-- The `#[serde(default)]` of a key, which stands for a key that is missing
from its section. -/
def keyDefault (numCpus : UInt64) :
    (part : ConfigSection) → (key : part.Key) → Option (part.Value key)
  | server => fun key => some (key.serdeDefault numCpus)
  | device => fun key => some key.type.default
  | batch => fun key => some key.type.default
  | performance => fun key => some key.type.default
  | auth => fun key => some key.type.default
  | models => fun key => some key.type.default
  | microservices => fun key => some key.serdeDefault
  | sanitizer => fun _ => none
  | postprocessAudio => fun key => some key.serdeDefault
  | postprocessClassify => fun key => some key.serdeDefault
  | postprocessYolo => fun key => some key.serdeDefault

/-- `Config::default`. -/
def configDefault (numCpus : UInt64) :
    (part : ConfigSection) → (key : part.Key) → part.Value key
  | server => ServerKey.configDefault numCpus
  | device => DeviceKey.configDefault numCpus
  | batch => BatchKey.configDefault
  | performance => PerformanceKey.configDefault
  | auth => AuthKey.configDefault
  | models => ModelsKey.configDefault
  | microservices => MicroservicesKey.configDefault
  | sanitizer => SanitizerKey.configDefault
  | postprocessAudio => AudioPostprocessKey.sectionDefault
  | postprocessClassify => ClassifyPostprocessKey.sectionDefault
  | postprocessYolo => YoloPostprocessKey.sectionDefault

end ConfigSection

end TorchInference
