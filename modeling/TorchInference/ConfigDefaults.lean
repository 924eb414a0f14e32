import TorchInference.ConfigKeys

/-!
# Loading the configuration

A configuration file gives some keys of some sections, and serde fills in the
others: from the defaults of the keys, or from the default of the section when
that is missing altogether.  Without a file the configuration is
`Config::default`.  The two differ for most keys of `[device]`, `[batch]`,
`[performance]`, `[auth]` and `[models]`, whose sections derive `Default`, and a
`[sanitizer]` must give all of its keys.
-/

namespace TorchInference

open KeyedDefaults

abbrev Config := Record ConfigSection.Value

/-- The values a file gives, as they are read. -/
abbrev ConfigDocument := Document ConfigSection.Value

/-- What serde fills in. -/
def fileDefaults (numCpus : UInt64) : Defaults ConfigSection.Value where
  absent := ConfigSection.sectionDefault numCpus
  missing := ConfigSection.keyDefault numCpus
  required := SanitizerKey.all.map fun key => ⟨.sanitizer, key⟩
  mem_required part key noDefault := by
    cases part with
    | sanitizer => exact List.mem_map_of_mem (SanitizerKey.mem_all key)
    | _ => cases noDefault

/-- What `validate` refuses. -/
inductive ConfigRefusal where
  | placeholderSecret
  | shortSecret (length : Nat)
  | portZero
  | workersZero (minWorkers maxWorkers : UInt64)
  | workersOrder (minWorkers maxWorkers : UInt64)
  | thresholdOutOfRange (key : String) (value : Binary32)
  deriving DecidableEq

def ConfigRefusal.message (showF32 : Binary32 → String) :
    ConfigRefusal → String
  | placeholderSecret =>
      "auth.enabled is true but jwt_secret is the placeholder " ++
        "'your-secret-key-here'; set a real secret in config.toml " ++
        "under [auth] or via the deployment environment"
  | shortSecret length =>
      "auth.enabled is true but jwt_secret is shorter than 32 chars " ++
        s!"({length}); use a high-entropy secret"
  | portZero => "server.port must be in 1..=65535 (got 0)"
  | workersZero minWorkers maxWorkers =>
      "performance.min_workers and max_workers must both be >= 1 " ++
        s!"(min={minWorkers}, max={maxWorkers})"
  | workersOrder minWorkers maxWorkers =>
      s!"performance.min_workers ({minWorkers}) must be <= " ++
        s!"max_workers ({maxWorkers})"
  | thresholdOutOfRange key value =>
      s!"models.{key} must be in [0.0, 1.0] (got {showF32 value})"

inductive ConfigError where
  | unreadable (error : String)
  | missingField (key : Sigma ConfigSection.Key)
  | refused (reason : ConfigRefusal)

namespace Config

/-! ## Validation -/

/-- The range leaves NaN out already. -/
def checkThreshold (key : String) (value : Binary32) :
    Except ConfigRefusal Unit :=
  if !Binary32.inRange ⟨0⟩ ⟨0x3F800000⟩ value || value.isNaN then
    .error (.thresholdOutOfRange key value)
  else .ok ()

def validate (config : Config) : Except ConfigRefusal Unit :=
  let enabled : Bool := config .auth AuthKey.enabled
  let secret : String := config .auth AuthKey.jwtSecret
  let port : UInt16 := config .server ServerKey.port
  let minWorkers : UInt64 := config .performance PerformanceKey.minWorkers
  let maxWorkers : UInt64 := config .performance PerformanceKey.maxWorkers
  if enabled ∧ secret = "your-secret-key-here" then
    .error .placeholderSecret
  else if enabled ∧ secret.utf8ByteSize < 32 then
    .error (.shortSecret secret.utf8ByteSize)
  else if port = 0 then .error .portZero
  else if minWorkers = 0 ∨ maxWorkers = 0 then
    .error (.workersZero minWorkers maxWorkers)
  else if minWorkers > maxWorkers then
    .error (.workersOrder minWorkers maxWorkers)
  else
    match checkThreshold "yolo_conf_threshold"
        (config .models ModelsKey.yoloConfThreshold) with
    | .error reason => .error reason
    | .ok () =>
        checkThreshold "yolo_iou_threshold"
          (config .models ModelsKey.yoloIouThreshold)

def default (numCpus : UInt64) : Config :=
  ConfigSection.configDefault numCpus

/-- Without a file at the path the defaults are loaded; a file may be
unreadable. -/
def loadFromPath (numCpus : UInt64)
    (file : Option (Except String ConfigDocument)) :
    Except ConfigError Config := do
  let config ← match file with
    | none => .ok (default numCpus)
    | some (.error error) => .error (.unreadable error)
    | some (.ok document) =>
        ((fileDefaults numCpus).read document).mapError .missingField
  (validate config).mapError .refused
  return config

/-! ## What is accepted -/

/-- A number from zero to one. -/
def IsThreshold (value : Binary32) : Prop :=
  Binary32.inRange ⟨0⟩ ⟨0x3F800000⟩ value = true

instance (value : Binary32) : Decidable (IsThreshold value) :=
  inferInstanceAs (Decidable (_ = _))

structure Sound (config : Config) : Prop where
  secret : (config .auth AuthKey.enabled : Bool) = true →
    (config .auth AuthKey.jwtSecret : String) ≠ "your-secret-key-here" ∧
      32 ≤ (config .auth AuthKey.jwtSecret : String).utf8ByteSize
  port : (config .server ServerKey.port : UInt16) ≠ 0
  minWorkers : (config .performance PerformanceKey.minWorkers : UInt64) ≠ 0
  maxWorkers : (config .performance PerformanceKey.maxWorkers : UInt64) ≠ 0
  workers : (config .performance PerformanceKey.minWorkers : UInt64) ≤
    (config .performance PerformanceKey.maxWorkers : UInt64)
  confThreshold : IsThreshold (config .models ModelsKey.yoloConfThreshold)
  iouThreshold : IsThreshold (config .models ModelsKey.yoloIouThreshold)

theorem checkThreshold_eq_ok {key : String} {value : Binary32} :
    checkThreshold key value = .ok () ↔ IsThreshold value := by
  unfold checkThreshold IsThreshold
  cases nan : value.isNaN with
  | true => simp [Binary32.inRange, Binary32.le, nan]
  | false => simp

theorem validate_eq_ok {config : Config} :
    config.validate = .ok () ↔ config.Sound := by
  constructor
  · intro accepted
    simp only [validate] at accepted
    split at accepted
    case isTrue => cases accepted
    case isFalse real =>
      split at accepted
      case isTrue => cases accepted
      case isFalse long =>
        split at accepted
        case isTrue => cases accepted
        case isFalse port =>
          split at accepted
          case isTrue => cases accepted
          case isFalse workers =>
            split at accepted
            case isTrue => cases accepted
            case isFalse order =>
              split at accepted
              case h_1 => cases accepted
              case h_2 conf =>
                refine ⟨fun enabled => ⟨?_, ?_⟩, port, ?_, ?_, ?_,
                  checkThreshold_eq_ok.mp conf,
                  checkThreshold_eq_ok.mp accepted⟩
                · exact fun placeholder => real ⟨enabled, placeholder⟩
                · exact Nat.le_of_not_lt fun short => long ⟨enabled, short⟩
                · exact fun zero => workers (Or.inl zero)
                · exact fun zero => workers (Or.inr zero)
                · exact UInt64.not_lt.mp order
  · intro sound
    unfold validate
    simp only
    rw [if_neg fun bad => (sound.secret bad.1).1 bad.2,
      if_neg fun bad => Nat.not_lt_of_le (sound.secret bad.1).2 bad.2,
      if_neg sound.port,
      if_neg fun bad => bad.elim sound.minWorkers sound.maxWorkers,
      if_neg (UInt64.not_lt.mpr sound.workers),
      checkThreshold_eq_ok.mpr sound.confThreshold]
    exact checkThreshold_eq_ok.mpr sound.iouThreshold

/-- The defaults pass their own checks. -/
theorem sound_default (numCpus : UInt64) : (default numCpus).Sound where
  secret enabled := by cases enabled
  port := (by decide : (8000 : UInt16) ≠ 0)
  minWorkers := (by decide : (2 : UInt64) ≠ 0)
  maxWorkers := (by decide : (16 : UInt64) ≠ 0)
  workers := (by decide : (2 : UInt64) ≤ 16)
  confThreshold := (by decide : IsThreshold ⟨0x3E800000⟩)
  iouThreshold := (by decide : IsThreshold ⟨0x3EE66666⟩)

/-! ## What a file is read as -/

/-- A `[sanitizer]` that is there gives all of its keys. -/
def SanitizerComplete (document : ConfigDocument) : Prop :=
  ∀ table ∈ document .sanitizer, ∀ key : SanitizerKey,
    (table key).isSome = true

theorem keyDefault_eq {numCpus : UInt64} {part : ConfigSection}
    (other : part ≠ .sanitizer) (key : part.Key) :
    ConfigSection.keyDefault numCpus part key =
      some (ConfigSection.sectionDefault numCpus part key) := by
  cases part with
  | sanitizer => exact (other rfl).elim
  | postprocessAudio => cases key <;> rfl
  | postprocessClassify => cases key <;> rfl
  | postprocessYolo => cases key <;> rfl
  | _ => rfl

/-- A file without a missing field overrides the defaults of the sections. -/
theorem read_eq_ok_iff {numCpus : UInt64} {document : ConfigDocument}
    {config : Config} :
    (fileDefaults numCpus).read document = .ok config ↔
      SanitizerComplete document ∧
        config = override (ConfigSection.sectionDefault numCpus) document := by
  rw [Defaults.read_eq_ok]
  have others {part : ConfigSection} (other : part ≠ .sanitizer)
      (key : part.Key) :
      (fileDefaults numCpus).entry document part key =
        some (override (ConfigSection.sectionDefault numCpus) document part
          key) :=
    Defaults.entry_eq_override (keyDefault_eq other key)
  constructor
  · intro entries
    have complete : SanitizerComplete document := by
      intro table present key
      have entry := entries .sanitizer key
      simp only [Defaults.entry, Option.mem_def.mp present, fileDefaults,
        ConfigSection.keyDefault, Option.or_none] at entry
      rw [entry]
      rfl
    refine ⟨complete, ?_⟩
    funext part key
    by_cases isSanitizer : part = .sanitizer
    · subst isSanitizer
      have entry := entries .sanitizer key
      unfold Defaults.entry at entry
      cases present : document .sanitizer with
      | none =>
          simp only [present, Option.some.injEq] at entry
          rw [override_of_not_given (by simp [given, present])]
          exact entry.symm
      | some table =>
          simp only [present, fileDefaults, ConfigSection.keyDefault,
            Option.or_none] at entry
          exact (override_of_given (by simp [given, present, entry])).symm
    · have entry := entries part key
      rw [others isSanitizer key, Option.some.injEq] at entry
      exact entry.symm
  · rintro ⟨complete, rfl⟩ part key
    by_cases isSanitizer : part = .sanitizer
    · subst isSanitizer
      unfold Defaults.entry
      cases present : document .sanitizer with
      | none =>
          rw [override_of_not_given (by simp [given, present])]
          rfl
      | some table =>
          obtain ⟨value, isGiven⟩ := Option.isSome_iff_exists.mp
            (complete table present key)
          have isHere : given document .sanitizer key = some value := by
            simp [given, present, isGiven]
          rw [override_of_given isHere]
          simp [isGiven]
    · exact others isSanitizer key

theorem loadFromPath_none (numCpus : UInt64) :
    loadFromPath numCpus none = .ok (default numCpus) := by
  have accepted : validate (default numCpus) = .ok () :=
    validate_eq_ok.mpr (sound_default numCpus)
  simp [loadFromPath, accepted, bind, Except.bind, Except.mapError, pure,
    Except.pure]

/-- A complete file is loaded as the override of the defaults of the sections,
if that is accepted. -/
theorem loadFromPath_of_complete (numCpus : UInt64)
    {document : ConfigDocument} (complete : SanitizerComplete document) :
    loadFromPath numCpus (some (.ok document)) =
      match validate (override (ConfigSection.sectionDefault numCpus)
          document) with
      | .error reason => .error (.refused reason)
      | .ok () => .ok (override (ConfigSection.sectionDefault numCpus)
          document) := by
  have isRead : (fileDefaults numCpus).read document = .ok (override
      (ConfigSection.sectionDefault numCpus) document) :=
    read_eq_ok_iff.mpr ⟨complete, rfl⟩
  cases accepted : validate (override (ConfigSection.sectionDefault numCpus)
    document) <;>
      simp [loadFromPath, isRead, accepted, bind, Except.bind,
        Except.mapError, pure, Except.pure]

theorem loadFromPath_of_not_complete (numCpus : UInt64)
    {document : ConfigDocument} (incomplete : ¬ SanitizerComplete document) :
    ∃ key, loadFromPath numCpus (some (.ok document)) =
      .error (.missingField key) := by
  cases isRead : (fileDefaults numCpus).read document with
  | ok config => exact (incomplete (read_eq_ok_iff.mp isRead).1).elim
  | error key =>
      exact ⟨key, by simp [loadFromPath, isRead, bind, Except.bind,
        Except.mapError]⟩

/-! ## Defaults that differ -/

end Config

/-- The keys whose default in a file is not that of `Config::default`. -/
def ConfigSection.drifted : (part : ConfigSection) → List part.Key
  | device =>
      [DeviceKey.deviceType, .metalCacheShaders,
        .metalOptimizeForAppleSilicon, .enableJit, .enableJitExecutor,
        .enableJitFusion, .numThreads, .numInteropThreads, .cudnnBenchmark,
        .torchWarmupIterations]
  | batch =>
      [BatchKey.batchSize, .maxBatchSize, .enableDynamicBatching]
  | performance =>
      [PerformanceKey.warmupIterations, .enableCaching, .cacheSizeMb,
        .quantizationBits, .enableTensorPooling, .maxPooledTensors,
        .enableAsyncModelLoading, .compressionLevel, .enableRequestBatching,
        .adaptiveBatchTimeout, .minBatchSize, .maxInflightBatches,
        .enableWorkerPool, .minWorkers, .maxWorkers, .enableAutoScaling]
  | auth =>
      [AuthKey.jwtSecret, .jwtAlgorithm, .accessTokenExpireMinutes]
  | models =>
      [ModelsKey.autoLoad, .cacheDir, .maxLoadedModels, .classifyModel,
        .classifyLabels, .audioModelDir, .yoloConfThreshold,
        .yoloIouThreshold]
  | _ => []

section Drift

variable {numCpus : UInt64}

theorem DeviceKey.default_eq_iff (positive : 0 < numCpus)
    (key : DeviceKey) :
    key.type.default = key.configDefault numCpus ↔
      key ∉ ConfigSection.device.drifted := by
  cases key with
  | numThreads =>
      refine iff_of_false (fun same => ?_) (by decide)
      have zero : (0 : UInt64) = numCpus := same
      rw [← zero] at positive
      exact absurd positive (by decide)
  | deviceType | metalCacheShaders | metalOptimizeForAppleSilicon
  | enableJit | enableJitExecutor | enableJitFusion | numInteropThreads
  | cudnnBenchmark | torchWarmupIterations =>
      exact iff_of_false (of_decide_eq_false rfl) (by decide)
  | _ => exact iff_of_true rfl (by decide)

theorem BatchKey.default_eq_iff (key : BatchKey) :
    key.type.default = key.configDefault ↔
      key ∉ ConfigSection.batch.drifted := by
  cases key <;> decide

theorem PerformanceKey.default_eq_iff (key : PerformanceKey) :
    key.type.default = key.configDefault ↔
      key ∉ ConfigSection.performance.drifted := by
  cases key <;> decide

theorem AuthKey.default_eq_iff (key : AuthKey) :
    key.type.default = key.configDefault ↔
      key ∉ ConfigSection.auth.drifted := by
  cases key <;> decide

theorem ModelsKey.default_eq_iff (key : ModelsKey) :
    key.type.default = key.configDefault ↔
      key ∉ ConfigSection.models.drifted := by
  cases key <;> decide

/-- A section has the default of the configuration for a key exactly when that
has not drifted. -/
theorem ConfigSection.sectionDefault_eq_iff (positive : 0 < numCpus)
    (part : ConfigSection) (key : part.Key) :
    part.sectionDefault numCpus key = part.configDefault numCpus key ↔
      key ∉ part.drifted := by
  cases part with
  | device => exact DeviceKey.default_eq_iff positive key
  | batch => exact BatchKey.default_eq_iff key
  | performance => exact PerformanceKey.default_eq_iff key
  | auth => exact AuthKey.default_eq_iff key
  | models => exact ModelsKey.default_eq_iff key
  | server => exact iff_of_true (by cases key <;> rfl) List.not_mem_nil
  | microservices => exact iff_of_true (by cases key <;> rfl) List.not_mem_nil
  | sanitizer => exact iff_of_true (by cases key <;> rfl) List.not_mem_nil
  | postprocessAudio => exact iff_of_true rfl List.not_mem_nil
  | postprocessClassify => exact iff_of_true rfl List.not_mem_nil
  | postprocessYolo => exact iff_of_true rfl List.not_mem_nil

end Drift

namespace Config

/-- The file gives every key whose default has drifted. -/
def GivesDrifted (document : ConfigDocument) : Prop :=
  ∀ part : ConfigSection, ∀ key ∈ part.drifted,
    (given document part key).isSome = true

theorem override_eq_iff_givesDrifted {numCpus : UInt64}
    (positive : 0 < numCpus) (document : ConfigDocument) :
    override (ConfigSection.sectionDefault numCpus) document =
        override (default numCpus) document ↔
      GivesDrifted document := by
  rw [override_eq_iff]
  constructor
  · intro agree part key hasDrifted
    by_contra leftOut
    have same := agree part key (by simpa using leftOut)
    exact (ConfigSection.sectionDefault_eq_iff positive part key).mp same
      hasDrifted
  · intro gives part key leftOut
    refine (ConfigSection.sectionDefault_eq_iff positive part key).mpr ?_
    intro hasDrifted
    have isGiven := gives part key hasDrifted
    rw [leftOut] at isGiven
    cases isGiven

/-- A number of workers that is accepted over the defaults of the sections is
given: their default is zero. -/
theorem given_of_ne_zero {numCpus : UInt64} {document : ConfigDocument}
    {key : PerformanceKey} (zero : ConfigSection.sectionDefault numCpus
      .performance key = key.type.default)
    (nonzero : override (ConfigSection.sectionDefault numCpus) document
      .performance key ≠ key.type.default) :
    ∃ value, given document .performance key = some value := by
  rw [← Option.isSome_iff_exists]
  by_contra leftOut
  apply nonzero
  rw [override_of_not_given (by simpa using leftOut), zero]

/-- What is accepted over the defaults of the sections is accepted over those
of the configuration, too. -/
theorem sound_override {numCpus : UInt64} {document : ConfigDocument}
    (sound : Sound (override (ConfigSection.sectionDefault numCpus)
      document)) :
    Sound (override (default numCpus) document) := by
  obtain ⟨minWorkers, minGiven⟩ := given_of_ne_zero rfl sound.minWorkers
  obtain ⟨maxWorkers, maxGiven⟩ := given_of_ne_zero rfl sound.maxWorkers
  have secret := sound.secret
  have nonzeroMin := sound.minWorkers
  have nonzeroMax := sound.maxWorkers
  have order := sound.workers
  have conf := sound.confThreshold
  have iou := sound.iouThreshold
  rw [override_of_given minGiven] at nonzeroMin order
  rw [override_of_given maxGiven] at nonzeroMax order
  constructor
  case secret =>
    intro enabled
    obtain ⟨real, long⟩ := secret enabled
    cases isGiven : given document .auth AuthKey.jwtSecret with
    | some value =>
        rw [override_of_given isGiven] at real long ⊢
        exact ⟨real, long⟩
    | none =>
        rw [override_of_not_given isGiven] at long
        exact absurd long (by decide : ¬ 32 ≤ "".utf8ByteSize)
  case port => exact sound.port
  case minWorkers =>
    rw [override_of_given minGiven]
    exact nonzeroMin
  case maxWorkers =>
    rw [override_of_given maxGiven]
    exact nonzeroMax
  case workers =>
    rw [override_of_given minGiven, override_of_given maxGiven]
    exact order
  case confThreshold =>
    cases isGiven : given document .models ModelsKey.yoloConfThreshold with
    | some value =>
        rw [override_of_given isGiven] at conf ⊢
        exact conf
    | none =>
        rw [override_of_not_given isGiven]
        exact (by decide : IsThreshold ⟨0x3E800000⟩)
  case iouThreshold =>
    cases isGiven : given document .models ModelsKey.yoloIouThreshold with
    | some value =>
        rw [override_of_given isGiven] at iou ⊢
        exact iou
    | none =>
        rw [override_of_not_given isGiven]
        exact (by decide : IsThreshold ⟨0x3EE66666⟩)

/-! ## Files as overrides -/

/-- `Config::default` with the keys of a file replaced. -/
def requested (numCpus : UInt64) : Option ConfigDocument → Config
  | none => default numCpus
  | some document => override (default numCpus) document

/-- What a file asks for is either loaded or refused. -/
def LoadsRequested (numCpus : UInt64) (file : Option ConfigDocument) : Prop :=
  loadFromPath numCpus (file.map .ok) = .ok (requested numCpus file) ∨
    (∃ reason, (requested numCpus file).validate = .error reason) ∧
      ∃ reason, loadFromPath numCpus (file.map .ok) = .error (.refused reason)

theorem loadsRequested_of_complete {numCpus : UInt64}
    (positive : 0 < numCpus) {document : ConfigDocument}
    (complete : SanitizerComplete document) :
    LoadsRequested numCpus (some document) ↔
      (requested numCpus (some document)).validate ≠ .ok () ∨
        GivesDrifted document := by
  have loads := loadFromPath_of_complete numCpus complete
  rw [← override_eq_iff_givesDrifted positive]
  unfold LoadsRequested requested
  rw [Option.map_some, loads]
  cases read : validate (override (ConfigSection.sectionDefault numCpus)
    document) with
  | ok =>
      have sound := sound_override (validate_eq_ok.mp read)
      have accepted := validate_eq_ok.mpr sound
      simp [accepted]
  | error reason =>
      simp only [reduceCtorEq, false_or, Except.error.injEq,
        ConfigError.refused.injEq, exists_eq', and_true]
      cases asked : validate (override (default numCpus) document) with
      | error other => simp
      | ok =>
          have different : override (ConfigSection.sectionDefault numCpus)
              document ≠ override (default numCpus) document := by
            intro same
            rw [same, asked] at read
            cases read
          simp [different]

/-- A file is an override of `Config::default` exactly when it leaves out no
key of a `[sanitizer]` it has, and asks for what is refused or gives every key
whose default has drifted; no file always is. -/
theorem loadsRequested_iff {numCpus : UInt64} (positive : 0 < numCpus)
    (file : Option ConfigDocument) :
    LoadsRequested numCpus file ↔
      ∀ document ∈ file, SanitizerComplete document ∧
        ((requested numCpus file).validate ≠ .ok () ∨
          GivesDrifted document) := by
  cases file with
  | none =>
      refine iff_of_true (Or.inl ?_) (by simp)
      exact loadFromPath_none numCpus
  | some document =>
      simp only [Option.mem_def, Option.some.injEq, forall_eq']
      by_cases complete : SanitizerComplete document
      · rw [loadsRequested_of_complete positive complete]
        exact (and_iff_right complete).symm
      · obtain ⟨key, missing⟩ :=
          loadFromPath_of_not_complete numCpus complete
        refine iff_of_false ?_ fun both => complete both.1
        rintro (loaded | ⟨-, reason, refused⟩)
        · rw [Option.map_some, missing] at loaded
          cases loaded
        · rw [Option.map_some, missing] at refused
          cases refused

/-- A file that turns authentication on without a secret. -/
def authEnabled : ConfigDocument
  | .auth => some fun
      | AuthKey.enabled => some true
      | _ => none
  | _ => none

theorem authEnabled_loadsRequested :
    (0 : UInt64) < 8 ∧ LoadsRequested 8 (some authEnabled) := by
  refine ⟨by decide, (loadsRequested_iff (by decide) _).mpr ?_⟩
  intro document isFile
  rw [Option.mem_def, Option.some.injEq] at isFile
  subst isFile
  refine ⟨fun table present => (by cases present), Or.inl ?_⟩
  intro accepted
  exact (validate_eq_ok.mp accepted).secret rfl |>.1 rfl

/-- A file that only sets the numbers of workers. -/
def workersOnly : ConfigDocument
  | .performance => some fun
      | PerformanceKey.minWorkers => some 2
      | PerformanceKey.maxWorkers => some 16
      | _ => none
  | _ => none

/-- The device of a file that only sets the numbers of workers is not the
default one but the empty string. -/
theorem workersOnly_not_loadsRequested :
    ¬ LoadsRequested 8 (some workersOnly) := by
  have loaded : (loadFromPath 8 (some (.ok workersOnly))).toOption.map
      (fun config => (config .device DeviceKey.deviceType : String)) =
        some "" := by
    decide +kernel
  have asked : (requested 8 (some workersOnly) .device
      DeviceKey.deviceType : String) = "auto" := rfl
  rintro (isRequested | ⟨-, reason, refused⟩)
  · rw [Option.map_some] at isRequested
    rw [isRequested, Except.toOption, Option.map_some, asked] at loaded
    revert loaded
    decide
  · rw [Option.map_some] at refused
    rw [refused] at loaded
    cases loaded

end Config

end TorchInference
