import TorchInference.ModelRegistry
import TorchInference.TransitionRuns

/-!
# Sessions of registered models

The model manager keeps two tables under the ids of models: the entries of the
registry, and the sessions that have been opened for them.  A load reads the
entry, opens a session of its path on each device, stores the sessions and
marks the entry as loaded; an inference looks the entry up and runs on one of
the sessions.  Registrations, loads and inferences of any number of callers are
interleaved between their accesses to the tables.
-/

namespace TorchInference

open TransitionRuns

structure OnnxSession where
  path : List Char
  deviceId : Nat
  deriving DecidableEq

/-- The devices of the configuration. -/
structure DeviceConfig where
  deviceIds : Option (List Nat)
  deviceId : Nat

def DeviceConfig.devices (config : DeviceConfig) : List Nat :=
  config.deviceIds.getD [config.deviceId]

/-- Where a call of `load_onnx_model` stands. -/
inductive LoadStage where
  | reading
  | loading (path : List Char) (devices : List Nat)
      (loaded : List OnnxSession)
  | marking
  | done (result : Except InferenceError Unit)

def LoadStage.isMarking : LoadStage → Bool
  | .marking => true
  | _ => false

structure OnnxLoad where
  modelId : String
  stage : LoadStage

/-- Where a call of `infer_registered` stands.  PyTorch models have tables of
their own. -/
inductive InferStage where
  | dispatching
  | finding
  | selecting (metadata : ModelMetadata)
  | inPytorch
  | done (selected : Option OnnxSession)
      (result : Except InferenceError JsonValue)

structure OnnxInference where
  modelId : String
  input : JsonValue
  stage : InferStage

structure SessionStore where
  config : DeviceConfig
  registry : ModelRegistry
  loadedOnnxModels : AList fun _ : String => List OnnxSession
  onnxReplicaIdx : UInt64
  loads : List OnnxLoad
  inferences : List OnnxInference

inductive SessionAction where
  | register (probe : FileProbe) (path : List Char)
      (modelName : Option String)
  | startLoad (modelId : String)
  /-- A load goes on; the loader's answer is used when it opens a session. -/
  | load (index : Nat) (reply : Except String Unit)
  | startInfer (modelId : String) (input : JsonValue)
  | infer (index : Nat)

namespace SessionStore

open ModelManager

variable (store : SessionStore)

def start (config : DeviceConfig) : SessionStore where
  config := config
  registry := ∅
  loadedOnnxModels := ∅
  onnxReplicaIdx := 0
  loads := []
  inferences := []

/-- `load_onnx_model`, from one access to a table to the next. -/
def loadStep (modelId : String) (reply : Except String Unit) :
    LoadStage → Option (LoadStage × SessionStore)
  | .reading =>
      match asModelLoadError (store.registry.getModel modelId) with
      | .error e => some (.done (.error e), store)
      | .ok entry =>
          if entry.metadata.format ≠ .onnx then
            some (.done (.error (.modelLoadError
              ("Model " ++ modelId ++ " is not an ONNX model"))), store)
          else some (.loading entry.path store.config.devices [], store)
  | .loading path (deviceId :: devices) loaded =>
      match reply with
      | .error text => some (.done (.error (.modelLoadError text)), store)
      | .ok () =>
          some (.loading path devices (loaded ++ [⟨path, deviceId⟩]), store)
  | .loading _ [] loaded =>
      some (.marking, { store with
        loadedOnnxModels := store.loadedOnnxModels.insert modelId loaded })
  | .marking =>
      match asModelLoadError (store.registry.markLoaded modelId) with
      | .error e => some (.done (.error e), store)
      | .ok registry =>
          some (.done (.ok ()), { store with registry := registry })
  | .done _ => none

/-- `infer_registered` and `infer_onnx`, from one access to a table to the
next. -/
def inferStep (modelId : String) (input : JsonValue) :
    InferStage → Option (InferStage × SessionStore)
  | .dispatching =>
      match asModelLoadError (store.registry.getModel modelId) with
      | .error e => some (.done none (.error e), store)
      | .ok entry =>
          match entry.metadata.format with
          | .pyTorch => some (.inPytorch, store)
          | .onnx => some (.finding, store)
          | other => some (.done none (.error (.modelLoadError
              ("Unsupported format: " ++ other.debug))), store)
  | .finding =>
      match asModelLoadError (store.registry.getModel modelId) with
      | .error e => some (.done none (.error e), store)
      | .ok entry => some (.selecting entry.metadata, store)
  | .selecting metadata =>
      match store.loadedOnnxModels.lookup modelId with
      | none => some (.done none (.error (.modelNotFound
          ("Model " ++ modelId ++ " not loaded"))), store)
      | some models =>
          if nonempty : models ≠ [] then
            let model := selectReplica models store.onnxReplicaIdx nonempty
            let result := match onnxInfer model input metadata with
              | .error text => .error (.modelLoadError text)
              | .ok result =>
                  (asModelLoadError (store.registry.getModel modelId)).map
                    fun _ => result
            some (.done (some model) result,
              { store with onnxReplicaIdx := store.onnxReplicaIdx + 1 })
          else some (.done none (.error (.modelLoadError
            "No model instances loaded")), store)
  | .inPytorch => none
  | .done _ _ => none

def step : SessionAction → Option SessionStore
  | .register probe path modelName =>
      match store.registry.registerFromPath probe path modelName with
      | .error _ => some store
      | .ok (_, registry) => some { store with registry := registry }
  | .startLoad modelId =>
      some { store with loads := store.loads ++ [⟨modelId, .reading⟩] }
  | .load index reply =>
      match store.loads[index]? with
      | none => none
      | some load =>
          match store.loadStep load.modelId reply load.stage with
          | none => none
          | some (stage, after) =>
              some { after with
                loads := store.loads.set index { load with stage := stage } }
  | .startInfer modelId input =>
      some { store with
        inferences := store.inferences ++ [⟨modelId, input, .dispatching⟩] }
  | .infer index =>
      match store.inferences[index]? with
      | none => none
      | some inference =>
          match store.inferStep inference.modelId inference.input
            inference.stage with
          | none => none
          | some (stage, after) =>
              some { after with
                inferences := store.inferences.set index
                  { inference with stage := stage } }

/-- The sessions stored under an id. -/
def sessions (modelId : String) : List OnnxSession :=
  (store.loadedOnnxModels.lookup modelId).getD []

/-- The session that `infer_onnx` would run on next. -/
def selection (modelId : String) : Option OnnxSession :=
  if nonempty : store.sessions modelId ≠ [] then
    some (selectReplica (store.sessions modelId) store.onnxReplicaIdx nonempty)
  else none

end SessionStore

/-- The session was opened from the entry's path, and the entry is one of an
ONNX model. -/
def ModelEntry.Opens (entry : ModelEntry) (session : OnnxSession) : Prop :=
  session.path = entry.path ∧ entry.metadata.format = .onnx

instance (entry : ModelEntry) (session : OnnxSession) :
    Decidable (entry.Opens session) :=
  inferInstanceAs (Decidable (_ ∧ _))

namespace SessionStore

variable (store : SessionStore)

/-- The entry registered under the id has been opened as the session. -/
def Registered (modelId : String) (session : OnnxSession) : Prop :=
  ∃ entry ∈ store.registry.lookup modelId, entry.Opens session

def IsLoaded (modelId : String) : Prop :=
  ∃ entry ∈ store.registry.lookup modelId, entry.isLoaded = true

/-- A load of the id has stored its sessions and not marked the entry yet. -/
def isMarking (loads : List OnnxLoad) (modelId : String) : Bool :=
  loads.any fun load => load.modelId == modelId && load.stage.isMarking

/-- Inference runs on a session of the registered file, and an entry is marked
exactly when it has one; a load that is between its two writes is waited
for. -/
structure RunsRegistered : Prop where
  selected : ∀ modelId session, store.selection modelId = some session →
    store.Registered modelId session
  marked : ∀ modelId, isMarking store.loads modelId = false →
    (store.IsLoaded modelId ↔
      ∃ session ∈ store.sessions modelId, store.Registered modelId session)

/-- A registration finds no stored session of its id, or a load between its
two writes whose sessions are of the same file.  When a load stores sessions,
what it has read is still registered; when it marks the entry, there is a
session. -/
def LoadsInOrder : SessionAction → Prop
  | .register probe path modelName =>
      match ModelRegistry.newEntry probe path modelName with
      | .error _ => True
      | .ok entry =>
          (∀ session ∈ store.sessions entry.id, entry.Opens session) ∧
            (store.sessions entry.id = [] ∨
              isMarking store.loads entry.id = true)
  | .load index _ =>
      match store.loads[index]? with
      | some ⟨modelId, .loading path [] loaded⟩ =>
          loaded = [] ∨ ∃ entry ∈ store.registry.lookup modelId,
            entry.path = path ∧ entry.metadata.format = .onnx
      | some ⟨modelId, .marking⟩ =>
          store.sessions modelId ≠ [] ∨
            isMarking (store.loads.eraseIdx index) modelId = true
      | _ => True
  | _ => True

instance (modelId : String) (session : OnnxSession) :
    Decidable (store.Registered modelId session) :=
  inferInstanceAs (Decidable (∃ _ ∈ _, _))

instance (modelId : String) : Decidable (store.IsLoaded modelId) :=
  inferInstanceAs (Decidable (∃ _ ∈ _, _))

instance : ∀ action, Decidable (store.LoadsInOrder action)
  | .register probe path modelName =>
      match registered :
          ModelRegistry.newEntry probe path modelName with
      | .error _ => isTrue (by simp [LoadsInOrder, registered])
      | .ok entry =>
          decidable_of_iff
            ((∀ session ∈ store.sessions entry.id, entry.Opens session) ∧
              (store.sessions entry.id = [] ∨
                isMarking store.loads entry.id = true))
            (by simp only [LoadsInOrder, registered])
  | .load index _ =>
      match found : store.loads[index]? with
      | some ⟨modelId, .loading path [] loaded⟩ =>
          decidable_of_iff
            (loaded = [] ∨ ∃ entry ∈ store.registry.lookup modelId,
              entry.path = path ∧ entry.metadata.format = .onnx)
            (by simp only [LoadsInOrder, found])
      | some ⟨modelId, .marking⟩ =>
          decidable_of_iff
            (store.sessions modelId ≠ [] ∨
              isMarking (store.loads.eraseIdx index) modelId = true)
            (by simp only [LoadsInOrder, found])
      | none | some ⟨_, .reading⟩ | some ⟨_, .loading _ (_ :: _) _⟩
      | some ⟨_, .done _⟩ => isTrue (by simp [LoadsInOrder, found])
  | .startLoad _ | .startInfer _ _ | .infer _ => isTrue trivial

variable {store} {next : SessionStore}

theorem selection_mem {modelId : String} {session : OnnxSession}
    (selects : store.selection modelId = some session) :
    session ∈ store.sessions modelId := by
  unfold selection at selects
  split at selects
  case isTrue nonempty =>
    cases selects
    exact List.get_mem _ _
  case isFalse empty => cases selects

theorem exists_selection {modelId : String}
    (nonempty : store.sessions modelId ≠ []) :
    ∃ session, store.selection modelId = some session :=
  ⟨_, dif_pos nonempty⟩

/-- Which ids have a load between its two writes, when one load changes. -/
theorem isMarking_set {loads : List OnnxLoad} {index : Nat} {load : OnnxLoad}
    (found : loads[index]? = some load) (stage : LoadStage)
    (modelId : String) :
    isMarking (loads.set index { load with stage := stage }) modelId =
      ((load.modelId == modelId && stage.isMarking) ||
        isMarking (loads.eraseIdx index) modelId) := by
  induction loads generalizing index with
  | nil => simp at found
  | cons first loads ih =>
      cases index with
      | zero =>
          simp only [List.getElem?_cons_zero, Option.some.injEq] at found
          subst found
          simp [isMarking]
      | succ index =>
          have later := ih (List.getElem?_cons_succ ▸ found)
          simp only [isMarking, List.set_cons_succ, List.any_cons,
            List.eraseIdx_cons_succ] at later ⊢
          rw [later, Bool.or_left_comm]

theorem isMarking_eq {loads : List OnnxLoad} {index : Nat} {load : OnnxLoad}
    (found : loads[index]? = some load) (modelId : String) :
    isMarking loads modelId =
      ((load.modelId == modelId && load.stage.isMarking) ||
        isMarking (loads.eraseIdx index) modelId) := by
  have same : loads.set index { load with stage := load.stage } = loads := by
    obtain ⟨bound, rfl⟩ := List.getElem?_eq_some_iff.mp found
    exact List.set_getElem_self bound
  rw [← isMarking_set found load.stage modelId, same]

/-- What a step of a load does. -/
inductive LoadMove (store : SessionStore) (modelId : String) :
    LoadStage → LoadStage → SessionStore → Prop
  | reads (entry : ModelEntry)
      (registered : store.registry.lookup modelId = some entry) :
      LoadMove store modelId .reading
        (.loading entry.path store.config.devices []) store
  | opens (path : List Char) (deviceId : Nat) (devices : List Nat)
      (loaded : List OnnxSession) :
      LoadMove store modelId (.loading path (deviceId :: devices) loaded)
        (.loading path devices (loaded ++ [⟨path, deviceId⟩])) store
  | fails (stage : LoadStage) (error : InferenceError)
      (unmarked : stage ≠ .marking) (unstored : ∀ path loaded,
        stage ≠ .loading path [] loaded) :
      LoadMove store modelId stage (.done (.error error)) store
  | stores (path : List Char) (loaded : List OnnxSession) :
      LoadMove store modelId (.loading path [] loaded) .marking
        { store with
          loadedOnnxModels := store.loadedOnnxModels.insert modelId loaded }
  | loses (error : InferenceError)
      (unregistered : store.registry.lookup modelId = none) :
      LoadMove store modelId .marking (.done (.error error)) store
  | marks (entry : ModelEntry)
      (registered : store.registry.lookup modelId = some entry) :
      LoadMove store modelId .marking (.done (.ok ()))
        { store with
          registry := store.registry.insert modelId
            { entry with isLoaded := true, loadCount := entry.loadCount + 1 } }

theorem loadMove_of_loadStep {modelId : String} {reply : Except String Unit}
    {stage later : LoadStage} {after : SessionStore}
    (goesOn : store.loadStep modelId reply stage = some (later, after)) :
    LoadMove store modelId stage later after := by
  cases stage with
  | reading =>
      have unstored : ∀ path loaded,
          LoadStage.reading ≠ .loading path [] loaded :=
        fun _ _ => LoadStage.noConfusion
      cases registered : store.registry.lookup modelId with
      | none =>
          simp only [loadStep, ModelRegistry.getModel, registered,
            ModelManager.asModelLoadError, Option.some.injEq,
            Prod.mk.injEq] at goesOn
          obtain ⟨rfl, rfl⟩ := goesOn
          exact .fails _ _ LoadStage.noConfusion unstored
      | some entry =>
          simp only [loadStep, ModelRegistry.getModel, registered,
            ModelManager.asModelLoadError] at goesOn
          split at goesOn
          · cases goesOn
            exact .fails _ _ LoadStage.noConfusion unstored
          · cases goesOn
            exact .reads entry registered
  | loading path devices loaded =>
      cases devices with
      | nil =>
          cases goesOn
          exact .stores path loaded
      | cons deviceId devices =>
          cases reply with
          | error text =>
              cases goesOn
              exact .fails _ _ LoadStage.noConfusion (by simp)
          | ok opened =>
              cases goesOn
              exact .opens path deviceId devices loaded
  | marking =>
      cases registered : store.registry.lookup modelId with
      | none =>
          simp only [loadStep, ModelRegistry.markLoaded,
            ModelRegistry.updateModel, registered,
            ModelManager.asModelLoadError, Option.some.injEq,
            Prod.mk.injEq] at goesOn
          obtain ⟨rfl, rfl⟩ := goesOn
          exact .loses _ registered
      | some entry =>
          simp only [loadStep, ModelRegistry.markLoaded,
            ModelRegistry.updateModel, registered,
            ModelManager.asModelLoadError, Option.some.injEq,
            Prod.mk.injEq] at goesOn
          obtain ⟨rfl, rfl⟩ := goesOn
          exact .marks entry registered
  | done result => cases goesOn

/-- The tables of the manager are as they were, and so are the loads but for
new ones. -/
structure SameTables (store next : SessionStore) : Prop where
  registry : next.registry = store.registry
  loadedOnnxModels : next.loadedOnnxModels = store.loadedOnnxModels
  loads : ∃ started : List String,
    next.loads = store.loads ++ started.map fun modelId => ⟨modelId, .reading⟩

theorem sameTables_of_inferStep {modelId : String} {input : JsonValue}
    {stage later : InferStage} {after : SessionStore}
    (goesOn : store.inferStep modelId input stage = some (later, after)) :
    SameTables store after := by
  have rest : ∃ started : List String, store.loads =
      store.loads ++ started.map fun modelId => ⟨modelId, .reading⟩ :=
    ⟨[], by simp⟩
  unfold inferStep at goesOn
  repeat' split at goesOn
  all_goals
    cases goesOn
    try exact ⟨rfl, rfl, rest⟩

/-- What a step of the manager does. -/
inductive StoreMove (store : SessionStore) :
    SessionAction → SessionStore → Prop
  | idle (action : SessionAction) (next : SessionStore)
      (same : SameTables store next) (orderly : store.LoadsInOrder action) :
      StoreMove store action next
  | registers (probe : FileProbe) (path : List Char)
      (modelName : Option String) (entry : ModelEntry)
      (registered :
        ModelRegistry.newEntry probe path modelName = .ok entry) :
      StoreMove store (.register probe path modelName)
        { store with registry := store.registry.insert entry.id entry }
  | loads (index : Nat) (reply : Except String Unit) (load : OnnxLoad)
      (stage : LoadStage) (after : SessionStore)
      (found : store.loads[index]? = some load)
      (move : LoadMove store load.modelId load.stage stage after) :
      StoreMove store (.load index reply)
        { after with
          loads := store.loads.set index { load with stage := stage } }

theorem storeMove_of_step {action : SessionAction}
    (stepTo : store.step action = some next) :
    StoreMove store action next := by
  have rest : ∃ started : List String, store.loads =
      store.loads ++ started.map fun modelId => ⟨modelId, .reading⟩ :=
    ⟨[], by simp⟩
  cases action with
  | register probe path modelName =>
      unfold step at stepTo
      cases registered : ModelRegistry.newEntry probe path modelName with
      | error failure =>
          simp only [ModelRegistry.registerFromPath, registered, Except.map,
            Option.some.injEq] at stepTo
          subst stepTo
          refine .idle _ _ ⟨rfl, rfl, rest⟩ ?_
          simp [LoadsInOrder, registered]
      | ok entry =>
          simp only [ModelRegistry.registerFromPath, registered, Except.map,
            Option.some.injEq] at stepTo
          subst stepTo
          exact .registers probe path modelName entry registered
  | startLoad modelId =>
      cases stepTo
      exact .idle _ _ ⟨rfl, rfl, [modelId], rfl⟩ trivial
  | load index reply =>
      unfold step at stepTo
      cases found : store.loads[index]? with
      | none => simp [found] at stepTo
      | some load =>
          simp only [found] at stepTo
          cases goesOn : store.loadStep load.modelId reply load.stage with
          | none => simp [goesOn] at stepTo
          | some result =>
              obtain ⟨stage, after⟩ := result
              simp only [goesOn, Option.some.injEq] at stepTo
              subst stepTo
              exact .loads index reply load stage after found
                (loadMove_of_loadStep goesOn)
  | startInfer modelId input =>
      cases stepTo
      exact .idle _ _ ⟨rfl, rfl, rest⟩ trivial
  | infer index =>
      unfold step at stepTo
      cases found : store.inferences[index]? with
      | none => simp [found] at stepTo
      | some inference =>
          simp only [found] at stepTo
          cases goesOn : store.inferStep inference.modelId inference.input
              inference.stage with
          | none => simp [goesOn] at stepTo
          | some result =>
              obtain ⟨stage, after⟩ := result
              simp only [goesOn, Option.some.injEq] at stepTo
              subst stepTo
              obtain ⟨registry, stored, loads⟩ :=
                sameTables_of_inferStep goesOn
              exact .idle _ _ ⟨registry, stored, loads⟩ trivial

section Tables

variable {key modelId : String} {entry : ModelEntry} {session : OnnxSession}

theorem registered_congr (same : next.registry = store.registry) :
    next.Registered modelId session ↔ store.Registered modelId session := by
  rw [Registered, Registered, same]

theorem isLoaded_congr (same : next.registry = store.registry) :
    next.IsLoaded modelId ↔ store.IsLoaded modelId := by
  rw [IsLoaded, IsLoaded, same]

theorem registered_insert
    (inserted : next.registry = store.registry.insert key entry) :
    next.Registered key session ↔ entry.Opens session := by
  simp [Registered, inserted]

theorem registered_insert_ne (other : modelId ≠ key)
    (inserted : next.registry = store.registry.insert key entry) :
    next.Registered modelId session ↔ store.Registered modelId session := by
  simp [Registered, inserted, AList.lookup_insert_ne other]

theorem isLoaded_insert
    (inserted : next.registry = store.registry.insert key entry) :
    next.IsLoaded key ↔ entry.isLoaded = true := by
  simp [IsLoaded, inserted]

theorem isLoaded_insert_ne (other : modelId ≠ key)
    (inserted : next.registry = store.registry.insert key entry) :
    next.IsLoaded modelId ↔ store.IsLoaded modelId := by
  simp [IsLoaded, inserted, AList.lookup_insert_ne other]

theorem isSome_lookup_insert
    (registered : (store.registry.lookup modelId).isSome = true)
    (inserted : next.registry = store.registry.insert key entry) :
    (next.registry.lookup modelId).isSome = true := by
  by_cases same : modelId = key
  · subst same
    simp [inserted]
  · rwa [inserted, AList.lookup_insert_ne same]

theorem sessions_congr
    (same : next.loadedOnnxModels = store.loadedOnnxModels) :
    next.sessions modelId = store.sessions modelId := by
  rw [sessions, sessions, same]

variable {loaded : List OnnxSession}

theorem sessions_insert (inserted : next.loadedOnnxModels =
      store.loadedOnnxModels.insert key loaded) :
    next.sessions key = loaded := by
  simp [sessions, inserted]

theorem sessions_insert_ne (other : modelId ≠ key)
    (inserted : next.loadedOnnxModels =
      store.loadedOnnxModels.insert key loaded) :
    next.sessions modelId = store.sessions modelId := by
  simp [sessions, inserted, AList.lookup_insert_ne other]

end Tables

/-- A load that has read its entry has opened sessions of one path, and its id
stays registered. -/
def StageFits (store : SessionStore) (modelId : String) : LoadStage → Prop
  | .loading path _ loaded =>
      (store.registry.lookup modelId).isSome = true ∧
        ∀ session ∈ loaded, session.path = path
  | .marking => (store.registry.lookup modelId).isSome = true
  | _ => True

theorem StageFits.mono {modelId : String} {stage : LoadStage}
    (fits : store.StageFits modelId stage)
    (grows : (store.registry.lookup modelId).isSome = true →
      (next.registry.lookup modelId).isSome = true) :
    next.StageFits modelId stage := by
  cases stage with
  | reading => trivial
  | loading path devices loaded => exact ⟨grows fits.1, fits.2⟩
  | marking => exact grows fits
  | done result => trivial

structure Inv (store : SessionStore) : Prop where
  matched : ∀ modelId, ∀ session ∈ store.sessions modelId,
    store.Registered modelId session
  marked : ∀ modelId, isMarking store.loads modelId = false →
    (store.IsLoaded modelId ↔ store.sessions modelId ≠ [])
  fits : ∀ load ∈ store.loads, store.StageFits load.modelId load.stage

theorem inv_start (config : DeviceConfig) : (start config).Inv where
  matched := by
    intro modelId session stored
    simp [sessions, start] at stored
  marked := by
    intro modelId _
    simp [IsLoaded, sessions, start]
  fits := by
    intro load member
    simp [start] at member

theorem Inv.runsRegistered (inv : store.Inv) : store.RunsRegistered where
  selected := fun modelId session selects =>
    inv.matched modelId session (selection_mem selects)
  marked := by
    intro modelId unmarked
    rw [inv.marked modelId unmarked]
    constructor
    · intro nonempty
      obtain ⟨session, stored⟩ := List.exists_mem_of_ne_nil _ nonempty
      exact ⟨session, stored, inv.matched modelId session stored⟩
    · rintro ⟨session, stored, -⟩
      exact List.ne_nil_of_mem stored

theorem Inv.idle (inv : store.Inv) (same : SameTables store next) :
    next.Inv := by
  obtain ⟨started, loads⟩ := same.loads
  have notMarking : ∀ modelId,
      isMarking next.loads modelId = isMarking store.loads modelId := by
    intro modelId
    simp [loads, isMarking, LoadStage.isMarking]
  constructor
  · intro modelId session stored
    rw [sessions_congr same.loadedOnnxModels] at stored
    rw [registered_congr same.registry]
    exact inv.matched modelId session stored
  · intro modelId unmarked
    rw [notMarking] at unmarked
    rw [isLoaded_congr same.registry, sessions_congr same.loadedOnnxModels]
    exact inv.marked modelId unmarked
  · intro load member
    rw [loads, List.mem_append] at member
    rcases member with earlier | later
    · have grows := inv.fits load earlier
      apply grows.mono
      rw [same.registry]
      exact id
    · obtain ⟨modelId, -, rfl⟩ := List.mem_map.mp later
      trivial

section Register

variable {entry : ModelEntry}

theorem Inv.registers (inv : store.Inv) (fresh : entry.isLoaded = false)
    (opened : ∀ session ∈ store.sessions entry.id, entry.Opens session)
    (waits : store.sessions entry.id = [] ∨
      isMarking store.loads entry.id = true)
    (registry : next.registry = store.registry.insert entry.id entry)
    (stored : next.loadedOnnxModels = store.loadedOnnxModels)
    (loads : next.loads = store.loads) : next.Inv := by
  constructor
  · intro modelId session member
    rw [sessions_congr stored] at member
    by_cases same : modelId = entry.id
    · subst same
      rw [registered_insert registry]
      exact opened session member
    · rw [registered_insert_ne same registry]
      exact inv.matched modelId session member
  · intro modelId unmarked
    rw [loads] at unmarked
    rw [sessions_congr stored]
    by_cases same : modelId = entry.id
    · subst same
      have empty : store.sessions entry.id = [] :=
        waits.resolve_right (by simp [unmarked])
      rw [isLoaded_insert registry]
      simp [fresh, empty]
    · rw [isLoaded_insert_ne same registry]
      exact inv.marked modelId unmarked
  · intro load member
    rw [loads] at member
    exact (inv.fits load member).mono
      fun registered => isSome_lookup_insert registered registry

/-- A registration that keeps the property is an orderly one. -/
theorem Inv.registers_orderly (inv : store.Inv)
    (runs : next.RunsRegistered) (fresh : entry.isLoaded = false)
    (registry : next.registry = store.registry.insert entry.id entry)
    (stored : next.loadedOnnxModels = store.loadedOnnxModels)
    (loads : next.loads = store.loads) :
    (∀ session ∈ store.sessions entry.id, entry.Opens session) ∧
      (store.sessions entry.id = [] ∨
        isMarking store.loads entry.id = true) := by
  have sameSessions : next.sessions entry.id = store.sessions entry.id :=
    sessions_congr stored
  have opened : ∀ session ∈ store.sessions entry.id,
      entry.Opens session := by
    intro session member
    have nonempty : next.sessions entry.id ≠ [] :=
      List.ne_nil_of_mem (sameSessions ▸ member)
    obtain ⟨chosen, selects⟩ := exists_selection nonempty
    have opens : entry.Opens chosen :=
      (registered_insert registry).mp (runs.selected _ _ selects)
    have chosenStored : chosen ∈ store.sessions entry.id :=
      sameSessions ▸ selection_mem selects
    -- all stored sessions are of the path that was registered before
    obtain ⟨earlier, isEarlier, samePath⟩ :=
      inv.matched _ session member
    obtain ⟨other, isOther, otherPath⟩ :=
      inv.matched _ chosen chosenStored
    have sameEntry : earlier = other := Option.mem_unique isEarlier isOther
    subst sameEntry
    exact ⟨by rw [samePath.1, ← otherPath.1, opens.1], opens.2⟩
  refine ⟨opened, ?_⟩
  by_contra neither
  obtain ⟨nonempty, unmarked⟩ := not_or.mp neither
  have noMark : isMarking next.loads entry.id = false := by
    rw [loads]
    exact Bool.eq_false_iff.mpr unmarked
  obtain ⟨session, member⟩ := List.exists_mem_of_ne_nil _ nonempty
  have flagged : next.IsLoaded entry.id :=
    (runs.marked entry.id noMark).mpr ⟨session, sameSessions ▸ member,
      (registered_insert registry).mpr (opened session member)⟩
  rw [isLoaded_insert registry, fresh] at flagged
  cases flagged

end Register

section Load

variable {load : OnnxLoad} {index : Nat} {stage : LoadStage}
  {after : SessionStore}

/-- Every load of the list fits after one of them has moved. -/
theorem fits_set (inv : store.Inv)
    (grows : ∀ modelId, (store.registry.lookup modelId).isSome = true →
      (next.registry.lookup modelId).isSome = true)
    (loads : next.loads = store.loads.set index { load with stage := stage })
    (fits : next.StageFits load.modelId stage) :
    ∀ other ∈ next.loads, next.StageFits other.modelId other.stage := by
  intro other member
  rw [loads] at member
  rcases List.mem_or_eq_of_mem_set member with earlier | rfl
  · exact (inv.fits other earlier).mono (grows other.modelId)
  · exact fits

/-- A load that moves without writing to a table. -/
theorem Inv.loadsOn (inv : store.Inv)
    (found : store.loads[index]? = some load)
    (registry : next.registry = store.registry)
    (stored : next.loadedOnnxModels = store.loadedOnnxModels)
    (loads :
      next.loads = store.loads.set index { load with stage := stage })
    (before : load.stage.isMarking = false)
    (later : stage.isMarking = false)
    (fits : store.StageFits load.modelId stage) : next.Inv := by
  have sameMarking : ∀ modelId,
      isMarking next.loads modelId = isMarking store.loads modelId := by
    intro modelId
    rw [loads, isMarking_set found, isMarking_eq found, before, later]
  constructor
  · intro modelId session member
    rw [sessions_congr stored] at member
    rw [registered_congr registry]
    exact inv.matched modelId session member
  · intro modelId unmarked
    rw [sameMarking] at unmarked
    rw [isLoaded_congr registry, sessions_congr stored]
    exact inv.marked modelId unmarked
  · apply fits_set inv _ loads
    · exact fits.mono (by rw [registry]; exact id)
    · intro modelId
      rw [registry]
      exact id

variable {path : List Char} {loaded : List OnnxSession}

theorem Inv.stores (inv : store.Inv)
    (found : store.loads[index]? = some load)
    (registry : next.registry = store.registry)
    (stored : next.loadedOnnxModels =
      store.loadedOnnxModels.insert load.modelId loaded)
    (loads :
      next.loads = store.loads.set index { load with stage := .marking })
    (isLoading : load.stage = .loading path [] loaded)
    (current : loaded = [] ∨ ∃ entry ∈ store.registry.lookup load.modelId,
      entry.path = path ∧ entry.metadata.format = .onnx) : next.Inv := by
  have fits := inv.fits load (List.mem_of_getElem? found)
  rw [isLoading] at fits
  constructor
  · intro modelId session member
    by_cases same : modelId = load.modelId
    · subst same
      rw [sessions_insert stored] at member
      rw [registered_congr registry]
      obtain ⟨entry, registered, samePath, format⟩ :=
        current.resolve_left (List.ne_nil_of_mem member)
      exact ⟨entry, registered, by rw [fits.2 session member, samePath],
        format⟩
    · rw [sessions_insert_ne same stored] at member
      rw [registered_congr registry]
      exact inv.matched modelId session member
  · intro modelId unmarked
    rw [loads, isMarking_set found] at unmarked
    by_cases same : modelId = load.modelId
    · subst same
      simp [LoadStage.isMarking] at unmarked
    · have earlier : isMarking store.loads modelId = false := by
        rw [isMarking_eq found, isLoading]
        simpa [LoadStage.isMarking, Ne.symm same] using unmarked
      rw [isLoaded_congr registry, sessions_insert_ne same stored]
      exact inv.marked modelId earlier
  · apply fits_set inv _ loads
    · rw [StageFits, registry]
      exact fits.1
    · intro modelId
      rw [registry]
      exact id

/-- A load that stores sessions and keeps the property stores sessions of what
is registered. -/
theorem Inv.stores_current (inv : store.Inv)
    (runs : next.RunsRegistered)
    (found : store.loads[index]? = some load)
    (registry : next.registry = store.registry)
    (stored : next.loadedOnnxModels =
      store.loadedOnnxModels.insert load.modelId loaded)
    (isLoading : load.stage = .loading path [] loaded) :
    loaded = [] ∨ ∃ entry ∈ store.registry.lookup load.modelId,
      entry.path = path ∧ entry.metadata.format = .onnx := by
  have fits := inv.fits load (List.mem_of_getElem? found)
  rw [isLoading] at fits
  by_cases empty : loaded = []
  · exact Or.inl empty
  · right
    have nonempty : next.sessions load.modelId ≠ [] := by
      rwa [sessions_insert stored]
    obtain ⟨chosen, selects⟩ := exists_selection nonempty
    have isLoaded : chosen ∈ loaded := by
      have member := selection_mem selects
      rwa [sessions_insert stored] at member
    obtain ⟨entry, registered, samePath, format⟩ :=
      (registered_congr registry).mp (runs.selected _ _ selects)
    exact ⟨entry, registered, by rw [← samePath, fits.2 chosen isLoaded],
      format⟩

variable {entry marked : ModelEntry}

theorem Inv.marks (inv : store.Inv)
    (found : store.loads[index]? = some load)
    (registered : store.registry.lookup load.modelId = some entry)
    (registry : next.registry = store.registry.insert load.modelId marked)
    (stored : next.loadedOnnxModels = store.loadedOnnxModels)
    (loads : next.loads =
      store.loads.set index { load with stage := .done (.ok ()) })
    (isMarked : marked.isLoaded = true) (samePath : marked.path = entry.path)
    (sameMetadata : marked.metadata = entry.metadata)
    (present : store.sessions load.modelId ≠ [] ∨
      isMarking (store.loads.eraseIdx index) load.modelId = true) :
    next.Inv := by
  constructor
  · intro modelId session member
    rw [sessions_congr stored] at member
    by_cases same : modelId = load.modelId
    · subst same
      obtain ⟨other, isOther, opens⟩ := inv.matched _ session member
      have sameEntry : entry = other := by
        rw [registered] at isOther
        exact Option.some.inj isOther
      subst sameEntry
      rw [registered_insert registry]
      exact ⟨by rw [opens.1, samePath], by rw [sameMetadata, opens.2]⟩
    · rw [registered_insert_ne same registry]
      exact inv.matched modelId session member
  · intro modelId unmarked
    rw [loads, isMarking_set found] at unmarked
    rw [sessions_congr stored]
    by_cases same : modelId = load.modelId
    · subst same
      have noOther :
          isMarking (store.loads.eraseIdx index) load.modelId = false := by
        simpa [LoadStage.isMarking] using unmarked
      have nonempty : store.sessions load.modelId ≠ [] :=
        present.resolve_right (by simp [noOther])
      rw [isLoaded_insert registry]
      simp [isMarked, nonempty]
    · have earlier : isMarking store.loads modelId = false := by
        rw [isMarking_eq found]
        simpa [LoadStage.isMarking, Ne.symm same] using unmarked
      rw [isLoaded_insert_ne same registry]
      exact inv.marked modelId earlier
  · apply fits_set inv _ loads
    · trivial
    · intro modelId isRegistered
      exact isSome_lookup_insert isRegistered registry

/-- A load that marks its entry and keeps the property leaves sessions. -/
theorem present_of_marks (runs : next.RunsRegistered)
    (found : store.loads[index]? = some load)
    (registry : next.registry = store.registry.insert load.modelId marked)
    (stored : next.loadedOnnxModels = store.loadedOnnxModels)
    (loads : next.loads =
      store.loads.set index { load with stage := .done (.ok ()) })
    (isMarked : marked.isLoaded = true) :
    store.sessions load.modelId ≠ [] ∨
      isMarking (store.loads.eraseIdx index) load.modelId = true := by
  by_cases noOther :
      isMarking (store.loads.eraseIdx index) load.modelId = true
  · exact Or.inr noOther
  · left
    have unmarked : isMarking next.loads load.modelId = false := by
      rw [loads, isMarking_set found]
      simpa [LoadStage.isMarking] using noOther
    have flagged : next.IsLoaded load.modelId :=
      (isLoaded_insert registry).mpr isMarked
    obtain ⟨session, member, -⟩ := (runs.marked _ unmarked).mp flagged
    rw [sessions_congr stored] at member
    exact List.ne_nil_of_mem member

end Load

/-- An orderly step keeps the invariant. -/
theorem Inv.step {action : SessionAction} (inv : store.Inv)
    (orderly : store.LoadsInOrder action)
    (stepTo : store.step action = some next) : next.Inv := by
  cases storeMove_of_step stepTo with
  | idle _ _ same _ => exact inv.idle same
  | registers probe path modelName entry registered =>
      simp only [LoadsInOrder, registered] at orderly
      have fresh := ModelRegistry.newEntry_eq_ok registered
      exact inv.registers fresh.2.2.1 orderly.1 orderly.2 rfl rfl rfl
  | loads index reply load stage after found move =>
      have fits := inv.fits load (List.mem_of_getElem? found)
      obtain ⟨modelId, before⟩ := load
      cases move with
      | reads entry registered =>
          refine inv.loadsOn found rfl rfl rfl rfl rfl ?_
          exact ⟨by simp [registered], by simp⟩
      | opens path deviceId devices loaded =>
          refine inv.loadsOn found rfl rfl rfl rfl rfl ?_
          refine ⟨fits.1, ?_⟩
          intro session member
          rcases List.mem_append.mp member with earlier | opened
          · exact fits.2 session earlier
          · rw [List.mem_singleton.mp opened]
      | fails _ error unmarked _ =>
          have notMarking : before.isMarking = false := by
            cases before <;> first | rfl | exact absurd rfl unmarked
          exact inv.loadsOn found rfl rfl rfl notMarking rfl trivial
      | stores path loaded =>
          simp only [LoadsInOrder, found] at orderly
          exact inv.stores found rfl rfl rfl rfl orderly
      | loses error unregistered =>
          simp [StageFits, unregistered] at fits
      | marks entry registered =>
          simp only [LoadsInOrder, found] at orderly
          exact inv.marks found registered rfl rfl rfl rfl rfl rfl orderly

/-- A step that keeps the property is an orderly one. -/
theorem Inv.loadsInOrder {action : SessionAction} (inv : store.Inv)
    (stepTo : store.step action = some next) (runs : next.RunsRegistered) :
    store.LoadsInOrder action := by
  cases storeMove_of_step stepTo with
  | idle _ _ _ orderly => exact orderly
  | registers probe path modelName entry registered =>
      simp only [LoadsInOrder, registered]
      have fresh := ModelRegistry.newEntry_eq_ok registered
      exact inv.registers_orderly runs fresh.2.2.1 rfl rfl rfl
  | loads index reply load stage after found move =>
      have fits := inv.fits load (List.mem_of_getElem? found)
      obtain ⟨modelId, before⟩ := load
      cases move with
      | reads entry registered => simp [LoadsInOrder, found]
      | opens path deviceId devices loaded => simp [LoadsInOrder, found]
      | fails _ error unmarked unstored =>
          simp only [LoadsInOrder, found]
          split
          case h_1 isLoading =>
            cases isLoading
            exact absurd rfl (unstored _ _)
          case h_2 isMarking =>
            cases isMarking
            exact absurd rfl unmarked
          case h_3 => trivial
      | stores path loaded =>
          simp only [LoadsInOrder, found]
          exact inv.stores_current runs found rfl rfl rfl
      | loses error unregistered =>
          simp [StageFits, unregistered] at fits
      | marks entry registered =>
          simp only [LoadsInOrder, found]
          exact present_of_marks runs found rfl rfl rfl rfl

/-- In a run from the empty tables, inference runs on the registered files and
the marks are right exactly when registrations and loads keep in order. -/
theorem runsRegistered_iff_loadsInOrder (config : DeviceConfig)
    {actions : List SessionAction} {last : SessionStore}
    (reaches : run step (start config) actions = some last) :
    (∀ reached ∈ visited step (start config) actions,
      reached.RunsRegistered) ↔
      Meets step LoadsInOrder (start config) actions :=
  forall_visited_iff_meets (fun _ inv => inv.runsRegistered)
    (fun _ _ _ inv orderly stepTo => inv.step orderly stepTo)
    (fun _ _ _ inv disorder stepTo runs =>
      disorder (inv.loadsInOrder stepTo runs))
    (inv_start config) reaches

section Example

def readable : FileProbe where
  present := true
  size := .ok 8
  config := none

def registerVoice (path : String) : SessionAction :=
  .register readable path.toList (some "voice")

def loadVoice (index : Nat) : List SessionAction :=
  [.startLoad "voice", .load index (.ok ()), .load index (.ok ()),
    .load index (.ok ()), .load index (.ok ())]

def inferVoice (index : Nat) : List SessionAction :=
  [.startInfer "voice" .null, .infer index, .infer index, .infer index]

/-- A model is registered, loaded, used and loaded once more. -/
def orderlyRun : List SessionAction :=
  registerVoice "/models/first.onnx" :: loadVoice 0 ++ inferVoice 0 ++
    loadVoice 1

theorem orderlyRun_runsRegistered :
    (run step (start ⟨none, 0⟩) orderlyRun).isSome = true ∧
      ∀ reached ∈ visited step (start ⟨none, 0⟩) orderlyRun,
        reached.RunsRegistered := by
  have possible :
      (run step (start ⟨none, 0⟩) orderlyRun).isSome = true := by
    decide
  have reaches := (Option.some_get possible).symm
  exact ⟨possible,
    (runsRegistered_iff_loadsInOrder ⟨none, 0⟩ reaches).mpr (by decide)⟩

/-- The id is registered for another file after its load. -/
def replacedRun : List SessionAction :=
  registerVoice "/models/first.onnx" :: loadVoice 0 ++
    [registerVoice "/models/second.onnx"]

def replacedStore : SessionStore :=
  (run step (start ⟨none, 0⟩) replacedRun).get (by decide)

/-- The same file is registered again after its load. -/
def repeatedRun : List SessionAction :=
  registerVoice "/models/first.onnx" :: loadVoice 0 ++
    [registerVoice "/models/first.onnx"]

def repeatedStore : SessionStore :=
  (run step (start ⟨none, 0⟩) repeatedRun).get (by decide)

/-- Inference on the replaced model selects a session of the first file, and
the second registration of a file takes the mark from a model that has a
session. -/
theorem inference_selects_replaced :
    (run step (start ⟨none, 0⟩) replacedRun = some replacedStore ∧
      ¬ replacedStore.RunsRegistered) ∧
    run step (start ⟨none, 0⟩) repeatedRun = some repeatedStore ∧
      ¬ repeatedStore.RunsRegistered := by
  refine ⟨⟨(Option.some_get _).symm, ?_⟩, (Option.some_get _).symm, ?_⟩
  · intro runs
    have wrong : replacedStore.Registered "voice"
        ⟨"/models/first.onnx".toList, 0⟩ :=
      runs.selected "voice" _ (by decide)
    revert wrong
    decide
  · intro runs
    have present : repeatedStore.IsLoaded "voice" :=
      (runs.marked "voice" (by decide)).mpr
        ⟨⟨"/models/first.onnx".toList, 0⟩, by decide, by decide⟩
    revert present
    decide

end Example

end SessionStore

end TorchInference
