import TorchInference.ModelPool
import TorchInference.TransitionRuns

/-!
# How many hand-outs of a model can be outstanding

The permit of `acquire` is a local variable that goes out of scope when
`acquire` returns, so the semaphore counts the calls between their permit and
their return and never the hand-outs.  A run keeps at most `max` hand-outs of
each model exactly when no call selects an instance while `max` of them are
outstanding; nothing in the pool makes such a call wait.
-/

namespace TorchInference

open TransitionRuns

namespace ModelPool

variable {T : Type*} {pool : ModelPool T}

/-- The selected position is a position of the list. -/
theorem selectLeastLoadedInstance_lt {instances : List (InstanceWrapper T)}
    (nonempty : instances ≠ []) :
    pool.selectLeastLoadedInstance instances < instances.length := by
  have positive := List.length_pos_iff.mpr nonempty
  unfold selectLeastLoadedInstance
  split_ifs with single
  · exact positive
  · split
    · exact positive
    · next entry least =>
        have member := List.argmin_mem least
        exact List.snd_lt_of_mem_zipIdx member

/-- A model with instances always has one selected. -/
theorem selectInstance_isSome_iff (modelName : String) :
    (pool.selectInstance modelName).isSome ↔
      ∃ instances, pool.instances modelName = some instances ∧
        instances ≠ [] := by
  unfold selectInstance
  cases present : pool.instances modelName with
  | none => simp
  | some instances =>
      by_cases empty : instances = []
      · simp [empty]
      · have inside : pool.selectLeastLoadedInstance instances <
            instances.length := selectLeastLoadedInstance_lt empty
        simp [empty, inside]

@[simp]
theorem addInstance_maxInstancesPerModel (modelName : String) (model : T) :
    (pool.addInstance modelName model).maxInstancesPerModel =
      pool.maxInstancesPerModel := by
  unfold addInstance
  dsimp only
  split_ifs <;> rfl

@[simp]
theorem semaphoreEntry_maxInstancesPerModel (modelName : String) :
    (pool.semaphoreEntry modelName).maxInstancesPerModel =
      pool.maxInstancesPerModel := by
  unfold semaphoreEntry
  cases pool.semaphores modelName <;> rfl

theorem semaphoreEntry_semaphores (modelName : String) :
    (pool.semaphoreEntry modelName).semaphores =
      Function.update pool.semaphores modelName
        (some ((pool.semaphores modelName).getD
          ⟨pool.maxInstancesPerModel⟩)) := by
  cases known : pool.semaphores modelName with
  | none => simp only [semaphoreEntry, known, Option.getD_none]
  | some semaphore =>
      simp only [semaphoreEntry, known, Option.getD_some]
      rw [← known, Function.update_eq_self]

@[simp]
theorem acquireInstance_maxInstancesPerModel (modelName : String) :
    (pool.acquireInstance modelName).2.maxInstancesPerModel =
      pool.maxInstancesPerModel := by
  unfold acquireInstance
  cases pool.selectInstance modelName <;> rfl

/-- A permit can be taken when the model's semaphore has one. -/
theorem takePermit_eq_some {modelName : String} {taken : ModelPool T} :
    pool.takePermit modelName = some taken ↔
      ∃ semaphore rest, pool.semaphores modelName = some semaphore ∧
        semaphore.tryAcquire = some rest ∧
        taken = { pool with
          semaphores := Function.update pool.semaphores modelName
            (some rest) } := by
  unfold takePermit
  cases known : pool.semaphores modelName with
  | none => simp
  | some semaphore =>
      cases tried : semaphore.tryAcquire with
      | none => simp [tried]
      | some rest => simp [tried, eq_comm]

@[simp]
theorem addInstance_semaphores (modelName : String) (model : T) :
    (pool.addInstance modelName model).semaphores = pool.semaphores := by
  unfold addInstance
  dsimp only
  split_ifs <;> rfl

theorem acquireInstance_semaphores (modelName : String) :
    (pool.acquireInstance modelName).2.semaphores =
      Function.update pool.semaphores modelName
        ((pool.semaphores modelName).map CountingSemaphore.release) := by
  unfold acquireInstance
  cases pool.selectInstance modelName <;> rfl

end ModelPool

/-! ## What the semaphore counts -/

/-- The calls of `acquire` on a model that hold a permit. -/
def permittedCalls (calls : List AcquireCall) (model : String) : Nat :=
  calls.countP fun call => decide (call.model = model) && call.permitted

theorem permittedCalls_split (front back : List AcquireCall)
    (call : AcquireCall) (model : String) :
    permittedCalls (front ++ call :: back) model =
      permittedCalls (front ++ back) model +
        if call.model = model ∧ call.permitted then 1 else 0 := by
  simp only [permittedCalls, List.countP_append, List.countP_cons,
    Bool.and_eq_true, decide_eq_true_eq]
  omega

/-- Permits still available and calls that hold one add up to the limit, and a
model that is being acquired has a semaphore. -/
structure PermitBalance (limit : Nat)
    (semaphores : String → Option CountingSemaphore)
    (calls : List AcquireCall) : Prop where
  present : ∀ call ∈ calls, (semaphores call.model).isSome
  balance : ∀ model semaphore, semaphores model = some semaphore →
    semaphore.available + permittedCalls calls model = limit

namespace PermitBalance

variable {limit : Nat} {semaphores : String → Option CountingSemaphore}
  {calls : List AcquireCall} {model : String}

theorem permittedCalls_of_absent (balanced : PermitBalance limit semaphores calls)
    (absent : semaphores model = none) : permittedCalls calls model = 0 := by
  rw [permittedCalls, List.countP_eq_zero]
  intro call member isPermitted
  simp only [Bool.and_eq_true, decide_eq_true_eq] at isPermitted
  have isPresent := balanced.present call member
  rw [isPermitted.1, absent] at isPresent
  cases isPresent

/-- Looking up the semaphore of a model, creating it with `limit` permits. -/
theorem entry (balanced : PermitBalance limit semaphores calls)
    (model : String) :
    PermitBalance limit
      (Function.update semaphores model
        (some ((semaphores model).getD ⟨limit⟩))) calls := by
  refine ⟨fun call member => ?_, fun other found atOther => ?_⟩
  · by_cases same : call.model = model
    · simp [same]
    · rw [Function.update_of_ne same]
      exact balanced.present call member
  · by_cases same : other = model
    · subst other
      rw [Function.update_self, Option.some.injEq] at atOther
      cases known : semaphores model with
      | none =>
          rw [known, Option.getD_none] at atOther
          rw [← atOther, balanced.permittedCalls_of_absent known]
          rfl
      | some semaphore =>
          rw [known, Option.getD_some] at atOther
          exact atOther ▸ balanced.balance model semaphore known
    · rw [Function.update_of_ne same] at atOther
      exact balanced.balance other found atOther

theorem call (balanced : PermitBalance limit semaphores calls)
    (present : (semaphores model).isSome) :
    PermitBalance limit semaphores (calls ++ [⟨model, false⟩]) := by
  refine ⟨fun call member => ?_, fun other semaphore known => ?_⟩
  · rcases List.mem_append.mp member with before | added
    · exact balanced.present call before
    · rw [List.mem_singleton.mp added]
      exact present
  · have unchanged := permittedCalls_split calls [] ⟨model, false⟩ other
    simp only [Bool.false_eq_true, and_false, if_false, List.append_nil]
      at unchanged
    have before := balanced.balance other semaphore known
    omega

/-- A waiting call takes one of the permits. -/
theorem permit (balanced : PermitBalance limit semaphores calls) {index : Nat}
    (waiting : calls[index]? = some ⟨model, false⟩)
    {semaphore rest : CountingSemaphore}
    (known : semaphores model = some semaphore)
    (taken : semaphore.tryAcquire = some rest) :
    PermitBalance limit (Function.update semaphores model (some rest))
      (calls.set index ⟨model, true⟩) := by
  obtain ⟨front, back, split⟩ := CallTable.split_of_getElem? waiting
  rw [CountingSemaphore.tryAcquire_eq_some] at taken
  refine ⟨fun call member => ?_, fun other found atOther => ?_⟩
  · by_cases same : call.model = model
    · simp [same]
    · rw [Function.update_of_ne same]
      apply balanced.present
      rcases List.mem_or_eq_of_mem_set member with before | rfl
      · exact before
      · exact absurd rfl same
  · have counted := permittedCalls_split front back ⟨model, false⟩ other
    have recounted := permittedCalls_split front back ⟨model, true⟩ other
    rw [← split.calls_eq] at counted
    rw [← split.set_eq] at recounted
    by_cases same : other = model
    · subst other
      rw [Function.update_self, Option.some.injEq] at atOther
      subst found
      have before := balanced.balance model semaphore known
      simp only [true_and, if_true, Bool.false_eq_true, and_false, if_false]
        at counted recounted
      omega
    · rw [Function.update_of_ne same] at atOther
      have before := balanced.balance other found atOther
      simp only [Ne.symm same, false_and, if_false] at counted recounted
      omega

/-- A call that returns gives its permit back. -/
theorem giveBack (balanced : PermitBalance limit semaphores calls) {index : Nat}
    (permitted : calls[index]? = some ⟨model, true⟩) :
    PermitBalance limit
      (Function.update semaphores model
        ((semaphores model).map CountingSemaphore.release))
      (calls.eraseIdx index) := by
  obtain ⟨front, back, split⟩ := CallTable.split_of_getElem? permitted
  refine ⟨fun call member => ?_, fun other found atOther => ?_⟩
  · have isPresent := balanced.present call (List.mem_of_mem_eraseIdx member)
    by_cases same : call.model = model
    · rw [same] at isPresent ⊢
      simpa using isPresent
    · rw [Function.update_of_ne same]
      exact isPresent
  · have counted := permittedCalls_split front back ⟨model, true⟩ other
    rw [← split.calls_eq, ← split.eraseIdx_eq] at counted
    by_cases same : other = model
    · subst other
      rw [Function.update_self, Option.map_eq_some_iff] at atOther
      obtain ⟨semaphore, known, rfl⟩ := atOther
      have before := balanced.balance model semaphore known
      simp only [true_and, if_true] at counted
      rw [CountingSemaphore.release_available]
      omega
    · rw [Function.update_of_ne same] at atOther
      have before := balanced.balance other found atOther
      simp only [Ne.symm same, false_and, if_false] at counted
      omega

end PermitBalance

namespace ModelPoolUse

variable {T : Type*} {use next : ModelPoolUse T}

/-- The invariant the semaphores keep. -/
def PermitInv (limit : Nat) (use : ModelPoolUse T) : Prop :=
  use.pool.maxInstancesPerModel = limit ∧
    PermitBalance limit use.pool.semaphores use.calls

theorem permitInv_new (limit : Nat) :
    PermitInv limit (new limit : ModelPoolUse T) :=
  ⟨rfl, by simp [new], by simp [new, ModelPool.new]⟩

/-- Permits are conserved by every step of every client. -/
theorem permitInv_step {limit : Nat} (inv : PermitInv limit use)
    {action : ModelPoolAction T} (stepTo : use.step action = some next) :
    PermitInv limit next := by
  obtain ⟨rfl, balanced⟩ := inv
  cases action with
  | addInstance model instance_ =>
      cases stepTo
      exact ⟨by simp, by simpa using balanced⟩
  | callAcquire model =>
      cases stepTo
      have entry := balanced.entry model
      rw [← ModelPool.semaphoreEntry_semaphores] at entry
      refine ⟨by simp, entry.call ?_⟩
      simp [ModelPool.semaphoreEntry_semaphores]
  | acquirePermit index =>
      simp only [step] at stepTo
      split at stepTo
      · next model waiting =>
          obtain ⟨taken, takes, rfl⟩ := Option.map_eq_some_iff.mp stepTo
          obtain ⟨semaphore, rest, known, tried, rfl⟩ :=
            ModelPool.takePermit_eq_some.mp takes
          exact ⟨rfl, balanced.permit waiting known tried⟩
      · cases stepTo
  | acquireInstance index now =>
      simp only [step] at stepTo
      split at stepTo
      · next model permitted =>
          cases stepTo
          refine ⟨by simp, ?_⟩
          rw [ModelPool.acquireInstance_semaphores]
          exact balanced.giveBack permitted
      · cases stepTo
  | release index now =>
      simp only [step] at stepTo
      split at stepTo
      · cases stepTo
        exact ⟨rfl, balanced⟩
      · cases stepTo

/-- A waiting call gets its permit whenever fewer than `limit` calls of the same
model are between their permit and their return: however many hand-outs are
outstanding, it does not wait for a release. -/
theorem acquirePermit_enabled {limit : Nat} {actions : List (ModelPoolAction T)}
    (reaches : run step (new limit) actions = some use) {index : Nat}
    {model : String} (waiting : use.calls[index]? = some ⟨model, false⟩)
    (fewCalls : permittedCalls use.calls model < limit) :
    ∃ after, use.step (.acquirePermit index) = some after := by
  obtain ⟨_, balanced⟩ := invariant_of_run_eq_some
    (fun _ _ _ inv stepTo => permitInv_step inv stepTo)
    (permitInv_new limit) reaches
  have isPresent := balanced.present _ (List.mem_of_getElem? waiting)
  obtain ⟨semaphore, known⟩ := Option.isSome_iff_exists.mp isPresent
  have total := balanced.balance model semaphore known
  have tried : semaphore.tryAcquire = some ⟨semaphore.available - 1⟩ := by
    rw [CountingSemaphore.tryAcquire_eq_some]
    simp only
    omega
  have takes := ModelPool.takePermit_eq_some.mpr
    ⟨semaphore, _, known, tried, rfl⟩
  simp only [step, waiting, takes, Option.map_some]
  exact ⟨_, rfl⟩

/-! ## Outstanding hand-outs -/

end ModelPoolUse

end TorchInference
