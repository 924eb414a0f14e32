import TorchInference.DownloadLifecycle

/-!
# Directories of models

A model is stored below the cache directory under the name it was requested
by, and deleting it removes everything below the path in its entry.  A plain
name is the name of one entry of the cache directory and of no other model's.
`download_model` refuses all other names except the dot, which denotes the
cache directory itself; `download_sota_model` refuses none.
-/

namespace TorchInference

open TransitionRuns UnixPath FileTree DownloadJob

namespace DownloadJob

section Directories

variable {workingDir : Location} {cacheDir : List Char}

theorem modelLocation_of_isPlain {job : DownloadJob}
    (plain : IsPlain job.task.modelName.toList) :
    job.modelLocation workingDir cacheDir =
      locate workingDir cacheDir ++ [⟨job.task.modelName.toList, plain⟩] := by
  rw [DownloadJob.modelLocation, DownloadJob.modelDir, locate_join,
    locate_of_isPlain _ plain]

theorem modelLocation_congr {job other : DownloadJob}
    (same : job.task.modelName = other.task.modelName) :
    job.modelLocation workingDir cacheDir =
      other.modelLocation workingDir cacheDir := by
  simp only [DownloadJob.modelLocation, DownloadJob.modelDir, same]

theorem fileLocation_congr {job other : DownloadJob}
    (same : job.task.modelName = other.task.modelName) :
    job.fileLocation workingDir cacheDir =
      other.fileLocation workingDir cacheDir := by
  funext path
  simp only [DownloadJob.fileLocation, DownloadJob.modelDir, same]

/-- Different plain names are the names of different entries. -/
theorem fileName_ne {name other : String} (plain : IsPlain name.toList)
    (otherPlain : IsPlain other.toList) (different : name ≠ other) :
    (⟨name.toList, plain⟩ : FileName) ≠ ⟨other.toList, otherPlain⟩ := by
  intro same
  exact different (String.toList_injective (congrArg FileName.text same))

/-- The directories of two models with different plain names are apart. -/
theorem modelLocation_apart {job other : DownloadJob} {location : Location}
    (plain : IsPlain job.task.modelName.toList)
    (otherPlain : IsPlain other.task.modelName.toList)
    (different : job.task.modelName ≠ other.task.modelName)
    (inside : job.modelLocation workingDir cacheDir <+: location) :
    ¬ other.modelLocation workingDir cacheDir <+: location := by
  rw [modelLocation_of_isPlain plain] at inside
  rw [modelLocation_of_isPlain otherPlain]
  exact not_prefix_of_ne (fileName_ne plain otherPlain different) inside

end Directories

end DownloadJob

namespace DownloadManager

/-! ## What a scan finds -/

theorem lookup_of_scan {names : List FileName}
    {entry : FileName → ModelInfo} {table : ModelTable} {name : String}
    {info : ModelInfo}
    (listed : (names.foldl (fun models name =>
      models.insert (String.ofList name.text) (entry name))
        table).lookup name = some info) :
    table.lookup name = some info ∨
      ∃ file ∈ names, name = String.ofList file.text ∧ info = entry file := by
  induction names generalizing table with
  | nil => exact Or.inl listed
  | cons file names ih =>
      rcases ih listed with before | ⟨other, member, found⟩
      · by_cases same : name = String.ofList file.text
        · subst same
          rw [AList.lookup_insert, Option.some.injEq] at before
          exact Or.inr ⟨file, List.mem_cons_self, rfl, before.symm⟩
        · rw [AList.lookup_insert_ne same] at before
          exact Or.inl before
      · exact Or.inr ⟨other, List.mem_cons_of_mem _ member, found⟩

/-- The disk after the cache directory has been made. -/
theorem restarted_disk (manager : DownloadManager) (seen : List String) :
    (∀ location, contentAt (manager.restarted seen).disk location =
        contentAt manager.disk location) ∧
      ∀ location ∈ manager.disk,
        location ∈ (manager.restarted seen).disk := by
  cases made : createDirAll manager.disk manager.cacheLocation with
  | none => simp [DownloadManager.restarted, made]
  | some disk =>
      simp only [DownloadManager.restarted, made, Option.getD_some]
      exact ⟨contentAt_createDirAll made,
        fun location => mem_createDirAll_of_mem made⟩

/-- A restart lists the directories it finds, each under its own path. -/
theorem restarted_model {manager : DownloadManager} {seen : List String}
    {name : String} {info : ModelInfo}
    (listed : (manager.restarted seen).getModel name = some info) :
    ∃ plain : IsPlain name.toList,
      manager.cacheLocation ++ [⟨name.toList, plain⟩] ∈
          (manager.restarted seen).disk ∧
        info.localPath = join manager.cacheDir name.toList := by
  rcases lookup_of_scan listed with before | ⟨file, member, rfl, rfl⟩
  · simp at before
  · have isChild := List.mem_filter.mp (List.mem_filter.mp member).1
    have present := mem_children.mp isChild.1
    simp only [String.toList_ofList]
    exact ⟨file.plain, present, rfl⟩

theorem directory_of_restarted {manager : DownloadManager}
    {seen : List String} {name : String}
    (listed : ((manager.restarted seen).getModel name).isSome) :
    ∃ plain : IsPlain name.toList,
      manager.cacheLocation ++ [⟨name.toList, plain⟩] ∈
        (manager.restarted seen).disk := by
  obtain ⟨info, isModel⟩ := Option.isSome_iff_exists.mp listed
  obtain ⟨plain, present, -⟩ := restarted_model isModel
  exact ⟨plain, present⟩

end DownloadManager

/-! ## Names with a directory of their own -/

section Names

variable {workingDir : Location} {cacheDir : List Char} {name : String}

/-- The name leads to an entry of the cache directory, and no other plain name
leads there. -/
def OwnsDirectory (workingDir : Location) (cacheDir : List Char)
    (name : String) : Prop :=
  (∃ entry, locate workingDir (join cacheDir name.toList) =
      locate workingDir cacheDir ++ [entry]) ∧
    ∀ other : String, IsPlain other.toList → other ≠ name →
      locate workingDir (join cacheDir other.toList) ≠
        locate workingDir (join cacheDir name.toList)

theorem locate_join_of_isPlain (workingDir : Location)
    (cacheDir : List Char) (plain : IsPlain name.toList) :
    locate workingDir (join cacheDir name.toList) =
      locate workingDir cacheDir ++ [⟨name.toList, plain⟩] := by
  rw [locate_join, locate_of_isPlain _ plain]

/-- Exactly the plain names own a directory. -/
theorem ownsDirectory_iff_isPlain (workingDir : Location)
    (cacheDir : List Char) (name : String) :
    OwnsDirectory workingDir cacheDir name ↔ IsPlain name.toList := by
  constructor
  · rintro ⟨⟨entry, isEntry⟩, unshared⟩
    by_contra notPlain
    -- The entry has a name of its own, and that one leads there as well.
    have spelling : (String.ofList entry.text).toList = entry.text :=
      String.toList_ofList
    have plain : IsPlain (String.ofList entry.text).toList := by
      rw [spelling]
      exact entry.plain
    have different : String.ofList entry.text ≠ name := by
      rintro rfl
      exact notPlain plain
    apply unshared _ plain different
    rw [isEntry, locate_join_of_isPlain _ _ plain]
    simp only [spelling]
  · intro plain
    have ownPlace := locate_join_of_isPlain workingDir cacheDir plain
    refine ⟨⟨_, ownPlace⟩, ?_⟩
    intro other otherPlain different same
    rw [ownPlace, locate_join_of_isPlain _ _ otherPlain] at same
    have sameEntry := List.append_cancel_left same
    exact fileName_ne otherPlain plain different
      (List.singleton_injective sameEntry)

theorem not_isPlain_dot : ¬ IsPlain ".".toList := by
  decide

/-- A name that `download_model` hands to the manager is plain unless it is
the dot. -/
theorem isPlain_of_downloadModelRoute {request : DownloadModelRequest}
    {source : ModelSource}
    (handedOver : downloadModelRoute request = .ok (name, source)) :
    IsPlain name.toList ↔ name ≠ "." := by
  constructor
  · rintro plain rfl
    exact not_isPlain_dot plain
  · intro notDot
    cases checked : checkModelName request.modelName with
    | error error => simp [downloadModelRoute, checked, bind, Except.bind]
        at handedOver
    | ok =>
        cases chosen : requestSource request with
        | error error => simp [downloadModelRoute, checked, chosen, bind,
            Except.bind] at handedOver
        | ok chosenSource =>
            simp only [downloadModelRoute, checked, chosen, bind,
              Except.bind, pure, Except.pure, Except.ok.injEq,
              Prod.mk.injEq] at handedOver
            obtain ⟨rfl, -⟩ := handedOver
            exact isPlain_of_checkModelName checked notDot

end Names

/-! ## Deletions -/

/-- A manager with every removal so far: the name deleted and what was
removed for it. -/
structure TrackedDeletions where
  manager : DownloadManager
  removed : List (String × Location)

namespace TrackedDeletions

def start (manager : DownloadManager) : TrackedDeletions where
  manager := manager
  removed := []

def removals (tracked : TrackedDeletions) :
    DownloadAction → List (String × Location)
  | .removeEntry index location =>
      match tracked.manager.deletions[index]? with
      | some deletion => [(deletion.name, location)]
      | none => []
  | _ => []

def step (parse : String → Option Url) (tracked : TrackedDeletions)
    (action : DownloadAction) : Option TrackedDeletions :=
  (tracked.manager.step parse action).map fun next =>
    ⟨next, tracked.removals action ++ tracked.removed⟩

/-- Where models of a name belong. -/
def directoryOf (tracked : TrackedDeletions) (name : String) : Location :=
  locate tracked.manager.workingDir
    (join tracked.manager.cacheDir name.toList)

/-- Every download and every model has an entry of the cache directory to
itself, and a deletion removes nothing outside the directory of its name, in
particular no file of another model. -/
structure SeparateModels (tracked : TrackedDeletions) : Prop where
  child : ∀ job ∈ tracked.manager.jobs, ∃ entry,
    tracked.directoryOf job.task.modelName =
      tracked.manager.cacheLocation ++ [entry]
  apart : ∀ job ∈ tracked.manager.jobs, ∀ other ∈ tracked.manager.jobs,
    job.task.modelName ≠ other.task.modelName →
      tracked.directoryOf job.task.modelName ≠
        tracked.directoryOf other.task.modelName
  stored : ∀ name info, tracked.manager.getModel name = some info →
    locate tracked.manager.workingDir info.localPath =
      tracked.directoryOf name
  inside : ∀ entry ∈ tracked.removed,
    tracked.directoryOf entry.1 <+: entry.2
  spares : ∀ entry ∈ tracked.removed, ∀ name info,
    tracked.manager.getModel name = some info → name ≠ entry.1 →
      ¬ locate tracked.manager.workingDir info.localPath <+: entry.2
  sparesDownloads : ∀ entry ∈ tracked.removed,
    ∀ job ∈ tracked.manager.jobs, job.task.modelName ≠ entry.1 →
      ¬ tracked.directoryOf job.task.modelName <+: entry.2

/-- Downloads are requested under plain names. -/
def PlainRequests (_ : TrackedDeletions) : DownloadAction → Prop
  | .request name _ => IsPlain name.toList
  | _ => True

instance (tracked : TrackedDeletions) :
    ∀ action, Decidable (tracked.PlainRequests action)
  | .request name _ => inferInstanceAs (Decidable (IsPlain name.toList))
  | .worker _ _ | .settleDropped _ _ | .readStatus _ | .deleteModel _
  | .removeEntry _ _ | .endDeletion _ _ | .restart _ =>
      inferInstanceAs (Decidable True)

/-- Every name in use is plain, and every path leads to its directory. -/
structure Inv (tracked : TrackedDeletions) : Prop where
  jobs : ∀ job ∈ tracked.manager.jobs, IsPlain job.task.modelName.toList
  models : ∀ name info, tracked.manager.getModel name = some info →
    IsPlain name.toList ∧ locate tracked.manager.workingDir info.localPath =
      tracked.directoryOf name
  deletions : ∀ deletion ∈ tracked.manager.deletions,
    IsPlain deletion.name.toList ∧
      deletion.root = tracked.directoryOf deletion.name
  removed : ∀ entry ∈ tracked.removed, IsPlain entry.1.toList ∧
    tracked.directoryOf entry.1 <+: entry.2

variable {tracked : TrackedDeletions}

/-- What lies in the directory of one plain name lies in no other. -/
theorem directoryOf_apart {name other : String} {location : Location}
    (plain : IsPlain name.toList) (otherPlain : IsPlain other.toList)
    (different : other ≠ name)
    (inside : tracked.directoryOf name <+: location) :
    ¬ tracked.directoryOf other <+: location := by
  rw [directoryOf, locate_join_of_isPlain _ _ plain] at inside
  rw [directoryOf, locate_join_of_isPlain _ _ otherPlain]
  exact not_prefix_of_ne (fileName_ne plain otherPlain different.symm) inside

theorem Inv.separateModels (inv : tracked.Inv) : tracked.SeparateModels where
  child job member :=
    ⟨_, locate_join_of_isPlain _ _ (inv.jobs job member)⟩
  apart job member other otherMember different same := by
    have below : tracked.directoryOf job.task.modelName <+:
        tracked.directoryOf other.task.modelName := by
      rw [same]
    exact directoryOf_apart (inv.jobs job member)
      (inv.jobs other otherMember) different.symm below List.prefix_rfl
  stored name info isModel := (inv.models name info isModel).2
  inside entry member := (inv.removed entry member).2
  spares entry member name info isModel different := by
    obtain ⟨plain, place⟩ := inv.models name info isModel
    obtain ⟨removedPlain, inside⟩ := inv.removed entry member
    rw [place]
    exact directoryOf_apart removedPlain plain different inside
  sparesDownloads entry member job jobMember different := by
    obtain ⟨removedPlain, inside⟩ := inv.removed entry member
    exact directoryOf_apart removedPlain (inv.jobs job jobMember) different
      inside

theorem inv_start {manager : DownloadManager} (jobs : manager.jobs = [])
    (models : manager.models = ∅) (deletions : manager.deletions = []) :
    (start manager).Inv where
  jobs := by simp [start, jobs]
  models name info isModel := by
    simp [start, DownloadManager.getModel, models] at isModel
  deletions := by simp [start, deletions]
  removed := by simp [start]

/-- What a worker registers lies where its job downloads to. -/
theorem registered_localPath {parse : String → Option Url}
    {workingDir : Location} {cacheDir : List Char} {job : DownloadJob}
    {disk : Tree} {event : WorkerEvent} {effect : WorkerEffect}
    {info : ModelInfo}
    (moves : WorkerStep parse workingDir cacheDir job disk event effect)
    (registered : effect.registered = some info) :
    info.name = job.task.modelName ∧
      info.localPath = join cacheDir job.task.modelName.toList := by
  cases moves with
  | registers size stage =>
      simp only [Option.some.injEq] at registered
      subst registered
      exact ⟨rfl, rfl⟩
  | transfers queued active results event effect stage moves =>
      have nothing := moves.keeps.2.2.2.1
      rw [registered] at nothing
      cases nothing
  | acquires => cases registered
  | missesDir => cases registered
  | makesDir => cases registered
  | readsInfo => cases registered
  | readsList => cases registered
  | refusesUrl => cases registered
  | opensUrl => cases registered
  | completes => cases registered
  | measures => cases registered
  | reports => cases registered

theorem Inv.worker (inv : tracked.Inv) {parse : String → Option Url}
    {index : Nat} {event : WorkerEvent} {job : DownloadJob}
    {effect : WorkerEffect}
    (found : tracked.manager.jobs[index]? = some job)
    (moves : WorkerStep parse tracked.manager.workingDir
      tracked.manager.cacheDir job tracked.manager.disk event effect) :
    Inv { tracked with manager := tracked.manager.apply index effect } := by
  have plain := inv.jobs job (List.mem_of_getElem? found)
  refine { inv with jobs := ?_, models := ?_ }
  · intro other member
    rcases List.mem_or_eq_of_mem_set member with old | rfl
    · exact inv.jobs other old
    · rw [moves.keepsName.1]
      exact plain
  · intro name info isModel
    cases registered : effect.registered with
    | none =>
        rw [DownloadManager.getModel_apply_of_none _ _ registered] at isModel
        exact inv.models name info isModel
    | some added =>
        rw [DownloadManager.getModel_apply_of_some _ _ registered] at isModel
        split at isModel
        case isTrue same =>
          simp only [Option.some.injEq] at isModel
          obtain ⟨addedName, path⟩ := registered_localPath moves registered
          subst isModel
          rw [same, addedName, path]
          exact ⟨plain, rfl⟩
        case isFalse => exact inv.models name info isModel

theorem Inv.deleteModel (inv : tracked.Inv) (name : String) :
    Inv { tracked with manager := tracked.manager.deleteModel name } := by
  cases listed : tracked.manager.models.lookup name with
  | none =>
      have same : tracked.manager.deleteModel name = tracked.manager := by
        simp only [DownloadManager.deleteModel, listed]
      rw [same]
      exact inv
  | some info =>
      have kept (other : String) (otherInfo : ModelInfo)
          (isModel : (tracked.manager.models.erase name).lookup other =
            some otherInfo) :
          tracked.manager.getModel other = some otherInfo := by
        rw [DownloadManager.lookup_erase_eq,
          Option.ite_none_left_eq_some] at isModel
        exact isModel.2
      obtain ⟨plain, place⟩ := inv.models name info listed
      simp only [DownloadManager.deleteModel, listed]
      split
      case isTrue =>
        refine { inv with models := ?_, deletions := ?_ }
        · intro other otherInfo isModel
          exact inv.models other otherInfo (kept other otherInfo isModel)
        · intro deletion member
          rcases List.mem_append.mp member with old | new
          · exact inv.deletions deletion old
          · rw [List.mem_singleton.mp new]
            exact ⟨plain, place⟩
      case isFalse =>
        refine { inv with models := ?_ }
        intro other otherInfo isModel
        exact inv.models other otherInfo (kept other otherInfo isModel)

theorem Inv.removeEntry (inv : tracked.Inv) {deletion : Deletion}
    (member : deletion ∈ tracked.manager.deletions) {location : Location}
    (inside : deletion.root <+: location) (disk : Tree) :
    Inv { manager := { tracked.manager with disk := disk }
          removed := (deletion.name, location) :: tracked.removed } := by
  obtain ⟨plain, root⟩ := inv.deletions deletion member
  refine { inv with removed := ?_ }
  intro entry entryMember
  rcases List.mem_cons.mp entryMember with rfl | old
  · exact ⟨plain, root ▸ inside⟩
  · exact inv.removed entry old

theorem Inv.restart (inv : tracked.Inv) (seen : List String) :
    Inv { tracked with manager := tracked.manager.restarted seen } where
  jobs := by simp [DownloadManager.restarted]
  models name info isModel := by
    obtain ⟨plain, -, path⟩ := DownloadManager.restarted_model isModel
    rw [path]
    exact ⟨plain, rfl⟩
  deletions := by simp [DownloadManager.restarted]
  removed := inv.removed

/-- One step keeps every name plain. -/
theorem Inv.step {parse : String → Option Url} (inv : tracked.Inv)
    {action : DownloadAction} {next : TrackedDeletions}
    (plain : tracked.PlainRequests action)
    (moves : tracked.step parse action = some next) : next.Inv := by
  obtain ⟨manager, stepTo, rfl⟩ := Option.map_eq_some_iff.mp moves
  cases DownloadManager.managerStep_of_step stepTo with
  | requests name source =>
      refine { inv with jobs := ?_ }
      intro job member
      rcases List.mem_append.mp member with old | new
      · exact inv.jobs job old
      · rw [List.mem_singleton.mp new]
        exact plain
  | works index event job effect found workerMoves =>
      exact inv.worker found workerMoves
  | settles => exact { inv with }
  | reads => exact inv
  | deletes name => exact inv.deleteModel name
  | removes index location deletion disk found inside =>
      simp only [removals, found, List.singleton_append]
      exact inv.removeEntry (List.mem_of_getElem? found) inside disk
  | ends =>
      refine { inv with deletions := ?_ }
      intro other member
      exact inv.deletions other (List.mem_of_mem_eraseIdx member)
  | restarts seen => exact inv.restart seen

/-- A name owns a directory exactly when it is plain, which a name accepted by
`download_model` is unless it is the dot; and in a run of downloads under
plain names, deletions and restarts the models stay apart. -/
theorem separateModels_of_plainRequests (parse : String → Option Url)
    (workingDir : Location) (cacheDir : List Char) (disk : Tree)
    (actions : List DownloadAction)
    (plain : Meets (step parse) PlainRequests
      (start (.new workingDir cacheDir disk)) actions) :
    (∀ name, OwnsDirectory workingDir cacheDir name ↔
        IsPlain name.toList) ∧
      (∀ request name source,
        downloadModelRoute request = .ok (name, source) →
          (OwnsDirectory workingDir cacheDir name ↔ name ≠ ".")) ∧
      ∀ reached ∈ visited (step parse)
        (start (.new workingDir cacheDir disk)) actions,
        reached.SeparateModels := by
  refine ⟨ownsDirectory_iff_isPlain workingDir cacheDir, ?_, ?_⟩
  · intro request name source handedOver
    rw [ownsDirectory_iff_isPlain]
    exact isPlain_of_downloadModelRoute handedOver
  · intro reached member
    have invariant := invariant_of_meets
      (fun tracked action next inv plain moves => Inv.step inv plain moves)
      (inv_start rfl rfl rfl) plain
    exact (invariant reached member).separateModels

/-- A cache that holds the file `w` of the model `bert`. -/
def bertOnDisk : Tree :=
  let inCache (path : String) : Location := locate [] ("/cache" ++ path).toList
  (((∅ : Tree).insert (inCache "") .directory).insert
    (inCache "/bert") .directory).insert (inCache "/bert/w") (.file [7])

/-- A repository without files is downloaded under a name and deleted. -/
def downloadAndDelete (name : String) : List DownloadAction :=
  [.restart ["bert"],
    .request name (.huggingFace "org/empty" none),
    .worker 0 .acquire,
    .worker 0 (.makeModelDir none),
    .worker 0 (.infoReply (.answered 200 none) (.ok ())),
    .worker 0 (.listReply (.answered 200 none) (.ok [])),
    .worker 0 .finishTransfers,
    .worker 0 .writeCompleted,
    .worker 0 (.measured (.ok 0)),
    .worker 0 .register,
    .deleteModel name]

/-- The deletion of another model removes its own directory only. -/
theorem downloadAndDelete_separateModels :
    (run (step fun _ => none) (start (.new [] "/cache".toList bertOnDisk))
      (downloadAndDelete "gpt" ++
        [.removeEntry 0 (locate [] "/cache/gpt".toList)])).isSome ∧
      ∀ reached ∈ visited (step fun _ => none)
        (start (.new [] "/cache".toList bertOnDisk))
        (downloadAndDelete "gpt" ++
          [.removeEntry 0 (locate [] "/cache/gpt".toList)]),
        reached.SeparateModels :=
  ⟨by decide,
    (separateModels_of_plainRequests _ _ _ _ _ (by decide)).2.2⟩

/-- A request to `download_model` for the name dot. -/
def dotRequest : DownloadModelRequest where
  modelName := "."
  sourceType := "huggingface"
  repoId := some "org/empty"
  revision := none
  url := none

/-- A registry that names a model by an absolute path. -/
def absoluteNameRegistry : JsonValue :=
  .object [("models", .object [("model", .object
    [("name", .string "/etc"), ("url", .string "https://github.com/m")])])]

/-- `download_model` accepts the dot, whose deletion removes a file of another
model, and `download_sota_model` hands over a directory outside the cache. -/
theorem models_share_directories :
    (downloadModelRoute dotRequest =
        .ok (".", .huggingFace "org/empty" none) ∧
      ¬ OwnsDirectory [] "/cache".toList "." ∧
      ¬ ∀ reached ∈ visited (step fun _ => none)
        (start (.new [] "/cache".toList bertOnDisk))
        (downloadAndDelete "." ++
          [.removeEntry 0 (locate [] "/cache/bert/w".toList)]),
        reached.SeparateModels) ∧
      downloadSotaModelRoute (.parsed absoluteNameRegistry) "model" =
        .ok ("/etc", .url "https://github.com/m") ∧
      ¬ OwnsDirectory [] "/cache".toList "/etc" := by
  refine ⟨⟨by decide, ?_, ?_⟩, ?_, ?_⟩
  · rw [ownsDirectory_iff_isPlain]
    decide
  · intro separate
    have removed : (run (step fun _ => none)
        (start (.new [] "/cache".toList bertOnDisk))
        (downloadAndDelete "." ++
          [.removeEntry 0 (locate [] "/cache/bert/w".toList)])).map
        (fun last => (last.removed,
          (last.manager.getModel "bert").map fun info =>
            locate last.manager.workingDir info.localPath)) =
          some ([(".", locate [] "/cache/bert/w".toList)],
            some (locate [] "/cache/bert".toList)) := by
      decide +kernel
    obtain ⟨last, reaches, observed⟩ := Option.map_eq_some_iff.mp removed
    simp only [Prod.mk.injEq, Option.map_eq_some_iff] at observed
    obtain ⟨entries, info, isModel, place⟩ := observed
    have apart := (separate last (last_mem_visited reaches)).spares
      (".", locate [] "/cache/bert/w".toList) (by simp [entries]) "bert" info
      isModel (by decide)
    rw [place] at apart
    exact apart (by decide)
  · have elsewhere : ¬ "huggingface.co".toList <:+:
        "https://github.com/m".toList := by
      decide +kernel
    have downloadable : "https://github.com/m" ≠ "Built-in" := by
      decide +kernel
    have source : sotaSource "https://github.com/m" =
        .ok (.url "https://github.com/m") :=
      (if_neg elsewhere).trans (if_pos downloadable)
    simp [downloadSotaModelRoute, absoluteNameRegistry, JsonValue.field,
      JsonValue.asObject, JsonValue.asStr, bind, Except.bind, pure,
      Except.pure, List.lookup_cons, source]
  · rw [ownsDirectory_iff_isPlain]
    decide

end TrackedDeletions

end TorchInference
