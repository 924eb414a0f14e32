import TorchInference.DownloadDirectories

/-!
# The list of models and the disk

A deletion takes the entry out of the table, looks whether its directory is
there, and removes the directory; each of these is a step of its own here.  A
worker makes the directory first and registers the model last.  The list agrees
with the disk as long as no deletion fails and the two do not work on the same
directory at a time.
-/

namespace TorchInference

open TransitionRuns UnixPath FileTree DownloadJob

/-! ## Workers and their directories -/

/-- The worker has made the directory and counts on it. -/
def WorkerStage.usesDirectory : WorkerStage → Bool
  | waiting | makingDir | failing _ | done => false
  | _ => true

namespace DownloadJob

section Steps

variable {parse : String → Option Url} {workingDir : Location}
  {cacheDir : List Char} {job : DownloadJob} {disk : Tree}
  {event : WorkerEvent} {effect : WorkerEffect} {other : Location}

theorem TransferStep.isDirectory {queued : List String}
    {active : List ActiveTransfer} {results : List (Except String Unit)}
    (moves : TransferStep workingDir cacheDir job disk queued active results
      event effect)
    (present : isDirectory disk other = true) :
    isDirectory effect.disk other = true := by
  cases moves with
  | refuses path rest error after failure head refused made =>
      rcases made with rfl | ⟨count, dirs⟩
      · exact present
      · exact (isDirectory_createDirAll dirs).2 other present
  | starts path rest after head within made =>
      exact (isDirectory_createDirAll made).2 other present
  | opens index path status contentLength after found success created =>
      exact isDirectory_createFile created present
  | settles index path file failure found outstanding =>
      cases failure with
      | none => exact isDirectory_write present _ _ _
      | some failed => exact isDirectory_write present _ _ _
  | unanswered => exact present
  | skips => exact present
  | ignores => exact present
  | receives => exact present
  | writeFails => exact present
  | breaksOff => exact present
  | ends => exact present
  | collectsError => exact present
  | collects => exact present

/-- A worker removes no directory. -/
theorem WorkerStep.isDirectory
    (moves : WorkerStep parse workingDir cacheDir job disk event effect)
    (present : isDirectory disk other = true) :
    isDirectory effect.disk other = true := by
  cases moves with
  | missesDir made error after stage dirs =>
      exact (isDirectory_createDirAll dirs).2 other present
  | makesDir after stage dirs =>
      exact (isDirectory_createDirAll dirs).2 other present
  | opensUrl url parsed status contentLength after stage safe created =>
      exact isDirectory_createFile created present
  | transfers queued active results event effect stage moves =>
      exact moves.isDirectory present
  | acquires => exact present
  | readsInfo => exact present
  | readsList => exact present
  | refusesUrl => exact present
  | completes => exact present
  | measures => exact present
  | registers => exact present
  | reports => exact present

/-- A worker that counts on its directory did so before, or has just made
it. -/
theorem WorkerStep.usesDirectory
    (moves : WorkerStep parse workingDir cacheDir job disk event effect)
    (uses : effect.job.stage.usesDirectory = true) :
    job.stage.usesDirectory = true ∨
      event = .makeModelDir none ∧
        FileTree.isDirectory effect.disk
          (job.modelLocation workingDir cacheDir) = true := by
  cases moves with
  | makesDir after stage dirs =>
      exact Or.inr ⟨rfl, (isDirectory_createDirAll dirs).1⟩
  | readsInfo repoId reply json stage => exact Or.inl (by rw [stage]; rfl)
  | readsList reply json stage => exact Or.inl (by rw [stage]; rfl)
  | opensUrl url parsed status contentLength after stage =>
      exact Or.inl (by rw [stage]; rfl)
  | transfers queued active results event effect stage moves =>
      exact Or.inl (by rw [stage]; rfl)
  | completes stage => exact Or.inl (by rw [stage]; rfl)
  | measures outcome stage => exact Or.inl (by rw [stage]; rfl)
  | acquires => cases uses
  | missesDir => cases uses
  | refusesUrl => cases uses
  | registers => cases uses
  | reports => cases uses

end Steps

end DownloadJob

theorem WorkerStage.usesDirectory_of_completing {stage : WorkerStage}
    (completing : stage.phase = .completing) : stage.usesDirectory = true := by
  cases stage <;> simp_all [phase, usesDirectory]

/-! ## Deletions step by step -/

/-- A manager with the deletions that have taken an entry but not looked for
its directory yet. -/
structure ModelListing where
  manager : DownloadManager
  taken : List Deletion
  /-- The names of downloads that have completed and not been deleted. -/
  completed : List String
  /-- The names of deletions that failed and left their model unlisted. -/
  unlisted : List String

inductive ListingAction where
  | takeModel (name : String)
  | checkExists (index : Nat)
  /-- Anything but a deletion's first steps and a restart. -/
  | download (action : DownloadAction)

namespace ModelListing

/-- A manager that has just been initialized. -/
def start (manager : DownloadManager) (seen : List String) : ModelListing where
  manager := manager.restarted seen
  taken := []
  completed := []
  unlisted := []

/-- `models.remove`. -/
def takeModel (listing : ModelListing) (name : String) : ModelListing :=
  match listing.manager.models.lookup name with
  | none => listing
  | some info => { listing with
      manager := { listing.manager with
        models := listing.manager.models.erase name }
      taken := listing.taken ++
        [⟨name, locate listing.manager.workingDir info.localPath⟩] }

/-- `local_path.exists()`; without a directory the deletion has succeeded. -/
def checkExists (listing : ModelListing) (index : Nat) :
    Option ModelListing :=
  match listing.taken[index]? with
  | none => none
  | some deletion =>
      if deletion.root = [] ∨ deletion.root ∈ listing.manager.disk then
        some { listing with
          taken := listing.taken.eraseIdx index
          manager := { listing.manager with
            deletions := listing.manager.deletions ++ [deletion] } }
      else some { listing with
          taken := listing.taken.eraseIdx index
          completed := listing.completed.filter (· ≠ deletion.name) }

/-- The names that have completed after an action. -/
def completedAfter (listing : ModelListing) : DownloadAction → List String
  | .worker index .writeCompleted =>
      match listing.manager.jobs[index]? with
      | some job => job.task.modelName :: listing.completed
      | none => listing.completed
  | .endDeletion index none =>
      match listing.manager.deletions[index]? with
      | some deletion => listing.completed.filter (· ≠ deletion.name)
      | none => listing.completed
  | _ => listing.completed

/-- The failed deletions after an action. -/
def unlistedAfter (listing : ModelListing) : DownloadAction → List String
  | .endDeletion index (some _) =>
      match listing.manager.deletions[index]? with
      | some deletion =>
          if (listing.manager.getModel deletion.name).isSome then
            listing.unlisted
          else deletion.name :: listing.unlisted
      | none => listing.unlisted
  | _ => listing.unlisted

def step (parse : String → Option Url) (listing : ModelListing) :
    ListingAction → Option ModelListing
  | .takeModel name => some (listing.takeModel name)
  | .checkExists index => listing.checkExists index
  | .download (.deleteModel _) => none
  | .download (.restart _) => none
  | .download action =>
      (listing.manager.step parse action).map fun manager => { listing with
        manager := manager
        completed := listing.completedAfter action
        unlisted := listing.unlistedAfter action }

/-- Nothing is in progress. -/
def Idle (listing : ModelListing) : Prop :=
  (∀ job ∈ listing.manager.jobs, job.stage = .done) ∧
    listing.taken = [] ∧ listing.manager.deletions = []

def directoryOf (listing : ModelListing) (name : String) : Location :=
  locate listing.manager.workingDir
    (join listing.manager.cacheDir name.toList)

/-- While nothing is in progress, every listed model has its directory, and
the directory of a completed download that has not been deleted is listed; and
a deletion that fails leaves its model listed. -/
structure Agrees (listing : ModelListing) : Prop where
  hasDirectory : listing.Idle → ∀ name info,
    listing.manager.getModel name = some info →
      isDirectory listing.manager.disk
        (locate listing.manager.workingDir info.localPath) = true
  listed : listing.Idle → ∀ name ∈ listing.completed,
    isDirectory listing.manager.disk (listing.directoryOf name) = true →
      (listing.manager.getModel name).isSome = true
  kept : listing.unlisted = []

/-- The deletions in progress. -/
def deleting (listing : ModelListing) : List Deletion :=
  listing.taken ++ listing.manager.deletions

/-- Downloads have plain names and their walks succeed, deletions do not fail,
and no directory is made or used while it is being deleted. -/
def Exclusive (listing : ModelListing) : ListingAction → Prop
  | .takeModel name => ∀ job ∈ listing.manager.jobs,
      job.task.modelName = name → job.stage.usesDirectory = false
  | .checkExists _ => True
  | .download (.request name _) => IsPlain name.toList
  | .download (.worker index (.makeModelDir _)) =>
      ∀ job ∈ listing.manager.jobs[index]?, ∀ deletion ∈ listing.deleting,
        deletion.name ≠ job.task.modelName
  | .download (.worker _ (.measured outcome)) => outcome.isOk = true
  | .download (.endDeletion _ failure) => failure = none
  | .download _ => True

instance (listing : ModelListing) :
    ∀ action, Decidable (listing.Exclusive action)
  | .takeModel name => inferInstanceAs (Decidable
      (∀ job ∈ listing.manager.jobs,
        job.task.modelName = name → job.stage.usesDirectory = false))
  | .checkExists _ => inferInstanceAs (Decidable True)
  | .download (.request name _) =>
      inferInstanceAs (Decidable (IsPlain name.toList))
  | .download (.worker index event) =>
      match event with
      | .makeModelDir _ => inferInstanceAs (Decidable
          (∀ job ∈ listing.manager.jobs[index]?,
            ∀ deletion ∈ listing.deleting,
              deletion.name ≠ job.task.modelName))
      | .measured outcome =>
          inferInstanceAs (Decidable (outcome.isOk = true))
      | .acquire | .infoReply _ _ | .listReply _ _ | .startFile _
      | .fileReply _ _ _ | .urlReply _ _ | .chunk _ _ | .streamError _ _
      | .endOfStream _ | .settle _ _ | .finishTransfers | .writeCompleted
      | .register | .reportError => inferInstanceAs (Decidable True)
  | .download (.endDeletion _ failure) =>
      inferInstanceAs (Decidable (failure = none))
  | .download (.settleDropped _ _) | .download (.readStatus _)
  | .download (.deleteModel _) | .download (.removeEntry _ _)
  | .download (.restart _) => inferInstanceAs (Decidable True)

variable {listing : ModelListing}

/-- Without other steps between them, the first two steps of a deletion are
those of `delete_model`. -/
theorem checkExists_takeModel {name : String} {info : ModelInfo}
    (isModel : listing.manager.getModel name = some info) :
    ∃ next, (listing.takeModel name).checkExists listing.taken.length =
        some next ∧
      next.manager = listing.manager.deleteModel name ∧
        next.taken = listing.taken := by
  have found : listing.manager.models.lookup name = some info := isModel
  simp only [takeModel, checkExists, DownloadManager.deleteModel, found,
    List.getElem?_concat_length]
  have dropped (deletion : Deletion) :
      (listing.taken ++ [deletion]).eraseIdx listing.taken.length =
        listing.taken := by
    rw [List.eraseIdx_append_of_length_le (le_refl _)]
    simp
  split
  case isTrue => exact ⟨_, rfl, rfl, dropped _⟩
  case isFalse => exact ⟨_, rfl, rfl, dropped _⟩

/-! ## The invariant -/

/-- Models and working downloads have their directories, nothing else works
where a deletion does, and a completed download is listed, being deleted or
about to be registered. -/
structure Inv (listing : ModelListing) : Prop where
  jobs : ∀ job ∈ listing.manager.jobs, IsPlain job.task.modelName.toList
  working : ∀ job ∈ listing.manager.jobs,
    job.stage.usesDirectory = true →
      isDirectory listing.manager.disk
        (listing.directoryOf job.task.modelName) = true
  models : ∀ name info, listing.manager.getModel name = some info →
    IsPlain name.toList ∧
      locate listing.manager.workingDir info.localPath =
        listing.directoryOf name ∧
      isDirectory listing.manager.disk (listing.directoryOf name) = true
  deletions : ∀ deletion ∈ listing.deleting,
    IsPlain deletion.name.toList ∧
      deletion.root = listing.directoryOf deletion.name
  unlisting : ∀ deletion ∈ listing.deleting,
    listing.manager.getModel deletion.name = none
  alone : ∀ deletion ∈ listing.deleting, ∀ job ∈ listing.manager.jobs,
    job.task.modelName = deletion.name → job.stage.usesDirectory = false
  completed : ∀ name ∈ listing.completed,
    (listing.manager.getModel name).isSome = true ∨
      (∃ deletion ∈ listing.deleting, deletion.name = name) ∨
      ∃ job ∈ listing.manager.jobs, job.task.modelName = name ∧
        job.stage.phase = .completing
  unlisted : listing.unlisted = []

theorem Inv.agrees (inv : listing.Inv) : listing.Agrees where
  hasDirectory _ name info isModel := by
    obtain ⟨-, place, present⟩ := inv.models name info isModel
    rw [place]
    exact present
  listed idle name member _ := by
    obtain ⟨finished, nothingTaken, nothingDeleted⟩ := idle
    rcases inv.completed name member with isModel |
      ⟨deletion, ongoing, -⟩ | ⟨job, jobMember, -, completing⟩
    · exact isModel
    · simp [deleting, nothingTaken, nothingDeleted] at ongoing
    · rw [finished job jobMember] at completing
      cases completing
  kept := inv.unlisted

theorem inv_start (manager : DownloadManager) (seen : List String) :
    (start manager seen).Inv where
  jobs := by simp [start, DownloadManager.restarted]
  working := by simp [start, DownloadManager.restarted]
  models name info isModel := by
    rcases DownloadManager.lookup_of_scan isModel with before |
      ⟨file, member, rfl, rfl⟩
    · simp at before
    · have present := (List.mem_filter.mp (List.mem_filter.mp member).1).2
      have plain : IsPlain (String.ofList file.text).toList := by
        rw [String.toList_ofList]
        exact file.plain
      refine ⟨plain, ?_, ?_⟩
      · simp only [DownloadManager.scannedModel, directoryOf,
          String.toList_ofList]
        rfl
      · rw [directoryOf, locate_join_of_isPlain _ _ plain]
        simp only [String.toList_ofList]
        exact present
  deletions := by simp [start, deleting, DownloadManager.restarted]
  unlisting := by simp [start, deleting, DownloadManager.restarted]
  alone := by simp [start, deleting, DownloadManager.restarted]
  completed := by simp [start]
  unlisted := rfl

/-- The directory of another plain name is not below that of a name. -/
theorem directoryOf_ne {name other : String} {location : Location}
    (plain : IsPlain name.toList) (otherPlain : IsPlain other.toList)
    (different : other ≠ name)
    (inside : listing.directoryOf name <+: location) :
    listing.directoryOf other ≠ location := by
  rintro rfl
  rw [directoryOf, locate_join_of_isPlain _ _ plain, directoryOf,
    locate_join_of_isPlain _ _ otherPlain] at inside
  exact not_prefix_of_ne (fileName_ne plain otherPlain different.symm) inside
    List.prefix_rfl

/-! ## Steps of deletions -/

/-- A change of the disk that spares the directories of names that are not
being deleted. -/
theorem Inv.withDisk (inv : listing.Inv) {disk : Tree}
    {dropped : List OpenFile}
    (spares : ∀ name : String, IsPlain name.toList →
      (∀ deletion ∈ listing.deleting, deletion.name ≠ name) →
        isDirectory listing.manager.disk (listing.directoryOf name) = true →
          isDirectory disk (listing.directoryOf name) = true) :
    Inv { listing with
      manager := { listing.manager with disk := disk, dropped := dropped } } :=
  { inv with
    working := by
      intro job member uses
      apply spares _ (inv.jobs job member) _ (inv.working job member uses)
      intro deletion ongoing same
      have unused := inv.alone deletion ongoing job member same.symm
      rw [uses] at unused
      cases unused
    models := by
      intro name info isModel
      obtain ⟨plain, place, present⟩ := inv.models name info isModel
      refine ⟨plain, place, spares name plain ?_ present⟩
      rintro deletion ongoing rfl
      have isNone := inv.unlisting deletion ongoing
      have isSome : listing.manager.getModel deletion.name = some info :=
        isModel
      rw [isNone] at isSome
      cases isSome }

theorem Inv.removeEntry (inv : listing.Inv) {deletion : Deletion}
    (member : deletion ∈ listing.manager.deletions) {location : Location}
    {disk : Tree} (inside : deletion.root <+: location)
    (removed : FileTree.removeEntry listing.manager.disk location =
      some disk) :
    Inv { listing with manager := { listing.manager with disk := disk } } := by
  have ongoing : deletion ∈ listing.deleting :=
    List.mem_append_right _ member
  obtain ⟨plain, root⟩ := inv.deletions deletion ongoing
  refine inv.withDisk fun name otherPlain free present => ?_
  refine isDirectory_removeEntry removed ?_ present
  exact directoryOf_ne plain otherPlain (free deletion ongoing).symm
    (root ▸ inside)

/-- Deletions that end take what they deleted out of the completed names. -/
theorem Inv.withDeletions (inv : listing.Inv)
    {taken deletions : List Deletion} {completed : List String}
    (ongoing : ∀ deletion ∈ taken ++ deletions,
      deletion ∈ listing.deleting)
    (remaining : ∀ name ∈ completed, name ∈ listing.completed ∧
      ∀ deletion ∈ listing.deleting, deletion.name = name →
        deletion ∈ taken ++ deletions) :
    Inv { listing with
      manager := { listing.manager with deletions := deletions }
      taken := taken
      completed := completed } :=
  { inv with
    deletions := fun deletion member =>
      inv.deletions deletion (ongoing deletion member)
    unlisting := fun deletion member =>
      inv.unlisting deletion (ongoing deletion member)
    alone := fun deletion member =>
      inv.alone deletion (ongoing deletion member)
    completed := by
      intro name member
      obtain ⟨before, stays⟩ := remaining name member
      rcases inv.completed name before with isModel |
        ⟨deletion, wasOngoing, same⟩ | registering
      · exact Or.inl isModel
      · exact Or.inr (Or.inl ⟨deletion, stays deletion wasOngoing same, same⟩)
      · exact Or.inr (Or.inr registering) }

theorem eq_or_mem_eraseIdx {Element : Type*} {elements : List Element}
    {index : Nat} {element other : Element}
    (found : elements[index]? = some element) (member : other ∈ elements) :
    other = element ∨ other ∈ elements.eraseIdx index := by
  obtain ⟨position, foundOther⟩ := List.mem_iff_getElem?.mp member
  by_cases same : position = index
  · subst same
    rw [found, Option.some.injEq] at foundOther
    exact Or.inl foundOther.symm
  · exact Or.inr (List.mem_eraseIdx_iff_getElem?.mpr
      ⟨position, same, foundOther⟩)

theorem Inv.checkExists (inv : listing.Inv) {index : Nat}
    {next : ModelListing}
    (checked : listing.checkExists index = some next) : next.Inv := by
  unfold ModelListing.checkExists at checked
  cases found : listing.taken[index]? with
  | none => simp [found] at checked
  | some deletion =>
      have isTaken : deletion ∈ listing.taken := List.mem_of_getElem? found
      simp only [found] at checked
      split at checked
      case isTrue =>
        simp only [Option.some.injEq] at checked
        subst checked
        refine inv.withDeletions ?_ fun name member => ⟨member, ?_⟩
        · intro other member
          rcases List.mem_append.mp member with stillTaken | removing
          · exact List.mem_append_left _
              (List.mem_of_mem_eraseIdx stillTaken)
          · rcases List.mem_append.mp removing with old | new
            · exact List.mem_append_right _ old
            · rw [List.mem_singleton.mp new]
              exact List.mem_append_left _ isTaken
        · intro other ongoing _
          rcases List.mem_append.mp ongoing with wasTaken | old
          · rcases eq_or_mem_eraseIdx found wasTaken with rfl | stillTaken
            · exact List.mem_append_right _ (by simp)
            · exact List.mem_append_left _ stillTaken
          · exact List.mem_append_right _ (List.mem_append_left _ old)
      case isFalse =>
        simp only [Option.some.injEq] at checked
        subst checked
        refine inv.withDeletions ?_ fun name member => ?_
        · intro other member
          rcases List.mem_append.mp member with stillTaken | old
          · exact List.mem_append_left _
              (List.mem_of_mem_eraseIdx stillTaken)
          · exact List.mem_append_right _ old
        · obtain ⟨before, different⟩ := List.mem_filter.mp member
          refine ⟨before, ?_⟩
          rintro other ongoing rfl
          rcases List.mem_append.mp ongoing with wasTaken | old
          · rcases eq_or_mem_eraseIdx found wasTaken with rfl | stillTaken
            · simp at different
            · exact List.mem_append_left _ stillTaken
          · exact List.mem_append_right _ old

theorem Inv.endDeletion (inv : listing.Inv) {index : Nat}
    {deletion : Deletion}
    (found : listing.manager.deletions[index]? = some deletion) :
    Inv { listing with
      manager := { listing.manager with
        deletions := listing.manager.deletions.eraseIdx index }
      completed := listing.completed.filter (· ≠ deletion.name) } := by
  refine inv.withDeletions ?_ fun name member => ?_
  · intro other member
    rcases List.mem_append.mp member with isTaken | removing
    · exact List.mem_append_left _ isTaken
    · exact List.mem_append_right _ (List.mem_of_mem_eraseIdx removing)
  · obtain ⟨before, different⟩ := List.mem_filter.mp member
    refine ⟨before, ?_⟩
    rintro other ongoing rfl
    rcases List.mem_append.mp ongoing with isTaken | wasRemoving
    · exact List.mem_append_left _ isTaken
    · rcases eq_or_mem_eraseIdx found wasRemoving with rfl | removing
      · simp at different
      · exact List.mem_append_right _ removing

theorem Inv.takeModel (inv : listing.Inv) {name : String}
    (unused : ∀ job ∈ listing.manager.jobs,
      job.task.modelName = name → job.stage.usesDirectory = false) :
    (listing.takeModel name).Inv := by
  unfold ModelListing.takeModel
  cases isModel : listing.manager.models.lookup name with
  | none => exact inv
  | some info =>
      obtain ⟨plain, place, -⟩ := inv.models name info isModel
      -- Members of the new `deleting` are old ones or the one just begun.
      have ongoing {deletion root : _}
          (member : deletion ∈ (listing.taken ++ [⟨name, root⟩]) ++
            listing.manager.deletions) :
          deletion ∈ listing.deleting ∨ deletion = ⟨name, root⟩ := by
        simpa [deleting, or_assoc, or_comm, or_left_comm] using member
      refine { inv with
        models := ?_, deletions := ?_, unlisting := ?_, alone := ?_,
        completed := ?_ }
      · intro other otherInfo listed
        simp only [DownloadManager.getModel, DownloadManager.lookup_erase_eq,
          Option.ite_none_left_eq_some] at listed
        exact inv.models other otherInfo listed.2
      · intro deletion member
        rcases ongoing member with old | rfl
        · exact inv.deletions deletion old
        · exact ⟨plain, place⟩
      · intro deletion member
        simp only [DownloadManager.getModel, DownloadManager.lookup_erase_eq]
        rcases ongoing member with old | rfl
        · rw [ite_eq_left_iff]
          exact fun _ => inv.unlisting deletion old
        · rw [if_pos rfl]
      · intro deletion member job jobMember same
        rcases ongoing member with old | rfl
        · exact inv.alone deletion old job jobMember same
        · exact unused job jobMember same
      · intro other member
        rcases inv.completed other member with listed |
          ⟨deletion, old, same⟩ | registering
        · by_cases same : other = name
          · exact Or.inr (Or.inl ⟨⟨name, locate listing.manager.workingDir
              info.localPath⟩, by simp [deleting], same.symm⟩)
          · refine Or.inl ?_
            simp only [DownloadManager.getModel, DownloadManager.lookup_erase_eq,
              if_neg same]
            exact listed
        · refine Or.inr (Or.inl ⟨deletion, ?_, same⟩)
          simp only [deleting, List.mem_append] at old ⊢
          exact old.imp_left Or.inl
        · exact Or.inr (Or.inr registering)

/-! ## Steps of workers -/

/-- A worker that has completed stays so until it registers its model, unless
its walk fails. -/
theorem completing_of_lifecycle {job : DownloadJob} {event : WorkerEvent}
    {effect : WorkerEffect} (moves : LifecycleStep job event effect)
    (completing : job.stage.phase = .completing)
    (walks : ∀ error, event ≠ .measured (.error error)) :
    effect.job.stage.phase = .completing ∨
      ∃ info, effect.registered = some info ∧
        info.name = job.task.modelName := by
  cases moves with
  | measures size walked before after => exact Or.inl after
  | registers info before after status registered name =>
      exact Or.inr ⟨info, registered, name⟩
  | walkFails error walked => exact (walks error walked).elim
  | begins before => rw [completing] at before; cases before
  | works before => rw [completing] at before; cases before
  | givesUp before => rw [completing] at before; cases before
  | completes written before => rw [completing] at before; cases before
  | fails before => rw [completing] at before; cases before

theorem mem_completedAfter {index : Nat} {event : WorkerEvent}
    {job : DownloadJob} {name : String}
    (found : listing.manager.jobs[index]? = some job)
    (member : name ∈ listing.completedAfter (.worker index event)) :
    name ∈ listing.completed ∨
      event = .writeCompleted ∧ name = job.task.modelName := by
  cases event with
  | writeCompleted =>
      simp only [completedAfter, found] at member
      exact (List.mem_cons.mp member).symm.imp_right fun same => ⟨rfl, same⟩
  | _ => exact Or.inl member

section Workers

variable {parse : String → Option Url} {index : Nat} {event : WorkerEvent}
  {job : DownloadJob} {effect : WorkerEffect}

/-- A model stays listed when a worker moves. -/
theorem isSome_getModel_apply {manager : DownloadManager} {name : String}
    (listed : (manager.getModel name).isSome = true) :
    ((manager.apply index effect).getModel name).isSome = true := by
  cases registered : effect.registered with
  | none =>
      rw [DownloadManager.getModel_apply_of_none _ _ registered]
      exact listed
  | some info =>
      rw [DownloadManager.getModel_apply_of_some _ _ registered]
      split
      · rfl
      · exact listed

/-- A worker that uses its directory after a step that the condition allows
works where nothing is being deleted. -/
theorem Inv.not_usesDirectory (inv : listing.Inv)
    (exclusive : listing.Exclusive (.download (.worker index event)))
    (found : listing.manager.jobs[index]? = some job)
    (moves : WorkerStep parse listing.manager.workingDir
      listing.manager.cacheDir job listing.manager.disk event effect)
    {deletion : Deletion} (ongoing : deletion ∈ listing.deleting)
    (same : job.task.modelName = deletion.name) :
    effect.job.stage.usesDirectory = false := by
  by_contra uses
  rw [Bool.not_eq_false] at uses
  rcases moves.usesDirectory uses with before | ⟨rfl, -⟩
  · have unused := inv.alone deletion ongoing job
      (List.mem_of_getElem? found) same
    rw [before] at unused
    cases unused
  · exact exclusive job found deletion ongoing same.symm

/-- A worker that registers its model uses its directory. -/
theorem usesDirectory_of_registered
    (moves : WorkerStep parse listing.manager.workingDir
      listing.manager.cacheDir job listing.manager.disk event effect)
    {info : ModelInfo} (registered : effect.registered = some info) :
    job.stage.usesDirectory = true ∧ info.name = job.task.modelName := by
  obtain ⟨completing, name⟩ := moves.lifecycle.of_registered registered
  exact ⟨job.stage.usesDirectory_of_completing completing, name⟩

/-- A model that is listed after a worker has moved has a plain name and a
directory. -/
theorem Inv.models_apply (inv : listing.Inv)
    (found : listing.manager.jobs[index]? = some job)
    (moves : WorkerStep parse listing.manager.workingDir
      listing.manager.cacheDir job listing.manager.disk event effect)
    {name : String} {info : ModelInfo}
    (isModel : (listing.manager.apply index effect).getModel name =
      some info) :
    IsPlain name.toList ∧
      locate listing.manager.workingDir info.localPath =
        listing.directoryOf name ∧
      isDirectory effect.disk (listing.directoryOf name) = true := by
  have isJob : job ∈ listing.manager.jobs := List.mem_of_getElem? found
  cases registered : effect.registered with
  | none =>
      rw [DownloadManager.getModel_apply_of_none _ _ registered] at isModel
      obtain ⟨namePlain, place, present⟩ := inv.models name info isModel
      exact ⟨namePlain, place, moves.isDirectory present⟩
  | some added =>
      rw [DownloadManager.getModel_apply_of_some _ _ registered] at isModel
      split at isModel
      case isTrue same =>
        simp only [Option.some.injEq] at isModel
        subst isModel
        obtain ⟨addedName, path⟩ :=
          TrackedDeletions.registered_localPath moves registered
        obtain ⟨uses, -⟩ := usesDirectory_of_registered moves registered
        rw [same, addedName, path]
        exact ⟨inv.jobs job isJob, rfl,
          moves.isDirectory (inv.working job isJob uses)⟩
      case isFalse =>
        obtain ⟨namePlain, place, present⟩ := inv.models name info isModel
        exact ⟨namePlain, place, moves.isDirectory present⟩

/-- A worker registers no model that is being deleted. -/
theorem Inv.unlisting_apply (inv : listing.Inv)
    (found : listing.manager.jobs[index]? = some job)
    (moves : WorkerStep parse listing.manager.workingDir
      listing.manager.cacheDir job listing.manager.disk event effect)
    {deletion : Deletion} (ongoing : deletion ∈ listing.deleting) :
    (listing.manager.apply index effect).getModel deletion.name = none := by
  cases registered : effect.registered with
  | none =>
      rw [DownloadManager.getModel_apply_of_none _ _ registered]
      exact inv.unlisting deletion ongoing
  | some added =>
      rw [DownloadManager.getModel_apply_of_some _ _ registered]
      obtain ⟨uses, addedName⟩ := usesDirectory_of_registered moves registered
      split
      case isTrue same =>
        have unused := inv.alone deletion ongoing job
          (List.mem_of_getElem? found) (same.trans addedName).symm
        rw [uses] at unused
        cases unused
      case isFalse => exact inv.unlisting deletion ongoing

/-- A job that is completing goes on with that, or has registered its model,
when another worker or its own moves. -/
theorem completing_apply
    (found : listing.manager.jobs[index]? = some job)
    (moves : WorkerStep parse listing.manager.workingDir
      listing.manager.cacheDir job listing.manager.disk event effect)
    (walks : ∀ error, event ≠ .measured (.error error))
    {other : DownloadJob} (isOther : other ∈ listing.manager.jobs)
    (completing : other.stage.phase = .completing) :
    ((listing.manager.apply index effect).getModel
        other.task.modelName).isSome = true ∨
      ∃ later ∈ (listing.manager.apply index effect).jobs,
        later.task.modelName = other.task.modelName ∧
          later.stage.phase = .completing := by
  obtain ⟨position, foundOther⟩ := List.mem_iff_getElem?.mp isOther
  by_cases moved : position = index
  · subst moved
    rw [found, Option.some.injEq] at foundOther
    subst foundOther
    rcases completing_of_lifecycle moves.lifecycle completing walks with
      still | ⟨info, registered, infoName⟩
    · exact Or.inr ⟨effect.job,
        List.mem_of_getElem? (DownloadManager.apply_jobs_self found effect),
        moves.keepsName.1, still⟩
    · refine Or.inl ?_
      rw [DownloadManager.getModel_apply_of_some _ _ registered,
        if_pos infoName.symm]
      rfl
  · refine Or.inr ⟨other, ?_, rfl, completing⟩
    have stays : (listing.manager.apply index effect).jobs[position]? =
        some other := by
      rw [DownloadManager.apply_jobs_of_ne _ moved]
      exact foundOther
    exact List.mem_of_getElem? stays

theorem Inv.worker (inv : listing.Inv)
    (exclusive : listing.Exclusive (.download (.worker index event)))
    (found : listing.manager.jobs[index]? = some job)
    (moves : WorkerStep parse listing.manager.workingDir
      listing.manager.cacheDir job listing.manager.disk event effect) :
    Inv { listing with
      manager := listing.manager.apply index effect
      completed := listing.completedAfter (.worker index event) } := by
  have isJob : job ∈ listing.manager.jobs := List.mem_of_getElem? found
  refine { inv with
    jobs := ?_, working := ?_
    models := fun name info isModel => inv.models_apply found moves isModel
    unlisting := fun deletion ongoing =>
      inv.unlisting_apply found moves ongoing
    alone := ?_, completed := ?_ }
  · intro other member
    rcases List.mem_or_eq_of_mem_set member with old | rfl
    · exact inv.jobs other old
    · rw [moves.keepsName.1]
      exact inv.jobs job isJob
  · intro other member uses
    rcases List.mem_or_eq_of_mem_set member with old | rfl
    · exact moves.isDirectory (inv.working other old uses)
    · rw [moves.keepsName.1]
      rcases moves.usesDirectory uses with before | ⟨-, made⟩
      · exact moves.isDirectory (inv.working job isJob before)
      · exact made
  · intro deletion ongoing other member same
    rcases List.mem_or_eq_of_mem_set member with old | rfl
    · exact inv.alone deletion ongoing other old same
    · rw [moves.keepsName.1] at same
      exact inv.not_usesDirectory exclusive found moves ongoing same
  · intro name member
    rcases mem_completedAfter found member with before | ⟨rfl, rfl⟩
    · rcases inv.completed name before with listed | ongoing |
        ⟨other, isOther, rfl, completing⟩
      · exact Or.inl (isSome_getModel_apply listed)
      · exact Or.inr (Or.inl ongoing)
      · have walks : ∀ error, event ≠ .measured (.error error) := by
          rintro error rfl
          cases exclusive
        exact (completing_apply found moves walks isOther completing).imp_right
          Or.inr
    · refine Or.inr (Or.inr ⟨effect.job, ?_, moves.keepsName.1, ?_⟩)
      · exact List.mem_of_getElem?
          (DownloadManager.apply_jobs_self found effect)
      · cases moves with
        | completes => rfl
        | transfers queued active results event effect stage moves =>
            cases moves

end Workers

/-! ## Runs -/

theorem Inv.request (inv : listing.Inv) {name : String}
    (plain : IsPlain name.toList) (source : ModelSource) :
    Inv { listing with
      manager := { listing.manager with
        jobs := listing.manager.jobs ++ [⟨.new name source, .waiting⟩] } } := by
  have isNew {job : DownloadJob}
      (member : job ∈ listing.manager.jobs ++
        [⟨.new name source, .waiting⟩]) :
      job ∈ listing.manager.jobs ∨ job = ⟨.new name source, .waiting⟩ := by
    simpa using member
  refine { inv with
    jobs := ?_, working := ?_, alone := ?_, completed := ?_ }
  · intro job member
    rcases isNew member with old | rfl
    · exact inv.jobs job old
    · exact plain
  · intro job member uses
    rcases isNew member with old | rfl
    · exact inv.working job old uses
    · cases uses
  · intro deletion ongoing job member same
    rcases isNew member with old | rfl
    · exact inv.alone deletion ongoing job old same
    · rfl
  · intro other member
    refine (inv.completed other member).imp_right fun pending => ?_
    refine pending.imp_right ?_
    rintro ⟨job, isJob, registering⟩
    exact ⟨job, List.mem_append_left _ isJob, registering⟩

/-- One step that meets the condition keeps the invariant. -/
theorem Inv.step {parse : String → Option Url} {action : ListingAction}
    {next : ModelListing} (inv : listing.Inv)
    (exclusive : listing.Exclusive action)
    (moves : listing.step parse action = some next) : next.Inv := by
  cases action with
  | takeModel name =>
      simp only [ModelListing.step, Option.some.injEq] at moves
      exact moves ▸ inv.takeModel exclusive
  | checkExists index => exact inv.checkExists moves
  | download action =>
      have stepped : ∃ manager, listing.manager.step parse action =
          some manager ∧ { listing with
            manager := manager
            completed := listing.completedAfter action
            unlisted := listing.unlistedAfter action } = next := by
        cases action with
        | deleteModel => cases moves
        | restart => cases moves
        | _ => exact Option.map_eq_some_iff.mp moves
      obtain ⟨manager, stepTo, rfl⟩ := stepped
      cases DownloadManager.managerStep_of_step stepTo with
      | requests name source => exact inv.request exclusive source
      | works index event job effect found workerMoves =>
          exact inv.worker exclusive found workerMoves
      | settles index failure file =>
          refine inv.withDisk fun name _ _ present => ?_
          cases failure with
          | none => exact isDirectory_write present _ _ _
          | some failed => exact isDirectory_write present _ _ _
      | reads => exact inv
      | removes index location deletion disk found inside removed =>
          exact inv.removeEntry (List.mem_of_getElem? found) inside removed
      | ends index failure deletion found =>
          have succeeds : failure = none := exclusive
          subst succeeds
          simp only [completedAfter, found]
          exact inv.endDeletion found
      | deletes => cases moves
      | restarts => cases moves

/-- The list agrees with the disk in every run of downloads under plain names
whose walks and deletions succeed and never work on one directory at a
time. -/
theorem agrees_of_exclusive (parse : String → Option Url)
    (manager : DownloadManager) (seen : List String)
    (actions : List ListingAction)
    (exclusive : Meets (step parse) Exclusive (start manager seen) actions) :
    ∀ reached ∈ visited (step parse) (start manager seen) actions,
      reached.Agrees := by
  have invariant := invariant_of_meets
    (fun listing action next inv exclusive moves =>
      Inv.step inv exclusive moves)
    (inv_start manager seen) exclusive
  exact fun reached member => (invariant reached member).agrees

/-- A model is downloaded and its deletion begins. -/
def downloadAndTake : List ListingAction :=
  [.download (.request "gpt" (.huggingFace "org/empty" none)),
    .download (.worker 0 .acquire),
    .download (.worker 0 (.makeModelDir none)),
    .download (.worker 0 (.infoReply (.answered 200 none) (.ok ()))),
    .download (.worker 0 (.listReply (.answered 200 none) (.ok []))),
    .download (.worker 0 .finishTransfers),
    .download (.worker 0 .writeCompleted),
    .download (.worker 0 (.measured (.ok 0))),
    .download (.worker 0 .register),
    .takeModel "gpt",
    .checkExists 0]

/-- The directory is removed. -/
def successfulDeletion : List ListingAction :=
  downloadAndTake ++
    [.download (.removeEntry 0 (locate [] "/cache/gpt".toList)),
      .download (.endDeletion 0 none)]

/-- The directory cannot be removed. -/
def failedDeletion : List ListingAction :=
  downloadAndTake ++ [.download (.endDeletion 0 (some "Permission denied"))]

/-- The cache of a process that has found the model `bert` in it. -/
def listedBert : ModelListing :=
  start (.new [] "/cache".toList TrackedDeletions.bertOnDisk) ["bert"]

theorem successfulDeletion_agrees :
    (run (step fun _ => none) listedBert successfulDeletion).isSome ∧
      ∀ reached ∈ visited (step fun _ => none) listedBert
        successfulDeletion, reached.Agrees :=
  ⟨by decide, agrees_of_exclusive _ _ _ _ (by decide)⟩

/-- A deletion that fails has taken its model out of the list already: the
completed download is there, not deleted and not listed. -/
theorem failedDeletion_not_agrees :
    ¬ ∀ reached ∈ visited (step fun _ => none) listedBert failedDeletion,
      reached.Agrees := by
  intro agrees
  have observed : (run (step fun _ => none) listedBert failedDeletion).map
      (fun last => (last.manager.jobs.all fun job => job.stage matches .done,
        last.taken.length + last.manager.deletions.length, last.completed,
        isDirectory last.manager.disk (last.directoryOf "gpt"),
        (last.manager.getModel "gpt").isSome)) =
      some (true, 0, ["gpt"], true, false) := by
    decide +kernel
  obtain ⟨last, reaches, ended⟩ := Option.map_eq_some_iff.mp observed
  simp only [Prod.mk.injEq] at ended
  obtain ⟨finished, nothing, completed, present, unknown⟩ := ended
  have idle : last.Idle := by
    refine ⟨fun job member => ?_, ?_, ?_⟩
    · have isDone := List.all_eq_true.mp finished job member
      cases stage : job.stage <;> simp [stage] at isDone
      rfl
    · exact List.length_eq_zero_iff.mp (by omega)
    · exact List.length_eq_zero_iff.mp (by omega)
  have listed := (agrees last (last_mem_visited reaches)).listed idle "gpt"
    (by simp [completed]) present
  rw [unknown] at listed
  cases listed

end ModelListing

end TorchInference
