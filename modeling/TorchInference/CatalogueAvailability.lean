import TorchInference.CatalogueFetches
import TorchInference.TransitionRuns

/-!
# Available catalogue models

`is_available` looks for any entry in the cache directory of a model, while
its files are streamed there under their final names.  An answer is right when
every file that downloads of the model have set out to fetch has been stored,
or nothing has been made for any of them yet, as long as no two fetches write
one file at a time.
-/

namespace TorchInference

open TransitionRuns UnixPath FileTree

namespace CatalogueDownload

/-! ## Directories of entries -/

theorem components_cacheBase (modelType : String) :
    ∃ first second : FileName, components (cacheBase modelType).toList =
      [.normal first, .normal second] := by
  have inModels (second : List Char) (plain : IsPlain second)
      (base : List Char) (isBase : components base =
        [.normal ⟨"models".toList, by decide⟩, .normal ⟨second, plain⟩]) :
      ∃ first second : FileName, components base =
        [.normal first, .normal second] := ⟨_, _, isBase⟩
  unfold cacheBase
  split
  · exact inModels "tts".toList (by decide +kernel) _
      (by decide +kernel)
  · split
    · exact inModels "classification".toList (by decide +kernel) _
        (by decide +kernel)
    · split
      · exact inModels "detection".toList (by decide +kernel) _
          (by decide +kernel)
      · split
        · exact inModels "segmentation".toList (by decide +kernel) _
            (by decide +kernel)
        · split
          · exact inModels "neural".toList (by decide +kernel) _
              (by decide +kernel)
          · split
            · exact inModels "stt".toList (by decide +kernel) _
                (by decide +kernel)
            · split
              · exact inModels "nlp".toList (by decide +kernel) _
                  (by decide +kernel)
              · exact inModels "other".toList (by decide +kernel) _
                  (by decide +kernel)

/-- The directory of a plain id is two levels and the id below the working
directory. -/
theorem directory_of_isPlain (workingDir : Location)
    {download : CatalogueDownload} (plain : IsPlain download.modelId.toList) :
    ∃ first second : FileName, download.directory workingDir =
      workingDir ++ [first, second] ++ [⟨download.modelId.toList, plain⟩] := by
  obtain ⟨first, second, isBase⟩ :=
    components_cacheBase download.model.modelType
  refine ⟨first, second, ?_⟩
  rw [directory, cacheDir, modelCacheDir, locate_join,
    locate_of_isPlain _ plain, locate, isBase]
  simp [visit]

theorem length_directory (workingDir : Location)
    {download : CatalogueDownload} (plain : IsPlain download.modelId.toList) :
    (download.directory workingDir).length = workingDir.length + 3 := by
  obtain ⟨first, second, isDirectory⟩ := directory_of_isPlain workingDir plain
  simp [isDirectory]

/-- A location lies in the directory of one id only. -/
theorem modelId_eq {workingDir location : Location}
    {download other : CatalogueDownload}
    (plain : IsPlain download.modelId.toList)
    (otherPlain : IsPlain other.modelId.toList)
    (inside : download.directory workingDir <+: location)
    (otherInside : other.directory workingDir <+: location) :
    download.modelId = other.modelId := by
  have sameLength : (download.directory workingDir).length =
      (other.directory workingDir).length := by
    rw [length_directory workingDir plain,
      length_directory workingDir otherPlain]
  have same : download.directory workingDir =
      other.directory workingDir :=
    (List.prefix_of_prefix_length_le inside otherInside
      sameLength.le).eq_of_length sameLength
  obtain ⟨first, second, isDirectory⟩ := directory_of_isPlain workingDir plain
  obtain ⟨third, fourth, isOther⟩ :=
    directory_of_isPlain workingDir otherPlain
  rw [isDirectory, isOther] at same
  have lastName := List.append_inj_right' same rfl
  have sameText := congrArg FileName.text (List.singleton_injective lastName)
  exact String.toList_injective sameText

end CatalogueDownload

namespace Catalogue

/-- The files that all downloads have set out to fetch. -/
def fetches (catalogue : Catalogue) : List FileFetch :=
  catalogue.downloads.flatMap CatalogueDownload.fetches

/-- Every file that downloads of the entry have set out to fetch is there with
the whole body of a fetch that was stored. -/
def FullyDownloaded (catalogue : Catalogue) (modelId : String) : Prop :=
  ∀ download ∈ catalogue.downloads, download.modelId = modelId →
    ∀ fetch ∈ download.fetches, fetch.state ≠ .unavailable →
      HoldsBody catalogue.workingDir catalogue.fetches catalogue.disk
        (fetch.location catalogue.workingDir)

/-- An entry that is neither built-in nor active is found available only when
it is fully downloaded. -/
def HonestCheck (catalogue : Catalogue) : CatalogueAction → Prop
  | .downloadModel modelId | .isAvailable modelId =>
      ∀ model, catalogue.getModel modelId = some model →
        model.isProvided = false →
          catalogue.isAvailable modelId model = true →
            catalogue.FullyDownloaded modelId
  | .download _ _ => True

/-- Downloads of the entry have stored every file they have set out to fetch,
or nothing has been made for any of these files. -/
def Settled (catalogue : Catalogue) (modelId : String) : Prop :=
  (∀ download ∈ catalogue.downloads, download.modelId = modelId →
      ∀ fetch ∈ download.fetches, fetch.state.isStored = true) ∨
    ∀ download ∈ catalogue.downloads, download.modelId = modelId →
      ∀ fetch ∈ download.fetches, fetch.made = false

/-- The file that an event opens is not being written by another fetch. -/
def OpensAlone (catalogue : Catalogue) (index : Nat)
    (event : CatalogueEvent) : Prop :=
  ∀ download ∈ catalogue.downloads[index]?, ∀ position ∈ event.opens,
    ∀ fetch ∈ download.fetches[position]?, ∀ other ∈ catalogue.fetches,
      other.isWriting = true → other.location catalogue.workingDir ≠
        fetch.location catalogue.workingDir

/-- Downloads are requested for plain ids and open files nobody writes, and
entries are looked up only when they are settled. -/
def SettledCheck (catalogue : Catalogue) : CatalogueAction → Prop
  | .downloadModel modelId =>
      IsPlain modelId.toList ∧ catalogue.Settled modelId
  | .isAvailable modelId => catalogue.Settled modelId
  | .download index event => catalogue.OpensAlone index event

instance (catalogue : Catalogue) (modelId : String) :
    Decidable (catalogue.Settled modelId) :=
  inferInstanceAs (Decidable (_ ∨ _))

instance (catalogue : Catalogue) (index : Nat) (event : CatalogueEvent) :
    Decidable (catalogue.OpensAlone index event) :=
  inferInstanceAs (Decidable (∀ download ∈ catalogue.downloads[index]?,
    ∀ position ∈ event.opens, ∀ fetch ∈ download.fetches[position]?,
      ∀ other ∈ catalogue.fetches, other.isWriting = true →
        other.location catalogue.workingDir ≠
          fetch.location catalogue.workingDir))

instance (catalogue : Catalogue) :
    ∀ action, Decidable (catalogue.SettledCheck action)
  | .downloadModel modelId => inferInstanceAs
      (Decidable (IsPlain modelId.toList ∧ catalogue.Settled modelId))
  | .isAvailable modelId =>
      inferInstanceAs (Decidable (catalogue.Settled modelId))
  | .download index event =>
      inferInstanceAs (Decidable (catalogue.OpensAlone index event))

/-! ## The invariant -/

structure Inv (catalogue : Catalogue) : Prop where
  registered : ∀ download ∈ catalogue.downloads,
    catalogue.getModel download.modelId = some download.model ∧
      IsPlain download.modelId.toList
  inside : ∀ download ∈ catalogue.downloads, ∀ fetch ∈ download.fetches,
    download.directory catalogue.workingDir <+:
      fetch.location catalogue.workingDir
  sound : SoundFetches catalogue.workingDir catalogue.fetches catalogue.disk
  unmade : ∀ download ∈ catalogue.downloads,
    children catalogue.disk (download.directory catalogue.workingDir) = [] ∨
      ∃ fetch ∈ catalogue.fetches, fetch.made = true ∧
        download.directory catalogue.workingDir <+:
          fetch.location catalogue.workingDir
  tree : WellFormed catalogue.disk

variable {catalogue : Catalogue}

theorem mem_fetches {fetch : FileFetch} (member : fetch ∈ catalogue.fetches) :
    ∃ download ∈ catalogue.downloads, fetch ∈ download.fetches :=
  List.mem_flatMap.mp member

/-- Fetches below the directory of an entry belong to its downloads. -/
theorem Inv.owner (inv : catalogue.Inv) {download : CatalogueDownload}
    (isDownload : download ∈ catalogue.downloads) {fetch : FileFetch}
    (member : fetch ∈ catalogue.fetches)
    (inside : download.directory catalogue.workingDir <+:
      fetch.location catalogue.workingDir) :
    ∃ owner ∈ catalogue.downloads, owner.modelId = download.modelId ∧
      fetch ∈ owner.fetches := by
  obtain ⟨owner, isOwner, isFetch⟩ := mem_fetches member
  refine ⟨owner, isOwner, ?_, isFetch⟩
  exact CatalogueDownload.modelId_eq (inv.registered owner isOwner).2
    (inv.registered download isDownload).2
    (inv.inside owner isOwner fetch isFetch) inside

/-- A settled entry that is found available is fully downloaded. -/
theorem Inv.fullyDownloaded (inv : catalogue.Inv) {modelId : String}
    {model : CatalogueModel}
    (isEntry : catalogue.getModel modelId = some model)
    (notProvided : model.isProvided = false)
    (available : catalogue.isAvailable modelId model = true)
    (settled : catalogue.Settled modelId) :
    catalogue.FullyDownloaded modelId := by
  rintro download isDownload rfl fetch isFetch fetched
  have inside := inv.inside download isDownload fetch isFetch
  have member : fetch ∈ catalogue.fetches :=
    List.mem_flatMap.mpr ⟨download, isDownload, isFetch⟩
  rcases settled with stored | unmade
  · have isStored := stored download isDownload rfl fetch isFetch
    cases state : fetch.state with
    | stored body =>
        rcases inv.sound.stored fetch member body state with
          holds | ⟨other, isOther, place, begun⟩
        · exact holds
        · exfalso
          obtain ⟨owner, isOwner, sameId, inOwner⟩ :=
            inv.owner isDownload isOther (place ▸ inside)
          have otherStored := stored owner isOwner sameId other inOwner
          rcases begun with writing | ⟨error, failed⟩
          · cases otherState : other.state <;>
              simp [FileFetch.isWriting, otherState, FetchState.isWriting,
                FetchState.isStored] at writing otherStored
          · simp [failed, FetchState.isStored] at otherStored
    | unavailable => exact absurd state fetched
    | queued => simp [state, FetchState.isStored] at isStored
    | requested => simp [state, FetchState.isStored] at isStored
    | writing => simp [state, FetchState.isStored] at isStored
    | failed => simp [state, FetchState.isStored] at isStored
  · exfalso
    have sameModel : download.model = model := by
      have known := (inv.registered download isDownload).1
      rw [isEntry, Option.some.injEq] at known
      exact known.symm
    rcases inv.unmade download isDownload with empty | ⟨other, isOther, made,
      otherInside⟩
    · have sameDirectory : catalogue.directoryOf download.modelId model =
          download.directory catalogue.workingDir := by
        rw [← sameModel]
        rfl
      simp [isAvailable, notProvided, sameDirectory, empty] at available
    · obtain ⟨owner, isOwner, sameId, inOwner⟩ :=
        inv.owner isDownload isOther otherInside
      rw [unmade owner isOwner sameId other inOwner] at made
      cases made

theorem Inv.honestCheck (inv : catalogue.Inv) {action : CatalogueAction}
    (settled : catalogue.SettledCheck action) :
    catalogue.HonestCheck action := by
  cases action with
  | downloadModel modelId =>
      intro model isEntry notProvided available
      exact inv.fullyDownloaded isEntry notProvided available settled.2
  | isAvailable modelId =>
      intro model isEntry notProvided available
      exact inv.fullyDownloaded isEntry notProvided available settled
  | download index event => trivial

/-! ## Steps -/

/-- A directory that is not available is empty when its download begins. -/
theorem Inv.spawn (inv : catalogue.Inv) {modelId : String}
    {model : CatalogueModel}
    (isEntry : catalogue.getModel modelId = some model)
    (plain : IsPlain modelId.toList)
    (missing : catalogue.isAvailable modelId model = false) :
    Inv { catalogue with
      downloads := catalogue.downloads ++ [.new modelId model] } := by
  have sameFetches : Catalogue.fetches { catalogue with
      downloads := catalogue.downloads ++ [.new modelId model] } =
        catalogue.fetches := by
    simp [Catalogue.fetches, CatalogueDownload.new]
  have cases {download : CatalogueDownload} (member : download ∈
      catalogue.downloads ++ [.new modelId model]) :
      download ∈ catalogue.downloads ∨ download = .new modelId model :=
    (List.mem_append.mp member).imp_right List.mem_singleton.mp
  refine ⟨?_, ?_, ?_, ?_, inv.tree⟩
  · intro download member
    rcases cases member with old | rfl
    · exact inv.registered download old
    · exact ⟨isEntry, plain⟩
  · intro download member fetch isFetch
    rcases cases member with old | rfl
    · exact inv.inside download old fetch isFetch
    · cases isFetch
  · rw [sameFetches]
    exact inv.sound
  · intro download member
    rw [sameFetches]
    rcases cases member with old | rfl
    · exact inv.unmade download old
    · left
      have empty : children catalogue.disk
          (catalogue.directoryOf modelId model) = [] := by
        simp only [isAvailable, Bool.or_eq_false_iff, Bool.and_eq_false_iff,
          Bool.not_eq_false', List.isEmpty_iff] at missing
        rcases missing.2 with notDirectory | empty
        · exact children_eq_nil inv.tree notDirectory
        · exact empty
      exact empty

theorem flatMap_fetches_perm (front back : List CatalogueDownload)
    (download : CatalogueDownload) :
    ((front ++ download :: back).flatMap CatalogueDownload.fetches).Perm
      (download.fetches ++ (front.flatMap CatalogueDownload.fetches ++
        back.flatMap CatalogueDownload.fetches)) := by
  rw [List.flatMap_append, List.flatMap_cons, ← List.append_assoc,
    ← List.append_assoc]
  exact List.Perm.append_right _ List.perm_append_comm

/-- The fetches before and after a change of one download. -/
theorem fetches_set {index : Nat} {download : CatalogueDownload}
    (found : catalogue.downloads[index]? = some download)
    (after : CatalogueDownload) (disk : Tree) :
    ∃ others : List FileFetch,
      catalogue.fetches.Perm (download.fetches ++ others) ∧
        (Catalogue.fetches { catalogue with
          downloads := catalogue.downloads.set index after
          disk := disk }).Perm (after.fetches ++ others) := by
  obtain ⟨bound, isDownload⟩ := List.getElem?_eq_some_iff.mp found
  obtain ⟨front, back, whole, -, changed⟩ :
      ∃ front back, catalogue.downloads =
          front ++ catalogue.downloads[index] :: back ∧
        front.length = index ∧
        catalogue.downloads.set index after = front ++ after :: back :=
    List.exists_of_set bound
  rw [isDownload] at whole
  refine ⟨front.flatMap CatalogueDownload.fetches ++
    back.flatMap CatalogueDownload.fetches, ?_, ?_⟩
  · rw [Catalogue.fetches, whole]
    exact flatMap_fetches_perm front back download
  · rw [Catalogue.fetches, changed]
    exact flatMap_fetches_perm front back after

/-- The fetch at an index, and the ones beside it. -/
theorem set_perm {fetches : List FileFetch} {index : Nat}
    {fetch : FileFetch} (found : fetches[index]? = some fetch)
    (after : FileFetch) :
    ∃ beside, fetches.Perm (fetch :: beside) ∧
      (fetches.set index after).Perm (after :: beside) := by
  obtain ⟨bound, isFetch⟩ := List.getElem?_eq_some_iff.mp found
  obtain ⟨front, back, whole, -, changed⟩ := List.exists_of_set bound
  rw [isFetch] at whole
  refine ⟨front ++ back, ?_, ?_⟩
  · rw [whole]
    exact List.perm_middle
  · rw [changed]
    exact List.perm_middle

/-- What all steps of downloads have in common: the fetches stay sound and
inside their directories, nothing is made unnoted, and the tree has no
gaps. -/
theorem Inv.of_download (inv : catalogue.Inv) {index : Nat}
    {download after : CatalogueDownload} {disk : Tree}
    (found : catalogue.downloads[index]? = some download)
    (sameId : after.modelId = download.modelId)
    (sameModel : after.model = download.model)
    (inside : ∀ fetch ∈ after.fetches,
      download.directory catalogue.workingDir <+:
        fetch.location catalogue.workingDir)
    (made : ∀ fetch ∈ catalogue.fetches, fetch.made = true →
      ∃ later ∈ Catalogue.fetches { catalogue with
        downloads := catalogue.downloads.set index after, disk := disk },
        later.made = true ∧ later.location catalogue.workingDir =
          fetch.location catalogue.workingDir)
    (sound : SoundFetches catalogue.workingDir
      (Catalogue.fetches { catalogue with
        downloads := catalogue.downloads.set index after, disk := disk })
      disk)
    (below : ∀ location ∈ disk, location ∈ catalogue.disk ∨
      location <+: download.directory catalogue.workingDir ∨
        ∃ fetch ∈ after.fetches,
          location <+: fetch.location catalogue.workingDir ∧
            ((download.directory catalogue.workingDir).length <
              location.length → fetch.made = true))
    (tree : WellFormed disk) :
    Inv { catalogue with
      downloads := catalogue.downloads.set index after
      disk := disk } := by
  have isDownload := List.mem_of_getElem? found
  have sameDirectory : after.directory catalogue.workingDir =
      download.directory catalogue.workingDir := by
    simp only [CatalogueDownload.directory, CatalogueDownload.cacheDir,
      sameId, sameModel]
  have plain := (inv.registered download isDownload).2
  have memAfter {fetch : FileFetch} (member : fetch ∈ after.fetches) :
      fetch ∈ Catalogue.fetches { catalogue with
        downloads := catalogue.downloads.set index after, disk := disk } := by
    obtain ⟨bound, -⟩ := List.getElem?_eq_some_iff.mp found
    exact List.mem_flatMap.mpr ⟨after, List.mem_set bound after, member⟩
  -- Nothing has been made unnoted below the directory of any download.
  have unmade {other : CatalogueDownload}
      (isOther : other ∈ catalogue.downloads) :
      children disk (other.directory catalogue.workingDir) = [] ∨
        ∃ fetch ∈ Catalogue.fetches { catalogue with
          downloads := catalogue.downloads.set index after, disk := disk },
          fetch.made = true ∧ other.directory catalogue.workingDir <+:
            fetch.location catalogue.workingDir := by
    have otherPlain := (inv.registered other isOther).2
    have sameLength : (other.directory catalogue.workingDir).length =
        (download.directory catalogue.workingDir).length := by
      rw [CatalogueDownload.length_directory _ otherPlain,
        CatalogueDownload.length_directory _ plain]
    rcases inv.unmade other isOther with empty | ⟨fetch, member, isMade, under⟩
    · by_cases stillEmpty :
          children disk (other.directory catalogue.workingDir) = []
      · exact Or.inl stillEmpty
      · right
        obtain ⟨name, isChild⟩ := List.exists_mem_of_ne_nil _ stillEmpty
        have present := mem_children.mp isChild
        rcases below _ present with old | onTheWay | ⟨fetch, member, under,
          noted⟩
        · have oldChild := mem_children.mpr old
          rw [empty] at oldChild
          cases oldChild
        · have tooLong := onTheWay.length_le
          simp only [List.length_append, List.length_singleton] at tooLong
          omega
        · have isMade := noted (by
            simp only [List.length_append, List.length_singleton]
            omega)
          exact ⟨fetch, memAfter member, isMade,
            (List.prefix_append _ _).trans under⟩
    · obtain ⟨later, isLater, laterMade, place⟩ := made fetch member isMade
      exact Or.inr ⟨later, isLater, laterMade, place ▸ under⟩
  refine ⟨?_, ?_, sound, ?_, tree⟩
  · intro other member
    rcases List.mem_or_eq_of_mem_set member with old | rfl
    · exact inv.registered other old
    · rw [sameId, sameModel]
      exact inv.registered download isDownload
  · intro other member fetch isFetch
    rcases List.mem_or_eq_of_mem_set member with old | rfl
    · exact inv.inside other old fetch isFetch
    · rw [sameDirectory]
      exact inside fetch isFetch
  · intro other member
    rcases List.mem_or_eq_of_mem_set member with old | rfl
    · exact unmade old
    · rw [sameDirectory]
      exact unmade isDownload

/-- A step of a download that opens no file another fetch is writing. -/
theorem Inv.download (inv : catalogue.Inv) {index : Nat}
    {download after : CatalogueDownload} {event : CatalogueEvent}
    {disk : Tree} (found : catalogue.downloads[index]? = some download)
    (alone : catalogue.OpensAlone index event)
    (step : CatalogueStep catalogue.workingDir download catalogue.disk event
      after disk) :
    Inv { catalogue with
      downloads := catalogue.downloads.set index after
      disk := disk } := by
  have isDownload := List.mem_of_getElem? found
  obtain ⟨others, before, later⟩ := fetches_set found after disk
  cases step with
  | plans fresh sameId sameModel fetches areFresh made =>
      rw [fetches] at later
      have sameContent (location : Location) :
          contentAt disk location = contentAt catalogue.disk location := by
        rcases made with rfl | ⟨count, dirs⟩
        · rfl
        · exact contentAt_createDirAll dirs location
      refine inv.of_download found sameId sameModel ?_ ?_ ?_ ?_ ?_
      · intro fetch member
        rw [fetches] at member
        rcases List.mem_append.mp member with old | new
        · exact inv.inside download isDownload fetch old
        · exact (areFresh fetch new).inside
      · intro fetch member isMade
        refine ⟨fetch, later.mem_iff.mpr ?_, isMade, rfl⟩
        rcases List.mem_append.mp (before.mem_iff.mp member) with own | other
        · exact List.mem_append_left _ (List.mem_append_left _ own)
        · exact List.mem_append_right _ other
      · have grown := ((inv.sound.perm before).of_content
          sameContent).append_fresh
            (fun fetch member => (areFresh fetch member).waiting)
        refine grown.perm (List.Perm.trans ?_ later.symm)
        rw [← List.append_assoc]
        exact List.perm_append_comm.append_right _
      · intro location member
        rcases made with rfl | ⟨count, dirs⟩
        · exact Or.inl member
        · rcases mem_createDirAll dirs member with old | ⟨above, -⟩
          · exact Or.inl old
          · exact Or.inr (Or.inl (above.trans (List.take_prefix _ _)))
      · rcases made with rfl | ⟨count, dirs⟩
        · exact inv.tree
        · exact wellFormed_createDirAll inv.tree dirs
  | moves position fetch state made fresh sameId sameModel atPosition move
      opens fetches areFresh =>
      obtain ⟨beside, split, changed⟩ := set_perm atPosition
        { fetch with state := state, made := made }
      have isFetch := List.mem_of_getElem? atPosition
      rw [fetches] at later
      have beforeSplit : catalogue.fetches.Perm
          (fetch :: (beside ++ others)) :=
        before.trans (split.append_right others)
      have grownPerm : (fresh ++
          { fetch with state := state, made := made } ::
            (beside ++ others)).Perm
          (Catalogue.fetches { catalogue with
            downloads := catalogue.downloads.set index after
            disk := disk }) := by
        refine List.Perm.trans ?_ later.symm
        rw [← List.cons_append, ← List.append_assoc]
        exact (List.perm_append_comm.trans
          (changed.symm.append_right fresh)).append_right others
      have movedMember : { fetch with state := state, made := made } ∈
          after.fetches := by
        obtain ⟨bound, -⟩ := List.getElem?_eq_some_iff.mp atPosition
        rw [fetches]
        exact List.mem_append_left _ (List.mem_set bound _)
      refine inv.of_download found sameId sameModel ?_ ?_ ?_ ?_
        (move.wellFormed inv.tree)
      · intro other member
        rw [fetches] at member
        rcases List.mem_append.mp member with old | new
        · rcases List.mem_or_eq_of_mem_set old with old | rfl
          · exact inv.inside download isDownload other old
          · exact inv.inside download isDownload fetch isFetch
        · exact (areFresh other new).inside
      · intro other member isMade
        rcases List.mem_cons.mp (beforeSplit.mem_iff.mp member) with
          rfl | besides
        · refine ⟨_, grownPerm.mem_iff.mp (List.mem_append_right _
            List.mem_cons_self), ?_, rfl⟩
          exact move.made_of_made isMade
        · exact ⟨other, grownPerm.mem_iff.mp (List.mem_append_right _
            (List.mem_cons_of_mem _ besides)), isMade, rfl⟩
      · have moved := (inv.sound.perm beforeSplit).move move
          fun waiting opened other member writing => by
            have isOther : other ∈ catalogue.fetches :=
              beforeSplit.mem_iff.mpr (List.mem_cons_of_mem _ member)
            exact alone download found position (opens waiting opened) fetch
              atPosition other isOther writing
        exact (moved.append_fresh fun other member =>
          (areFresh other member).waiting).perm grownPerm
      · intro location member
        rcases move.mem_disk member with old | ⟨under, noted⟩
        · exact Or.inl old
        · exact Or.inr (Or.inr ⟨_, movedMember, under, noted⟩)

theorem Inv.step (inv : catalogue.Inv) {action : CatalogueAction}
    {next : Catalogue} (settled : catalogue.SettledCheck action)
    (moves : catalogue.step action = some next) : next.Inv := by
  cases action with
  | downloadModel modelId =>
      simp only [Catalogue.step] at moves
      cases entry : catalogue.getModel modelId with
      | none =>
          simp only [entry, Option.some.injEq] at moves
          exact moves ▸ inv
      | some model =>
          simp only [entry] at moves
          cases available : catalogue.isAvailable modelId model with
          | true =>
              simp only [available, if_true, Option.some.injEq] at moves
              exact moves ▸ inv
          | false =>
              simp only [available, Bool.false_eq_true, if_false,
                Option.some.injEq] at moves
              subst moves
              exact inv.spawn entry settled.1 available
  | isAvailable modelId =>
      simp only [Catalogue.step, Option.some.injEq] at moves
      exact moves ▸ inv
  | download index event =>
      simp only [Catalogue.step] at moves
      cases found : catalogue.downloads[index]? with
      | none => simp [found] at moves
      | some download =>
          simp only [found, Option.map_eq_some_iff] at moves
          obtain ⟨⟨after, disk⟩, advanced, rfl⟩ := moves
          exact inv.download found settled
            (CatalogueDownload.advance_step advanced)

theorem inv_new (workingDir : Location)
    (registry : List (String × CatalogueModel)) {disk : Tree}
    (tree : WellFormed disk) : (new workingDir registry disk).Inv where
  registered := by simp [new]
  inside := by simp [new]
  sound := ⟨by simp [new, fetches], by simp [new, fetches],
    by simp [new, fetches]⟩
  unmade := by simp [new]
  tree := tree

/-- In a run in which entries are looked up only when they are settled, an
entry is never found available before it is fully downloaded. -/
theorem honestChecks_of_settledChecks (workingDir : Location)
    (registry : List (String × CatalogueModel)) (disk : Tree)
    (tree : WellFormed disk) (actions : List CatalogueAction)
    (settled : Meets step SettledCheck (new workingDir registry disk)
      actions) :
    Meets step HonestCheck (new workingDir registry disk) actions :=
  meets_of_invariant
    (fun _ _ _ inv settled moves => Inv.step inv settled moves)
    (fun _ _ inv settled => Inv.honestCheck inv settled)
    (inv_new workingDir registry tree) settled

/-- A registry with a single file and a repository. -/
def smallRegistry : List (String × CatalogueModel) :=
  [("vocoder",
      { name := "Vocoder"
        url := "https://github.com/tts/vocoder.onnx"
        status := "Available"
        note := none
        modelType := "tts" }),
    ("bert",
      { name := "BERT"
        url := "https://huggingface.co/org/bert"
        status := "Available"
        note := none
        modelType := "nlp" })]

/-- The file is opened, written and stored. -/
def storeVocoder : List CatalogueAction :=
  [.downloadModel "vocoder",
    .download 0 (.makeDir none),
    .download 0 (.fileReply 0 (.answered 200 none) none),
    .download 0 (.chunk 0 [1, 2]),
    .download 0 (.chunk 0 [3]),
    .download 0 (.endOfStream 0),
    .downloadModel "vocoder"]

theorem storeVocoder_honest :
    (run step (new [] smallRegistry ∅) storeVocoder).isSome ∧
      Meets step HonestCheck (new [] smallRegistry ∅) storeVocoder :=
  ⟨by decide, honestChecks_of_settledChecks [] smallRegistry ∅
    (by simp [WellFormed]) storeVocoder (by decide)⟩

/-- The entry is found available, and a file of it has been stored by no
fetch. -/
def answersEarly (catalogue : Catalogue) (modelId : String) : Bool :=
  match catalogue.getModel modelId with
  | none => false
  | some model =>
      !model.isProvided && catalogue.isAvailable modelId model &&
        catalogue.downloads.any fun download =>
          download.modelId == modelId && download.fetches.any fun fetch =>
            fetch.state != .unavailable &&
              catalogue.fetches.all fun other => !other.state.isStored

theorem not_honestCheck_of_answersEarly {modelId : String}
    (early : catalogue.answersEarly modelId = true) :
    ¬ catalogue.HonestCheck (.downloadModel modelId) := by
  intro honest
  cases entry : catalogue.getModel modelId with
  | none => simp [answersEarly, entry] at early
  | some model =>
      simp only [answersEarly, entry, Bool.and_eq_true, Bool.not_eq_true',
        List.any_eq_true, beq_iff_eq, bne_iff_ne, List.all_eq_true] at early
      obtain ⟨⟨notProvided, available⟩, download, isDownload, sameId, fetch,
        isFetch, fetched, noneStored⟩ := early
      obtain ⟨other, isOther, body, -, stored, -⟩ :=
        honest model entry notProvided available download isDownload sameId
          fetch isFetch fetched
      have notStored := noneStored other isOther
      simp [stored, FetchState.isStored] at notStored

/-- The file has been opened and nothing has been received. -/
def runningDownload : List CatalogueAction :=
  [.downloadModel "vocoder",
    .download 0 (.makeDir none),
    .download 0 (.fileReply 0 (.answered 200 none) none)]

/-- The only file of a repository breaks off, and its download ends. -/
def failedDownload : List CatalogueAction :=
  [.downloadModel "bert",
    .download 0 (.makeDir none),
    .download 0 (.listReply (.answered 200 none)
      (.ok [.object [("type", .string "file"), ("path", .string "w")]])),
    .download 0 (.startFile 0 none),
    .download 0 (.fileReply 0 (.answered 200 none) none),
    .download 0 (.breakOff 0 [] "connection reset"),
    .download 0 .collect]

/-- A running download and a failed one are answered as downloaded. -/
theorem available_before_downloaded :
    (¬ Meets step HonestCheck (new [] smallRegistry ∅)
        (runningDownload ++ [.downloadModel "vocoder"])) ∧
      ¬ Meets step HonestCheck (new [] smallRegistry ∅)
        (failedDownload ++ [.downloadModel "bert"]) := by
  have early {actions : List CatalogueAction} {modelId : String}
      (answered : (run step (new [] smallRegistry ∅) actions).any
        (answersEarly · modelId) = true) :
      ¬ Meets step HonestCheck (new [] smallRegistry ∅)
        (actions ++ [.downloadModel modelId]) := by
    obtain ⟨last, reaches, isEarly⟩ := Option.any_eq_true _ _ |>.mp answered
    intro honest
    exact not_honestCheck_of_answersEarly isEarly
      (condition_of_meets reaches honest)
  exact ⟨early (by decide), early (by decide)⟩

end Catalogue

end TorchInference
