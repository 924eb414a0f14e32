import TorchInference.CatalogueDownload

/-!
# Files fetched for the catalogue

A step of a download sets out to fetch new files or moves the fetch of one
file on.  Fetches of all downloads are kept sound together: a file that is
being written holds what has been received, no two fetches write the same
file, and a file that has been stored holds the body of some stored fetch
unless another fetch has begun to overwrite it.
-/

namespace TorchInference

open UnixPath FileTree

/-- The fetch whose file an event opens. -/
def CatalogueEvent.opens : CatalogueEvent → Option Nat
  | .fileReply index (.answered status _) none =>
      if isSuccess status then some index else none
  | .configReply index (.answered status _) (.ok _) none =>
      if isSuccess status then some index else none
  | _ => none

/-- A step on the fetch of one file: its next state, whether something has
been made for it, and the disk afterwards. -/
inductive FetchMove (workingDir directory : Location) (disk : Tree)
    (fetch : FileFetch) : FetchState → Bool → Tree → Prop
  | approaches (state : FetchState) (count : Nat) (after : Tree)
      (begun : state = .requested ∨ ∃ error, state = .failed error)
      (waiting : fetch.state = .queued)
      (made : createDirAll disk
        ((fetch.location workingDir).dropLast.take count) = some after) :
      FetchMove workingDir directory disk fetch state
        (fetch.made || decide (directory.length <
          ((fetch.location workingDir).dropLast.take count).length)) after
  | opens (after : Tree) (waiting : fetch.state = .requested)
      (created : createFile disk (fetch.location workingDir) = some after) :
      FetchMove workingDir directory disk fetch (.writing []) true after
  | receives (received bytes : List UInt8)
      (writing : fetch.state = .writing received) :
      FetchMove workingDir directory disk fetch
        (.writing (received ++ bytes)) fetch.made
        (write disk (fetch.location workingDir) received.length bytes)
  | stores (received : List UInt8)
      (writing : fetch.state = .writing received) :
      FetchMove workingDir directory disk fetch (.stored received)
        fetch.made disk
  | storesAll (body : List UInt8) (writing : fetch.state = .writing []) :
      FetchMove workingDir directory disk fetch (.stored body) fetch.made
        (write disk (fetch.location workingDir) 0 body)
  | lacks (waiting : fetch.state = .requested) :
      FetchMove workingDir directory disk fetch .unavailable fetch.made disk
  | refused (error : String) (waiting : fetch.state = .requested) :
      FetchMove workingDir directory disk fetch (.failed error) fetch.made
        disk
  | breaksOff (received bytes : List UInt8) (error : String)
      (writing : fetch.state = .writing received) :
      FetchMove workingDir directory disk fetch (.failed error) fetch.made
        (write disk (fetch.location workingDir) received.length bytes)

/-- A file that a download has just set out to fetch. -/
structure FreshFetch (workingDir directory : Location) (fetch : FileFetch) :
    Prop where
  waiting : fetch.state = .queued ∨ fetch.state = .requested
  unmade : fetch.made = false
  inside : directory <+: fetch.location workingDir

/-- The steps of a download. -/
inductive CatalogueStep (workingDir : Location)
    (download : CatalogueDownload) (disk : Tree) (event : CatalogueEvent)
    (after : CatalogueDownload) (afterDisk : Tree) : Prop
  | plans (fresh : List FileFetch)
      (sameId : after.modelId = download.modelId)
      (sameModel : after.model = download.model)
      (fetches : after.fetches = download.fetches ++ fresh)
      (areFresh : ∀ fetch ∈ fresh,
        FreshFetch workingDir (download.directory workingDir) fetch)
      (made : afterDisk = disk ∨ ∃ count, createDirAll disk
        ((download.directory workingDir).take count) = some afterDisk)
  | moves (index : Nat) (fetch : FileFetch) (state : FetchState)
      (made : Bool) (fresh : List FileFetch)
      (sameId : after.modelId = download.modelId)
      (sameModel : after.model = download.model)
      (found : download.fetches[index]? = some fetch)
      (move : FetchMove workingDir (download.directory workingDir) disk
        fetch state made afterDisk)
      (opens : fetch.state = .requested → state = .writing [] →
        event.opens = some index)
      (fetches : after.fetches = download.fetches.set index
        { fetch with state := state, made := made } ++ fresh)
      (areFresh : ∀ fetch ∈ fresh,
        FreshFetch workingDir (download.directory workingDir) fetch)

namespace CatalogueDownload

/-! ## Inversion -/

section Inversion

variable {workingDir : Location} {download after : CatalogueDownload}
  {disk afterDisk : Tree} {event : CatalogueEvent}

theorem freshFetch_of_safe {name : String} {url : String}
    {state : FetchState}
    (waiting : state = .queued ∨ state = .requested)
    (relative : isAbsolute name.toList = false)
    (noParent : ¬ ['.', '.'] <:+: name.toList) :
    FreshFetch workingDir (download.directory workingDir)
      (.new url (download.filePath name) state) where
  waiting := waiting
  unmade := rfl
  inside := by
    simp only [FileFetch.location, FileFetch.new, filePath, locate_join]
    exact prefix_locate relative noParent _

/-- The names of single files lead nowhere else. -/
theorem freshFetch_of_plain {name : String} {url : String}
    (plain : IsPlain name.toList) :
    FreshFetch workingDir (download.directory workingDir)
      (.new url (download.filePath name) .requested) where
  waiting := Or.inr rfl
  unmade := rfl
  inside := by
    simp only [FileFetch.location, FileFetch.new, filePath, locate_join,
      locate_of_isPlain _ plain]
    exact List.prefix_append _ _

theorem fetchEnded_cases (download : CatalogueDownload) (success : Bool) :
    (download.fetchEnded success).modelId = download.modelId ∧
      (download.fetchEnded success).model = download.model ∧
      ((download.fetchEnded success).fetches = download.fetches ∨
        ∃ url, (download.fetchEnded success).fetches = download.fetches ++
          [.new url (download.filePath "config.json") .requested]) := by
  unfold fetchEnded
  split
  · split
    · exact ⟨rfl, rfl, Or.inr ⟨_, rfl⟩⟩
    · exact ⟨rfl, rfl, Or.inl rfl⟩
  · exact ⟨rfl, rfl, Or.inl rfl⟩
  · exact ⟨rfl, rfl, Or.inl rfl⟩
  · exact ⟨rfl, rfl, Or.inl rfl⟩

/-- A fetch that has ended, with what follows for its download. -/
theorem step_of_fetchEnded {index : Nat} {fetch : FileFetch}
    {state : FetchState} {made : Bool}
    (found : download.fetches[index]? = some fetch)
    (move : FetchMove workingDir (download.directory workingDir) disk fetch
      state made afterDisk) (ended : state ≠ .writing [])
    (success : Bool) :
    CatalogueStep workingDir download disk event
      ((download.setFetch index
        { fetch with state := state, made := made }).fetchEnded success)
      afterDisk := by
  obtain ⟨sameId, sameModel, same | ⟨url, added⟩⟩ := fetchEnded_cases
    (download.setFetch index { fetch with state := state, made := made })
    success
  · have fetches := same.trans (List.append_nil _).symm
    exact .moves index fetch state made [] sameId sameModel found move
      (fun _ writing => absurd writing ended) fetches (by simp)
  · refine .moves index fetch state made _ sameId sameModel found move
      (fun _ writing => absurd writing ended) added fun fetch member => ?_
    rw [List.mem_singleton.mp member]
    exact freshFetch_of_plain (by decide)

/-- A fetch that goes on. -/
theorem step_of_setFetch {index : Nat} {fetch : FileFetch}
    {state : FetchState} {made : Bool}
    (found : download.fetches[index]? = some fetch)
    (move : FetchMove workingDir (download.directory workingDir) disk fetch
      state made afterDisk)
    (opens : fetch.state = .requested → state = .writing [] →
      event.opens = some index)
    (sameId : after.modelId = download.modelId)
    (sameModel : after.model = download.model)
    (fetches : after.fetches = download.fetches.set index
      { fetch with state := state, made := made }) :
    CatalogueStep workingDir download disk event after afterDisk :=
  .moves index fetch state made [] sameId sameModel found move opens
    (by simp [fetches]) (by simp)

theorem isPlain_modelFile {extension : String}
    (known : extension ∈ directExtensions) :
    IsPlain ("model." ++ extension).toList := by
  simp only [directExtensions, List.mem_cons, List.not_mem_nil,
    or_false] at known
  rcases known with rfl | rfl | rfl | rfl | rfl | rfl <;> decide

theorem resolvedExtension_mem (url : String) :
    resolvedExtension url ∈ directExtensions := by
  unfold resolvedExtension
  split
  · simp [directExtensions]
  · split <;> simp [directExtensions]

theorem enterSource_step
    (made : createDirAll disk (download.directory workingDir) =
      some afterDisk) :
    CatalogueStep workingDir download disk event download.enterSource
      afterDisk := by
  have dirs : afterDisk = disk ∨ ∃ count, createDirAll disk
      ((download.directory workingDir).take count) = some afterDisk :=
    Or.inr ⟨_, by rwa [List.take_length]⟩
  simp only [enterSource]
  split
  · exact .plans [] rfl rfl (by simp) (by simp) dirs
  · split
    · refine .plans _ rfl rfl rfl (fun fetch member => ?_) dirs
      rw [List.mem_singleton.mp member]
      exact freshFetch_of_plain (isPlain_modelFile (resolvedExtension_mem _))
    · split
      · exact .plans [] rfl rfl (by simp) (by simp) dirs
      · split
        case h_1 extension direct =>
          refine .plans _ rfl rfl rfl (fun fetch member => ?_) dirs
          rw [List.mem_singleton.mp member]
          exact freshFetch_of_plain
            (isPlain_modelFile (List.mem_of_find?_eq_some direct))
        case h_2 => exact .plans [] rfl rfl (by simp) (by simp) dirs

/-- Listed paths neither start at the root nor contain a pair of dots. -/
theorem safe_of_mem_catalogueFiles {files : List JsonValue} {path : String}
    (listed : path ∈ catalogueFiles files) :
    isAbsolute path.toList = false ∧ ¬ ['.', '.'] <:+: path.toList := by
  have checked := (List.mem_filter.mp listed).2
  simp only [Bool.and_eq_true, Bool.not_eq_true', containsText,
    decide_eq_false_iff_not, startsWith] at checked
  refine ⟨?_, checked.1⟩
  cases text : path.toList with
  | nil => rfl
  | cons first rest =>
      have notSlash : first ≠ '/' := by
        rintro rfl
        simp [text] at checked
      simp [isAbsolute, notSlash]

theorem listReply_step (repoId : String) (reply : FetchReply)
    (json : Except String (List JsonValue)) :
    CatalogueStep workingDir download disk event
      (download.listReply repoId reply json) disk := by
  unfold listReply
  split
  · split
    · refine .plans _ rfl rfl rfl (fun fetch member => ?_) (Or.inl rfl)
      obtain ⟨path, listed, rfl⟩ := List.mem_map.mp member
      obtain ⟨relative, noParent⟩ := safe_of_mem_catalogueFiles listed
      exact freshFetch_of_safe (Or.inl rfl) relative noParent
    · exact .plans [] rfl rfl (by simp) (by simp) (Or.inl rfl)
  · exact .plans [] rfl rfl (by simp) (by simp) (Or.inl rfl)

theorem startFile_step {index : Nat} {fetch : FileFetch}
    {failure : Option (Nat × String)}
    (found : download.fetches[index]? = some fetch)
    (waiting : fetch.state = .queued)
    (moves : download.startFile workingDir index fetch failure disk =
      some (after, afterDisk)) :
    CatalogueStep workingDir download disk event after afterDisk := by
  simp only [startFile] at moves
  cases failure with
  | some failure =>
      obtain ⟨count, error⟩ := failure
      simp only [Option.map_eq_some_iff, Prod.mk.injEq] at moves
      obtain ⟨disk', made, rfl, rfl⟩ := moves
      exact step_of_fetchEnded found
        (.approaches (.failed error) count _ (Or.inr ⟨error, rfl⟩) waiting
          made) (by simp) false
  | none =>
      simp only [Option.map_eq_some_iff, Prod.mk.injEq] at moves
      obtain ⟨disk', made, rfl, rfl⟩ := moves
      have whole : (fetch.location workingDir).dropLast.take
          (fetch.location workingDir).dropLast.length =
            (fetch.location workingDir).dropLast := List.take_length
      have move : FetchMove workingDir (download.directory workingDir) disk
          fetch .requested
          (fetch.made || decide ((download.directory workingDir).length <
            ((fetch.location workingDir).dropLast.take
              (fetch.location workingDir).dropLast.length).length)) disk' :=
        .approaches .requested _ disk' (Or.inl rfl) waiting
          (by rw [whole]; exact made)
      rw [whole] at move
      exact step_of_setFetch found move (by simp [waiting]) rfl rfl rfl

theorem failFetch_step {index : Nat} {fetch : FileFetch} {error : String}
    (found : download.fetches[index]? = some fetch)
    (waiting : fetch.state = .requested) :
    CatalogueStep workingDir download disk event
      (download.failFetch index fetch error) disk :=
  step_of_fetchEnded found (.refused error waiting) (by simp) false

theorem fileReply_step {index : Nat} {fetch : FileFetch}
    {reply : FetchReply} {createFailure : Option String}
    (found : download.fetches[index]? = some fetch)
    (waiting : fetch.state = .requested)
    (moves : download.fileReply workingDir index fetch reply createFailure
      disk = some (after, afterDisk)) :
    CatalogueStep workingDir download disk
      (.fileReply index reply createFailure) after afterDisk := by
  have fails {error : String}
      (same : some (download.failFetch index fetch error, disk) =
        some (after, afterDisk)) :
      CatalogueStep workingDir download disk
        (.fileReply index reply createFailure) after afterDisk := by
    simp only [Option.some.injEq, Prod.mk.injEq] at same
    obtain ⟨rfl, rfl⟩ := same
    exact failFetch_step found waiting
  cases reply with
  | failed error => exact fails moves
  | answered status contentLength =>
      simp only [fileReply] at moves
      split at moves
      case isFalse => exact fails moves
      case isTrue success =>
        cases createFailure with
        | some error => exact fails moves
        | none =>
            simp only [Option.map_eq_some_iff, Prod.mk.injEq] at moves
            obtain ⟨disk', created, rfl, rfl⟩ := moves
            exact step_of_setFetch found (.opens _ waiting created)
              (by simp [CatalogueEvent.opens, success]) rfl rfl rfl

theorem configReply_step {index : Nat} {fetch : FileFetch}
    {reply : FetchReply} {body : Except String (List UInt8)}
    {createFailure : Option String}
    (found : download.fetches[index]? = some fetch)
    (waiting : fetch.state = .requested)
    (moves : download.configReply workingDir index fetch reply body
      createFailure disk = some (after, afterDisk)) :
    CatalogueStep workingDir download disk
      (.configReply index reply body createFailure) after afterDisk := by
  have fails {error : String}
      (same : some (download.failFetch index fetch error, disk) =
        some (after, afterDisk)) :
      CatalogueStep workingDir download disk
        (.configReply index reply body createFailure) after afterDisk := by
    simp only [Option.some.injEq, Prod.mk.injEq] at same
    obtain ⟨rfl, rfl⟩ := same
    exact failFetch_step found waiting
  cases reply with
  | failed error => exact fails moves
  | answered status contentLength =>
      simp only [configReply] at moves
      split at moves
      case isFalse =>
        simp only [Option.some.injEq, Prod.mk.injEq] at moves
        obtain ⟨rfl, rfl⟩ := moves
        exact step_of_fetchEnded found (.lacks waiting) (by simp) true
      case isTrue success =>
        cases body with
        | error error => exact fails moves
        | ok body =>
            cases createFailure with
            | some error => exact fails moves
            | none =>
                simp only [Option.map_eq_some_iff, Prod.mk.injEq] at moves
                obtain ⟨disk', created, rfl, rfl⟩ := moves
                exact step_of_setFetch found (.opens _ waiting created)
                  (by simp [CatalogueEvent.opens, success]) rfl rfl rfl

theorem writeConfig_step {index : Nat} {fetch : FileFetch}
    {body : List UInt8} {failure : Option (Nat × String)}
    (found : download.fetches[index]? = some fetch)
    (writing : fetch.state = .writing [])
    (moves : (match failure with
      | none => some ((download.setFetch index
          { fetch with state := .stored body }).fetchEnded true,
          write disk (fetch.location workingDir) 0 body)
      | some (stored, error) => some (download.failFetch index fetch error,
          write disk (fetch.location workingDir) 0 (body.take stored))) =
        some (after, afterDisk)) :
    CatalogueStep workingDir download disk event after afterDisk := by
  cases failure with
  | none =>
      simp only [Option.some.injEq, Prod.mk.injEq] at moves
      obtain ⟨rfl, rfl⟩ := moves
      exact step_of_fetchEnded found (.storesAll body writing) (by simp)
        true
  | some failure =>
      obtain ⟨stored, error⟩ := failure
      simp only [Option.some.injEq, Prod.mk.injEq] at moves
      obtain ⟨rfl, rfl⟩ := moves
      exact step_of_fetchEnded found
        (.breaksOff [] (body.take stored) error writing) (by simp) false

/-- Everything a step of a download can do. -/
theorem advance_step {event : CatalogueEvent}
    (moves : download.advance workingDir disk event =
      some (after, afterDisk)) :
    CatalogueStep workingDir download disk event after afterDisk := by
  cases event with
  | makeDir failure =>
      unfold advance at moves
      simp only at moves
      split at moves
      case h_1 count error stage =>
        simp only [Option.map_eq_some_iff, Prod.mk.injEq] at moves
        obtain ⟨disk', made, rfl, rfl⟩ := moves
        exact .plans [] rfl rfl (by simp) (by simp) (Or.inr ⟨count, made⟩)
      case h_2 stage =>
        simp only [Option.map_eq_some_iff, Prod.mk.injEq] at moves
        obtain ⟨disk', made, rfl, rfl⟩ := moves
        exact enterSource_step made
      case h_3 => cases moves
  | listReply reply json =>
      unfold advance at moves
      simp only at moves
      split at moves
      case h_1 repoId stage =>
        simp only [Option.some.injEq, Prod.mk.injEq] at moves
        obtain ⟨rfl, rfl⟩ := moves
        exact listReply_step repoId reply json
      case h_2 => cases moves
  | startFile index failure =>
      unfold advance at moves
      simp only at moves
      split at moves
      case h_1 fetch stage found =>
        simp only [Option.ite_none_right_eq_some] at moves
        exact startFile_step found moves.1.1 moves.2
      case h_2 => cases moves
  | fileReply index reply createFailure =>
      unfold advance at moves
      simp only at moves
      split at moves
      case h_1 => cases moves
      case h_2 fetch found _ =>
        simp only [Option.ite_none_right_eq_some] at moves
        exact fileReply_step found moves.1 moves.2
      case h_3 => cases moves
  | chunk index bytes =>
      unfold advance at moves
      simp only at moves
      split at moves
      case h_1 => cases moves
      case h_2 fetch found _ =>
        split at moves
        case h_1 received writing =>
          simp only [Option.some.injEq, Prod.mk.injEq] at moves
          obtain ⟨rfl, rfl⟩ := moves
          exact step_of_setFetch found (.receives received bytes writing)
            (by simp [writing]) rfl rfl rfl
        case h_2 => cases moves
      case h_3 => cases moves
  | breakOff index stored error =>
      unfold advance at moves
      simp only at moves
      split at moves
      case h_1 => cases moves
      case h_2 fetch found _ =>
        split at moves
        case h_1 received writing =>
          simp only [Option.some.injEq, Prod.mk.injEq] at moves
          obtain ⟨rfl, rfl⟩ := moves
          exact step_of_fetchEnded found
            (.breaksOff received stored error writing) (by simp) false
        case h_2 => cases moves
      case h_3 => cases moves
  | endOfStream index =>
      unfold advance at moves
      simp only at moves
      split at moves
      case h_1 => cases moves
      case h_2 fetch found _ =>
        split at moves
        case h_1 received writing =>
          simp only [Option.some.injEq, Prod.mk.injEq] at moves
          obtain ⟨rfl, rfl⟩ := moves
          exact step_of_fetchEnded found (.stores received writing)
            (by simp) true
        case h_2 => cases moves
      case h_3 => cases moves
  | configReply index reply body createFailure =>
      unfold advance at moves
      simp only at moves
      split at moves
      case h_1 fetch stage found =>
        simp only [Option.ite_none_right_eq_some] at moves
        exact configReply_step found moves.1 moves.2
      case h_2 => cases moves
  | writeConfig index failure =>
      unfold advance at moves
      simp only at moves
      split at moves
      case h_1 body fetch stage found =>
        simp only [Option.ite_none_right_eq_some] at moves
        exact writeConfig_step found moves.1 moves.2
      case h_2 => cases moves
  | collect =>
      unfold advance at moves
      simp only at moves
      split at moves
      case h_1 stage =>
        simp only [Option.ite_none_right_eq_some, Option.some.injEq,
          Prod.mk.injEq] at moves
        obtain ⟨-, rfl, rfl⟩ := moves
        exact .plans [] rfl rfl (by simp) (by simp) (Or.inl rfl)
      case h_2 => cases moves

end Inversion

end CatalogueDownload

/-! ## Sound fetches -/

/-- A file with the body of a stored fetch. -/
def HoldsBody (workingDir : Location) (fetches : List FileFetch)
    (disk : Tree) (location : Location) : Prop :=
  ∃ fetch ∈ fetches, ∃ body, fetch.location workingDir = location ∧
    fetch.state = .stored body ∧ contentAt disk location = some body

/-- Another fetch has begun on the file and has not stored it. -/
def IsSpoilt (workingDir : Location) (fetches : List FileFetch)
    (location : Location) : Prop :=
  ∃ fetch ∈ fetches, fetch.location workingDir = location ∧
    (fetch.isWriting = true ∨ ∃ error, fetch.state = .failed error)

structure SoundFetches (workingDir : Location) (fetches : List FileFetch)
    (disk : Tree) : Prop where
  writing : ∀ fetch ∈ fetches, ∀ received,
    fetch.state = .writing received →
      contentAt disk (fetch.location workingDir) = some received
  exclusive : ((fetches.filter FileFetch.isWriting).map
    (FileFetch.location workingDir)).Nodup
  stored : ∀ fetch ∈ fetches, ∀ body, fetch.state = .stored body →
    HoldsBody workingDir fetches disk (fetch.location workingDir) ∨
      IsSpoilt workingDir fetches (fetch.location workingDir)

section Sound

variable {workingDir directory : Location} {fetches rest : List FileFetch}
  {fetch : FileFetch} {disk after : Tree} {state : FetchState} {made : Bool}

theorem HoldsBody.mono {other : List FileFetch} {location : Location}
    (holds : HoldsBody workingDir fetches disk location)
    (subset : fetches ⊆ other)
    (same : contentAt after location = contentAt disk location) :
    HoldsBody workingDir other after location := by
  obtain ⟨fetch, member, body, place, stored, content⟩ := holds
  exact ⟨fetch, subset member, body, place, stored, same.trans content⟩

theorem IsSpoilt.mono {other : List FileFetch} {location : Location}
    (spoilt : IsSpoilt workingDir fetches location)
    (subset : fetches ⊆ other) : IsSpoilt workingDir other location := by
  obtain ⟨fetch, member, place, begun⟩ := spoilt
  exact ⟨fetch, subset member, place, begun⟩

theorem isWriting_of_state {received : List UInt8}
    (writing : fetch.state = .writing received) : fetch.isWriting = true := by
  rw [FileFetch.isWriting, writing]
  rfl

/-- The order of the fetches does not matter. -/
theorem SoundFetches.perm {other : List FileFetch}
    (sound : SoundFetches workingDir fetches disk)
    (same : fetches.Perm other) : SoundFetches workingDir other disk where
  writing fetch member := sound.writing fetch (same.mem_iff.mpr member)
  exclusive :=
    (((same.filter _).map (FileFetch.location workingDir)).nodup_iff).mp
      sound.exclusive
  stored fetch member body stored := by
    rcases sound.stored fetch (same.mem_iff.mpr member) body stored with
      holds | spoilt
    · exact Or.inl (holds.mono same.subset rfl)
    · exact Or.inr (spoilt.mono same.subset)

/-- Fetches that have not begun change nothing. -/
theorem SoundFetches.append_fresh {fresh : List FileFetch}
    (sound : SoundFetches workingDir fetches disk)
    (waiting : ∀ fetch ∈ fresh,
      fetch.state = .queued ∨ fetch.state = .requested) :
    SoundFetches workingDir (fresh ++ fetches) disk := by
  have idle {fetch : FileFetch} (member : fetch ∈ fresh) :
      fetch.isWriting = false ∧ ∀ body, fetch.state ≠ .stored body := by
    rcases waiting fetch member with queued | requested
    · simp [FileFetch.isWriting, queued, FetchState.isWriting]
    · simp [FileFetch.isWriting, requested, FetchState.isWriting]
  refine ⟨?_, ?_, ?_⟩
  · intro fetch member received writing
    rcases List.mem_append.mp member with new | old
    · have notWriting := (idle new).1
      rw [isWriting_of_state writing] at notWriting
      cases notWriting
    · exact sound.writing fetch old received writing
  · have none : fresh.filter FileFetch.isWriting = [] := by
      rw [List.filter_eq_nil_iff]
      intro fetch member
      simp [(idle member).1]
    rw [List.filter_append, none, List.nil_append]
    exact sound.exclusive
  · intro fetch member body stored
    rcases List.mem_append.mp member with new | old
    · exact absurd stored ((idle new).2 body)
    · rcases sound.stored fetch old body stored with holds | spoilt
      · exact Or.inl (holds.mono (List.subset_append_right _ _) rfl)
      · exact Or.inr (spoilt.mono (List.subset_append_right _ _))

theorem SoundFetches.of_content
    (sound : SoundFetches workingDir fetches disk)
    (same : ∀ location, contentAt after location = contentAt disk location) :
    SoundFetches workingDir fetches after where
  writing fetch member received writing :=
    (same _).trans (sound.writing fetch member received writing)
  exclusive := sound.exclusive
  stored fetch member body stored :=
    (sound.stored fetch member body stored).imp_left fun holds =>
      holds.mono (List.Subset.refl _) (same _)

/-- A move changes the file of a fetch that is writing or opens it, and no
other file. -/
theorem FetchMove.content
    (move : FetchMove workingDir directory disk fetch state made after) :
    (∀ location, contentAt after location = contentAt disk location) ∨
      (fetch.isWriting = true ∨
        fetch.state = .requested ∧ state = .writing []) ∧
      ∀ location, location ≠ fetch.location workingDir →
        contentAt after location = contentAt disk location := by
  cases move with
  | approaches state count after begun waiting made =>
      exact Or.inl (contentAt_createDirAll made)
  | opens after waiting created =>
      refine Or.inr ⟨Or.inr ⟨waiting, rfl⟩, fun location different => ?_⟩
      rw [createFile_eq_some created]
      exact contentAt_insert_of_ne different _
  | receives received bytes writing =>
      exact Or.inr ⟨Or.inl (isWriting_of_state writing), fun location different =>
        contentAt_write_of_ne different _ _ _⟩
  | stores received writing => exact Or.inl fun _ => rfl
  | storesAll body writing =>
      exact Or.inr ⟨Or.inl (isWriting_of_state writing), fun location different =>
        contentAt_write_of_ne different _ _ _⟩
  | lacks waiting => exact Or.inl fun _ => rfl
  | refused error waiting => exact Or.inl fun _ => rfl
  | breaksOff received bytes error writing =>
      exact Or.inr ⟨Or.inl (isWriting_of_state writing), fun location different =>
        contentAt_write_of_ne different _ _ _⟩

/-- What the file of a fetch holds once the fetch is writing or has stored
it. -/
theorem FetchMove.own_content
    (move : FetchMove workingDir directory disk fetch state made after)
    (written : ∀ received, fetch.state = .writing received →
      contentAt disk (fetch.location workingDir) = some received)
    {bytes : List UInt8}
    (isState : state = .writing bytes ∨ state = .stored bytes) :
    contentAt after (fetch.location workingDir) = some bytes := by
  cases move with
  | approaches state count after begun waiting made =>
      rcases begun with rfl | ⟨error, rfl⟩ <;> simp at isState
  | opens after waiting created =>
      simp only [FetchState.writing.injEq, reduceCtorEq, or_false] at isState
      rw [createFile_eq_some created, contentAt_insert_file, isState]
  | receives received more writing =>
      simp only [FetchState.writing.injEq, reduceCtorEq, or_false] at isState
      rw [contentAt_write_append (written received writing), isState]
  | stores received writing =>
      simp only [FetchState.stored.injEq, reduceCtorEq, false_or] at isState
      rw [written received writing, isState]
  | storesAll body writing =>
      simp only [FetchState.stored.injEq, reduceCtorEq, false_or] at isState
      have stored := contentAt_write_append (written [] writing) body
      rw [List.nil_append] at stored
      rw [← isState]
      exact stored
  | lacks waiting => simp at isState
  | refused error waiting => simp at isState
  | breaksOff received bytes error writing => simp at isState

/-- A move leaves its fetch begun or stored, or changes no file. -/
theorem FetchMove.outcome
    (move : FetchMove workingDir directory disk fetch state made after) :
    (state.isWriting = true ∨ ∃ error, state = .failed error) ∨
      (∃ body, state = .stored body) ∨
      (∀ location, contentAt after location = contentAt disk location) ∧
        (∀ body, state ≠ .stored body) ∧
        (∀ body, fetch.state ≠ .stored body) ∧ fetch.isWriting = false ∧
        ∀ error, fetch.state ≠ .failed error := by
  cases move with
  | approaches state count after begun waiting made =>
      rcases begun with rfl | ⟨error, rfl⟩
      · refine Or.inr (Or.inr ⟨contentAt_createDirAll made, ?_⟩)
        simp [FileFetch.isWriting, waiting, FetchState.isWriting]
      · exact Or.inl (Or.inr ⟨error, rfl⟩)
  | opens => exact Or.inl (Or.inl rfl)
  | receives => exact Or.inl (Or.inl rfl)
  | stores received => exact Or.inr (Or.inl ⟨received, rfl⟩)
  | storesAll body => exact Or.inr (Or.inl ⟨body, rfl⟩)
  | lacks waiting =>
      refine Or.inr (Or.inr ⟨fun _ => rfl, ?_⟩)
      simp [FileFetch.isWriting, waiting, FetchState.isWriting]
  | refused error => exact Or.inl (Or.inr ⟨error, rfl⟩)
  | breaksOff received bytes error => exact Or.inl (Or.inr ⟨error, rfl⟩)

/-- A fetch that is writing after a move was writing before it, or opens its
file. -/
theorem FetchMove.isWriting_or_opens
    (move : FetchMove workingDir directory disk fetch state made after)
    (writing : state.isWriting = true) :
    fetch.isWriting = true ∨
      fetch.state = .requested ∧ state = .writing [] := by
  cases move with
  | approaches state count after begun waiting made =>
      rcases begun with rfl | ⟨error, rfl⟩ <;> cases writing
  | opens after waiting created => exact Or.inr ⟨waiting, rfl⟩
  | receives received bytes before =>
      exact Or.inl (isWriting_of_state before)
  | stores => cases writing
  | storesAll => cases writing
  | lacks => cases writing
  | refused => cases writing
  | breaksOff => cases writing

/-- A file that another fetch is writing is not one that a move changes. -/
theorem SoundFetches.location_ne
    (sound : SoundFetches workingDir (fetch :: rest) disk)
    (free : fetch.state = .requested → state = .writing [] →
      ∀ other ∈ rest, other.isWriting = true →
        other.location workingDir ≠ fetch.location workingDir)
    (changes : fetch.isWriting = true ∨
      fetch.state = .requested ∧ state = .writing [])
    {other : FileFetch} (member : other ∈ rest)
    (writing : other.isWriting = true) :
    other.location workingDir ≠ fetch.location workingDir := by
  rcases changes with alsoWriting | ⟨waiting, opens⟩
  · intro same
    have distinct := sound.exclusive
    rw [List.filter_cons_of_pos alsoWriting, List.map_cons,
      List.nodup_cons] at distinct
    exact distinct.1 (List.mem_map.mpr
      ⟨other, List.mem_filter.mpr ⟨member, writing⟩, same⟩)
  · exact free waiting opens other member writing

theorem SoundFetches.move_exclusive
    (sound : SoundFetches workingDir (fetch :: rest) disk)
    (apart : state.isWriting = true → ∀ other ∈ rest,
      other.isWriting = true →
        other.location workingDir ≠ fetch.location workingDir) :
    ((({ fetch with state := state, made := made } :: rest).filter
      FileFetch.isWriting).map (FileFetch.location workingDir)).Nodup := by
  have restDistinct : ((rest.filter FileFetch.isWriting).map
      (FileFetch.location workingDir)).Nodup := by
    refine sound.exclusive.sublist (List.Sublist.map _ ?_)
    exact (List.sublist_cons_self fetch rest).filter _
  cases nowWriting : state.isWriting with
  | false =>
      have idle : ¬ FileFetch.isWriting
          { fetch with state := state, made := made } = true := by
        simp [FileFetch.isWriting, nowWriting]
      rw [List.filter_cons_of_neg idle]
      exact restDistinct
  | true =>
      have busy : FileFetch.isWriting
          { fetch with state := state, made := made } = true := nowWriting
      rw [List.filter_cons_of_pos busy, List.map_cons, List.nodup_cons]
      refine ⟨fun shared => ?_, restDistinct⟩
      obtain ⟨other, isOther, place⟩ := List.mem_map.mp shared
      obtain ⟨member, writing⟩ := List.mem_filter.mp isOther
      exact apart nowWriting other member writing place

/-- A stored file that a move leaves alone has its body or is spoilt as before,
when what makes it so is another fetch than the one that has moved. -/
theorem SoundFetches.move_kept
    (sound : SoundFetches workingDir (fetch :: rest) disk)
    {other : FileFetch} (old : other ∈ rest) {body : List UInt8}
    (stored : other.state = .stored body)
    (notOwn : ∀ witness ∈ fetch :: rest,
      witness.location workingDir = other.location workingDir →
        (∃ body, witness.state = .stored body) ∨
          witness.isWriting = true ∨
          (∃ error, witness.state = .failed error) → witness ∈ rest)
    (same : contentAt after (other.location workingDir) =
      contentAt disk (other.location workingDir)) :
    HoldsBody workingDir ({ fetch with state := state, made := made } ::
        rest) after (other.location workingDir) ∨
      IsSpoilt workingDir ({ fetch with state := state, made := made } ::
        rest) (other.location workingDir) := by
  rcases sound.stored other (List.mem_cons_of_mem _ old) body stored with
    ⟨witness, isOld, bytes, place, hasBody, content⟩ |
      ⟨witness, isOld, place, begun⟩
  · have inRest := notOwn witness isOld place (Or.inl ⟨bytes, hasBody⟩)
    exact Or.inl ⟨witness, List.mem_cons_of_mem _ inRest, bytes, place,
      hasBody, same.trans content⟩
  · have inRest := notOwn witness isOld place (Or.inr begun)
    exact Or.inr ⟨witness, List.mem_cons_of_mem _ inRest, place, begun⟩

/-- A file that is stored at the place of the fetch that has moved has its body
or is spoilt by that fetch, unless the move changes nothing. -/
theorem SoundFetches.move_stored_here
    (sound : SoundFetches workingDir (fetch :: rest) disk)
    (move : FetchMove workingDir directory disk fetch state made after)
    {other : FileFetch} {body : List UInt8}
    (member : other ∈ { fetch with state := state, made := made } :: rest)
    (stored : other.state = .stored body)
    (place : other.location workingDir = fetch.location workingDir) :
    HoldsBody workingDir ({ fetch with state := state, made := made } ::
        rest) after (other.location workingDir) ∨
      IsSpoilt workingDir ({ fetch with state := state, made := made } ::
        rest) (other.location workingDir) := by
  rcases move.outcome with begun | ⟨bytes, isStored⟩ |
    ⟨same, stillNot, notStored, notWriting, notFailed⟩
  · exact Or.inr ⟨_, List.mem_cons_self, place.symm, begun⟩
  · refine Or.inl ⟨_, List.mem_cons_self, bytes, place.symm, isStored, ?_⟩
    rw [place]
    exact move.own_content (sound.writing fetch List.mem_cons_self)
      (Or.inr isStored)
  · have old : other ∈ rest := by
      rcases List.mem_cons.mp member with rfl | old
      · exact absurd stored (stillNot body)
      · exact old
    refine sound.move_kept old stored (fun witness isOld _ begun => ?_) (same _)
    rcases List.mem_cons.mp isOld with rfl | inRest
    · rcases begun with ⟨bytes, hasBody⟩ | writing | ⟨error, failed⟩
      · exact absurd hasBody (notStored bytes)
      · rw [notWriting] at writing
        cases writing
      · exact absurd failed (notFailed error)
    · exact inRest

/-- A move keeps the fetches sound, unless it opens a file that another fetch
is writing. -/
theorem SoundFetches.move
    (sound : SoundFetches workingDir (fetch :: rest) disk)
    (move : FetchMove workingDir directory disk fetch state made after)
    (free : fetch.state = .requested → state = .writing [] →
      ∀ other ∈ rest, other.isWriting = true →
        other.location workingDir ≠ fetch.location workingDir) :
    SoundFetches workingDir
      ({ fetch with state := state, made := made } :: rest) after := by
  refine ⟨?_, ?_, ?_⟩
  · intro other member received writing
    rcases List.mem_cons.mp member with rfl | old
    · exact move.own_content (sound.writing fetch List.mem_cons_self)
        (Or.inl writing)
    · have content := sound.writing other (List.mem_cons_of_mem _ old)
        received writing
      rcases move.content with same | ⟨changes, same⟩
      · exact (same _).trans content
      · have different := sound.location_ne free changes old
          (isWriting_of_state writing)
        exact (same _ different).trans content
  · refine sound.move_exclusive fun nowWriting other member writing => ?_
    exact sound.location_ne free (move.isWriting_or_opens nowWriting) member
      writing
  · intro other member body stored
    by_cases place : other.location workingDir = fetch.location workingDir
    · exact sound.move_stored_here move member stored place
    · have old : other ∈ rest := by
        rcases List.mem_cons.mp member with rfl | old
        · exact absurd rfl place
        · exact old
      have same : contentAt after (other.location workingDir) =
          contentAt disk (other.location workingDir) := by
        rcases move.content with same | ⟨-, same⟩
        · exact same _
        · exact same _ place
      refine sound.move_kept old stored (fun witness isOld samePlace _ => ?_)
        same
      rcases List.mem_cons.mp isOld with rfl | inRest
      · exact absurd samePlace.symm place
      · exact inRest

/-! ## The disk after a move -/

theorem FetchMove.wellFormed
    (move : FetchMove workingDir directory disk fetch state made after)
    (wellFormed : WellFormed disk) : WellFormed after := by
  cases move with
  | approaches state count after begun waiting made =>
      exact wellFormed_createDirAll wellFormed made
  | opens after waiting created =>
      exact wellFormed_createFile wellFormed created
  | receives => exact wellFormed_write wellFormed _ _ _
  | stores => exact wellFormed
  | storesAll => exact wellFormed_write wellFormed _ _ _
  | lacks => exact wellFormed
  | refused => exact wellFormed
  | breaksOff => exact wellFormed_write wellFormed _ _ _

theorem FetchMove.made_of_made
    (move : FetchMove workingDir directory disk fetch state made after)
    (before : fetch.made = true) : made = true := by
  cases move <;> simp [before]

/-- What a move makes below the directory of its download is noted. -/
theorem FetchMove.mem_disk
    (move : FetchMove workingDir directory disk fetch state made after)
    {location : Location} (member : location ∈ after) :
    location ∈ disk ∨ location <+: fetch.location workingDir ∧
      (directory.length < location.length → made = true) := by
  cases move with
  | approaches state count after begun waiting dirs =>
      rcases mem_createDirAll dirs member with old | ⟨above, -⟩
      · exact Or.inl old
      · refine Or.inr ⟨?_, fun deeper => ?_⟩
        · exact (above.trans (List.take_prefix _ _)).trans
            (List.dropLast_prefix _)
        · have shorter := above.length_le
          simp only [Bool.or_eq_true, decide_eq_true_eq]
          right
          omega
  | opens after waiting created =>
      rw [createFile_eq_some created] at member
      rcases (AList.mem_insert disk).mp member with rfl | old
      · exact Or.inr ⟨List.prefix_rfl, fun _ => rfl⟩
      · exact Or.inl old
  | receives => exact Or.inl (mem_write.mp member)
  | stores => exact Or.inl member
  | storesAll => exact Or.inl (mem_write.mp member)
  | lacks => exact Or.inl member
  | refused => exact Or.inl member
  | breaksOff => exact Or.inl (mem_write.mp member)

end Sound

end TorchInference
