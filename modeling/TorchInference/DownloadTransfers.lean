import TorchInference.DownloadWorkerSteps
import Mathlib.Data.List.Perm.Basic

/-!
# Accounting for the files of one download

Every file a worker has listed is queued, in flight or ended, and an ended file
was delivered, refused by the server or failed.  The bytes of a delivered file
are on disk, or the last of them are still being written by a handle that was
dropped, or that write was lost.
-/

namespace TorchInference

open UnixPath FileTree DownloadJob

inductive FileEnd where
  | delivered (body : List UInt8)
  /-- The answer was no success and was only logged. -/
  | refused
  | failed
  deriving DecidableEq

/-- The files of one job: those it set out to fetch, and how they ended. -/
structure TransferLedger where
  listed : List String
  ended : List (String × FileEnd)

/-- What writes can change: the disk, the handles that were dropped with a
write outstanding, and the files whose last write failed unnoticed. -/
structure FileStore where
  disk : Tree
  dropped : List OpenFile
  lost : List Location

namespace TransferLedger

def empty : TransferLedger where
  listed := []
  ended := []

/-- The file whose transfer ends with an event, and how. -/
def endedBy (cacheDir : List Char) (job : DownloadJob)
    (queued : List String) (active : List ActiveTransfer) :
    WorkerEvent → List (String × FileEnd)
  | .startFile failure =>
      match queued with
      | [] => []
      | path :: _ =>
          if failure.isSome = true ∨
              pathIsWithin (join (job.modelDir cacheDir) path.toList)
                (job.modelDir cacheDir) = false then [(path, .failed)]
          else []
  | .fileReply index reply createFailure =>
      match active[index]?, reply with
      | some transfer, .failed _ => [(transfer.path, .failed)]
      | some transfer, .answered status _ =>
          if isSuccess status then
            if createFailure.isSome then [(transfer.path, .failed)] else []
          else [(transfer.path, .refused)]
      | none, _ => []
  | .chunk index bytes =>
      match active[index]? with
      | some ⟨path, some file⟩ =>
          if bytes ≠ [] ∧ file.writeError.isSome then [(path, .failed)]
          else []
      | _ => []
  | .streamError index _ =>
      match active[index]? with
      | some transfer => [(transfer.path, .failed)]
      | none => []
  | .endOfStream index =>
      match active[index]? with
      | some ⟨path, some file⟩ => [(path, .delivered file.received)]
      | _ => []
  | _ => []

/-- The file whose failed last write nobody will report. -/
def lostBy (active : List ActiveTransfer) : WorkerEvent → List Location
  | .endOfStream index =>
      match active[index]? with
      | some ⟨_, some file⟩ =>
          if file.writeError.isSome then [file.location] else []
      | _ => []
  | _ => []

end TransferLedger

/-- The handle of a file in flight: what is on disk and what it still holds
make up what was received, as long as no write failed. -/
structure Writing (store : FileStore) (location : Location)
    (file : OpenFile) : Prop where
  atLocation : file.location = location
  stored : file.writeError = none → ∃ stored,
    file.received = stored ++ file.unwritten ∧
      contentAt store.disk location = some stored
  settled : file.writeError.isSome = true → file.unwritten = []

/-- A delivered body is on disk, on its way there, or lost. -/
def Delivered (store : FileStore) (location : Location)
    (body : List UInt8) : Prop :=
  location ∈ store.lost ∨
    (contentAt store.disk location = some body ∧
      ∀ file ∈ store.dropped, file.location ≠ location) ∨
    ∃ file ∈ store.dropped, Writing store location file ∧
      file.writeError = none ∧ file.received = body

/-- The account of a job that fetches files into `directory`. -/
structure Transferring (directory : Location) (place : String → Location)
    (store : FileStore) (ledger : TransferLedger) (queued : List String)
    (active : List ActiveTransfer) (results : List (Except String Unit)) :
    Prop where
  accounted : (queued ++ active.map ActiveTransfer.path ++
    ledger.ended.map Prod.fst).Perm ledger.listed
  distinct : (ledger.listed.map place).Nodup
  under : ∀ path ∈ ledger.listed, directory <+: place path
  errors : ∀ path, (path, .failed) ∈ ledger.ended →
    (firstError results).isSome = true
  fresh : ∀ path ∈ queued ++ active.map ActiveTransfer.path,
    ∀ file ∈ store.dropped, file.location ≠ place path
  writing : ∀ (index : Nat) (path : String) (file : OpenFile),
    active[index]? = some ⟨path, some file⟩ →
      Writing store (place path) file
  delivered : ∀ path body, (path, .delivered body) ∈ ledger.ended →
    Delivered store (place path) body

/-! ## Changes elsewhere -/

/-- Two stores that agree on some locations. -/
structure SameOn (here : Location → Prop) (before after : FileStore) :
    Prop where
  content : ∀ location, here location →
    contentAt after.disk location = contentAt before.disk location
  dropped : ∀ file : OpenFile, here file.location →
    (file ∈ after.dropped ↔ file ∈ before.dropped)
  lost : ∀ location, here location → location ∈ before.lost →
    location ∈ after.lost

section Frames

variable {here : Location → Prop} {directory location : Location}
  {before after : FileStore}

theorem Writing.of_content {file : OpenFile}
    (writing : Writing before location file)
    (same : contentAt after.disk location = contentAt before.disk location) :
    Writing after location file where
  atLocation := writing.atLocation
  stored sound := by
    obtain ⟨stored, received, content⟩ := writing.stored sound
    exact ⟨stored, received, same.trans content⟩
  settled := writing.settled

theorem Delivered.of_sameOn {body : List UInt8}
    (delivered : Delivered before location body)
    (same : SameOn here before after) (inside : here location) :
    Delivered after location body := by
  rcases delivered with lost | ⟨content, alone⟩ |
    ⟨file, member, writing, sound, received⟩
  · exact Or.inl (same.lost location inside lost)
  · right; left
    refine ⟨(same.content location inside).trans content, ?_⟩
    intro file member sameLocation
    have wasThere := (same.dropped file (sameLocation ▸ inside)).mp member
    exact alone file wasThere sameLocation
  · right; right
    have stillThere := (same.dropped file
      (writing.atLocation.symm ▸ inside)).mpr member
    exact ⟨file, stillThere, writing.of_content
      (same.content location inside), sound, received⟩

/-- Changing directories changes no file. -/
theorem sameOn_of_content {store : FileStore} {disk : Tree}
    (same : ∀ location, contentAt disk location =
      contentAt store.disk location) :
    SameOn here store { store with disk := disk } where
  content location _ := same location
  dropped _ _ := Iff.rfl
  lost _ _ member := member

end Frames

/-! ## Accounts -/

namespace Transferring

variable {directory : Location} {place : String → Location}
  {before after : FileStore} {ledger : TransferLedger}
  {queued : List String} {active : List ActiveTransfer}
  {results : List (Except String Unit)}

section Paths

variable
  (account : Transferring directory place before ledger queued active results)

include account

/-- Paths in flight and paths that have ended are listed. -/
theorem mem_listed {path : String}
    (member : path ∈ queued ++ active.map ActiveTransfer.path ∨
      path ∈ ledger.ended.map Prod.fst) : path ∈ ledger.listed :=
  account.accounted.mem_iff.mp (List.mem_append.mpr member)

/-- No path is in flight twice, or in flight after its end. -/
theorem paths_nodup : (queued ++ active.map ActiveTransfer.path ++
    ledger.ended.map Prod.fst).Nodup :=
  account.accounted.nodup_iff.mpr (List.Nodup.of_map place account.distinct)

theorem place_ne {path other : String} (listed : path ∈ ledger.listed)
    (otherListed : other ∈ ledger.listed) (different : path ≠ other) :
    place path ≠ place other := fun same =>
  different (List.inj_on_of_nodup_map account.distinct listed otherListed
    same)

end Paths

theorem active_mem {index : Nat} {transfer : ActiveTransfer}
    (found : active[index]? = some transfer) :
    transfer.path ∈ queued ++ active.map ActiveTransfer.path :=
  List.mem_append_right _
    (List.mem_map.mpr ⟨transfer, List.mem_of_getElem? found, rfl⟩)

/-- A download is not affected by what happens outside its directory. -/
theorem of_sameOn
    (account : Transferring directory place before ledger queued active
      results) (same : SameOn (directory <+: ·) before after) :
    Transferring directory place after ledger queued active results where
  accounted := account.accounted
  distinct := account.distinct
  under := account.under
  errors := account.errors
  fresh path member file dropped sameLocation := by
    have inside : directory <+: file.location :=
      sameLocation ▸ account.under path (account.mem_listed (Or.inl member))
    exact account.fresh path member file ((same.dropped file inside).mp
      dropped) sameLocation
  writing index path file found :=
    (account.writing index path file found).of_content
      (same.content _ (account.under path (account.mem_listed
        (Or.inl (active_mem found)))))
  delivered path body member := by
    have ended : path ∈ ledger.ended.map Prod.fst :=
      List.mem_map.mpr ⟨_, member, rfl⟩
    exact (account.delivered path body member).of_sameOn same
      (account.under path (account.mem_listed (Or.inr ended)))

theorem firstError_append (results : List (Except String Unit))
    (result : Except String Unit) :
    firstError (results ++ [result]) =
      (firstError results).or (firstError [result]) := by
  induction results with
  | nil => rfl
  | cons head results ih =>
      cases head with
      | error error => rfl
      | ok success => simpa [firstError] using ih

/-- The request of a queued file is sent. -/
theorem start {path : String} {rest : List String}
    (account : Transferring directory place before ledger (path :: rest)
      active results) :
    Transferring directory place before ledger rest
      (active ++ [⟨path, none⟩]) results := by
  have moved : (rest ++ (active ++ [⟨path, none⟩] :
      List ActiveTransfer).map ActiveTransfer.path).Perm
        (path :: rest ++ active.map ActiveTransfer.path) := by
    rw [List.map_append, ← List.append_assoc]
    exact List.perm_append_singleton path _
  refine { account with
    accounted := (moved.append_right _).trans account.accounted
    fresh := fun other member => account.fresh other (moved.mem_iff.mp
      member)
    writing := ?_ }
  intro index other file found
  have old : active[index]? = some ⟨other, some file⟩ := by
    by_cases bound : index < active.length
    · rwa [List.getElem?_append_left bound] at found
    · rw [List.getElem?_append_right (by omega)] at found
      have last := List.mem_singleton.mp (List.mem_of_getElem? found)
      cases last
  exact account.writing index other file old

/-- A queued file is given up before its request is sent. -/
theorem refuse {path : String} {rest : List String} (error : String)
    (account : Transferring directory place before ledger (path :: rest)
      active results) :
    Transferring directory place before
      { ledger with ended := ledger.ended ++ [(path, .failed)] } rest
      active (results ++ [.error error]) := by
  have moved : (rest ++ active.map ActiveTransfer.path ++
      (ledger.ended ++ [(path, FileEnd.failed)]).map Prod.fst).Perm
        (path :: rest ++ active.map ActiveTransfer.path ++
          ledger.ended.map Prod.fst) := by
    rw [List.map_append, ← List.append_assoc]
    exact List.perm_append_singleton path _
  refine { account with
    accounted := moved.trans account.accounted
    errors := ?_
    fresh := fun other member => account.fresh other
      (List.mem_cons_of_mem _ member)
    delivered := ?_ }
  · intro other member
    rw [firstError_append]
    simp [firstError]
  · intro other body member
    rcases List.mem_append.mp member with old | new
    · exact account.delivered other body old
    · cases List.mem_singleton.mp new

theorem eraseIdx_perm {index : Nat} {transfer : ActiveTransfer}
    (found : active[index]? = some transfer) :
    (transfer.path :: (active.eraseIdx index).map ActiveTransfer.path).Perm
      (active.map ActiveTransfer.path) := by
  obtain ⟨bound, atIndex⟩ := List.getElem?_eq_some_iff.mp found
  have cons := (List.getElem_cons_eraseIdx_perm bound).map
    ActiveTransfer.path
  rwa [List.map_cons, atIndex] at cons

/-- A path that ends moves from the paths in flight to those that ended. -/
theorem finish_perm {index : Nat} {transfer : ActiveTransfer}
    (found : active[index]? = some transfer) (fileEnd : FileEnd) :
    (queued ++ (active.eraseIdx index).map ActiveTransfer.path ++
      (ledger.ended ++ [(transfer.path, fileEnd)]).map Prod.fst).Perm
        (queued ++ active.map ActiveTransfer.path ++
          ledger.ended.map Prod.fst) := by
  have inFlight : (transfer.path :: (queued ++
      (active.eraseIdx index).map ActiveTransfer.path)).Perm
        (queued ++ active.map ActiveTransfer.path) :=
    List.perm_middle.symm.trans ((eraseIdx_perm found).append_left queued)
  rw [List.map_append, ← List.append_assoc]
  exact (List.perm_append_singleton transfer.path _).trans
    (inFlight.append_right (ledger.ended.map Prod.fst))

/-- The other paths are stored elsewhere than the one that ends. -/
theorem place_ne_of_finished
    (account : Transferring directory place before ledger queued active
      results) {index : Nat} {transfer : ActiveTransfer}
    (found : active[index]? = some transfer) {path : String}
    (member : path ∈ queued ++
        (active.eraseIdx index).map ActiveTransfer.path ∨
      path ∈ ledger.ended.map Prod.fst) :
    place path ≠ place transfer.path := by
  have inFlight : path ∈ queued ++ active.map ActiveTransfer.path ∨
      path ∈ ledger.ended.map Prod.fst := by
    refine member.imp_left fun inRest => ?_
    rcases List.mem_append.mp inRest with inQueue | inActive
    · exact List.mem_append_left _ inQueue
    · exact List.mem_append_right _ ((eraseIdx_perm found).mem_iff.mp
        (List.mem_cons_of_mem _ inActive))
  apply account.place_ne (account.mem_listed inFlight)
    (account.mem_listed (Or.inl (active_mem found)))
  intro same
  have nodup := (finish_perm found .failed).nodup_iff.mpr
    account.paths_nodup
  rw [List.map_append, ← List.append_assoc] at nodup
  exact (List.nodup_append.mp nodup).2.2 path (List.mem_append.mpr member)
    transfer.path (by simp) same

/-- A transfer in flight ends; its handle may be dropped. -/
theorem finish {index : Nat} {transfer : ActiveTransfer}
    (fileEnd : FileEnd) (result : Except String Unit)
    (account : Transferring directory place before ledger queued active
      results)
    (found : active[index]? = some transfer)
    (failedResult : fileEnd = .failed → ∃ error, result = .error error)
    (same : SameOn (· ≠ place transfer.path) before after)
    (delivered : ∀ body, fileEnd = .delivered body →
      Delivered after (place transfer.path) body) :
    Transferring directory place after
      { ledger with ended := ledger.ended ++ [(transfer.path, fileEnd)] }
      queued (active.eraseIdx index) (results ++ [result]) where
  accounted := (finish_perm found fileEnd).trans account.accounted
  distinct := account.distinct
  under := account.under
  errors path member := by
    rw [firstError_append]
    rcases List.mem_append.mp member with old | new
    · have known := account.errors path old
      cases first : firstError results with
      | none => simp [first] at known
      | some error => rfl
    · obtain ⟨-, rfl⟩ := Prod.mk.inj (List.mem_singleton.mp new)
      obtain ⟨error, rfl⟩ := failedResult rfl
      simp [firstError]
  fresh path member file dropped sameLocation := by
    have elsewhere := account.place_ne_of_finished found (Or.inl member)
    have wasThere := (same.dropped file (sameLocation ▸ elsewhere)).mp
      dropped
    refine account.fresh path ?_ file wasThere sameLocation
    rcases List.mem_append.mp member with inQueue | inActive
    · exact List.mem_append_left _ inQueue
    · exact List.mem_append_right _ ((eraseIdx_perm found).mem_iff.mp
        (List.mem_cons_of_mem _ inActive))
  writing other path file atOther := by
    have member := List.mem_of_getElem? atOther
    obtain ⟨older, atOlder⟩ := List.getElem?_of_mem
      (List.mem_of_mem_eraseIdx member)
    have elsewhere := account.place_ne_of_finished found
      (Or.inl (active_mem atOther))
    exact (account.writing older path file atOlder).of_content
      (same.content _ elsewhere)
  delivered path body member := by
    rcases List.mem_append.mp member with old | new
    · have elsewhere := account.place_ne_of_finished found
        (Or.inr (List.mem_map.mpr ⟨_, old, rfl⟩))
      exact (account.delivered path body old).of_sameOn same elsewhere
    · obtain ⟨rfl, sameEnd⟩ := Prod.mk.inj (List.mem_singleton.mp new)
      exact delivered body sameEnd.symm

/-- A transfer in flight fails. -/
theorem finish_failed {index : Nat} {transfer : ActiveTransfer} (error : String)
    (account : Transferring directory place before ledger queued active
      results)
    (found : active[index]? = some transfer)
    (same : SameOn (· ≠ place transfer.path) before after) :
    Transferring directory place after
      { ledger with ended := ledger.ended ++ [(transfer.path, .failed)] }
      queued (active.eraseIdx index) (results ++ [.error error]) := by
  refine account.finish .failed (.error error) found (fun _ => ⟨error, rfl⟩) same ?_
  intro body impossible
  cases impossible

/-- The handle of a transfer in flight is opened, extended or settled. -/
theorem update {index : Nat} {transfer : ActiveTransfer} {file : OpenFile}
    {disk : Tree}
    (account : Transferring directory place before ledger queued active
      results)
    (found : active[index]? = some transfer)
    (content : ∀ location, location ≠ place transfer.path →
      contentAt disk location = contentAt before.disk location)
    (writing : Writing { before with disk := disk } (place transfer.path)
      file) :
    Transferring directory place { before with disk := disk } ledger queued
      (active.set index ⟨transfer.path, some file⟩) results := by
  obtain ⟨bound, atIndex⟩ := List.getElem?_eq_some_iff.mp found
  have samePaths : (active.set index ⟨transfer.path, some file⟩).map
      ActiveTransfer.path = active.map ActiveTransfer.path := by
    have mapBound : index < (active.map ActiveTransfer.path).length := by
      simpa using bound
    have pathAt : (active.map ActiveTransfer.path)[index] =
        transfer.path := by
      rw [List.getElem_map, atIndex]
    rw [List.map_set, ← pathAt, List.set_getElem_self]
  refine { account with
    accounted := by rw [samePaths]; exact account.accounted
    fresh := by rw [samePaths]; exact account.fresh
    writing := ?_
    delivered := ?_ }
  · intro other path otherFile atOther
    by_cases own : other = index
    · subst own
      rw [List.getElem?_set_self bound, Option.some.injEq] at atOther
      cases atOther
      exact writing
    · rw [List.getElem?_set_ne (Ne.symm own)] at atOther
      have remains : ⟨path, some otherFile⟩ ∈ active.eraseIdx index :=
        List.mem_eraseIdx_iff_getElem?.mpr ⟨other, own, atOther⟩
      have elsewhere := account.place_ne_of_finished found
        (Or.inl (List.mem_append_right _
          (List.mem_map.mpr ⟨_, remains, rfl⟩)))
      exact (account.writing other path otherFile atOther).of_content
        (content _ elsewhere)
  · intro path body member
    have ended : path ∈ ledger.ended.map Prod.fst :=
      List.mem_map.mpr ⟨_, member, rfl⟩
    have same : SameOn (· ≠ place transfer.path) before
        { before with disk := disk } :=
      ⟨content, fun _ _ => Iff.rfl, fun _ _ lost => lost⟩
    exact (account.delivered path body member).of_sameOn same
      (account.place_ne_of_finished found (Or.inr ended))

end Transferring

/-! ## Steps of the worker itself -/

section Writes

variable {store : FileStore} {location : Location} {file : OpenFile}

theorem writing_opened (location : Location) (totalSize : Option Nat) :
    Writing { store with disk := store.disk.insert location (.file []) }
      location (.opened location totalSize) where
  atLocation := rfl
  stored _ := ⟨[], rfl, contentAt_insert_file _ _ _⟩
  settled failed := by cases failed

theorem Writing.receive (writing : Writing store location file)
    (settled : file.unwritten = []) (sound : file.writeError = none)
    (bytes : List UInt8) :
    Writing store location { file with received := file.received ++ bytes,
                                       unwritten := bytes } where
  atLocation := writing.atLocation
  stored _ := by
    obtain ⟨stored, received, content⟩ := writing.stored sound
    refine ⟨stored, ?_, content⟩
    simp [received, settled]
  settled failed := by simp [sound] at failed

/-- A write that ends in full puts what was outstanding on disk; one that
fails leaves nothing outstanding. -/
theorem Writing.settle (writing : Writing store location file)
    (outstanding : file.unwritten ≠ []) (failure : Option (Nat × String)) :
    Writing { store with disk := (file.settle failure store.disk).2 }
      location (file.settle failure store.disk).1 := by
  have sound : file.writeError = none := by
    cases failed : file.writeError with
    | none => rfl
    | some error =>
        exact absurd (writing.settled (by simp [failed])) outstanding
  obtain ⟨stored, received, content⟩ := writing.stored sound
  have atEnd : file.offset = stored.length := by
    simp [OpenFile.offset, received]
  cases failure with
  | none =>
      refine ⟨writing.atLocation, fun _ => ⟨file.received, ?_, ?_⟩, ?_⟩
      · simp [OpenFile.settle]
      · simp only [OpenFile.settle, writing.atLocation, atEnd]
        rw [contentAt_write_append content, ← received]
      · simp [OpenFile.settle]
  | some failed =>
      exact ⟨writing.atLocation, fun noError => by
        simp [OpenFile.settle] at noError, fun _ => rfl⟩

/-- A write changes no other file. -/
theorem contentAt_settle_of_ne (writing : Writing store location file)
    (failure : Option (Nat × String)) {other : Location}
    (different : other ≠ location) :
    contentAt (file.settle failure store.disk).2 other =
      contentAt store.disk other := by
  rw [← writing.atLocation] at different
  cases failure with
  | none => exact contentAt_write_of_ne different _ _ _
  | some failed => exact contentAt_write_of_ne different _ _ _

theorem mem_drop {dropped : OpenFile} (member : dropped ∈ file.drop) :
    dropped = file ∧ file.unwritten ≠ [] := by
  unfold OpenFile.drop at member
  split at member
  case isTrue => cases member
  case isFalse outstanding => exact ⟨List.mem_singleton.mp member, outstanding⟩

/-- Dropping a handle concerns its own file only. -/
theorem sameOn_drop (writing : Writing store location file)
    (lost : List Location) :
    SameOn (· ≠ location) store
      { store with dropped := store.dropped ++ file.drop
                   lost := store.lost ++ lost } where
  content _ _ := rfl
  dropped other elsewhere := by
    constructor
    · intro member
      rcases List.mem_append.mp member with old | new
      · exact old
      · obtain ⟨rfl, -⟩ := mem_drop new
        exact absurd writing.atLocation elsewhere
    · exact List.mem_append_left _
  lost _ _ := List.mem_append_left _

/-- At the end of its stream a file is on disk, on its way there, or lost. -/
theorem Writing.delivered (writing : Writing store location file)
    (fresh : ∀ other ∈ store.dropped, other.location ≠ location) :
    Delivered
      { store with
        dropped := store.dropped ++ file.drop
        lost := store.lost ++
          if file.writeError.isSome then [file.location] else [] }
      location file.received := by
  cases failed : file.writeError with
  | some error =>
      left
      simp [writing.atLocation]
  | none =>
      by_cases settled : file.unwritten = []
      · right; left
        obtain ⟨stored, received, content⟩ := writing.stored failed
        refine ⟨?_, ?_⟩
        · rw [received, settled, List.append_nil]
          exact content
        · simpa [OpenFile.drop, settled] using fresh
      · right; right
        refine ⟨file, ?_, ⟨writing.atLocation, writing.stored,
          writing.settled⟩, failed, rfl⟩
        simp [OpenFile.drop, settled]

end Writes

def queuedFiles : WorkerStage → List String
  | .transferring queued _ _ => queued
  | _ => []

def activeTransfers : WorkerStage → List ActiveTransfer
  | .transferring _ active _ => active
  | _ => []

/-- The files a worker sets out to fetch when it starts to transfer. -/
def newlyListed : WorkerStage → WorkerStage → List String
  | .fetchingList, .transferring queued active _
  | .fetchingUrl _ _, .transferring queued active _ =>
      queued ++ active.map ActiveTransfer.path
  | _, _ => []

def TransferLedger.after (ledger : TransferLedger) (cacheDir : List Char)
    (job : DownloadJob) (event : WorkerEvent) (stage : WorkerStage) :
    TransferLedger where
  listed := ledger.listed ++ newlyListed job.stage stage
  ended := ledger.ended ++ endedBy cacheDir job (queuedFiles job.stage)
    (activeTransfers job.stage) event

/-- The store after a step of a worker. -/
def FileStore.after (store : FileStore) (active : List ActiveTransfer)
    (event : WorkerEvent) (effect : WorkerEffect) : FileStore where
  disk := effect.disk
  dropped := store.dropped ++ effect.dropped
  lost := store.lost ++ TransferLedger.lostBy active event

/-- What the account says at each stage of a worker. -/
def Accounts (directory : Location) (place : String → Location)
    (store : FileStore) (ledger : TransferLedger) : WorkerStage → Prop
  | .waiting | .makingDir | .fetchingInfo _ | .fetchingList
  | .fetchingUrl _ _ => ledger = .empty ∧
      ∀ file ∈ store.dropped, ¬ directory <+: file.location
  | .transferring queued active results =>
      Transferring directory place store ledger queued active results
  | .fetched => ∃ results, firstError results = none ∧
      Transferring directory place store ledger [] [] results
  | .measuring | .registering _ | .failing _ | .done => True

/-- Every step of a worker that is transferring files keeps the account of
its files. -/
theorem accounts_of_transferStep {workingDir directory : Location}
    {cacheDir : List Char} {job : DownloadJob} {store : FileStore}
    {ledger : TransferLedger} {queued : List String}
    {active : List ActiveTransfer} {results : List (Except String Unit)}
    {event : WorkerEvent} {effect : WorkerEffect}
    (account : Transferring directory (job.fileLocation workingDir cacheDir)
      store ledger queued active results)
    (moves : TransferStep workingDir cacheDir job store.disk queued active
      results event effect) :
    Accounts directory (job.fileLocation workingDir cacheDir)
      (store.after active event effect)
      { ledger with
        ended := ledger.ended ++
          TransferLedger.endedBy cacheDir job queued active event }
      effect.job.stage := by
  have sameDisk (disk : Tree) (same : ∀ location,
      contentAt disk location = contentAt store.disk location) :
      SameOn (directory <+: ·) store { store with disk := disk } :=
    sameOn_of_content same
  cases moves with
  | refuses path rest error after failure head refused made =>
      subst head
      have content : ∀ location,
          contentAt after location = contentAt store.disk location := by
        rcases made with rfl | ⟨count, dirs⟩
        · exact fun _ => rfl
        · exact contentAt_createDirAll dirs
      simpa [Accounts, FileStore.after, TransferLedger.endedBy,
        TransferLedger.lostBy, refused] using
        (account.of_sameOn (sameDisk after content)).refuse error
  | starts path rest after head within made =>
      subst head
      simpa [Accounts, FileStore.after, TransferLedger.endedBy,
        TransferLedger.lostBy, within] using
        (account.of_sameOn
          (sameDisk after (contentAt_createDirAll made))).start
  | unanswered index path error reply createFailure found failed =>
      have ended := account.finish_failed error found
        (sameOn_of_content fun _ => rfl)
      rcases failed with ⟨reason, rfl⟩ |
        ⟨noFile, status, contentLength, rfl, success⟩
      · simpa [Accounts, FileStore.after, TransferLedger.endedBy,
          TransferLedger.lostBy, found, DownloadJob.endTransfer] using ended
      · simpa [Accounts, FileStore.after, TransferLedger.endedBy,
          TransferLedger.lostBy, found, DownloadJob.endTransfer, noFile,
          success] using ended
  | skips index path status contentLength createFailure found refused =>
      have ended := account.finish .refused (.ok ()) found
        (by intro impossible; cases impossible)
        (sameOn_of_content fun _ => rfl)
        (by intro body impossible; cases impossible)
      simpa [Accounts, FileStore.after, TransferLedger.endedBy,
        TransferLedger.lostBy, found, DownloadJob.endTransfer, refused]
        using ended
  | opens index path status contentLength after found success created =>
      have inserted := createFile_eq_some created
      subst inserted
      have opened := account.update found
        (fun location different => contentAt_insert_of_ne different _)
        (writing_opened _ contentLength)
      simpa [Accounts, FileStore.after, TransferLedger.endedBy,
        TransferLedger.lostBy, found, success] using opened
  | ignores index path file found =>
      simpa [Accounts, FileStore.after, TransferLedger.endedBy,
        TransferLedger.lostBy, found] using account
  | receives index path file bytes found nonempty settled sound =>
      have received := account.update found (fun _ _ => rfl)
        ((account.writing index path file found).receive settled sound bytes)
      simpa [Accounts, FileStore.after, TransferLedger.endedBy,
        TransferLedger.lostBy, found, sound] using received
  | writeFails index path file error bytes found nonempty settled failed =>
      have ended := account.finish_failed error found
        (sameOn_of_content fun _ => rfl)
      simpa [Accounts, FileStore.after, TransferLedger.endedBy,
        TransferLedger.lostBy, found, DownloadJob.endTransfer, failed,
        nonempty] using ended
  | breaksOff index path file error found =>
      have ended := account.finish_failed error found
        (sameOn_drop (account.writing index path file found) [])
      simpa [Accounts, FileStore.after, TransferLedger.endedBy,
        TransferLedger.lostBy, found, DownloadJob.endTransfer] using ended
  | ends index path file found =>
      have writing := account.writing index path file found
      have inFlight : path ∈ queued ++ active.map ActiveTransfer.path :=
        Transferring.active_mem found
      have fresh := account.fresh path inFlight
      have ended := account.finish (.delivered file.received) (.ok ())
        found (by intro impossible; cases impossible)
        (sameOn_drop writing _)
        (by
          intro body same
          cases same
          exact writing.delivered fresh)
      simpa [Accounts, FileStore.after, TransferLedger.endedBy,
        TransferLedger.lostBy, found, DownloadJob.endTransfer] using ended
  | settles index path file failure found outstanding =>
      have writing := account.writing index path file found
      have settled := account.update found
        (fun location different =>
          contentAt_settle_of_ne writing failure different)
        (writing.settle outstanding failure)
      simpa [Accounts, FileStore.after, TransferLedger.endedBy,
        TransferLedger.lostBy] using settled
  | collectsError error noneQueued noneActive first => trivial
  | collects noneQueued noneActive noError =>
      subst noneQueued
      subst noneActive
      refine ⟨results, noError, ?_⟩
      simpa [FileStore.after, TransferLedger.endedBy,
        TransferLedger.lostBy] using account

/-! ## Steps of the worker before and after its transfers -/

section Worker

variable {parse : String → Option Url} {workingDir : Location}
  {cacheDir : List Char} {job : DownloadJob}

/-- A safe path leads into the directory of the model. -/
theorem modelLocation_prefix_fileLocation {path : String}
    (safe : isSafeRelativePath path.toList = true) :
    job.modelLocation workingDir cacheDir <+:
      job.fileLocation workingDir cacheDir path := by
  simp only [isSafeRelativePath, Bool.and_eq_true] at safe
  obtain ⟨names, -, reached⟩ := exists_names_of_all_normal safe.2
  rw [DownloadJob.fileLocation, locate_join, reached]
  exact List.prefix_append _ names

theorem isSafe_of_mem_filesToDownload {files : List JsonValue}
    {path : String} (member : path ∈ filesToDownload files) :
    isSafeRelativePath path.toList = true :=
  (List.mem_filter.mp member).2

theorem endedBy_nil (event : WorkerEvent) :
    TransferLedger.endedBy cacheDir job [] [] event = [] := by
  cases event with
  | fileReply index reply createFailure => cases reply <;> rfl
  | _ => rfl

theorem lostBy_nil (event : WorkerEvent) :
    TransferLedger.lostBy [] event = [] := by
  cases event <;> rfl

variable {store : FileStore} {ledger : TransferLedger}
  {event : WorkerEvent} {effect : WorkerEffect}

/-- A list of files is received: all of them are queued. -/
theorem transferring_of_list {files : List String}
    (safe : ∀ path ∈ files, isSafeRelativePath path.toList = true)
    (distinct : (files.map (job.fileLocation workingDir cacheDir)).Nodup)
    (clear : ∀ file ∈ store.dropped,
      ¬ job.modelLocation workingDir cacheDir <+: file.location) :
    Transferring (job.modelLocation workingDir cacheDir)
      (job.fileLocation workingDir cacheDir) store
      { listed := files, ended := [] } files [] [] where
  accounted := by simp
  distinct := distinct
  under path member := modelLocation_prefix_fileLocation (safe path member)
  errors path member := by cases member
  fresh path member file dropped same := by
    have listed : path ∈ files := by simpa using member
    exact clear file dropped (same ▸ modelLocation_prefix_fileLocation
      (safe path listed))
  writing index path file found := by simp at found
  delivered path body member := by cases member

/-- The one file of a URL download is opened. -/
theorem transferring_of_url {path : String} (contentLength : Option Nat)
    (safe : isSafeRelativePath path.toList = true)
    (clear : ∀ file ∈ store.dropped,
      ¬ job.modelLocation workingDir cacheDir <+: file.location) :
    Transferring (job.modelLocation workingDir cacheDir)
      (job.fileLocation workingDir cacheDir)
      { store with
        disk := store.disk.insert
          (job.fileLocation workingDir cacheDir path) (.file []) }
      { listed := [path], ended := [] } []
      [⟨path, some (.opened (job.fileLocation workingDir cacheDir path)
        contentLength)⟩] [] where
  accounted := by simp
  distinct := by simp
  under other member := by
    rw [List.mem_singleton.mp member]
    exact modelLocation_prefix_fileLocation safe
  errors other member := by cases member
  fresh other member file dropped same := by
    have isPath : other = path := by simpa using member
    subst isPath
    exact clear file dropped (same ▸ modelLocation_prefix_fileLocation safe)
  writing index other file found := by
    have member := List.mem_singleton.mp (List.mem_of_getElem? found)
    cases member
    exact writing_opened _ contentLength
  delivered other body member := by cases member

theorem isSafe_of_isSafeFilename {name : String}
    (safe : isSafeFilename name = true) :
    isSafeRelativePath name.toList = true := by
  simp only [isSafeFilename, Bool.and_eq_true] at safe
  exact safe.1.1

/-- Nothing has been transferred before the transfers begin. -/
theorem accounts_of_early
    (early : activeTransfers job.stage = [] ∧ queuedFiles job.stage = [])
    (empty : ledger = .empty) (dropped : effect.dropped = [])
    (next : Accounts (job.modelLocation workingDir cacheDir)
      (job.fileLocation workingDir cacheDir)
      { store with disk := effect.disk }
      { listed := newlyListed job.stage effect.job.stage, ended := [] }
      effect.job.stage) :
    Accounts (job.modelLocation workingDir cacheDir)
      (job.fileLocation workingDir cacheDir)
      (store.after (activeTransfers job.stage) event effect)
      (ledger.after cacheDir job event effect.job.stage)
      effect.job.stage := by
  have sameLedger : ledger.after cacheDir job event effect.job.stage =
      { listed := newlyListed job.stage effect.job.stage, ended := [] } := by
    simp [TransferLedger.after, empty, TransferLedger.empty, early.1,
      early.2, endedBy_nil]
  have sameStore : store.after (activeTransfers job.stage) event effect =
      { store with disk := effect.disk } := by
    simp [FileStore.after, early.1, lostBy_nil, dropped]
  rw [sameLedger, sameStore]
  exact next

/-- Every step of a worker keeps the account of its files, when the paths of
a file list it receives address different files. -/
theorem accounts_of_workerStep
    (account : Accounts (job.modelLocation workingDir cacheDir)
      (job.fileLocation workingDir cacheDir) store ledger job.stage)
    (moves : WorkerStep parse workingDir cacheDir job store.disk event
      effect)
    (distinct : ∀ reply files, event = .listReply reply (.ok files) →
      ((filesToDownload files).map
        (job.fileLocation workingDir cacheDir)).Nodup) :
    Accounts (job.modelLocation workingDir cacheDir)
      (job.fileLocation workingDir cacheDir)
      (store.after (activeTransfers job.stage) event effect)
      (ledger.after cacheDir job event effect.job.stage)
      effect.job.stage := by
  cases moves with
  | acquires stage =>
      rw [stage] at account
      apply accounts_of_early (by simp [stage, activeTransfers,
        queuedFiles]) account.1 rfl
      rw [stage]
      exact ⟨rfl, account.2⟩
  | missesDir made error after stage dirs =>
      rw [stage] at account
      apply accounts_of_early (by simp [stage, activeTransfers,
        queuedFiles]) account.1 rfl
      trivial
  | makesDir after stage dirs =>
      rw [stage] at account
      apply accounts_of_early (by simp [stage, activeTransfers,
        queuedFiles]) account.1 rfl
      rw [stage]
      rcases enterSource_cases parse job.task.source with
        ⟨repoId, entered⟩ | ⟨url, parsed, entered⟩ | ⟨error, entered⟩
      · rw [moved_job, entered]
        exact ⟨rfl, account.2⟩
      · rw [moved_job, entered]
        exact ⟨rfl, account.2⟩
      · rw [moved_job, entered]
        trivial
  | readsInfo repoId reply json stage =>
      rw [stage] at account
      apply accounts_of_early (by simp [stage, activeTransfers,
        queuedFiles]) account.1 rfl
      rw [stage]
      rcases onInfoReply_cases repoId reply json with next | ⟨error, next⟩
      · rw [moved_job, next]
        exact ⟨rfl, account.2⟩
      · rw [moved_job, next]
        trivial
  | readsList reply json stage =>
      rw [stage] at account
      apply accounts_of_early (by simp [stage, activeTransfers,
        queuedFiles]) account.1 rfl
      rw [stage]
      cases reply with
      | failed => trivial
      | answered status contentLength =>
          cases json with
          | error => trivial
          | ok files =>
              simpa [newlyListed, onListReply, Accounts] using
                transferring_of_list
                  (fun path member => isSafe_of_mem_filesToDownload member)
                  (distinct _ files rfl) account.2
  | refusesUrl url parsed reply createFailure error stage =>
      rw [stage] at account
      apply accounts_of_early (by simp [stage, activeTransfers,
        queuedFiles]) account.1 rfl
      trivial
  | opensUrl url parsed status contentLength after stage safe created =>
      rw [stage] at account
      apply accounts_of_early (by simp [stage, activeTransfers,
        queuedFiles]) account.1 rfl
      rw [stage]
      have inserted := createFile_eq_some created
      subst inserted
      simpa [newlyListed, Accounts] using transferring_of_url contentLength
        (isSafe_of_isSafeFilename safe) account.2
  | transfers queued active results event effect stage moves =>
      rw [stage] at account ⊢
      have next := accounts_of_transferStep account moves
      simpa [TransferLedger.after, newlyListed, queuedFiles, activeTransfers,
        stage] using next
  | completes stage => trivial
  | measures outcome stage => cases outcome <;> trivial
  | registers size stage => trivial
  | reports error stage => trivial

end Worker

/-! ## What a worker leaves alone -/

section Elsewhere

variable {parse : String → Option Url} {workingDir : Location}
  {cacheDir : List Char} {job : DownloadJob} {disk : Tree}
  {event : WorkerEvent} {effect : WorkerEffect}

/-- A write keeps every entry of the disk. -/
theorem mem_settle {file : OpenFile} {failure : Option (Nat × String)}
    {location : Location} (member : location ∈ disk) :
    location ∈ (file.settle failure disk).2 := by
  cases failure with
  | none => exact mem_write.mpr member
  | some failed => exact mem_write.mpr member

theorem mem_createFile {after : Tree} {location other : Location}
    (created : createFile disk location = some after)
    (member : other ∈ disk) : other ∈ after := by
  rw [createFile_eq_some created]
  exact (AList.mem_insert disk).mpr (Or.inr member)

/-- A worker removes no entry of the disk. -/
theorem mem_disk_of_workerStep
    (moves : WorkerStep parse workingDir cacheDir job disk event effect)
    {location : Location} (member : location ∈ disk) :
    location ∈ effect.disk := by
  cases moves with
  | missesDir made error after stage dirs =>
      exact mem_createDirAll_of_mem dirs member
  | makesDir after stage dirs => exact mem_createDirAll_of_mem dirs member
  | opensUrl url parsed status contentLength after stage safe created =>
      exact mem_createFile created member
  | transfers queued active results event effect stage moves =>
      cases moves with
      | refuses path rest error after failure head refused made =>
          rcases made with rfl | ⟨count, dirs⟩
          · exact member
          · exact mem_createDirAll_of_mem dirs member
      | starts path rest after head within made =>
          exact mem_createDirAll_of_mem made member
      | opens index path status contentLength after found success created =>
          exact mem_createFile created member
      | settles index path file failure found outstanding =>
          exact mem_settle member
      | unanswered => exact member
      | skips => exact member
      | ignores => exact member
      | receives => exact member
      | writeFails => exact member
      | breaksOff => exact member
      | ends => exact member
      | collectsError => exact member
      | collects => exact member
  | acquires => exact member
  | readsInfo => exact member
  | readsList => exact member
  | refusesUrl => exact member
  | completes => exact member
  | measures => exact member
  | registers => exact member
  | reports => exact member

/-- A handle dropped by a step is the only one for a file of the job. -/
structure DropsOwn (directory : Location) (store : FileStore)
    (dropped : List OpenFile) : Prop where
  under : ∀ file ∈ dropped, directory <+: file.location
  fresh : ∀ file ∈ dropped, ∀ other ∈ store.dropped,
    other.location ≠ file.location
  single : dropped.length ≤ 1

theorem DropsOwn.nil {directory : Location} {store : FileStore} :
    DropsOwn directory store [] :=
  ⟨by simp, by simp, by simp⟩

/-- What a worker does concerns the directory of its model. -/
structure StaysInside (directory : Location) (store : FileStore)
    (effect : WorkerEffect) : Prop where
  content : ∀ location, ¬ directory <+: location →
    contentAt effect.disk location = contentAt store.disk location
  drops : DropsOwn directory store effect.dropped

theorem staysInside_of_outside {directory : Location} {store : FileStore}
    (content : ∀ location, ¬ directory <+: location →
      contentAt effect.disk location = contentAt store.disk location)
    (dropped : effect.dropped = []) :
    StaysInside directory store effect where
  content := content
  drops := dropped ▸ .nil

theorem staysInside_of_content {directory : Location} {store : FileStore}
    (content : ∀ location,
      contentAt effect.disk location = contentAt store.disk location)
    (dropped : effect.dropped = []) :
    StaysInside directory store effect :=
  staysInside_of_outside (fun location _ => content location) dropped

theorem dropsOwn_drop {directory location : Location} {store : FileStore}
    {file : OpenFile} (writing : Writing store location file)
    (inside : directory <+: location)
    (fresh : ∀ other ∈ store.dropped, other.location ≠ location) :
    DropsOwn directory store file.drop where
  under dropped member := by
    obtain ⟨rfl, -⟩ := mem_drop member
    exact writing.atLocation ▸ inside
  fresh dropped member other otherMember := by
    obtain ⟨rfl, -⟩ := mem_drop member
    rw [writing.atLocation]
    exact fresh other otherMember
  single := by
    unfold OpenFile.drop
    split <;> simp

theorem staysInside_of_transferStep {directory : Location}
    {store : FileStore} {ledger : TransferLedger} {queued : List String}
    {active : List ActiveTransfer} {results : List (Except String Unit)}
    (account : Transferring directory (job.fileLocation workingDir cacheDir)
      store ledger queued active results)
    (moves : TransferStep workingDir cacheDir job store.disk queued active
      results event effect) : StaysInside directory store effect := by
  have inside {index : Nat} {path : String} {file : Option OpenFile}
      (found : active[index]? = some ⟨path, file⟩) :
      directory <+: job.fileLocation workingDir cacheDir path := by
    have inFlight : path ∈ queued ++ active.map ActiveTransfer.path :=
      Transferring.active_mem found
    exact account.under path (account.mem_listed (Or.inl inFlight))
  have drops {index : Nat} {path : String} {file : OpenFile}
      (found : active[index]? = some ⟨path, some file⟩) :
      DropsOwn directory store file.drop := by
    have inFlight : path ∈ queued ++ active.map ActiveTransfer.path :=
      Transferring.active_mem found
    exact dropsOwn_drop (account.writing index path file found)
      (inside found) (account.fresh path inFlight)
  cases moves with
  | refuses path rest error after failure head refused made =>
      apply staysInside_of_content _ rfl
      rcases made with rfl | ⟨count, dirs⟩
      · exact fun _ => rfl
      · exact contentAt_createDirAll dirs
  | starts path rest after head within made =>
      exact staysInside_of_content (contentAt_createDirAll made) rfl
  | opens index path status contentLength after found success created =>
      refine staysInside_of_outside (fun location outside => ?_) rfl
      rw [createFile_eq_some created]
      apply contentAt_insert_of_ne
      rintro rfl
      exact outside (inside found)
  | settles index path file failure found outstanding =>
      refine staysInside_of_outside (fun location outside => ?_) rfl
      apply contentAt_settle_of_ne (account.writing index path file found)
      rintro rfl
      exact outside (inside found)
  | breaksOff index path file error found =>
      exact ⟨fun _ _ => rfl, drops found⟩
  | ends index path file found => exact ⟨fun _ _ => rfl, drops found⟩
  | unanswered => exact staysInside_of_content (fun _ => rfl) rfl
  | skips => exact staysInside_of_content (fun _ => rfl) rfl
  | ignores => exact staysInside_of_content (fun _ => rfl) rfl
  | receives => exact staysInside_of_content (fun _ => rfl) rfl
  | writeFails => exact staysInside_of_content (fun _ => rfl) rfl
  | collectsError => exact staysInside_of_content (fun _ => rfl) rfl
  | collects => exact staysInside_of_content (fun _ => rfl) rfl

theorem staysInside_of_workerStep {store : FileStore}
    {ledger : TransferLedger}
    (account : Accounts (job.modelLocation workingDir cacheDir)
      (job.fileLocation workingDir cacheDir) store ledger job.stage)
    (moves : WorkerStep parse workingDir cacheDir job store.disk event
      effect) :
    StaysInside (job.modelLocation workingDir cacheDir) store effect := by
  cases moves with
  | missesDir made error after stage dirs =>
      exact staysInside_of_content (contentAt_createDirAll dirs) rfl
  | makesDir after stage dirs =>
      exact staysInside_of_content (contentAt_createDirAll dirs) rfl
  | opensUrl url parsed status contentLength after stage safe created =>
      refine staysInside_of_outside (fun location outside => ?_) rfl
      rw [createFile_eq_some created]
      apply contentAt_insert_of_ne
      rintro rfl
      exact outside (modelLocation_prefix_fileLocation
        (isSafe_of_isSafeFilename safe))
  | transfers queued active results event effect stage moves =>
      rw [stage] at account
      exact staysInside_of_transferStep account moves
  | acquires => exact staysInside_of_content (fun _ => rfl) rfl
  | readsInfo => exact staysInside_of_content (fun _ => rfl) rfl
  | readsList => exact staysInside_of_content (fun _ => rfl) rfl
  | refusesUrl => exact staysInside_of_content (fun _ => rfl) rfl
  | completes => exact staysInside_of_content (fun _ => rfl) rfl
  | measures => exact staysInside_of_content (fun _ => rfl) rfl
  | registers => exact staysInside_of_content (fun _ => rfl) rfl
  | reports => exact staysInside_of_content (fun _ => rfl) rfl

end Elsewhere

/-! ## Accounts and the rest of the manager -/

section Frame

variable {directory : Location} {place : String → Location}
  {before after : FileStore} {ledger : TransferLedger}

/-- An account only depends on the directory of its job. -/
theorem Accounts.of_sameOn {stage : WorkerStage}
    (account : Accounts directory place before ledger stage)
    (same : SameOn (directory <+: ·) before after) :
    Accounts directory place after ledger stage := by
  have early (empty : ledger = .empty ∧
      ∀ file ∈ before.dropped, ¬ directory <+: file.location) :
      ledger = .empty ∧
        ∀ file ∈ after.dropped, ¬ directory <+: file.location :=
    ⟨empty.1, fun file member inside =>
      empty.2 file ((same.dropped file inside).mp member) inside⟩
  cases stage with
  | waiting => exact early account
  | makingDir => exact early account
  | fetchingInfo repoId => exact early account
  | fetchingList => exact early account
  | fetchingUrl url parsed => exact early account
  | transferring queued active results =>
      exact Transferring.of_sameOn account same
  | fetched =>
      obtain ⟨results, noError, transferring⟩ := account
      exact ⟨results, noError, transferring.of_sameOn same⟩
  | measuring => trivial
  | registering size => trivial
  | failing error => trivial
  | done => trivial

/-- The store after the outstanding write of a dropped handle has ended. -/
def FileStore.settled (store : FileStore) (index : Nat) (file : OpenFile)
    (failure : Option (Nat × String)) : FileStore where
  disk := (file.settle failure store.disk).2
  dropped := store.dropped.eraseIdx index
  lost := store.lost ++ if failure.isSome then [file.location] else []

theorem ne_of_mem_eraseIdx {store : FileStore} {index : Nat}
    {file other : OpenFile} (found : store.dropped[index]? = some file)
    (nodup : (store.dropped.map OpenFile.location).Nodup)
    (member : other ∈ store.dropped.eraseIdx index) :
    other.location ≠ file.location := by
  obtain ⟨bound, atIndex⟩ := List.getElem?_eq_some_iff.mp found
  have perm := (List.getElem_cons_eraseIdx_perm bound).map
    OpenFile.location
  rw [List.map_cons, atIndex] at perm
  have apart := (List.nodup_cons.mp (perm.nodup_iff.mpr nodup)).1
  intro same
  exact apart (same ▸ List.mem_map.mpr ⟨other, member, rfl⟩)

/-- A delivered file stays delivered when the write of a dropped handle
ends. -/
theorem Delivered.settle {store : FileStore} {location : Location}
    {body : List UInt8} (delivered : Delivered store location body)
    {index : Nat} {file : OpenFile}
    (found : store.dropped[index]? = some file)
    (nodup : (store.dropped.map OpenFile.location).Nodup)
    (failure : Option (Nat × String)) :
    Delivered (store.settled index file failure) location body := by
  have member := List.mem_of_getElem? found
  rcases delivered with lost | ⟨content, alone⟩ |
    ⟨other, otherMember, writing, sound, received⟩
  · exact Or.inl (List.mem_append_left _ lost)
  · have elsewhere : location ≠ file.location :=
      Ne.symm (alone file member)
    right; left
    refine ⟨?_, fun other otherMember =>
      alone other (List.mem_of_mem_eraseIdx otherMember)⟩
    rw [← content]
    cases failure with
    | none => exact contentAt_write_of_ne elsewhere _ _ _
    | some failed => exact contentAt_write_of_ne elsewhere _ _ _
  · by_cases same : other = file
    · subst same
      cases failure with
      | some failed =>
          left
          simp [FileStore.settled, writing.atLocation]
      | none =>
          obtain ⟨stored, parts, content⟩ := writing.stored sound
          have atEnd : other.offset = stored.length := by
            simp [OpenFile.offset, parts]
          right; left
          constructor
          · simp only [FileStore.settled, OpenFile.settle,
              writing.atLocation, atEnd]
            rw [contentAt_write_append content, ← parts, received]
          · intro rest restMember
            exact writing.atLocation ▸
              ne_of_mem_eraseIdx found nodup restMember
    · have remains : other ∈ store.dropped.eraseIdx index := by
        obtain ⟨position, atPosition⟩ :=
          List.getElem?_of_mem otherMember
        refine List.mem_eraseIdx_iff_getElem?.mpr
          ⟨position, ?_, atPosition⟩
        rintro rfl
        rw [found, Option.some.injEq] at atPosition
        exact same atPosition.symm
      have elsewhere : location ≠ file.location := by
        rw [← writing.atLocation]
        exact ne_of_mem_eraseIdx found nodup remains
      right; right
      refine ⟨other, remains, writing.of_content ?_, sound, received⟩
      cases failure with
      | none => exact contentAt_write_of_ne elsewhere _ _ _
      | some failed => exact contentAt_write_of_ne elsewhere _ _ _

theorem Transferring.settleDropped {store : FileStore}
    {queued : List String} {active : List ActiveTransfer}
    {results : List (Except String Unit)}
    (account : Transferring directory place store ledger queued active
      results) {index : Nat} {file : OpenFile}
    (found : store.dropped[index]? = some file)
    (nodup : (store.dropped.map OpenFile.location).Nodup)
    (failure : Option (Nat × String)) :
    Transferring directory place (store.settled index file failure) ledger
      queued active results where
  accounted := account.accounted
  distinct := account.distinct
  under := account.under
  errors := account.errors
  fresh path member other dropped :=
    account.fresh path member other (List.mem_of_mem_eraseIdx dropped)
  writing position path opened atPosition := by
    have inFlight : path ∈ queued ++ active.map ActiveTransfer.path :=
      Transferring.active_mem atPosition
    have elsewhere : place path ≠ file.location := Ne.symm
      (account.fresh path inFlight file (List.mem_of_getElem? found))
    apply (account.writing position path opened atPosition).of_content
    cases failure with
    | none => exact contentAt_write_of_ne elsewhere _ _ _
    | some failed => exact contentAt_write_of_ne elsewhere _ _ _
  delivered path body member :=
    (account.delivered path body member).settle found nodup failure

/-- The end of an outstanding write keeps every account. -/
theorem Accounts.settleDropped {store : FileStore} {stage : WorkerStage}
    (account : Accounts directory place store ledger stage)
    {index : Nat} {file : OpenFile}
    (found : store.dropped[index]? = some file)
    (nodup : (store.dropped.map OpenFile.location).Nodup)
    (failure : Option (Nat × String)) :
    Accounts directory place (store.settled index file failure) ledger
      stage := by
  have early (empty : ledger = .empty ∧
      ∀ other ∈ store.dropped, ¬ directory <+: other.location) :
      ledger = .empty ∧
        ∀ other ∈ (store.settled index file failure).dropped,
          ¬ directory <+: other.location :=
    ⟨empty.1, fun other member =>
      empty.2 other (List.mem_of_mem_eraseIdx member)⟩
  cases stage with
  | waiting => exact early account
  | makingDir => exact early account
  | fetchingInfo repoId => exact early account
  | fetchingList => exact early account
  | fetchingUrl url parsed => exact early account
  | transferring queued active results =>
      exact Transferring.settleDropped account found nodup failure
  | fetched =>
      obtain ⟨results, noError, transferring⟩ := account
      exact ⟨results, noError,
        transferring.settleDropped found nodup failure⟩
  | measuring => trivial
  | registering size => trivial
  | failing error => trivial
  | done => trivial

end Frame

end TorchInference
