import Mathlib.Algebra.Order.Field.Rat
import Mathlib.Tactic.FieldSimp
import Mathlib.Tactic.Linarith
import Mathlib.Tactic.Positivity
import Mathlib.Tactic.Ring
import TorchInference.DownloadManager
import TorchInference.TransitionRuns

/-!
# The progress of a download

The files of a repository are fetched by up to eight streams at a time, and
each stream overwrites the one progress of the task: with the share of its own
file, as if all files before it were there, and with its own byte count.  The
progress therefore never falls back exactly when no chunk comes for a file
after a later file has begun, and none leaves a smaller byte count behind.
-/

namespace TorchInference

open TransitionRuns

/-- What `update_task_progress` writes into a task. -/
structure TaskProgress where
  progress : ℚ
  downloadedSize : Nat
  totalSize : Option Nat

/-- The progress of a new task. -/
def TaskProgress.new : TaskProgress :=
  ⟨0, 0, none⟩

/-- What is expected of two successive values of the progress. -/
structure TaskProgress.Advances (before after : TaskProgress) : Prop where
  nonneg : 0 ≤ after.progress
  le_hundred : after.progress ≤ 100
  progress_le : before.progress ≤ after.progress
  downloaded_le : before.downloadedSize ≤ after.downloadedSize
  le_total : ∀ total ∈ after.totalSize, after.downloadedSize ≤ total

/-- The part of a body that has come in, by the lengths of its chunks. -/
structure StreamedBody where
  totalSize : Option Nat
  chunks : List Nat
  deriving DecidableEq

namespace StreamedBody

def downloaded (body : StreamedBody) : Nat :=
  body.chunks.sum

/-- A body is no longer than its advertised length, which is positive. -/
def accepts (body : StreamedBody) (length : Nat) : Bool :=
  body.totalSize.all fun total =>
    0 < total && body.downloaded + length ≤ total

def received (body : StreamedBody) (length : Nat) : StreamedBody :=
  { body with chunks := body.chunks ++ [length] }

end StreamedBody

/-! ## The streams of a repository -/

/-- A file of a repository, from its place in the list to the end of its
stream: with its body, with an error, or with an answer that is no success. -/
inductive FileStream where
  | queued
  | requested
  | receiving (body : StreamedBody)
  | finished (body : Option StreamedBody)
  deriving DecidableEq

namespace FileStream

def inFlight : FileStream → Bool
  | requested | receiving _ => true
  | queued | finished _ => false

/-- The stream ends. -/
def finish : FileStream → Option FileStream
  | requested => some (finished none)
  | receiving body => some (finished (some body))
  | queued | finished _ => none

/-- The byte count and the length of the body after the last chunk, if the
stream has recorded any. -/
def recorded : FileStream → Option (Nat × Nat)
  | receiving ⟨some total, chunk :: chunks⟩
  | finished (some ⟨some total, chunk :: chunks⟩) =>
      some ((chunk :: chunks).sum, total)
  | _ => none

end FileStream

inductive StreamEvent where
  | start
  | reply (idx : Nat) (contentLength : Option Nat)
  | chunk (idx : Nat) (length : Nat)
  | finish (idx : Nat)
  deriving DecidableEq

def fileProgress (idx totalFiles : Nat) : ℚ :=
  idx / totalFiles * 100

def chunkProgress (downloaded total totalFiles : Nat) : ℚ :=
  downloaded / total * (1 / totalFiles) * 100

structure RepositoryDownload where
  files : List FileStream
  task : TaskProgress

namespace RepositoryDownload

def new (totalFiles : Nat) : RepositoryDownload :=
  ⟨List.replicate totalFiles .queued, .new⟩

def totalFiles (download : RepositoryDownload) : Nat :=
  download.files.length

/-- The body of a file, if it goes on with a chunk of this length. -/
def accepting (download : RepositoryDownload) (idx length : Nat) :
    Option StreamedBody :=
  match download.files[idx]? with
  | some (.receiving body) => if body.accepts length then some body else none
  | _ => none

/-- The progress after a chunk; without a content length it stays. -/
def recordProgress (download : RepositoryDownload) (idx : Nat)
    (body : StreamedBody) : TaskProgress :=
  match body.totalSize with
  | none => download.task
  | some total =>
      ⟨fileProgress idx download.totalFiles +
          chunkProgress body.downloaded total download.totalFiles,
        body.downloaded, some total⟩

def step (download : RepositoryDownload) :
    StreamEvent → Option RepositoryDownload
  | .start =>
      match download.files.idxOf? .queued with
      | none => none
      | some idx =>
          if download.files.countP FileStream.inFlight <
              DownloadJob.maxFilesInFlight then
            some { download with files := download.files.set idx .requested }
          else none
  | .reply idx contentLength =>
      match download.files[idx]? with
      | some .requested =>
          some { download with
            files := download.files.set idx
              (.receiving ⟨contentLength, []⟩) }
      | _ => none
  | .chunk idx length =>
      (download.accepting idx length).map fun body =>
        ⟨download.files.set idx (.receiving (body.received length)),
          download.recordProgress idx (body.received length)⟩
  | .finish idx =>
      (download.files[idx]?.bind FileStream.finish).map fun file =>
        { download with files := download.files.set idx file }

/-- A step moves the progress on. -/
def StepAdvances (download : RepositoryDownload) (event : StreamEvent) :
    Prop :=
  ∀ next, download.step event = some next →
    download.task.Advances next.task

/-- A chunk comes for a file with at least as many bytes as were recorded last,
and no later file has recorded anything; unless the next file recorded an empty
chunk and this one completes its file. -/
def InFileOrder (download : RepositoryDownload) : StreamEvent → Prop
  | .chunk idx length =>
      ∀ body ∈ download.accepting idx length, ∀ total ∈ body.totalSize,
        download.task.downloadedSize ≤ body.downloaded + length ∧
          ∀ later ∈ download.files.zipIdx, idx < later.2 →
            ∀ other ∈ later.1.recorded,
              later.2 = idx + 1 ∧ other.1 = 0 ∧
                body.downloaded + length = total
  | _ => True

instance (download : RepositoryDownload) :
    ∀ event, Decidable (download.InFileOrder event)
  | .start => inferInstanceAs (Decidable True)
  | .reply _ _ => inferInstanceAs (Decidable True)
  | .finish _ => inferInstanceAs (Decidable True)
  | .chunk idx length =>
      inferInstanceAs (Decidable
        (∀ body ∈ download.accepting idx length, ∀ total ∈ body.totalSize,
          download.task.downloadedSize ≤ body.downloaded + length ∧
            ∀ later ∈ download.files.zipIdx, idx < later.2 →
              ∀ other ∈ later.1.recorded,
                later.2 = idx + 1 ∧ other.1 = 0 ∧
                  body.downloaded + length = total))

end RepositoryDownload

/-! ## The stream of a URL -/

structure UrlDownload where
  body : StreamedBody
  task : TaskProgress

namespace UrlDownload

def new (contentLength : Option Nat) : UrlDownload :=
  ⟨⟨contentLength, []⟩, .new⟩

def recordProgress (download : UrlDownload) (body : StreamedBody) :
    TaskProgress :=
  match body.totalSize with
  | none => download.task
  | some total =>
      ⟨body.downloaded / total * 100, body.downloaded, some total⟩

/-- The next chunk, by its length. -/
def step (download : UrlDownload) (length : Nat) : Option UrlDownload :=
  if download.body.accepts length then
    let body := download.body.received length
    some ⟨body, download.recordProgress body⟩
  else none

def StepAdvances (download : UrlDownload) (length : Nat) : Prop :=
  ∀ next, download.step length = some next →
    download.task.Advances next.task

end UrlDownload

/-! ## The values of the progress -/

/-- What a stream of a repository writes. -/
def progressAt (totalFiles idx : Nat) (counts : Nat × Nat) : ℚ :=
  fileProgress idx totalFiles + chunkProgress counts.1 counts.2 totalFiles

/-- A byte count within a body. -/
structure Counted (counts : Nat × Nat) : Prop where
  positive : 0 < counts.2
  within : counts.1 ≤ counts.2

theorem StreamedBody.counted_of_accepts {body : StreamedBody}
    {length total : Nat} (accepts : body.accepts length = true)
    (known : body.totalSize = some total) :
    Counted (body.downloaded + length, total) := by
  simp only [StreamedBody.accepts, known, Option.all_some,
    Bool.and_eq_true, decide_eq_true_eq] at accepts
  exact ⟨accepts.1, accepts.2⟩

section Values

variable {totalFiles idx other : Nat} {counts otherCounts : Nat × Nat}

theorem progressAt_eq :
    progressAt totalFiles idx counts =
      (idx + counts.1 / counts.2 : ℚ) * (100 / totalFiles) := by
  unfold progressAt fileProgress chunkProgress
  ring

theorem share_nonneg (counts : Nat × Nat) :
    (0 : ℚ) ≤ counts.1 / counts.2 := by
  positivity

theorem Counted.share_le_one (counted : Counted counts) :
    (counts.1 / counts.2 : ℚ) ≤ 1 := by
  have positive : (0 : ℚ) < counts.2 := by exact_mod_cast counted.positive
  rw [div_le_one positive]
  exact_mod_cast counted.within

theorem progressAt_le_iff (someFile : 0 < totalFiles) :
    progressAt totalFiles idx counts ≤
        progressAt totalFiles other otherCounts ↔
      (idx + counts.1 / counts.2 : ℚ) ≤
        other + otherCounts.1 / otherCounts.2 := by
  have unit : (0 : ℚ) < 100 / totalFiles := by positivity
  rw [progressAt_eq, progressAt_eq, mul_le_mul_iff_of_pos_right unit]

theorem progressAt_nonneg : 0 ≤ progressAt totalFiles idx counts := by
  rw [progressAt_eq]
  positivity

theorem progressAt_le_hundred (inside : idx < totalFiles)
    (counted : Counted counts) :
    progressAt totalFiles idx counts ≤ 100 := by
  have files : (0 : ℚ) < totalFiles := by
    exact_mod_cast Nat.zero_lt_of_lt inside
  have before : (idx + 1 : ℚ) ≤ totalFiles := by exact_mod_cast inside
  have share := counted.share_le_one
  rw [progressAt_eq, mul_div_assoc', div_le_iff₀ files]
  nlinarith

/-- The progress of an earlier file is no larger. -/
theorem progressAt_le_of_lt (inside : idx < totalFiles)
    (earlier : idx < other) (counted : Counted counts) :
    progressAt totalFiles idx counts ≤
      progressAt totalFiles other otherCounts := by
  rw [progressAt_le_iff (Nat.zero_lt_of_lt inside)]
  have before : (idx + 1 : ℚ) ≤ other := by exact_mod_cast earlier
  have share := counted.share_le_one
  have otherShare := share_nonneg otherCounts
  linarith

/-- The progress of a later file is no larger only when the two meet. -/
theorem progressAt_le_of_gt (inside : idx < totalFiles)
    (later : idx < other) (counted : Counted counts)
    (otherCounted : Counted otherCounts) :
    progressAt totalFiles other otherCounts ≤
        progressAt totalFiles idx counts ↔
      other = idx + 1 ∧ otherCounts.1 = 0 ∧ counts.1 = counts.2 := by
  rw [progressAt_le_iff (Nat.zero_lt_of_lt inside)]
  have positive : (0 : ℚ) < counts.2 := by exact_mod_cast counted.positive
  have otherPositive : (0 : ℚ) < otherCounts.2 := by
    exact_mod_cast otherCounted.positive
  have share := counted.share_le_one
  have otherShare := share_nonneg otherCounts
  constructor
  · intro above
    have next : other = idx + 1 := by
      have atMost : (other : ℚ) ≤ idx + 1 := by linarith
      have : other ≤ idx + 1 := by exact_mod_cast atMost
      omega
    have cast : (other : ℚ) = idx + 1 := by exact_mod_cast next
    have none : (otherCounts.1 / otherCounts.2 : ℚ) = 0 := by linarith
    have all : (counts.1 / counts.2 : ℚ) = 1 := by linarith
    refine ⟨next, ?_, ?_⟩
    · rw [div_eq_zero_iff] at none
      exact_mod_cast none.resolve_right otherPositive.ne'
    · rw [div_eq_one_iff_eq positive.ne'] at all
      exact_mod_cast all
  · rintro ⟨rfl, none, all⟩
    have same : (counts.1 / counts.2 : ℚ) = 1 := by
      rw [all, div_self positive.ne']
    rw [none, same]
    push_cast
    simp

end Values

/-! ## Runs -/

namespace RepositoryDownload

variable {download next : RepositoryDownload} {event : StreamEvent}

/-- What a file has recorded last. -/
def recordedAt (download : RepositoryDownload) (idx : Nat) :
    Option (Nat × Nat) :=
  download.files[idx]?.bind FileStream.recorded

/-- The recorded counts are within their bodies, and the progress is the
largest of the recorded values. -/
structure Inv (download : RepositoryDownload) : Prop where
  counted : ∀ idx, ∀ counts ∈ download.recordedAt idx, Counted counts
  above : ∀ idx, ∀ counts ∈ download.recordedAt idx,
    progressAt download.totalFiles idx counts ≤ download.task.progress
  attained : download.task = .new ∨
    ∃ idx counts, download.recordedAt idx = some counts ∧
      download.task.progress = progressAt download.totalFiles idx counts
  within : ∀ total ∈ download.task.totalSize,
    download.task.downloadedSize ≤ total

theorem lt_of_recordedAt {idx : Nat} {counts : Nat × Nat}
    (recorded : download.recordedAt idx = some counts) :
    idx < download.totalFiles := by
  obtain ⟨file, isFile, -⟩ := Option.bind_eq_some_iff.mp recorded
  exact (List.getElem?_eq_some_iff.mp isFile).1

/-- The progress lies between zero and one hundred. -/
theorem Inv.progress_bounds (inv : Inv download) :
    0 ≤ download.task.progress ∧ download.task.progress ≤ 100 := by
  rcases inv.attained with isNew | ⟨idx, counts, recorded, attained⟩
  · rw [isNew]
    exact ⟨le_refl 0, by norm_num [TaskProgress.new]⟩
  · rw [attained]
    exact ⟨progressAt_nonneg, progressAt_le_hundred
      (lt_of_recordedAt recorded) (inv.counted idx counts recorded)⟩

theorem inv_new (totalFiles : Nat) : Inv (new totalFiles) := by
  have nothing (idx : Nat) (counts : Nat × Nat) :
      counts ∉ (new totalFiles).recordedAt idx := by
    intro recorded
    obtain ⟨file, isFile, written⟩ := Option.bind_eq_some_iff.mp recorded
    obtain rfl := List.eq_of_mem_replicate (List.mem_of_getElem? isFile)
    cases written
  exact {
    counted := fun idx counts recorded =>
      absurd recorded (nothing idx counts)
    above := fun idx counts recorded => absurd recorded (nothing idx counts)
    attained := .inl rfl
    within := fun _ mem => absurd mem (Option.not_mem_none _) }

/-- A file that records nothing new leaves the records as they are. -/
theorem recordedAt_set {idx : Nat} {file changed : FileStream}
    (isFile : download.files[idx]? = some file)
    (same : changed.recorded = file.recorded) (task : TaskProgress) :
    (⟨download.files.set idx changed, task⟩ : RepositoryDownload).recordedAt =
      download.recordedAt := by
  funext other
  unfold recordedAt
  by_cases here : idx = other
  · subst here
    have inside := (List.getElem?_eq_some_iff.mp isFile).1
    rw [List.getElem?_set_self inside, isFile]
    exact same
  · rw [List.getElem?_set_ne here]

theorem recorded_finish {file finished : FileStream}
    (finishes : file.finish = some finished) :
    finished.recorded = file.recorded := by
  cases file with
  | queued => cases finishes
  | finished body => cases finishes
  | requested =>
      cases finishes
      rfl
  | receiving body =>
      cases finishes
      rcases body with ⟨_ | total, _ | ⟨chunk, chunks⟩⟩ <;> rfl

theorem recorded_receiving {body : StreamedBody} {total length : Nat}
    (known : body.totalSize = some total) :
    (FileStream.receiving (body.received length)).recorded =
      some (body.downloaded + length, total) := by
  obtain ⟨_, chunks⟩ := body
  cases known
  cases chunks <;>
    simp [StreamedBody.received, StreamedBody.downloaded,
      FileStream.recorded, Nat.add_assoc]

theorem recorded_receiving_none {body : StreamedBody}
    (unknown : body.totalSize = none) :
    (FileStream.receiving body).recorded = none := by
  obtain ⟨_, chunks⟩ := body
  cases unknown
  rfl

theorem recorded_eq_some {body : StreamedBody} {total : Nat}
    {counts : Nat × Nat} (known : body.totalSize = some total)
    (written : (FileStream.receiving body).recorded = some counts) :
    counts = (body.downloaded, total) := by
  obtain ⟨_, chunks⟩ := body
  cases known
  cases chunks with
  | nil => cases written
  | cons chunk chunks => exact (Option.some.inj written).symm

theorem accepting_eq_some {idx length : Nat} {body : StreamedBody}
    (accepted : download.accepting idx length = some body) :
    download.files[idx]? = some (.receiving body) ∧
      body.accepts length = true := by
  unfold accepting at accepted
  split at accepted
  case h_1 received isFile =>
    split at accepted
    case isTrue accepts =>
      cases accepted
      exact ⟨isFile, accepts⟩
    case isFalse => cases accepted
  case h_2 => cases accepted

/-- A step records a chunk of a file of known length, or it leaves the records
and the progress as they are. -/
theorem step_cases (stepTo : download.step event = some next) :
    (∃ idx length body total, event = .chunk idx length ∧
      download.accepting idx length = some body ∧
      body.totalSize = some total ∧
      next = ⟨download.files.set idx (.receiving (body.received length)),
        progressAt download.totalFiles idx
          (body.downloaded + length, total),
        body.downloaded + length, some total⟩) ∨
    (download.InFileOrder event ∧ next.recordedAt = download.recordedAt ∧
      next.task = download.task ∧
      next.totalFiles = download.totalFiles) := by
  cases event with
  | start =>
      right
      simp only [step] at stepTo
      split at stepTo
      case h_1 => cases stepTo
      case h_2 idx found =>
        split at stepTo
        case isFalse => cases stepTo
        case isTrue =>
          cases stepTo
          refine ⟨trivial, ?_, rfl, List.length_set⟩
          have isFile : download.files[idx]? = some .queued := by
            obtain ⟨inside, isQueued, -⟩ :=
              List.findIdx?_eq_some_iff_getElem.mp found
            rw [List.getElem?_eq_getElem inside]
            exact congrArg some (eq_of_beq isQueued)
          refine recordedAt_set isFile ?_ _
          rfl
  | reply idx contentLength =>
      right
      simp only [step] at stepTo
      split at stepTo
      case h_1 isFile =>
        cases stepTo
        refine ⟨trivial, ?_, rfl, List.length_set⟩
        refine recordedAt_set isFile ?_ _
        cases contentLength <;> rfl
      case h_2 => cases stepTo
  | chunk idx length =>
      simp only [step, Option.map_eq_some_iff] at stepTo
      obtain ⟨body, accepted, rfl⟩ := stepTo
      cases known : body.totalSize with
      | some total =>
          left
          refine ⟨idx, length, body, total, rfl, accepted, known, ?_⟩
          simp [recordProgress, StreamedBody.received, known,
            StreamedBody.downloaded, progressAt]
      | none =>
          right
          obtain ⟨isFile, -⟩ := accepting_eq_some accepted
          refine ⟨?_, ?_, ?_, List.length_set⟩
          · intro other again total isTotal
            rw [accepted, Option.mem_def, Option.some.injEq] at again
            rw [← again, known] at isTotal
            cases isTotal
          · apply recordedAt_set isFile
            rw [recorded_receiving_none known]
            exact recorded_receiving_none known
          · simp [recordProgress, StreamedBody.received, known]
  | finish idx =>
      right
      simp only [step, Option.map_eq_some_iff] at stepTo
      obtain ⟨finished, finishes, rfl⟩ := stepTo
      obtain ⟨file, isFile, isFinished⟩ :=
        Option.bind_eq_some_iff.mp finishes
      refine ⟨trivial, ?_, rfl, List.length_set⟩
      exact recordedAt_set isFile (recorded_finish isFinished) _

/-- The order of the files, by what each of them has recorded. -/
theorem inFileOrder_chunk_iff {idx length total : Nat} {body : StreamedBody}
    (accepted : download.accepting idx length = some body)
    (known : body.totalSize = some total) :
    download.InFileOrder (.chunk idx length) ↔
      download.task.downloadedSize ≤ body.downloaded + length ∧
        ∀ later, idx < later → ∀ counts ∈ download.recordedAt later,
          later = idx + 1 ∧ counts.1 = 0 ∧
            body.downloaded + length = total := by
  simp only [InFileOrder, accepted, Option.mem_def, Option.some.injEq,
    forall_eq', known]
  refine and_congr_right fun _ => ⟨?_, ?_⟩
  · intro order later isLater counts recorded
    obtain ⟨file, isFile, written⟩ := Option.bind_eq_some_iff.mp recorded
    exact order (file, later) (List.mk_mem_zipIdx_iff_getElem?.mpr isFile)
      isLater counts written
  · rintro order ⟨file, later⟩ isFile isLater counts written
    refine order later isLater counts ?_
    rw [recordedAt, List.mk_mem_zipIdx_iff_getElem?.mp isFile]
    exact written

/-- A chunk moves the progress on exactly when it comes in the order of the
files. -/
theorem Inv.chunk_advances_iff (inv : Inv download) {idx length total : Nat}
    {body : StreamedBody}
    (accepted : download.accepting idx length = some body)
    (known : body.totalSize = some total) :
    download.task.Advances
        ⟨progressAt download.totalFiles idx
            (body.downloaded + length, total),
          body.downloaded + length, some total⟩ ↔
      download.InFileOrder (.chunk idx length) := by
  obtain ⟨isFile, accepts⟩ := accepting_eq_some accepted
  have inside : idx < download.totalFiles :=
    (List.getElem?_eq_some_iff.mp isFile).1
  have counted := StreamedBody.counted_of_accepts accepts known
  rw [inFileOrder_chunk_iff accepted known]
  constructor
  · intro advances
    refine ⟨advances.downloaded_le, ?_⟩
    intro later isLater counts recorded
    have below := (inv.above later counts recorded).trans
      advances.progress_le
    exact (progressAt_le_of_gt inside isLater counted
      (inv.counted later counts recorded)).mp below
  · rintro ⟨larger, order⟩
    refine ⟨progressAt_nonneg, progressAt_le_hundred inside counted, ?_,
      larger, fun _ isTotal => Option.some.inj isTotal ▸ counted.within⟩
    rcases inv.attained with isNew | ⟨other, counts, recorded, attained⟩
    · rw [isNew]
      exact progressAt_nonneg
    rw [attained]
    rcases Nat.lt_trichotomy other idx with earlier | rfl | later
    · exact progressAt_le_of_lt (lt_of_recordedAt recorded) earlier
        (inv.counted other counts recorded)
    · have written : (FileStream.receiving body).recorded = some counts := by
        simpa [recordedAt, isFile] using recorded
      rw [recorded_eq_some known written,
        progressAt_le_iff (Nat.zero_lt_of_lt inside)]
      push_cast
      gcongr
      exact le_add_of_nonneg_right (Nat.cast_nonneg length)
    · exact (progressAt_le_of_gt inside later counted
        (inv.counted other counts recorded)).mpr
          (order other later counts recorded)

theorem Inv.stepAdvances_iff (inv : Inv download) (event : StreamEvent) :
    download.StepAdvances event ↔ download.InFileOrder event := by
  unfold StepAdvances
  cases stepTo : download.step event with
  | none =>
      refine iff_of_true (fun _ steps => by cases steps) ?_
      cases event with
      | chunk idx length =>
          rw [step, Option.map_eq_none_iff] at stepTo
          intro body accepted
          rw [stepTo] at accepted
          cases accepted
      | _ => trivial
  | some next =>
      simp only [Option.some.injEq, forall_eq']
      rcases step_cases stepTo with
        ⟨idx, length, body, total, rfl, accepted, known, rfl⟩ |
          ⟨order, -, same, -⟩
      · exact inv.chunk_advances_iff accepted known
      · refine iff_of_true ?_ order
        rw [same]
        exact ⟨inv.progress_bounds.1, inv.progress_bounds.2, le_rfl, le_rfl,
          inv.within⟩

theorem Inv.step (inv : Inv download)
    (advances : download.StepAdvances event)
    (stepTo : download.step event = some next) : Inv next := by
  rcases step_cases stepTo with
    ⟨idx, length, body, total, rfl, accepted, known, isNext⟩ |
      ⟨-, records, same, files⟩
  · have moved := advances next stepTo
    obtain ⟨isFile, accepts⟩ := accepting_eq_some accepted
    have inside := (List.getElem?_eq_some_iff.mp isFile).1
    have counted := StreamedBody.counted_of_accepts accepts known
    have files : next.totalFiles = download.totalFiles := by
      rw [isNext]
      exact List.length_set
    have here : next.recordedAt idx =
        some (body.downloaded + length, total) := by
      rw [isNext, recordedAt, List.getElem?_set_self inside]
      exact recorded_receiving known
    have elsewhere (other : Nat) (different : idx ≠ other) :
        next.recordedAt other = download.recordedAt other := by
      rw [isNext, recordedAt, List.getElem?_set_ne different, recordedAt]
    have progress : next.task.progress =
        progressAt next.totalFiles idx
          (body.downloaded + length, total) := by
      rw [files, isNext]
    refine ⟨?_, ?_, .inr ⟨idx, _, here, progress⟩, moved.le_total⟩
    · intro other counts recorded
      by_cases same : idx = other
      · subst same
        rw [here] at recorded
        exact Option.some.inj recorded ▸ counted
      · rw [elsewhere other same] at recorded
        exact inv.counted other counts recorded
    · intro other counts recorded
      by_cases same : idx = other
      · subst same
        rw [here] at recorded
        rw [progress, Option.some.inj recorded]
      · rw [elsewhere other same] at recorded
        rw [files]
        exact (inv.above other counts recorded).trans moved.progress_le
  · refine ⟨?_, ?_, ?_, ?_⟩
    · rw [records]
      exact inv.counted
    · rw [records, same, files]
      exact inv.above
    · rw [records, same, files]
      exact inv.attained
    · rw [same]
      exact inv.within

/-- The streams of a repository move the progress on throughout a run exactly
when all chunks of known length come in the order of the files. -/
theorem meets_stepAdvances_iff (totalFiles : Nat)
    (events : List StreamEvent) :
    Meets step StepAdvances (new totalFiles) events ↔
      Meets step InFileOrder (new totalFiles) events :=
  meets_congr_of_invariant Inv
    (fun _ event inv => inv.stepAdvances_iff event)
    (fun _ _ _ inv advances stepTo => inv.step advances stepTo)
    (inv_new totalFiles) events

end RepositoryDownload

namespace UrlDownload

variable {download next : UrlDownload} {length : Nat}

/-- Nothing has been recorded, or what has come in. -/
def Inv (download : UrlDownload) : Prop :=
  download.task = .new ∨
    ∃ total, download.body.totalSize = some total ∧
      Counted (download.body.downloaded, total) ∧
      download.task = ⟨download.body.downloaded / total * 100,
        download.body.downloaded, some total⟩

/-- What the invariant says of the progress. -/
theorem Inv.advances_self (inv : Inv download) :
    download.task.Advances download.task := by
  rcases inv with isNew | ⟨total, -, counted, same⟩
  · rw [isNew]
    exact ⟨le_rfl, by norm_num [TaskProgress.new], le_rfl, le_rfl,
      fun _ mem => absurd mem (Option.not_mem_none _)⟩
  · have share := counted.share_le_one
    rw [same]
    exact ⟨by positivity, by linarith, le_rfl, le_rfl,
      fun _ isTotal => Option.some.inj isTotal ▸ counted.within⟩

/-- A chunk of the only stream moves the progress on. -/
theorem Inv.step (inv : Inv download)
    (stepTo : download.step length = some next) :
    Inv next ∧ download.task.Advances next.task := by
  unfold UrlDownload.step at stepTo
  split at stepTo
  case isFalse => cases stepTo
  case isTrue accepts =>
    cases stepTo
    have received : (download.body.received length).downloaded =
        download.body.downloaded + length := by
      simp [StreamedBody.received, StreamedBody.downloaded]
    cases known : download.body.totalSize with
    | none =>
        have same : download.recordProgress (download.body.received length) =
            download.task := by
          simp [recordProgress, StreamedBody.received, known]
        have isNew : download.task = .new := inv.resolve_right fun recorded =>
          by simp [known] at recorded
        rw [same]
        exact ⟨.inl isNew, inv.advances_self⟩
    | some total =>
        have counted := StreamedBody.counted_of_accepts accepts known
        have written :
            download.recordProgress (download.body.received length) =
              ⟨(download.body.downloaded + length : Nat) / total * 100,
                download.body.downloaded + length, some total⟩ := by
          unfold recordProgress
          rw [show (download.body.received length).totalSize = some total
            from known, received]
        refine ⟨.inr ⟨total, known, ?_, ?_⟩, ?_⟩
        · rw [received]
          exact counted
        · rw [received]
          exact written
        · have share := counted.share_le_one
          rw [written]
          refine ⟨by positivity, by linarith, ?_, ?_,
            fun _ isTotal => Option.some.inj isTotal ▸ counted.within⟩
          · rcases inv with isNew | ⟨other, isOther, -, same⟩
            · rw [isNew]
              show (0 : ℚ) ≤ _
              positivity
            · obtain rfl := Option.some.inj (known.symm.trans isOther)
              rw [same]
              show (download.body.downloaded / total * 100 : ℚ) ≤
                (download.body.downloaded + length : Nat) / total * 100
              push_cast
              gcongr
              exact le_add_of_nonneg_right (Nat.cast_nonneg length)
          · rcases inv with isNew | ⟨other, isOther, -, same⟩
            · rw [isNew]
              exact Nat.zero_le _
            · rw [same]
              exact Nat.le_add_right _ _

end UrlDownload

/-- The progress of a download of any number of files moves on throughout a run
exactly when all chunks of known length come in the order of the files; the one
stream of a URL always moves it on. -/
theorem progress_advances_iff_inFileOrder (totalFiles : Nat)
    (events : List StreamEvent) (contentLength : Option Nat)
    (lengths : List Nat) :
    (Meets RepositoryDownload.step RepositoryDownload.StepAdvances
        (.new totalFiles) events ↔
      Meets RepositoryDownload.step RepositoryDownload.InFileOrder
        (.new totalFiles) events) ∧
    Meets UrlDownload.step UrlDownload.StepAdvances (.new contentLength)
      lengths :=
  ⟨RepositoryDownload.meets_stepAdvances_iff totalFiles events,
    meets_of_invariant
      (fun _ _ _ inv _ stepTo => (UrlDownload.Inv.step inv stepTo).1)
      (fun _ _ inv _ _ stepTo => (UrlDownload.Inv.step inv stepTo).2)
      (.inl rfl) (meets_of_forall (fun _ _ => trivial) _ lengths)⟩

/-- Two files of ten bytes: half of the second comes in, then half of the
first. -/
def overtakenFile : List StreamEvent :=
  [.start, .start, .reply 0 (some 10), .reply 1 (some 10), .chunk 1 5,
    .chunk 0 5]

/-- The progress falls from 75 back to 25. -/
theorem overtakenFile_falls_back :
    ¬ ∀ (totalFiles : Nat) (events : List StreamEvent),
      Meets RepositoryDownload.step RepositoryDownload.StepAdvances
        (.new totalFiles) events := by
  intro always
  have order := (RepositoryDownload.meets_stepAdvances_iff 2 _).mp
    (always 2 overtakenFile)
  exact absurd order (by decide)

end TorchInference
