import Mathlib.Data.List.TakeWhile
import TorchInference.DownloadRequests
import TorchInference.TextLines

/-!
# Pages of a log file

A page is some of the lines of a log file, from its beginning or from its end,
joined by newlines.  The page is counted by reading its lines again, so it says
what it holds exactly when its last line is not blank and no other ends in a
carriage return.

A reader that fails gives an error for every further line and never comes to an
end; loops over the lines of a reader have fuel for a line at a time.
-/

namespace TorchInference

namespace LogFiles

open TextLines LossyUtf8

def newlineByte : UInt8 := 0x0A

def returnByte : UInt8 := 0x0D

/-! ## Readers -/

/-- What has not been read of an open file, and the error of every read behind
it, if reading fails there. -/
structure LineReader where
  unread : List UInt8
  failure : Option String

/-- A line that has been read: its text, unless it is not valid UTF-8. -/
def lineText (line : List UInt8) : Except String (List Char) :=
  match fromUtf8 line with
  | some text => .ok text
  | none => .error "stream did not contain valid UTF-8"

/-- `next` of `BufRead::lines`.  What has been read of a line is lost when the
rest of it cannot be read. -/
def LineReader.next (reader : LineReader) :
    Option (Except String (List Char) × LineReader) :=
  match reader.unread.span (· != newlineByte) with
  | (line, _ :: rest) =>
      some (lineText (stripReturn returnByte line),
        { reader with unread := rest })
  | (line, []) =>
      match reader.failure with
      | some error => some (.error error, { reader with unread := [] })
      | none =>
          if line = [] then none
          else some (lineText line, { reader with unread := [] })

/-- `lines().count()`. -/
def countFrom : Nat → LineReader → Nat → Option Nat
  | 0, _, _ => none
  | fuel + 1, reader, count =>
      match reader.next with
      | none => some count
      | some (_, reader) => countFrom fuel reader (count + 1)

/-- `lines().collect::<io::Result<Vec<_>>>()`, which stops at an error. -/
def collectFrom : Nat → LineReader → List (List Char) →
    Option (Except String (List (List Char)))
  | 0, _, _ => none
  | fuel + 1, reader, read =>
      match reader.next with
      | none => some (.ok read)
      | some (.ok line, reader) => collectFrom fuel reader (read ++ [line])
      | some (.error error, _) => some (.error error)

/-- `read_to_string`. -/
def LineReader.readToString (reader : LineReader) :
    Except String (List Char) :=
  match reader.failure with
  | some error => .error error
  | none => lineText reader.unread

/-! ## The handlers -/

/-- `count_lines`, of what opening the path gives. -/
def countLines (fuel : Nat) (opened : Except String LineReader) :
    Option (Except String Nat) :=
  match opened with
  | .error error => some (.error error)
  | .ok reader => (countFrom fuel reader 0).map .ok

/-- The lines that `read_lines_from_file` selects. -/
def selectLines {Line : Type*} (allLines : List Line) (lines : Nat)
    (fromEnd : Bool) : List Line :=
  if fromEnd then
    if lines < allLines.length then allLines.drop (allLines.length - lines)
    else allLines
  else
    if lines < allLines.length then allLines.take lines else allLines

def readLinesFromFile (fuel : Nat) (opened : Except String LineReader)
    (lines : Int32) (fromEnd : Bool) : Option (Except ApiError (List Char)) :=
  match opened with
  | .error error =>
      some (.error (.internalError s!"Failed to open file: {error}"))
  | .ok reader =>
      (collectFrom fuel reader []).map fun collected =>
        match collected with
        | .error error =>
            .error (.internalError s!"Failed to read lines: {error}")
        | .ok allLines =>
            .ok (join '\n' (selectLines allLines lines.toInt.toNat fromEnd))

def containsText (text part : List Char) : Bool :=
  decide (part <:+: text)

def isValidLogFilename (filename : List Char) : Bool :=
  containsText filename ".log".toList && !filename.contains '/' &&
    !filename.contains '\\' && !containsText filename "..".toList

structure LogFileQuery where
  lines : Option Int32
  fromEnd : Option Bool

structure LogFileContent where
  fileName : List Char
  content : List Char
  lineCount : Nat
  totalLines : Nat
  fromEnd : Bool

/-- `get_log_file`; `find` says what opening a file of the logs directory gives,
if it is there. -/
def getLogFile (find : List Char → Option (Except String LineReader))
    (logFile : List Char) (query : LogFileQuery) (fuel : Nat) :
    Option (Except ApiError LogFileContent) :=
  let lines := query.lines.getD 100
  let fromEnd := query.fromEnd.getD true
  if !isValidLogFilename logFile then
    some (.error (.badRequest "Invalid log file name"))
  else
    match find logFile with
    | none =>
        some (.error (.notFound
          s!"Log file not found: {String.ofList logFile}"))
    | some opened =>
        let reading :=
          if lines ≤ 0 then
            some ((opened.bind LineReader.readToString).mapError fun error =>
              ApiError.internalError s!"Failed to read log file: {error}")
          else readLinesFromFile fuel opened lines fromEnd
        match reading with
        | none => none
        | some (.error error) => some (.error error)
        | some (.ok content) =>
            (countLines fuel opened).map fun counted => .ok {
              fileName := logFile
              content := content
              lineCount := (TextLines.lines '\n' '\r' content).length
              totalLines := counted.toOption.getD 0
              fromEnd := fromEnd }

/-! ## Reading a file to its end -/

/-- A reader of a file whose reads do not fail. -/
def ofBytes (bytes : List UInt8) : LineReader :=
  ⟨bytes, none⟩

/-- The next line of a file is its first one, and the other lines are behind
it. -/
theorem next_ofBytes (bytes : List UInt8) :
    ((ofBytes bytes).next = none ∧
        lines newlineByte returnByte bytes = []) ∨
      ∃ line rest,
        (ofBytes bytes).next = some (lineText line, ofBytes rest) ∧
        lines newlineByte returnByte bytes =
          line :: lines newlineByte returnByte rest := by
  have front : ∀ byte ∈ bytes.takeWhile (· != newlineByte),
      byte ≠ newlineByte := by
    intro byte mem
    simpa using List.mem_takeWhile_imp mem
  have free : newlineByte ∉ bytes.takeWhile (· != newlineByte) :=
    fun mem => front newlineByte mem rfl
  have whole := List.takeWhile_append_dropWhile (p := (· != newlineByte))
    (l := bytes)
  unfold LineReader.next ofBytes
  rw [List.span_eq_takeWhile_dropWhile]
  cases behind : bytes.dropWhile (· != newlineByte) with
  | nil =>
      rw [behind, List.append_nil] at whole
      rw [whole] at free ⊢
      rw [lines_of_not_mem free]
      by_cases empty : bytes = []
      · left
        simp [empty]
      · right
        exact ⟨bytes, [], by simp [empty], by rw [if_neg empty]; rfl⟩
  | cons byte rest =>
      right
      have isNewline : byte = newlineByte := by
        have head := List.head?_dropWhile_not (· != newlineByte) bytes
        rw [behind] at head
        simpa using head
      rw [behind, isNewline] at whole
      refine ⟨_, rest, rfl, ?_⟩
      rw [← lines_piece free, whole]

/-- Counting the lines of a file takes a unit of fuel for each, and one more. -/
theorem countFrom_ofBytes (fuel : Nat) (bytes : List UInt8) (count : Nat) :
    countFrom fuel (ofBytes bytes) count =
      if (lines newlineByte returnByte bytes).length < fuel then
        some (count + (lines newlineByte returnByte bytes).length)
      else none := by
  induction fuel generalizing bytes count with
  | zero => simp [countFrom]
  | succ fuel ih =>
      rcases next_ofBytes bytes with ⟨ends, empty⟩ | ⟨line, rest, next, same⟩
      · simp [countFrom, ends, empty]
      · simp only [countFrom, next, ih, same, List.length_cons,
          Nat.succ_lt_succ_iff]
        split_ifs
        · congr 1
          omega
        · rfl

theorem lineText_encode (text : List Char) :
    lineText (encode text) = .ok text := by
  rw [lineText, fromUtf8_encode]

/-- Collecting the lines of a valid file gives their texts. -/
theorem collectFrom_ofBytes (fuel : Nat) (bytes : List UInt8)
    (texts read : List (List Char))
    (valid : lines newlineByte returnByte bytes = texts.map encode) :
    collectFrom fuel (ofBytes bytes) read =
      if texts.length < fuel then some (.ok (read ++ texts)) else none := by
  induction fuel generalizing bytes texts read with
  | zero => simp [collectFrom]
  | succ fuel ih =>
      rcases next_ofBytes bytes with ⟨ends, empty⟩ | ⟨line, rest, next, same⟩
      · rw [empty, eq_comm, List.map_eq_nil_iff] at valid
        simp [collectFrom, ends, valid]
      · rw [same, eq_comm, List.map_eq_cons_iff] at valid
        obtain ⟨text, later, rfl, rfl, others⟩ := valid
        simp only [collectFrom, next, lineText_encode,
          ih rest later (read ++ [text]) others.symm, List.length_cons,
          Nat.succ_lt_succ_iff, List.append_assoc, List.singleton_append]

/-- The lines of a text. -/
def textLines (text : List Char) : List (List Char) :=
  lines '\n' '\r' text

theorem lines_encode_text (text : List Char) :
    lines newlineByte returnByte (encode text) =
      (textLines text).map encode :=
  lines_encode (by decide) (by decide) text

/-! ## Pages -/

/-- The first or last lines of a file, as many as there are up to a number. -/
def window {Line : Type*} (allLines : List Line) (n : Nat) (fromEnd : Bool) :
    List Line :=
  if fromEnd then allLines.drop (allLines.length - n) else allLines.take n

theorem selectLines_eq_window {Line : Type*} (allLines : List Line) (n : Nat)
    (fromEnd : Bool) :
    selectLines allLines n fromEnd = window allLines n fromEnd := by
  unfold selectLines window
  cases fromEnd with
  | true =>
      by_cases more : n < allLines.length
      · simp [more]
      · have all : allLines.length - n = 0 := by omega
        simp [more, all]
  | false =>
      by_cases more : n < allLines.length
      · simp [more]
      · simp [more, List.take_of_length_le (Nat.le_of_not_lt more)]

theorem length_window {Line : Type*} (allLines : List Line) (n : Nat)
    (fromEnd : Bool) :
    (window allLines n fromEnd).length = min n allLines.length := by
  cases fromEnd with
  | true =>
      simp only [window, if_true, List.length_drop]
      omega
  | false => simp [window]

theorem mem_of_mem_window {Line : Type*} {allLines : List Line} {n : Nat}
    {fromEnd : Bool} {line : Line} (mem : line ∈ window allLines n fromEnd) :
    line ∈ allLines := by
  cases fromEnd with
  | true => exact List.mem_of_mem_drop mem
  | false => exact List.mem_of_mem_take mem

/-- A page has the first or last lines of the file, and says how many it has and
how many there are. -/
structure PagesExactly (text : List Char) (n : Nat) (fromEnd : Bool)
    (page : LogFileContent) : Prop where
  totalLines : page.totalLines = (textLines text).length
  lineCount : page.lineCount = min n (textLines text).length
  content : textLines page.content = window (textLines text) n fromEnd

/-- The page of a valid file. -/
def pageOf (logFile text : List Char) (n : Nat) (fromEnd : Bool) :
    LogFileContent :=
  let content := join '\n' (window (textLines text) n fromEnd)
  ⟨logFile, content, (textLines content).length, (textLines text).length,
    fromEnd⟩

/-- The page is exact when the lines in it are read back. -/
theorem pagesExactly_pageOf_iff (logFile text : List Char) (n : Nat)
    (fromEnd : Bool) :
    PagesExactly text n fromEnd (pageOf logFile text n fromEnd) ↔
      ReadsBack '\r' (window (textLines text) n fromEnd) := by
  have free : ∀ line ∈ window (textLines text) n fromEnd, '\n' ∉ line :=
    fun line mem => newline_not_mem_lines (mem_of_mem_window mem)
  rw [← lines_join_eq_iff free]
  constructor
  · exact PagesExactly.content
  · intro back
    exact ⟨rfl, (congrArg List.length back).trans
      (length_window (textLines text) n fromEnd), back⟩

section Handler

variable {find : List Char → Option (Except String LineReader)}
  {logFile text : List Char} {query : LogFileQuery}

/-- The handler returns the page once it has fuel for the lines. -/
theorem getLogFile_eq (valid : isValidLogFilename logFile = true)
    (present : find logFile = some (.ok (ofBytes (encode text))))
    (positive : 0 < query.lines.getD 100) (fuel : Nat) :
    getLogFile find logFile query fuel =
      if (textLines text).length < fuel then
        some (.ok (pageOf logFile text (query.lines.getD 100).toInt.toNat
          (query.fromEnd.getD true)))
      else none := by
  have someLines : ¬ query.lines.getD 100 ≤ 0 := Int32.not_le.mpr positive
  have counts := countFrom_ofBytes fuel (encode text) 0
  rw [lines_encode_text, List.length_map, Nat.zero_add] at counts
  have collects := collectFrom_ofBytes fuel (encode text) (textLines text) []
    (lines_encode_text text)
  simp only [getLogFile, valid, Bool.not_true, Bool.false_eq_true, if_false,
    present, someLines, readLinesFromFile, collects, countLines, counts,
    List.nil_append]
  by_cases enough : (textLines text).length < fuel
  · simp only [if_pos enough, Option.map_some, selectLines_eq_window]
    rfl
  · simp only [if_neg enough, Option.map_none]

/-- The page of a valid log file is exact exactly when the last of its lines is
not blank and none of the others ends in a carriage return. -/
theorem pagesExactly_iff_readsBack
    (valid : isValidLogFilename logFile = true)
    (present : find logFile = some (.ok (ofBytes (encode text))))
    (positive : 0 < query.lines.getD 100) :
    (∃ fuel page, getLogFile find logFile query fuel = some (.ok page) ∧
        PagesExactly text (query.lines.getD 100).toInt.toNat
          (query.fromEnd.getD true) page) ↔
      ReadsBack '\r' (window (textLines text)
        (query.lines.getD 100).toInt.toNat (query.fromEnd.getD true)) := by
  rw [← pagesExactly_pageOf_iff logFile]
  constructor
  · rintro ⟨fuel, page, returns, exact⟩
    rw [getLogFile_eq valid present positive] at returns
    split at returns
    · cases returns
      exact exact
    · cases returns
  · intro exact
    refine ⟨(textLines text).length + 1, _, ?_, exact⟩
    rw [getLogFile_eq valid present positive, if_pos (Nat.lt_succ_self _)]

end Handler

/-- A logs directory with one file. -/
def singleFile (text : String) (name : List Char) :
    Option (Except String LineReader) :=
  if name = "server.log".toList then some (.ok (ofBytes (encode text.toList)))
  else none

theorem singleFile_pagesExactly :
    isValidLogFilename "server.log".toList = true ∧
      ((∃ fuel page, getLogFile (singleFile "a\nb\n") "server.log".toList
          ⟨some 1, none⟩ fuel = some (.ok page) ∧
          PagesExactly "a\nb\n".toList 1 true page) ↔
        ReadsBack '\r' (window (textLines "a\nb\n".toList) 1 true)) :=
  ⟨by decide, pagesExactly_iff_readsBack (by decide) rfl (by decide)⟩

/-- The page of a file with a blank line at the end has no line. -/
theorem blankLine_not_pagesExactly :
    ¬ ∀ (find : List Char → Option (Except String LineReader))
      (logFile text : List Char) (query : LogFileQuery),
      isValidLogFilename logFile = true →
      find logFile = some (.ok (ofBytes (encode text))) →
      0 < query.lines.getD 100 →
      ∃ fuel page, getLogFile find logFile query fuel = some (.ok page) ∧
        PagesExactly text (query.lines.getD 100).toInt.toNat
          (query.fromEnd.getD true) page := by
  intro always
  obtain ⟨fuel, page, returns, exact⟩ := always (singleFile "a\n\n")
    "server.log".toList "a\n\n".toList ⟨some 1, none⟩ (by decide) rfl
    (by decide)
  rw [getLogFile_eq (by decide) rfl (by decide)] at returns
  split at returns
  · cases returns
    exact absurd exact.content (by decide)
  · cases returns

end LogFiles

end TorchInference
