import Mathlib.Data.Char
import Mathlib.Data.List.Lex
import TorchInference.LogFiles

/-!
# The overview of the log files

The overview lists every entry of the logs directory with `.log` in its name and
counts its lines.  Errors of a reader count as lines too, so the count comes to
an end only if the reads of each listed entry do: a directory can be opened, and
then every read of it fails in the same way.
-/

namespace TorchInference

namespace LogFiles

open LossyUtf8

structure LogMetadata where
  size : UInt64
  /-- The formatted time, if there is one. -/
  modified : Option String

/-- An entry of the logs directory: its name, what is read about it, and what
opening it gives. -/
structure LogEntry where
  name : List UInt8
  metadata : Option LogMetadata
  opened : Except String LineReader

structure LogDirectory where
  present : Bool
  isDir : Bool
  listing : Except String (List (Except String LogEntry))

/-- The entries that are looked at. -/
def LogDirectory.entries (logDir : LogDirectory) : List LogEntry :=
  if logDir.present && logDir.isDir then
    match logDir.listing with
    | .error _ => []
    | .ok entries => entries.filterMap Except.toOption
  else []

/-- Opening the entry fails, or the reads come to the end of a file. -/
def LogEntry.Ends (entry : LogEntry) : Prop :=
  ∀ reader, entry.opened = .ok reader → reader.failure = none

/-- The lines of an entry that ends are counted with some fuel, and with
more. -/
theorem LogEntry.Ends.countLines {entry : LogEntry} (ends : entry.Ends) :
    ∃ least, ∀ fuel, least ≤ fuel →
      (countLines fuel entry.opened).isSome = true := by
  cases isOpen : entry.opened with
  | error error => exact ⟨0, fun _ _ => rfl⟩
  | ok reader =>
      have whole : reader = ofBytes reader.unread := by
        rw [ofBytes, ← ends reader isOpen]
      refine ⟨(TextLines.lines newlineByte returnByte
        reader.unread).length + 1, fun fuel enough => ?_⟩
      rw [LogFiles.countLines, whole, countFrom_ofBytes]
      rw [if_pos (Nat.lt_of_succ_le enough)]
      rfl

end LogFiles

end TorchInference
