import Mathlib.Data.UInt

/-!
# Admission by resident memory

The gate refuses requests once the resident memory of the process exceeds the
high-water mark, and admits them again only below the low-water mark.
-/

namespace TorchInference

structure MemoryRefusal where
  rssMb : UInt64
  hwMb : UInt64
  deriving DecidableEq

def MemoryRefusal.toText (refusal : MemoryRefusal) : String :=
  s!"memory pressure: RSS {refusal.rssMb} MB > high_water {refusal.hwMb} MB"

structure MemoryGate where
  highWaterBytes : UInt64
  lowWaterBytes : UInt64
  aboveWater : Bool
  deriving DecidableEq

namespace MemoryGate

/-- `admit`, for the resident memory `rss` it reads. -/
def tryAdmit (gate : MemoryGate) (rss : UInt64) :
    Except MemoryRefusal Unit × MemoryGate :=
  let refusal : MemoryRefusal :=
    ⟨rss / 1024 / 1024, gate.highWaterBytes / 1024 / 1024⟩
  if gate.aboveWater then
    if rss < gate.lowWaterBytes then
      (.ok (), { gate with aboveWater := false })
    else
      (.error refusal, gate)
  else if gate.highWaterBytes < rss then
    (.error refusal, { gate with aboveWater := true })
  else
    (.ok (), gate)

/-- The latch is set by a refusal and cleared by an admission. -/
theorem tryAdmit_aboveWater (gate : MemoryGate) (rss : UInt64) :
    (gate.tryAdmit rss).2.aboveWater = !(gate.tryAdmit rss).1.isOk := by
  unfold tryAdmit
  cases latched : gate.aboveWater with
  | true =>
      simp only [if_true]
      split_ifs
      · rfl
      · exact latched
  | false =>
      simp only [Bool.false_eq_true, if_false]
      split_ifs
      · rfl
      · exact latched

end MemoryGate

end TorchInference
