import TorchInference.SlruVictims

/-!
# Expired entries of the response cache

Entries that have expired stay in the map until a call touches their key or
they are cleaned up, and they count against its capacity.  They are no
candidates of an eviction, so one of them makes room for a new key only when
no other entry is left.
-/

namespace TorchInference

open TransitionRuns

namespace Cache

variable {Value : Type} {cache : Cache Value} {choice : EvictionChoice}
  {key : String}

/-- Room for a new key is made at the expense of an expired entry. -/
def DropsExpired (cache : Cache Value) (key : String) (value : Value)
    (ttl : UInt64) (choice : EvictionChoice) (now : UInt64) : Prop :=
  let after := (cache.set key value ttl choice now).data
  (∀ other entry, cache.Unexpired choice.now other entry →
      after.lookup other = some entry) ∧
    ∃ other entry, cache.data.lookup other = some entry ∧
      entry.isExpiredAt choice.now = true ∧ other ∉ after

theorem candidates_eq_nil (possible : cache.Possible choice) :
    cache.candidates choice = [] ↔ cache.unexpired choice.now = [] := by
  obtain ⟨enough, -, ordered, -, -⟩ := possible
  have size : choice.sampleSize * 2 ≠ 0 := by omega
  rw [candidates, List.map_eq_nil_iff, List.take_eq_nil_iff,
    or_iff_right size, ← List.map_eq_nil_iff, walk_unexpired,
    ← List.length_eq_zero_iff, (ordered.filter _).length_eq,
    List.length_eq_zero_iff]
  rfl

theorem unexpired_of_candidate {found : EvictCandidate}
    (isCandidate : found ∈ cache.candidates choice) :
    ∃ entry, cache.Unexpired choice.now found.key entry := by
  obtain ⟨walked, mem, rfl⟩ := List.mem_map.mp isCandidate
  obtain ⟨mem, isUnexpired⟩ := List.mem_filter.mp (List.mem_of_mem_take mem)
  exact ⟨walked.2, (mem_walk mem).2, by simpa using isUnexpired⟩

/-- What a full cache evicts for a new key is gone after the key is set. -/
theorem not_mem_set (full : cache.maxSize ≤ cache.size)
    (isNew : key ∉ cache.data) {evicted : String}
    (evicts : (cache.evictLru choice).data = cache.data.erase evicted)
    (wasThere : evicted ∈ cache.data) (value : Value) (ttl now : UInt64) :
    evicted ∉ (cache.set key value ttl choice now).data := by
  have room : cache.makeRoom key choice = cache.evictLru choice :=
    if_pos ⟨full, isNew⟩
  simp only [set, room, evicts, AList.mem_insert, AList.mem_erase]
  rintro (rfl | ⟨other, -⟩)
  · exact isNew wasThere
  · exact other rfl

/-- A set of a new key at capacity drops an expired entry exactly when all
entries are expired. -/
theorem set_dropsExpired_iff {cache : Cache Value} {choice : EvictionChoice}
    {key : String} {value : Value} {ttl now : UInt64}
    (possible : cache.Possible choice) (full : cache.maxSize ≤ cache.size)
    (isNew : key ∉ cache.data)
    (dead : ∃ other entry, cache.data.lookup other = some entry ∧
      entry.isExpiredAt choice.now = true) :
    cache.DropsExpired key value ttl choice now ↔
      cache.unexpired choice.now = [] := by
  constructor
  · rintro ⟨kept, -⟩
    by_contra live
    have nonempty : choice.shuffled ≠ [] := by
      intro empty
      have noCandidates := possible.2.2.2.1.symm
      rw [empty] at noCandidates
      exact live ((candidates_eq_nil possible).mp noCandidates.eq_nil)
    cases isVictim : EvictCandidate.victim choice.shuffled with
    | none => exact victim_ne_none nonempty isVictim
    | some found =>
        obtain ⟨entry, isUnexpired⟩ := unexpired_of_candidate
          (possible.2.2.2.1.mem_iff.mp (victim_mem isVictim))
        have evicts : (cache.evictLru choice).data =
            cache.data.erase found.key := by
          simp only [evictLru, if_neg nonempty, isVictim]
          rfl
        exact not_mem_set full isNew evicts (mem_of_lookup isUnexpired.1)
          value ttl now (mem_of_lookup (kept found.key entry isUnexpired))
  · intro noneLive
    have expired : ∀ other entry, ¬cache.Unexpired choice.now other entry := by
      intro other entry isUnexpired
      have member := mem_unexpired.mpr ⟨entry, isUnexpired⟩
      rw [noneLive] at member
      cases member
    refine ⟨fun other entry isUnexpired =>
      absurd isUnexpired (expired other entry), ?_⟩
    rcases evictLru_data possible with ⟨evicted, wasThere, evicts⟩ | ⟨empty, -⟩
    · obtain ⟨entry, isEntry⟩ := Option.isSome_iff_exists.mp
        (AList.lookup_isSome.mpr wasThere)
      refine ⟨evicted, entry, isEntry, ?_,
        not_mem_set full isNew evicts wasThere value ttl now⟩
      exact Bool.of_not_eq_false fun live => expired evicted entry ⟨isEntry, live⟩
    · obtain ⟨other, entry, isEntry, -⟩ := dead
      have isKey := AList.mem_keys.mp (mem_of_lookup isEntry)
      rw [empty] at isKey
      cases isKey

/-- Two entries that expire early. -/
def bothExpired : Cache JsonValue :=
  let unused : EvictionChoice := ⟨0, 20, [], [], []⟩
  ((Cache.new 2).set "a" (.number (.posInt 1)) 1 unused 0).set "b"
    (.number (.posInt 2)) 1 unused 0

theorem bothExpired_dropsExpired :
    bothExpired.DropsExpired "new" .null 100
      ⟨5, 20, ["a", "b"], [], ["a", "b"]⟩ 5 := by
  have possible : bothExpired.Possible
      ⟨5, 20, ["a", "b"], [], ["a", "b"]⟩ := by decide +kernel
  exact (set_dropsExpired_iff possible (by decide +kernel) (by decide +kernel)
    ⟨"a", _, rfl, by decide +kernel⟩).mpr (by decide +kernel)

end Cache

namespace CacheHistory

/-- `old` has expired when `live` is set. -/
def oldAndLive : List (CacheAction JsonValue) :=
  [.set "old" (.number (.posInt 1)) 1 ⟨0, 20, [], [], []⟩ 0,
    .set "live" (.number (.posInt 2)) 100 ⟨5, 20, ["old"], [], ["old"]⟩ 5]

def liveVictim : EvictionChoice :=
  ⟨5, 20, ["old", "live"], [⟨"live", 5, 0, 1⟩], ["old", "live"]⟩

theorem liveEntry_evicted :
    ∃ history, run step (start 2) oldAndLive = some history ∧
      history.cache.Possible liveVictim ∧
      history.cache.maxSize ≤ history.cache.size ∧
      "new" ∉ history.cache.data ∧
      (∃ other entry, history.cache.data.lookup other = some entry ∧
        entry.isExpiredAt liveVictim.now = true) ∧
      ¬history.cache.DropsExpired "new" .null 100 liveVictim 5 := by
  refine ⟨_, rfl, by decide +kernel, by decide +kernel, by decide +kernel,
    ⟨"old", _, rfl, by decide +kernel⟩, ?_⟩
  rintro ⟨kept, -⟩
  have stays := Cache.mem_of_lookup (kept "live" _ ⟨rfl, by decide +kernel⟩)
  revert stays
  decide +kernel

end CacheHistory

end TorchInference
