import Mathlib.Data.ENat.Lattice
import TorchInference.CachedDecoding
import TorchInference.HrmEngine

/-!
# Where a generation stops

One engine looks at the length of the sequence after it has sampled, the other
looks at its cache and the pending positions before it does.  Both stream the
tokens before the first end of sequence, as far as the budget and the context
reach.
-/

namespace TorchInference

/-- How many tokens come before the first one that ends the sequence. -/
noncomputable def tokensBeforeEos (eos : UInt32) (tokens : Nat → Nat) : ℕ∞ :=
  ⨅ i, ⨅ _ : (tokens i).toUInt32 = eos, (i : ℕ∞)

/-- The tokens from step `i` on that are streamed when `k` steps are left. -/
def tokensFrom (eos : UInt32) (tokens : Nat → Nat) (i k : Nat) : List Nat :=
  ((List.range' i k).map tokens).takeWhile fun token => token.toUInt32 != eos

theorem tokensFrom_of_eos {eos : UInt32} {tokens : Nat → Nat} {i : Nat}
    (ends : (tokens i).toUInt32 = eos) (k : Nat) :
    tokensFrom eos tokens i k = [] := by
  cases k with
  | zero => rfl
  | succ k =>
      rw [tokensFrom, List.range'_succ, List.map_cons,
        List.takeWhile_cons_of_neg]
      simp [ends]

theorem tokensFrom_succ {eos : UInt32} {tokens : Nat → Nat} {i : Nat}
    (goesOn : (tokens i).toUInt32 ≠ eos) (k : Nat) :
    tokensFrom eos tokens i (k + 1) =
      tokens i :: tokensFrom eos tokens (i + 1) k := by
  rw [tokensFrom, List.range'_succ, List.map_cons, List.takeWhile_cons_of_pos]
  · rfl
  · simp [goesOn]

/-- What is streamed ends at the number, or before the first end of
sequence. -/
theorem tokensFrom_stops (eos : UInt32) (tokens : Nat → Nat) (k i : Nat) :
    (tokensFrom eos tokens i k).length ≤ k ∧
      (∀ j < (tokensFrom eos tokens i k).length,
        (tokens (i + j)).toUInt32 ≠ eos) ∧
      ((tokensFrom eos tokens i k).length < k →
        (tokens (i + (tokensFrom eos tokens i k).length)).toUInt32 = eos) := by
  induction k generalizing i with
  | zero =>
      exact ⟨Nat.le_refl 0, fun j less => absurd less (Nat.not_lt_zero j),
        fun less => absurd less (Nat.lt_irrefl 0)⟩
  | succ k ih =>
      by_cases ends : (tokens i).toUInt32 = eos
      · rw [tokensFrom_of_eos ends]
        exact ⟨Nat.zero_le _, fun j less => absurd less (Nat.not_lt_zero j),
          fun _ => ends⟩
      · obtain ⟨within, before, stops⟩ := ih (i + 1)
        rw [tokensFrom_succ ends, List.length_cons]
        refine ⟨Nat.succ_le_succ within, ?_, ?_⟩
        · intro j less
          cases j with
          | zero => exact ends
          | succ j =>
              rw [show i + (j + 1) = i + 1 + j by omega]
              exact before j (Nat.lt_of_succ_lt_succ less)
        · intro less
          rw [show ∀ n, i + (n + 1) = i + 1 + n by omega]
          exact stops (Nat.lt_of_succ_lt_succ less)

/-- Before the first end of sequence there are exactly so many tokens. -/
theorem length_tokensFrom (eos : UInt32) (tokens : Nat → Nat) (k : Nat) :
    ((tokensFrom eos tokens 0 k).length : ℕ∞) =
      min (k : ℕ∞) (tokensBeforeEos eos tokens) := by
  obtain ⟨within, before, ends⟩ := tokensFrom_stops eos tokens k 0
  generalize (tokensFrom eos tokens 0 k).length = n at within before ends
  apply le_antisymm
  · apply le_min (Nat.cast_le.mpr within)
    apply le_iInf
    intro i
    apply le_iInf
    intro isEos
    refine Nat.cast_le.mpr (not_lt.mp fun early => before i early ?_)
    rw [Nat.zero_add]
    exact isEos
  · rcases Nat.lt_or_ge n k with less | all
    · apply min_le_of_right_le
      have isEos := ends less
      rw [Nat.zero_add] at isEos
      exact iInf_le_of_le n (iInf_le_of_le isEos le_rfl)
    · exact min_le_of_left_le (Nat.cast_le.mpr all)

/-! ## Events before a token is streamed -/

/-- An event within a number of positions that streams nothing. -/
def EngineEvent.QuietWithin (bound : Nat) (event : EngineEvent) : Prop :=
  event.positions ≤ bound ∧ event.sent? = none

theorem sentOf_of_quiet {bound : Nat} {events : List EngineEvent}
    (quiet : ∀ event ∈ events, event.QuietWithin bound) : sentOf events = [] :=
  List.filterMap_eq_nil_iff.mpr fun event mem => (quiet event mem).2

/-! ## The engine that runs the whole sequence -/

namespace HrmEngine

variable {engine : HrmEngine} {env : GenerationEnv} {temperature : Float32}
  {ids : List Nat}

theorem prefill_quiet {bound : Nat} (within : ids.length ≤ bound) :
    ∀ event ∈ (engine.prefill ids).events, event.QuietWithin bound := by
  unfold prefill
  split_ifs
  · exact Traced.forall_events_fail _
  · exact Traced.forall_events_fail _
  · refine Traced.forall_events_bind (Traced.forall_events_lift _) ?_
    intro input built
    obtain ⟨-, -, rfl⟩ :=
      OrtTensor.fromArray_of_ok (ExceptSteps.mapError_eq_ok built)
    refine Traced.forall_events_bind
      (Traced.forall_events_emit ⟨within, rfl⟩) ?_
    intro _ _
    refine Traced.forall_events_bind (Traced.forall_events_lift _) ?_
    intro logits _
    split_ifs
    · exact Traced.forall_events_fail _
    · cases logits.lastRow with
      | none => exact Traced.forall_events_fail _
      | some row => exact Traced.forall_events_pure row

theorem sampled_quiet {bound i : Nat} (within : ids.length ≤ bound) :
    ∀ event ∈ (engine.sampled env temperature i ids).events,
      event.QuietWithin bound := by
  refine Traced.forall_events_bind (prefill_quiet within) ?_
  intro logits _
  cases Sampling.nextToken (env.draw i) logits ids temperature with
  | none => exact Traced.forall_events_fail _
  | some next => exact Traced.forall_events_pure next

/-- The session never runs on more positions than the context has. -/
theorem completeLoop_positions (n i : Nat)
    (within : ids.length ≤ engine.runtime.ctxSize.toNat) :
    ∀ event ∈ (engine.completeLoop env temperature n i ids).events,
      event.positions ≤ engine.runtime.ctxSize.toNat := by
  induction n generalizing i ids with
  | zero => exact Traced.forall_events_pure _
  | succ n ih =>
      refine Traced.forall_events_bind
        (fun event mem => (sampled_quiet within event mem).1) ?_
      intro next _
      split_ifs with ends full connected
      · exact Traced.forall_events_pure _
      · exact Traced.forall_events_pure _
      · refine Traced.forall_events_bind
          (Traced.forall_events_emit (Nat.zero_le _)) ?_
        intro _ _
        apply ih
        rw [UInt32.le_iff_toNat_le, toNat_toUInt32_of_le within, not_le] at full
        rw [List.length_append, List.length_singleton]
        exact full
      · exact Traced.forall_events_pure _

/-- These are the tokens that are sampled behind a prompt: in each step that
may be reached, the one behind the prompt and the tokens before it. -/
def Samples (engine : HrmEngine) (env : GenerationEnv) (temperature : Float32)
    (ids : List Nat) (m : Nat) (tokens : Nat → Nat) : Prop :=
  ∀ i < m, ids.length + i ≤ engine.runtime.ctxSize.toNat →
    (∀ j < i, (tokens j).toUInt32 ≠ engine.runtime.eosTokenId) →
      (engine.sampled env temperature i
        (ids ++ (List.range i).map tokens)).result = .ok (tokens i)

theorem completeLoop_streams {m : Nat} {tokens : Nat → Nat}
    (samples : engine.Samples env temperature ids m tokens)
    (connected : ∀ i, env.connected i = true) (n i : Nat) (left : i + n = m)
    (within : ids.length + i ≤ engine.runtime.ctxSize.toNat)
    (before : ∀ j < i, (tokens j).toUInt32 ≠ engine.runtime.eosTokenId) :
    (sentOf (engine.completeLoop env temperature n i
      (ids ++ (List.range i).map tokens)).events).map Prod.fst =
      tokensFrom engine.runtime.eosTokenId tokens i
        (min n (engine.runtime.ctxSize.toNat - ids.length - i)) := by
  induction n generalizing i with
  | zero => rw [Nat.zero_min]; rfl
  | succ n ih =>
      have sized : (ids ++ (List.range i).map tokens).length =
          ids.length + i := by
        rw [List.length_append, List.length_map, List.length_range]
      have next := samples i (by omega) within before
      rw [completeLoop, Traced.bind_of_ok next, sentOf_append,
        sentOf_of_quiet (sampled_quiet (Nat.le_of_eq sized)), List.nil_append]
      split_ifs with ends full sends
      · rw [tokensFrom_of_eos ends]
        rfl
      · rw [UInt32.le_iff_toNat_le, sized, toNat_toUInt32_of_le within] at full
        rw [show engine.runtime.ctxSize.toNat - ids.length - i = 0 by omega,
          Nat.min_zero]
        rfl
      · rw [UInt32.le_iff_toNat_le, sized, toNat_toUInt32_of_le within] at full
        rw [show min (n + 1) (engine.runtime.ctxSize.toNat - ids.length - i) =
          min n (engine.runtime.ctxSize.toNat - ids.length - (i + 1)) + 1
            by omega, tokensFrom_succ ends, ← ih (i + 1) (by omega) (by omega)
              (fun j less => ?_), Traced.emit_bind]
        · rw [List.range_succ, List.map_append, List.append_assoc]
          rfl
        · rcases Nat.lt_succ_iff_lt_or_eq.mp less with earlier | rfl
          · exact before j earlier
          · exact ends
      · exact absurd (connected i) sends

/-- A generation is the loop on the encoded prompt: what it streams, and on how
many positions it runs. -/
theorem complete_streams {prompt : String} {maxTokens : UInt32}
    {tokens : Nat → Nat} (encodes : engine.tokenizer.encode prompt true = .ok ids)
    (within : ids.length ≤ engine.runtime.ctxSize.toNat)
    (connected : ∀ i, env.connected i = true)
    (samples : engine.Samples env temperature ids maxTokens.toNat tokens) :
    (sentOf (engine.complete env temperature prompt maxTokens).events).map
        Prod.fst =
      tokensFrom engine.runtime.eosTokenId tokens 0
        (min maxTokens.toNat (engine.runtime.ctxSize.toNat - ids.length)) ∧
    ∀ event ∈ (engine.complete env temperature prompt maxTokens).events,
      event.positions ≤ engine.runtime.ctxSize.toNat := by
  have loop : engine.complete env temperature prompt maxTokens =
      engine.completeLoop env temperature maxTokens.toNat 0 ids := by
    rw [complete, encodes]
    rfl
  rw [loop]
  have streams := completeLoop_streams samples connected maxTokens.toNat 0
    (Nat.zero_add _) within (fun j less => by omega)
  rw [List.range_zero, List.map_nil, List.append_nil, Nat.sub_zero] at streams
  exact ⟨streams, completeLoop_positions _ _ within⟩

end HrmEngine

/-! ## The engine with the cache -/

open SmolVlm

namespace SmolVlmEngine

variable {engine : SmolVlmEngine} {env : GenerationEnv} {temperature : Float32}

theorem inputTensor_quiet {Item : Type} {bound : Nat} (dims : List Nat)
    (data : List Item) :
    ∀ event ∈ (inputTensor dims data).events, event.QuietWithin bound :=
  Traced.forall_events_lift _

theorem data_of_inputTensor {Item : Type} {dims : List Nat} {data : List Item}
    {tensor : OrtTensor Item}
    (built : (inputTensor dims data).result = .ok tensor) :
    tensor.data = data := by
  obtain ⟨-, -, rfl⟩ :=
    OrtTensor.fromArray_of_ok (ExceptSteps.mapError_eq_ok built)
  rfl

/-- Embedding ids runs a session on as many positions. -/
theorem quiet_of_embedded {bound : Nat} {ids : List Nat}
    {events : List EngineEvent} (within : ids.length ≤ bound)
    (embedded : ∀ event ∈ events, event = .embedded ids) :
    ∀ event ∈ events, event.QuietWithin bound := by
  intro event mem
  rw [embedded event mem]
  exact ⟨within, rfl⟩

/-- The decoder runs on the cached positions and the new ones. -/
theorem decodeStep_quiet {bound : Nat} {embeds : List Float32}
    {seqLen pastLen : Nat} {pastK pastV : LayerCache}
    (within : pastLen + seqLen ≤ bound) :
    ∀ event ∈ (engine.decodeStep embeds seqLen pastLen pastK pastV).events,
      event.QuietWithin bound := by
  refine Traced.forall_events_bind (inputTensor_quiet _ _) fun new _ => ?_
  refine Traced.forall_events_bind (inputTensor_quiet _ _) fun mask built => ?_
  have data := data_of_inputTensor built
  refine Traced.forall_events_bind (inputTensor_quiet _ _) fun order _ => ?_
  refine Traced.forall_events_bind (Traced.forall_events_lift _)
    fun past _ => ?_
  refine Traced.forall_events_bind
    (Traced.forall_events_emit ⟨?_, rfl⟩) fun _ _ => ?_
  · rw [EngineEvent.positions, data, List.length_replicate]
    exact within
  refine Traced.forall_events_bind (Traced.forall_events_lift _)
    fun outputs _ => ?_
  split_ifs
  · exact Traced.forall_events_fail _
  · cases outputs.logits.lastRow with
    | none => exact Traced.forall_events_fail _
    | some row => exact Traced.forall_events_pure _

theorem advance_quiet {bound i : Nat} {state : DecodeState}
    (within : state.pastLen + state.curSeqLen ≤ bound) :
    ∀ event ∈ (engine.advance env temperature i state).events,
      event.QuietWithin bound := by
  refine Traced.forall_events_bind (decodeStep_quiet within) ?_
  rintro ⟨logits, newPastK, newPastV⟩ _
  dsimp only
  cases Sampling.nextToken (env.draw i) logits state.history temperature with
  | none => exact Traced.forall_events_fail _
  | some next => exact Traced.forall_events_pure _

theorem feed_quiet {bound next : Nat} {state : DecodeState}
    (within : 1 ≤ bound) :
    ∀ event ∈ (engine.feed next state).events, event.QuietWithin bound :=
  Traced.forall_events_bind
    (@quiet_of_embedded bound [next] _ within (embedTokens_events [next]))
    fun _ _ => Traced.forall_events_pure _

/-- A decoder pass takes over the cache that the decoder returns. -/
theorem advance_eq_ok {i next : Nat} {state later : DecodeState}
    (advances : (engine.advance env temperature i state).result =
      .ok (next, later)) :
    ∃ logits newPastK newPastV,
      (engine.decodeStep state.curEmbeds state.curSeqLen state.pastLen
        state.pastK state.pastV).result = .ok (logits, newPastK, newPastV) ∧
      Sampling.nextToken (env.draw i) logits state.history temperature =
        some next ∧
      later = { state with
        pastK := newPastK
        pastV := newPastV
        pastLen := state.pastLen + state.curSeqLen } := by
  obtain ⟨⟨logits, newPastK, newPastV⟩, decodes, samples⟩ :=
    Traced.bind_result_eq_ok advances
  refine ⟨logits, newPastK, newPastV, decodes, ?_⟩
  dsimp only at samples
  cases chosen : Sampling.nextToken (env.draw i) logits state.history
      temperature with
  | none =>
      rw [chosen] at samples
      cases samples
  | some token =>
      rw [chosen] at samples
      cases samples
      exact ⟨rfl, rfl⟩

theorem feed_eq_ok {next : Nat} {state later : DecodeState}
    (feeds : (engine.feed next state).result = .ok later) :
    ∃ embeds, (engine.embedTokens [next]).result = .ok embeds ∧
      later = { state with
        history := state.history ++ [next]
        curEmbeds := embeds
        curSeqLen := 1 } := by
  obtain ⟨embeds, embedded, feeds⟩ := Traced.bind_result_eq_ok feeds
  exact ⟨embeds, embedded, (Except.ok.inj feeds).symm⟩

/-- No session ever runs on more positions than the context has. -/
theorem generateLoop_positions (n i : Nat) {state : DecodeState}
    (positive : 1 ≤ engine.maxCtxSize.toNat)
    (within : state.pastLen + state.curSeqLen ≤ engine.maxCtxSize.toNat) :
    ∀ event ∈ (engine.generateLoop env temperature n i state).events,
      event.positions ≤ engine.maxCtxSize.toNat := by
  induction n generalizing i state with
  | zero => exact Traced.forall_events_pure _
  | succ n ih =>
      rw [generateLoop]
      by_cases full : engine.maxCtxSize ≤
          (state.pastLen + state.curSeqLen).toUInt32
      · rw [if_pos full]
        exact Traced.forall_events_pure _
      rw [if_neg full]
      rw [UInt32.le_iff_toNat_le, toNat_toUInt32_of_le within, not_le] at full
      refine Traced.forall_events_bind
        (fun event mem => (advance_quiet within event mem).1) ?_
      rintro ⟨next, after⟩ advances
      obtain ⟨-, -, -, -, -, rfl⟩ := advance_eq_ok advances
      dsimp only
      split_ifs with ends connected
      · exact Traced.forall_events_pure _
      · refine Traced.forall_events_bind
          (Traced.forall_events_emit (Nat.zero_le _)) fun _ _ => ?_
        refine Traced.forall_events_bind
          (fun event mem => (feed_quiet positive event mem).1) ?_
        intro later feeds
        obtain ⟨-, -, rfl⟩ := feed_eq_ok feeds
        exact ih (i + 1) full
      · exact Traced.forall_events_pure _

/-- The variables before step `i`, when these tokens have been fed. -/
def stateBefore (engine : SmolVlmEngine) (env : GenerationEnv)
    (temperature : Float32) (tokens : Nat → Nat) (embeds : List Float32)
    (seqLen : Nat) : Nat → Except EngineError DecodeState
  | 0 => .ok (.initial embeds seqLen)
  | i + 1 => do
      let state ← stateBefore engine env temperature tokens embeds seqLen i
      let (_, state) ← (engine.advance env temperature i state).result
      (engine.feed (tokens i) state).result

theorem stateBefore_succ {tokens : Nat → Nat} {embeds : List Float32}
    {seqLen i next : Nat} {before after : DecodeState}
    (here : engine.stateBefore env temperature tokens embeds seqLen i =
      .ok before)
    (advances : (engine.advance env temperature i before).result =
      .ok (next, after)) :
    engine.stateBefore env temperature tokens embeds seqLen (i + 1) =
      (engine.feed (tokens i) after).result := by
  rw [stateBefore, here]
  show ((engine.advance env temperature i before).result >>= fun advanced =>
    (engine.feed (tokens i) advanced.2).result) = _
  rw [advances]
  rfl

/-- These are the tokens that are sampled behind a prompt, in each step that may
be reached. -/
def Samples (engine : SmolVlmEngine) (env : GenerationEnv)
    (temperature : Float32) (embeds : List Float32) (seqLen m : Nat)
    (tokens : Nat → Nat) : Prop :=
  ∀ i < m, seqLen + i < engine.maxCtxSize.toNat →
    (∀ j < i, (tokens j).toUInt32 ≠ engine.eosTokenId) →
      ∃ before after,
        engine.stateBefore env temperature tokens embeds seqLen i =
          .ok before ∧
        (engine.advance env temperature i before).result =
          .ok (tokens i, after)

theorem generateLoop_streams {m seqLen : Nat} {tokens : Nat → Nat}
    {embeds : List Float32}
    (samples : engine.Samples env temperature embeds seqLen m tokens)
    (connected : ∀ i, env.connected i = true)
    (positive : 1 ≤ engine.maxCtxSize.toNat) (n i : Nat) (left : i + n = m)
    {state : DecodeState}
    (here : engine.stateBefore env temperature tokens embeds seqLen i =
      .ok state)
    (sized : state.pastLen + state.curSeqLen = seqLen + i)
    (within : seqLen + i ≤ engine.maxCtxSize.toNat)
    (before : ∀ j < i, (tokens j).toUInt32 ≠ engine.eosTokenId) :
    (sentOf (engine.generateLoop env temperature n i state).events).map
        Prod.fst =
      tokensFrom engine.eosTokenId tokens i
        (min n (engine.maxCtxSize.toNat - seqLen - i)) := by
  induction n generalizing i state with
  | zero => rw [Nat.zero_min]; rfl
  | succ n ih =>
      have reaches : engine.maxCtxSize ≤
          (state.pastLen + state.curSeqLen).toUInt32 ↔
            engine.maxCtxSize.toNat ≤ seqLen + i := by
        rw [sized, UInt32.le_iff_toNat_le, toNat_toUInt32_of_le within]
      rw [generateLoop]
      by_cases full : engine.maxCtxSize.toNat ≤ seqLen + i
      · rw [if_pos (reaches.mpr full),
          show engine.maxCtxSize.toNat - seqLen - i = 0 by omega, Nat.min_zero]
        rfl
      rw [if_neg fun reached => full (reaches.mp reached)]
      obtain ⟨state', after, here', advances⟩ :=
        samples i (by omega) (by omega) before
      obtain rfl : state = state' := Except.ok.inj (here.symm.trans here')
      rw [Traced.bind_of_ok advances, sentOf_append,
        sentOf_of_quiet (advance_quiet (Nat.le_refl _)), List.nil_append]
      dsimp only
      split_ifs with ends sends
      · rw [tokensFrom_of_eos ends]
        rfl
      · have later : ∀ j < i + 1, (tokens j).toUInt32 ≠ engine.eosTokenId := by
          intro j less
          rcases Nat.lt_succ_iff_lt_or_eq.mp less with earlier | rfl
          · exact before j earlier
          · exact ends
        have next := stateBefore_succ here advances
        rw [show min (n + 1) (engine.maxCtxSize.toNat - seqLen - i) =
          min n (engine.maxCtxSize.toNat - seqLen - (i + 1)) + 1 by omega,
          tokensFrom_succ ends, Traced.emit_bind]
        show tokens i :: (sentOf (engine.feed (tokens i) after >>=
          engine.generateLoop env temperature n (i + 1)).events).map
            Prod.fst = _
        refine congrArg (tokens i :: ·) ?_
        cases feeds : (engine.feed (tokens i) after).result with
        | error failure =>
            rw [Traced.bind_of_error feeds,
              sentOf_of_quiet (feed_quiet positive)]
            rw [feeds] at next
            have last : min n (engine.maxCtxSize.toNat - seqLen - (i + 1)) =
                0 := by
              by_contra more
              obtain ⟨state', -, fine, -⟩ :=
                samples (i + 1) (by omega) (by omega) later
              rw [next] at fine
              cases fine
            rw [last]
            rfl
        | ok fed =>
            rw [Traced.bind_of_ok feeds, sentOf_append,
              sentOf_of_quiet (feed_quiet positive), List.nil_append]
            rw [feeds] at next
            obtain ⟨_, -, rfl⟩ := feed_eq_ok feeds
            obtain ⟨_, _, _, -, -, rfl⟩ := advance_eq_ok advances
            exact ih (i + 1) (by omega) next (by dsimp only; omega) (by omega)
              later
      · exact absurd (connected i) sends

/-- A generation is the loop behind the embedding of its prompt, which streams
nothing. -/
theorem generate_streams {ids : List Nat} {image : Option (List UInt8)}
    {embeds : List Float32} {maxTokens : UInt32} {tokens : Nat → Nat}
    (positive : 1 ≤ ids.length)
    (within : ids.length ≤ engine.maxCtxSize.toNat)
    (connected : ∀ i, env.connected i = true)
    (embedded : (engine.promptEmbeds ids image).result = .ok embeds)
    (samples : engine.Samples env temperature embeds ids.length
      maxTokens.toNat tokens) :
    (sentOf (engine.generate env temperature ids image maxTokens).events).map
        Prod.fst =
      tokensFrom engine.eosTokenId tokens 0
        (min maxTokens.toNat (engine.maxCtxSize.toNat - ids.length)) ∧
    ∀ event ∈ (engine.generate env temperature ids image maxTokens).events,
      event.positions ≤ engine.maxCtxSize.toNat := by
  have accepts : ¬ engine.maxCtxSize < ids.length.toUInt32 := by
    rw [UInt32.lt_iff_toNat_lt, toNat_toUInt32_of_le within]
    omega
  have quiet : ∀ event ∈ (engine.promptEmbeds ids image).events,
      event.QuietWithin engine.maxCtxSize.toNat :=
    quiet_of_embedded within (promptEmbeds_events ids image)
  rw [generate, if_neg accepts, Traced.bind_of_ok embedded]
  constructor
  · have streams := generateLoop_streams samples connected (by omega)
      maxTokens.toNat 0 (Nat.zero_add _)
      (show engine.stateBefore env temperature tokens embeds ids.length 0 =
        .ok (.initial embeds ids.length) from rfl)
      (Nat.zero_add _) within (fun j less => by omega)
    rw [Nat.sub_zero] at streams
    rw [sentOf_append, sentOf_of_quiet quiet, List.nil_append]
    exact streams
  · intro event mem
    rcases List.mem_append.mp mem with mem | mem
    · exact (quiet event mem).1
    · refine generateLoop_positions _ _ (by omega) ?_ event mem
      show 0 + ids.length ≤ _
      omega

/-! ### The decoder that counts -/

theorem counting_embedTokens (tokenizer : HrmTokenizer)
    (score : Nat → List Float32) (maxCtxSize : UInt32) {ids : List Nat}
    (nonempty : ids ≠ []) :
    (counting tokenizer score maxCtxSize).embedTokens ids =
      ⟨[.embedded ids],
        .ok (List.replicate (ids.length * hiddenSize) 0.0)⟩ := by
  have positive : ids.length ≠ 0 := fun none =>
    nonempty (List.eq_nil_of_length_eq_zero none)
  rw [embedTokens, inputTensor_ok (by simp [positive]) (by simp)]
  rfl

/-- The variables before step `i` when these tokens have been fed. -/
structure CountsTo (seqLen : Nat) (tokens : Nat → Nat) (i : Nat)
    (state : DecodeState) (past : List Float32) : Prop
    extends Tracks countingCache countingCache state past where
  total : state.pastLen + state.curSeqLen = seqLen + i
  sizedNew : state.curEmbeds.length = state.curSeqLen * hiddenSize
  history : state.history = (List.range i).map tokens

section Counting

variable {tokenizer : HrmTokenizer} {score : Nat → List Float32}
  {maxCtxSize : UInt32} {embeds : List Float32} {seqLen : Nat}
  {tokens : Nat → Nat}

theorem CountsTo.pass {i : Nat} {state : DecodeState} {past : List Float32}
    (counts : CountsTo seqLen tokens i state past)
    (greedy : temperature ≤ 0.0)
    (scored : Sampling.argmax (Sampling.applyRepetitionPenalty
      (score (seqLen + i)) ((List.range i).map tokens) 1.3) = tokens i) :
    ∃ after later, ((counting tokenizer score maxCtxSize).advance env
        temperature i state).result = .ok (tokens i, after) ∧
      ((counting tokenizer score maxCtxSize).feed (tokens i) after).result =
        .ok later ∧
      CountsTo seqLen tokens (i + 1) later (past ++ state.curEmbeds) := by
  have sized : (past ++ state.curEmbeds).length =
      (state.pastLen + state.curSeqLen) * hiddenSize := by
    rw [List.length_append, counts.sized, counts.sizedNew, Nat.add_mul]
  have pass : (counting tokenizer score maxCtxSize).decodeStep
      state.curEmbeds state.curSeqLen state.pastLen state.pastK state.pastV =
        ⟨[.decoded (List.range' state.pastLen state.curSeqLen) (seqLen + i)
          state.curEmbeds], .ok (score (seqLen + i),
            countingCache (past ++ state.curEmbeds),
            countingCache (past ++ state.curEmbeds))⟩ := by
    rw [counts.pastK, counts.pastV, decodeStep_eq
      (counting_cached tokenizer score maxCtxSize) counts.sized
      counts.sizedNew counts.fresh, length_div_of_sized sized, counts.total]
    rfl
  refine ⟨{ state with
      pastK := countingCache (past ++ state.curEmbeds)
      pastV := countingCache (past ++ state.curEmbeds)
      pastLen := state.pastLen + state.curSeqLen },
    { pastK := countingCache (past ++ state.curEmbeds)
      pastV := countingCache (past ++ state.curEmbeds)
      pastLen := state.pastLen + state.curSeqLen
      curEmbeds := List.replicate ([tokens i].length * hiddenSize) 0.0
      curSeqLen := 1
      history := state.history ++ [tokens i] }, ?_, ?_, ?_⟩
  · rw [advance_eq greedy pass, counts.history, scored]
  · rw [feed, counting_embedTokens _ _ _ (List.cons_ne_nil _ _)]
    rfl
  · refine ⟨⟨sized, rfl, rfl, Nat.one_pos⟩, ?_, ?_, ?_⟩
    · show state.pastLen + state.curSeqLen + 1 = _
      rw [counts.total, Nat.add_assoc]
    · exact List.length_replicate
    · show state.history ++ [tokens i] = _
      rw [counts.history, List.range_succ, List.map_append]
      rfl

/-- The tokens that its scores give are sampled. -/
theorem counting_samples (greedy : temperature ≤ 0.0) (fresh : 0 < seqLen)
    (sized : embeds.length = seqLen * hiddenSize) (m : Nat)
    (scores : ∀ i < m, Sampling.argmax (Sampling.applyRepetitionPenalty
      (score (seqLen + i)) ((List.range i).map tokens) 1.3) = tokens i) :
    (counting tokenizer score maxCtxSize).Samples env temperature embeds seqLen
      m tokens := by
  have ready (i : Nat) (within : i ≤ m) : ∃ state past,
      (counting tokenizer score maxCtxSize).stateBefore env temperature tokens
        embeds seqLen i = .ok state ∧
      CountsTo seqLen tokens i state past := by
    induction i with
    | zero =>
        refine ⟨.initial embeds seqLen, [], rfl, ?_⟩
        obtain ⟨noKeys, noValues⟩ :=
          cache_nil (counting_cached tokenizer score maxCtxSize)
        exact ⟨⟨(Nat.zero_mul _).symm, noKeys.symm, noValues.symm, fresh⟩,
          Nat.zero_add _, sized, rfl⟩
    | succ i ih =>
        obtain ⟨state, past, here, counts⟩ := ih (Nat.le_of_succ_le within)
        obtain ⟨after, later, advances, feeds, counts⟩ :=
          @CountsTo.pass env temperature tokenizer score maxCtxSize seqLen
            tokens i state past counts greedy (scores i within)
        exact ⟨later, _, (stateBefore_succ here advances).trans feeds, counts⟩
  intro i less _ _
  obtain ⟨state, past, here, counts⟩ := ready i (Nat.le_of_lt less)
  obtain ⟨after, -, advances, -, -⟩ := @CountsTo.pass env temperature tokenizer
    score maxCtxSize seqLen tokens i state past counts greedy (scores i less)
  exact ⟨state, after, here, advances⟩

end Counting

end SmolVlmEngine

/-! ## Both engines -/

/-- **Both engines stop at the same point.**  When they sample the same tokens
behind prompts of one length in one context, and the receiver stays, they
stream the same number of tokens: the smallest of the budget, the room behind
the prompt and the number of tokens before the first end of sequence.  No
session is run on more positions than the context has. -/
theorem stream_same_number {hrm : HrmEngine} {vlm : SmolVlmEngine}
    {hrmEnv vlmEnv : GenerationEnv} {hrmTemperature vlmTemperature : Float32}
    {prompt : String} {hrmIds vlmIds : List Nat} {image : Option (List UInt8)}
    {embeds : List Float32} {c eos maxTokens : UInt32} {p : Nat}
    {tokens : Nat → Nat}
    (hrmContext : hrm.runtime.ctxSize = c) (vlmContext : vlm.maxCtxSize = c)
    (hrmEos : hrm.runtime.eosTokenId = eos) (vlmEos : vlm.eosTokenId = eos)
    (encodes : hrm.tokenizer.encode prompt true = .ok hrmIds)
    (hrmLength : hrmIds.length = p) (vlmLength : vlmIds.length = p)
    (positive : 1 ≤ p) (within : p ≤ c.toNat)
    (hrmConnected : ∀ i, hrmEnv.connected i = true)
    (vlmConnected : ∀ i, vlmEnv.connected i = true)
    (hrmSamples : hrm.Samples hrmEnv hrmTemperature hrmIds maxTokens.toNat
      tokens)
    (embedded : (vlm.promptEmbeds vlmIds image).result = .ok embeds)
    (vlmSamples : vlm.Samples vlmEnv vlmTemperature embeds p maxTokens.toNat
      tokens) :
    let hrmRun := hrm.complete hrmEnv hrmTemperature prompt maxTokens
    let vlmRun := vlm.generate vlmEnv vlmTemperature vlmIds image maxTokens
    ((sentOf hrmRun.events).length : ℕ∞) =
        min (maxTokens.toNat : ℕ∞)
          (min ((c.toNat - p : ℕ) : ℕ∞) (tokensBeforeEos eos tokens)) ∧
      (sentOf hrmRun.events).length = (sentOf vlmRun.events).length ∧
      (∀ event ∈ hrmRun.events, event.positions ≤ c.toNat) ∧
      ∀ event ∈ vlmRun.events, event.positions ≤ c.toNat := by
  subst hrmContext hrmLength hrmEos
  have room : vlm.maxCtxSize.toNat = hrm.runtime.ctxSize.toNat :=
    congrArg UInt32.toNat vlmContext
  rw [← vlmLength] at vlmSamples
  obtain ⟨hrmStreams, hrmPositions⟩ :=
    HrmEngine.complete_streams encodes within hrmConnected hrmSamples
  obtain ⟨vlmStreams, vlmPositions⟩ := SmolVlmEngine.generate_streams
    (by omega) (by omega) vlmConnected embedded vlmSamples
  rw [vlmEos, vlmLength, room] at vlmStreams
  have hrmNumber := congrArg List.length hrmStreams
  have vlmNumber := congrArg List.length vlmStreams
  rw [List.length_map] at hrmNumber vlmNumber
  refine ⟨?_, ?_, hrmPositions, ?_⟩
  · rw [hrmNumber, length_tokensFrom, Nat.mono_cast.map_min, min_assoc]
  · rw [hrmNumber, vlmNumber]
  · rw [← room]
    exact vlmPositions

/-- An engine that scores the first token lower than the second. -/
def secondToken (tokenizer : HrmTokenizer) (ctxSize : UInt32) : HrmEngine where
  session _ := .ok ⟨[1, 1, 2], [0.0, 1.0]⟩
  tokenizer := tokenizer
  runtime := ⟨0, ctxSize, 2⟩

theorem secondToken_sampled (tokenizer : HrmTokenizer) {ctxSize : UInt32}
    (env : GenerationEnv) (i : Nat) {ids : List Nat} (nonempty : ids ≠ [])
    (within : ids.length ≤ ctxSize.toNat) :
    ((secondToken tokenizer ctxSize).sampled env 0.0 i ids).result =
      .ok (Sampling.argmax
        (Sampling.applyRepetitionPenalty [0.0, 1.0] ids 1.3)) := by
  have positive : ids.length ≠ 0 := fun none =>
    nonempty (List.eq_nil_of_length_eq_zero none)
  have accepts : ¬ ctxSize < ids.length.toUInt32 := by
    rw [UInt32.lt_iff_toNat_lt, toNat_toUInt32_of_le within]
    omega
  have prefill : (secondToken tokenizer ctxSize).prefill ids =
      ⟨[.ran ids], .ok [0.0, 1.0]⟩ := by
    rw [HrmEngine.prefill, if_neg nonempty]
    rw [secondToken, if_neg accepts,
      OrtTensor.fromArray_eq_ok (by simp [positive]) (by simp)]
    rfl
  rw [HrmEngine.sampled, Traced.bind_of_ok (congrArg Traced.result prefill),
    Sampling.nextToken, Sampling.sample_greedy (by decide +kernel)]
  rfl

theorem secondToken_stops_with_counting :
    (sentOf ((secondToken ⟨fun _ _ => .ok [1], fun _ _ => .ok "a"⟩ 3).complete
      ⟨fun _ => 0.0, fun _ => true⟩ 0.0 "a" 5).events).length =
    (sentOf ((SmolVlmEngine.counting
      ⟨fun _ _ => .ok [1], fun _ _ => .ok "a"⟩ (fun _ => [0.0, 1.0])
        3).generate ⟨fun _ => 0.0, fun _ => true⟩ 0.0 [1] none
          5).events).length := by
  refine (@stream_same_number (secondToken _ 3) (SmolVlmEngine.counting _ _ 3)
    _ _ _ _ "a" [1] [1] none (List.replicate (1 * SmolVlm.hiddenSize) 0.0) 3 0 5 1
    (fun _ => 1) rfl rfl rfl rfl rfl rfl rfl (by decide) (by decide) (fun _ => rfl)
    (fun _ => rfl) ?_ ?_ ?_).2.1
  · intro i _ within _
    have few : i < 3 := Nat.lt_of_add_one_le (Nat.add_comm 1 i ▸ within)
    rw [secondToken_sampled _ _ _ (by simp) (by simpa [Nat.add_comm] using few)]
    match i, few with
    | 0, _ => exact congrArg Except.ok (by decide +kernel)
    | 1, _ => exact congrArg Except.ok (by decide +kernel)
    | 2, _ => exact congrArg Except.ok (by decide +kernel)
  · rw [SmolVlmEngine.promptEmbeds, SmolVlmEngine.counting_embedTokens _ _ _
      (by simp)]
    rfl
  · refine SmolVlmEngine.counting_samples (by decide +kernel) (by decide)
      List.length_replicate _ fun i less => ?_
    match i, less with
    | 0, _ => decide +kernel
    | 1, _ => decide +kernel
    | 2, _ => decide +kernel
    | 3, _ => decide +kernel
    | 4, _ => decide +kernel

end TorchInference
