import TorchInference.CachedDecoding
import TorchInference.FlatRows
import TorchInference.SmolVlmPrompt
import TorchInference.TextOccurrences

/-!
# Rows of the image in the embeddings of a prompt

The splice looks only at the ids: the rows of the image go to the first image
tokens of the prompt, wherever they come from.  They are on those of the block
just when no earlier message has an image token in its text.
-/

namespace TorchInference

open FlatRows SmolVlm TextOccurrences

namespace SmolVlmEngine

/-! ## The splice -/

def isImage (imageTokenId : UInt32) (id : Nat) : Bool :=
  id.toUInt32 == imageTokenId

theorem spliceOne_eq (imageFeatures embeds : List Float32) (imageTokenId : UInt32)
    (used id position : Nat) :
    spliceOne imageFeatures imageTokenId (embeds, used) (id, position) =
      if isImage imageTokenId id = true ∧
          (used + 1) * hiddenSize ≤ imageFeatures.length then
        if (position + 1) * hiddenSize ≤ embeds.length then
          some (setRow hiddenSize embeds position
            (row hiddenSize imageFeatures used), used + 1)
        else none
      else some (embeds, used) := by
  simp only [spliceOne, isImage, beq_iff_eq]
  rfl

/-- The row of the image that a position gets. -/
def imageRow? (special : Nat → Bool) (rows : Nat) (ids : List Nat)
    (position : Nat) : Option Nat :=
  let used := (ids.take position).countP special
  if (ids[position]?).any special ∧ used < rows then some used else none

theorem imageRow?_of_length_le {special : Nat → Bool} {rows position : Nat}
    {ids : List Nat} (outside : ids.length ≤ position) :
    imageRow? special rows ids position = none := by
  rw [imageRow?, List.getElem?_eq_none outside]
  exact if_neg fun both => Bool.false_ne_true both.1

/-- A further id does not matter at other positions. -/
theorem imageRow?_concat_of_ne {special : Nat → Bool} {rows position : Nat}
    {ids : List Nat} (apart : position ≠ ids.length) (id : Nat) :
    imageRow? special rows (ids ++ [id]) position =
      imageRow? special rows ids position := by
  rcases Nat.lt_or_gt_of_ne apart with inside | outside
  · rw [imageRow?, imageRow?, List.take_append_of_le_length inside.le,
      List.getElem?_append_left inside]
  · rw [imageRow?_of_length_le outside.le, imageRow?_of_length_le]
    rw [List.length_append, List.length_singleton]
    exact outside

theorem imageRow?_concat_self (special : Nat → Bool) (rows : Nat) (ids : List Nat)
    (id : Nat) :
    imageRow? special rows (ids ++ [id]) ids.length =
      if special id = true ∧ ids.countP special < rows then
        some (ids.countP special) else none := by
  rw [imageRow?, List.take_left, List.getElem?_concat_length]
  rfl

/-- What the splice has done to the embeddings. -/
def SplicedRows (imageFeatures embeds : List Float32) (special : Nat → Bool)
    (rows : Nat) (ids : List Nat) (spliced : List Float32) : Prop :=
  ∀ position, row hiddenSize spliced position =
    match imageRow? special rows ids position with
    | some index => row hiddenSize imageFeatures index
    | none => row hiddenSize embeds position

theorem splicedRows_concat {imageFeatures embeds spliced new : List Float32}
    {special : Nat → Bool} {rows id : Nat} {ids : List Nat}
    (before : SplicedRows imageFeatures embeds special rows ids spliced)
    (others : ∀ position ≠ ids.length,
      row hiddenSize new position = row hiddenSize spliced position)
    (last : row hiddenSize new ids.length =
      if special id = true ∧ ids.countP special < rows then
        row hiddenSize imageFeatures (ids.countP special)
      else row hiddenSize spliced ids.length) :
    SplicedRows imageFeatures embeds special rows (ids ++ [id]) new := by
  intro position
  by_cases isLast : position = ids.length
  · have untouched := before ids.length
    rw [imageRow?_of_length_le (Nat.le_refl _)] at untouched
    rw [isLast, imageRow?_concat_self, last, untouched]
    split_ifs <;> rfl
  · rw [imageRow?_concat_of_ne isLast, others position isLast, before position]

/-- One position of the splice. -/
theorem spliceOne_rows {imageFeatures embeds spliced : List Float32}
    {imageTokenId : UInt32} {rows : Nat} {ids : List Nat}
    (imageSized : imageFeatures.length = rows * hiddenSize)
    (before : SplicedRows imageFeatures embeds (isImage imageTokenId) rows ids spliced)
    (id : Nat) (inside : (ids.length + 1) * hiddenSize ≤ spliced.length) :
    ∃ new, spliceOne imageFeatures imageTokenId
        (spliced, min (ids.countP (isImage imageTokenId)) rows) (id, ids.length) =
          some (new, min ((ids ++ [id]).countP (isImage imageTokenId)) rows) ∧
      new.length = spliced.length ∧
      SplicedRows imageFeatures embeds (isImage imageTokenId) rows (ids ++ [id])
        new := by
  have left : (min (ids.countP (isImage imageTokenId)) rows + 1) * hiddenSize ≤
      imageFeatures.length ↔ ids.countP (isImage imageTokenId) < rows := by
    rw [imageSized, Nat.mul_le_mul_right_iff (by decide)]
    omega
  rw [spliceOne_eq, List.countP_append, List.countP_singleton]
  by_cases gets : isImage imageTokenId id = true ∧
      ids.countP (isImage imageTokenId) < rows
  · have used : min (ids.countP (isImage imageTokenId)) rows =
        ids.countP (isImage imageTokenId) := Nat.min_eq_left gets.2.le
    have after : min (ids.countP (isImage imageTokenId) + 1) rows =
        ids.countP (isImage imageTokenId) + 1 :=
      Nat.min_eq_left (Nat.succ_le_of_lt gets.2)
    have entries : (row hiddenSize imageFeatures
        (ids.countP (isImage imageTokenId))).length = hiddenSize := by
      apply length_row
      rw [imageSized]
      exact Nat.mul_le_mul_right _ gets.2
    rw [if_pos ⟨gets.1, left.mpr gets.2⟩, if_pos inside, if_pos gets.1, used, after]
    refine ⟨_, rfl, length_setRow entries inside, splicedRows_concat before
      (fun position apart => row_setRow_of_ne entries inside apart) ?_⟩
    rw [if_pos gets]
    exact row_setRow_self entries inside
  · have same : min (ids.countP (isImage imageTokenId) +
        if isImage imageTokenId id = true then 1 else 0) rows =
        min (ids.countP (isImage imageTokenId)) rows := by
      split_ifs with special
      · have full := Nat.not_lt.mp fun less => gets ⟨special, less⟩
        omega
      · rfl
    rw [if_neg fun both => gets ⟨both.1, left.mp both.2⟩, same]
    exact ⟨spliced, rfl, rfl,
      splicedRows_concat before (fun _ _ => rfl) (if_neg gets).symm⟩

theorem foldlM_spliceOne {imageFeatures embeds : List Float32}
    {imageTokenId : UInt32} {rows : Nat} {ids : List Nat}
    (imageSized : imageFeatures.length = rows * hiddenSize)
    (sized : ids.length * hiddenSize ≤ embeds.length) :
    ∃ spliced, ids.zipIdx.foldlM (spliceOne imageFeatures imageTokenId) (embeds, 0) =
        some (spliced, min (ids.countP (isImage imageTokenId)) rows) ∧
      spliced.length = embeds.length ∧
      SplicedRows imageFeatures embeds (isImage imageTokenId) rows ids spliced := by
  induction ids using List.reverseRecOn with
  | nil =>
      refine ⟨embeds, by rw [List.countP_nil, Nat.zero_min]; rfl, rfl, ?_⟩
      intro position
      rw [imageRow?_of_length_le (Nat.zero_le position)]
  | append_singleton ids id ih =>
      rw [List.length_append, List.length_singleton] at sized
      have fewer : ids.length * hiddenSize ≤ embeds.length :=
        (Nat.mul_le_mul_right _ (Nat.le_succ _)).trans sized
      obtain ⟨spliced, folded, length, before⟩ := ih fewer
      have inside : (ids.length + 1) * hiddenSize ≤ spliced.length := by
        rw [length]
        exact sized
      obtain ⟨new, step, newLength, after⟩ :=
        spliceOne_rows imageSized before id inside
      refine ⟨new, ?_, newLength.trans length, after⟩
      rw [List.zipIdx_append, List.foldlM_append, folded, Nat.zero_add]
      exact congrArg (· >>= pure) step

/-- **The splice puts the rows of the image on the first image tokens**, in order,
and leaves the other rows. -/
theorem exists_spliced {imageFeatures embeds : List Float32} {imageTokenId : UInt32}
    {rows : Nat} {ids : List Nat}
    (imageSized : imageFeatures.length = rows * hiddenSize)
    (sized : ids.length * hiddenSize ≤ embeds.length) :
    ∃ spliced, spliceImageEmbeds embeds ids imageFeatures imageTokenId =
        some spliced ∧
      SplicedRows imageFeatures embeds (isImage imageTokenId) rows ids spliced := by
  obtain ⟨spliced, folded, -, rowsOf⟩ :=
    @foldlM_spliceOne _ _ imageTokenId _ _ imageSized sized
  exact ⟨spliced, by rw [spliceImageEmbeds, folded]; rfl, rowsOf⟩

/-! ## What the decoder is fed -/

section Feeding

variable {engine : SmolVlmEngine} {unicode : Char → List Char}
  {messages : List ChatMessage} {embeds : List Float32}

/-- The decoder is fed the embeddings first; it is fed something where the
computation succeeds. -/
structure Feeds {Value : Type} (embeds : List Float32) (run : Generation Value) :
    Prop where
  first : ∀ pass ∈ (fedOf run.events).head?, pass.2 = embeds
  fed : ∀ value, run.result = .ok value → fedOf run.events ≠ []

theorem Feeds.bind {Value Result : Type} {run : Generation Value}
    (feeds : Feeds embeds run) (rest : Value → Generation Result) :
    Feeds embeds (run >>= rest) := by
  cases ends : run.result with
  | error failure =>
      rw [Traced.bind_of_error ends]
      exact ⟨feeds.first, fun value succeeds => by cases succeeds⟩
  | ok value =>
      have fed := feeds.fed value ends
      rw [Traced.bind_of_ok ends]
      constructor
      · rw [fedOf_append, List.head?_append_of_ne_nil _ fed]
        exact feeds.first
      · intro _ _
        rw [fedOf_append]
        exact List.append_ne_nil_of_left_ne_nil fed _

/-- Before anything happens, what comes later counts. -/
theorem Feeds.of_quiet {Value Result : Type} {run : Generation Value}
    {rest : Value → Generation Result} (quiet : run.events = [])
    (later : ∀ value, run.result = .ok value → Feeds embeds (rest value)) :
    Feeds embeds (run >>= rest) := by
  cases ends : run.result with
  | error failure =>
      rw [Traced.bind_of_error ends, quiet]
      constructor
      · intro pass mem
        cases mem
      · intro value succeeds
        cases succeeds
  | ok value =>
      rw [Traced.bind_of_ok ends, quiet]
      exact later value ends

theorem decodeStep_feeds (seqLen pastLen : Nat) (pastK pastV : LayerCache) :
    Feeds embeds (engine.decodeStep embeds seqLen pastLen pastK pastV) := by
  refine .of_quiet rfl fun embedsTensor built => ?_
  obtain ⟨-, -, rfl⟩ :=
    OrtTensor.fromArray_of_ok (ExceptSteps.mapError_eq_ok built)
  refine .of_quiet rfl fun attnTensor _ => .of_quiet rfl fun posTensor _ => ?_
  refine .of_quiet rfl fun past _ => Feeds.bind ⟨?_, ?_⟩ _
  · rintro pass ⟨⟩
    rfl
  · intro _ _
    exact List.cons_ne_nil _ _

variable {env : GenerationEnv} {temperature : Float32}

theorem generateLoop_first (n i : Nat) (state : DecodeState) :
    ∀ pass ∈ (fedOf (engine.generateLoop env temperature n i state).events).head?,
      pass.2 = state.curEmbeds := by
  cases n with
  | zero =>
      intro pass mem
      cases mem
  | succ n =>
      have advances : Feeds state.curEmbeds
          (engine.advance env temperature i state) :=
        (decodeStep_feeds _ _ _ _).bind _
      rw [generateLoop]
      by_cases full : engine.maxCtxSize ≤
          (state.pastLen + state.curSeqLen).toUInt32
      · rw [if_pos full]
        intro pass mem
        cases mem
      · rw [if_neg full]
        exact (advances.bind _).first

/-- The decoder is first fed what the splice has made of the ids of the chat. -/
theorem chat_first {image : Option (List UInt8)} {maxTokens : UInt32} :
    ∀ pass ∈ (fedOf (engine.chat unicode env temperature messages image
        maxTokens).events).head?,
      ∃ ids, engine.chatIds unicode messages image = .ok ids ∧
        (engine.promptEmbeds ids image).result = .ok pass.2 := by
  intro pass mem
  rw [chat] at mem
  cases asked : engine.chatIds unicode messages image with
  | error message =>
      rw [asked] at mem
      cases mem
  | ok ids =>
      refine ⟨ids, rfl, ?_⟩
      rw [asked, Except.mapError, Traced.lift_ok_bind, generate] at mem
      split_ifs at mem
      · cases mem
      have shown := fedOf_embedded (@promptEmbeds_events engine ids image)
      cases embedded : (engine.promptEmbeds ids image).result with
      | error failure =>
          rw [Traced.bind_of_error embedded, shown] at mem
          cases mem
      | ok spliced =>
          rw [Traced.bind_of_ok embedded, fedOf_append, shown, List.nil_append] at mem
          rw [generateLoop_first _ _ _ pass mem]
          rfl

end Feeding

/-! ## What is expected -/

def imageMarker : Marker Char :=
  ⟨'<', "image>".toList, by decide⟩

theorem imageMarker_text : imageMarker.text = imageToken :=
  rfl

variable (engine : SmolVlmEngine) (unicode : Char → List Char)
  (messages : List ChatMessage)

/-- Each `<image>` of a text becomes the id of an image token, and nothing else
does. -/
def TokenizesImages : Prop :=
  ∀ text ids, engine.tokenizer.encode text true = .ok ids →
    imageMarker.Tokens (isImage engine.imageTokenId) text.toList ids

/-- At the position is the image token of the block that has so many of them
before it. -/
def BlockPosition (ids : List Nat) (index position : Nat) : Prop :=
  imageMarker.TokenAt (isImage engine.imageTokenId)
    (textBefore unicode messages ++ (List.replicate index imageToken).flatten)
    ((List.replicate (imageSeqLen - 1 - index) imageToken).flatten ++
      textAfter unicode messages) ids position

/-- The positions of the block have the rows of the image in order, and the other
positions have the embeddings of their ids. -/
structure OnBlock (ids : List Nat) (embeds imageFeatures spliced : List Float32) :
    Prop where
  block : ∀ index < imageSeqLen, ∃ position,
    (∀ other, engine.BlockPosition unicode messages ids index other ↔
      other = position) ∧
    row hiddenSize spliced position = row hiddenSize imageFeatures index
  others : ∀ position,
    (∀ index < imageSeqLen,
      ¬ engine.BlockPosition unicode messages ids index position) →
    row hiddenSize spliced position = row hiddenSize embeds position

/-- In a chat with an image that the sessions answer, with one embedding for each
id, the image goes to the block, and the decoder is fed that first. -/
def ImageOnBlock (bytes : List UInt8) : Prop :=
  ∀ ids embeds prepped imageFeatures,
    engine.chatIds unicode messages (some bytes) = .ok ids →
    (engine.embedTokens ids).result = .ok embeds →
    embeds.length = ids.length * hiddenSize →
    engine.preprocess bytes = .ok prepped →
    (engine.visionEncode prepped).result = .ok imageFeatures →
    ∃ spliced, (engine.promptEmbeds ids (some bytes)).result = .ok spliced ∧
      engine.OnBlock unicode messages ids embeds imageFeatures spliced ∧
      ∀ env temperature maxTokens, ∀ pass ∈ (fedOf (engine.chat unicode env
        temperature messages (some bytes) maxTokens).events).head?,
        pass.2 = spliced

variable {engine unicode messages}

/-! ## The text before the block -/

theorem absent_messageText_iff {message : ChatMessage} :
    imageMarker.Absent (messageText unicode message) ↔
      imageMarker.Absent (capitalize unicode message.role) ∧
        imageMarker.Absent message.content := by
  rw [messageText]
  constructor
  · intro absent
    exact ⟨absent.left.left.left, absent.left.right⟩
  · rintro ⟨role, content⟩
    have ending : imageMarker.Absent "<end_of_utterance>\n".toList := by
      rw [Marker.Absent, imageMarker_text]
      decide
    have spaced := Marker.absent_nil.append_cons
      (content.append_of_head ending rfl) (by decide : ' ' ∉ imageMarker.text)
    have whole := role.append_cons spaced (by decide : ':' ∉ imageMarker.text)
    simpa using whole

theorem absent_flatMap_iff {earlier : List ChatMessage} {more : List Char}
    (absent : imageMarker.Absent more) :
    imageMarker.Absent (earlier.flatMap (messageText unicode) ++ more) ↔
      ∀ message ∈ earlier, imageMarker.Absent (messageText unicode message) := by
  induction earlier with
  | nil => exact iff_of_true absent (List.forall_mem_nil _)
  | cons message earlier ih =>
      rw [List.flatMap_cons, List.forall_mem_cons, ← ih, List.append_assoc]
      refine ⟨fun whole => ⟨whole.left, whole.right⟩, ?_⟩
      rintro ⟨first, later⟩
      -- A line break keeps the messages apart.
      have line : messageText unicode message =
          (capitalize unicode message.role ++ ": ".toList ++ message.content ++
            "<end_of_utterance>".toList) ++ ['\n'] := by
        rw [messageText, List.append_assoc _ "<end_of_utterance>".toList]
        rfl
      rw [line] at first ⊢
      rw [List.append_assoc]
      exact first.left.append_cons later (by decide)

theorem absent_textBefore_iff :
    imageMarker.Absent (textBefore unicode messages) ↔
      ∀ message ∈ earlierMessages messages,
        imageMarker.Absent (capitalize unicode message.role) ∧
          imageMarker.Absent message.content := by
  have ending : imageMarker.Absent
      ("User".toList ++ ": ".toList ++ (fakeImageToken ++ globalImgToken)) := by
    rw [Marker.Absent, imageMarker_text]
    decide
  have start : imageMarker.Absent ("<|im_start|".toList ++ ['>']) := by
    rw [Marker.Absent, imageMarker_text]
    decide
  have whole : textBefore unicode messages = "<|im_start|".toList ++ ['>'] ++
      ((earlierMessages messages).flatMap (messageText unicode) ++
        ("User".toList ++ ": ".toList ++ (fakeImageToken ++ globalImgToken))) :=
    rfl
  have each : (∀ message ∈ earlierMessages messages,
        imageMarker.Absent (messageText unicode message)) ↔
      ∀ message ∈ earlierMessages messages,
        imageMarker.Absent (capitalize unicode message.role) ∧
          imageMarker.Absent message.content :=
    forall₂_congr fun _ _ => absent_messageText_iff
  refine Iff.trans ?_ ((absent_flatMap_iff ending).trans each)
  rw [whole]
  exact ⟨fun absent => absent.right,
    fun later => start.append_of_last later (by decide)⟩

/-! ## Positions -/

theorem imageRow?_eq_some_iff {special : Nat → Bool} {rows position index : Nat}
    {ids : List Nat} :
    imageRow? special rows ids position = some index ↔
      (∃ id, ids[position]? = some id ∧ special id = true) ∧
        (ids.take position).countP special = index ∧ index < rows := by
  constructor
  · intro given
    rw [imageRow?] at given
    split_ifs at given with both
    obtain rfl := Option.some.inj given
    exact ⟨(Option.any_eq_true _ _).mp both.1, rfl, both.2⟩
  · rintro ⟨isSpecial, rfl, less⟩
    exact if_pos ⟨(Option.any_eq_true _ _).mpr isSpecial, less⟩

/-- The ids of a chat with an image are the tokens of its prompt. -/
theorem TokenizesImages.tokens (tokenizes : engine.TokenizesImages)
    {bytes : List UInt8} {ids : List Nat}
    (encoded : engine.chatIds unicode messages (some bytes) = .ok ids) :
    imageMarker.Tokens (isImage engine.imageTokenId)
      (textBefore unicode messages ++
        ((List.replicate imageSeqLen imageToken).flatten ++
          textAfter unicode messages)) ids := by
  have isTokens := tokenizes _ ids encoded
  rwa [String.toList_ofList, Option.isSome_some, if_pos rfl,
    buildPrompt_addImageBlock] at isTokens

variable {ids : List Nat}

theorem exists_blockPosition {index : Nat} (less : index < imageSeqLen)
    (isTokens : imageMarker.Tokens (isImage engine.imageTokenId)
      (textBefore unicode messages ++
        ((List.replicate imageSeqLen imageToken).flatten ++
          textAfter unicode messages)) ids) :
    ∃ position, engine.BlockPosition unicode messages ids index position := by
  have parts : (List.replicate imageSeqLen imageToken).flatten =
      (List.replicate index imageToken).flatten ++
        (imageToken ++
          (List.replicate (imageSeqLen - 1 - index) imageToken).flatten) := by
    rw [← List.flatten_cons, ← List.replicate_succ, ← List.flatten_append,
      ← List.replicate_add]
    congr 2
    omega
  rw [parts, ← imageMarker_text, List.append_assoc, ← List.append_assoc,
    List.append_assoc imageMarker.text] at isTokens
  exact isTokens.exists_tokenAt

/-- Where nothing is before the block, as many image tokens are before a position
of it as its number says. -/
theorem BlockPosition.countP_take {index position : Nat}
    (absent : imageMarker.Absent (textBefore unicode messages))
    (isAt : engine.BlockPosition unicode messages ids index position) :
    (ids.take position).countP (isImage engine.imageTokenId) = index :=
  isAt.tokens.countP_replicate absent

theorem BlockPosition.imageRow?_eq {index position : Nat}
    (absent : imageMarker.Absent (textBefore unicode messages))
    (less : index < imageSeqLen)
    (isAt : engine.BlockPosition unicode messages ids index position) :
    imageRow? (isImage engine.imageTokenId) imageSeqLen ids position =
      some index :=
  imageRow?_eq_some_iff.mpr ⟨isAt.isSpecial, isAt.countP_take absent, less⟩

theorem BlockPosition.eq_of_imageRow? {index position other : Nat}
    (absent : imageMarker.Absent (textBefore unicode messages))
    (isAt : engine.BlockPosition unicode messages ids index position)
    (given : imageRow? (isImage engine.imageTokenId) imageSeqLen ids other =
      some index) : other = position := by
  obtain ⟨⟨id, isId, special⟩, before, -⟩ := imageRow?_eq_some_iff.mp given
  obtain ⟨token, isToken, isSpecial⟩ := isAt.isSpecial
  exact eq_of_countP_take isId isToken special isSpecial
    (before.trans (isAt.countP_take absent).symm)

variable {embeds imageFeatures spliced : List Float32}

/-- Without an earlier image token the rows go to the block. -/
theorem onBlock_of_absent
    (absent : imageMarker.Absent (textBefore unicode messages))
    (isTokens : imageMarker.Tokens (isImage engine.imageTokenId)
      (textBefore unicode messages ++
        ((List.replicate imageSeqLen imageToken).flatten ++
          textAfter unicode messages)) ids)
    (rowsOf : SplicedRows imageFeatures embeds (isImage engine.imageTokenId)
      imageSeqLen ids spliced) :
    engine.OnBlock unicode messages ids embeds imageFeatures spliced := by
  constructor
  · intro index less
    obtain ⟨position, isAt⟩ := exists_blockPosition less isTokens
    refine ⟨position, fun other => ⟨fun isOther => ?_, ?_⟩, ?_⟩
    · exact isAt.eq_of_imageRow? absent (isOther.imageRow?_eq absent less)
    · rintro rfl
      exact isAt
    · rw [rowsOf position, isAt.imageRow?_eq absent less]
  · intro position outside
    rw [rowsOf position]
    cases given : imageRow? (isImage engine.imageTokenId) imageSeqLen ids position with
    | none => rfl
    | some index =>
        obtain ⟨-, -, less⟩ := imageRow?_eq_some_iff.mp given
        obtain ⟨block, isAt⟩ := exists_blockPosition less isTokens
        rw [isAt.eq_of_imageRow? absent given] at outside
        exact absurd isAt (outside index less)

/-- An image token before the block gets the first row of the image. -/
theorem exists_early
    (occurs : ¬ imageMarker.Absent (textBefore unicode messages))
    (isTokens : imageMarker.Tokens (isImage engine.imageTokenId)
      (textBefore unicode messages ++
        ((List.replicate imageSeqLen imageToken).flatten ++
          textAfter unicode messages)) ids) :
    ∃ position,
      imageRow? (isImage engine.imageTokenId) imageSeqLen ids position = some 0 ∧
      ∀ index, ¬ engine.BlockPosition unicode messages ids index position := by
  obtain ⟨before, between, whole, absent⟩ := Marker.exists_first occurs
  rw [whole, List.append_assoc, List.append_assoc] at isTokens
  obtain ⟨position, isAt⟩ := isTokens.exists_tokenAt
  have first := isAt.tokens.countP_of_absent absent
  refine ⟨position, imageRow?_eq_some_iff.mpr ⟨isAt.isSpecial, first, by decide⟩, ?_⟩
  intro index isBlock
  have some := isBlock.tokens
  rw [whole, List.append_assoc, List.append_assoc] at some
  exact absurd first some.countP_append.ne'

/-! ## The run -/

theorem length_visionEncode {prepped : PreppedImage}
    (encoded : (engine.visionEncode prepped).result = .ok imageFeatures) :
    imageFeatures.length = imageSeqLen * hiddenSize := by
  obtain ⟨pixels, -, encoded⟩ := Traced.bind_result_eq_ok encoded
  obtain ⟨mask, -, encoded⟩ := Traced.bind_result_eq_ok encoded
  obtain ⟨features, -, encoded⟩ := Traced.bind_result_eq_ok encoded
  split_ifs at encoded with shape short
  · cases encoded
  · cases encoded
  · obtain rfl := Except.ok.inj encoded
    exact List.length_take_of_le (Nat.not_lt.mp short)

theorem promptEmbeds_eq {bytes : List UInt8} {prepped : PreppedImage}
    (embedded : (engine.embedTokens ids).result = .ok embeds)
    (decoded : engine.preprocess bytes = .ok prepped)
    (encoded : (engine.visionEncode prepped).result = .ok imageFeatures)
    (isSpliced : spliceImageEmbeds embeds ids imageFeatures engine.imageTokenId =
      some spliced) :
    (engine.promptEmbeds ids (some bytes)).result = .ok spliced := by
  have image : Traced.lift ((engine.preprocess bytes).mapError EngineError.image) =
      (pure prepped : Generation PreppedImage) := by
    rw [decoded]
    rfl
  rw [promptEmbeds, Traced.bind_of_ok embedded]
  dsimp only
  rw [image, Traced.succeed_bind, Traced.bind_of_ok encoded]
  dsimp only
  rw [isSpliced]
  rfl

theorem ImageOnBlock.of_absent {bytes : List UInt8}
    (tokenizes : engine.TokenizesImages)
    (absent : imageMarker.Absent (textBefore unicode messages)) :
    engine.ImageOnBlock unicode messages bytes := by
  intro ids embeds prepped imageFeatures asked embedded sized decoded encoded
  obtain ⟨spliced, isSpliced, rowsOf⟩ := @exists_spliced _ _ engine.imageTokenId _ _
    (length_visionEncode encoded) sized.ge
  have result := promptEmbeds_eq embedded decoded encoded isSpliced
  refine ⟨spliced, result,
    onBlock_of_absent absent (tokenizes.tokens asked) rowsOf, ?_⟩
  intro env temperature maxTokens pass mem
  obtain ⟨others, isOthers, fed⟩ := chat_first pass mem
  obtain rfl := Except.ok.inj (asked.symm.trans isOthers)
  exact (Except.ok.inj (result.symm.trans fed)).symm

/-! ## An engine that shows the splice -/

/-- All embeddings are zero and all features are one. -/
def flatEngine (tokenizer : HrmTokenizer) (imageTokenId : UInt32) :
    SmolVlmEngine where
  preprocess _ := .ok ⟨List.replicate (3 * canvas * canvas) 0.0,
    List.replicate (canvas * canvas) true⟩
  visionSession _ _ := .ok ⟨[1, imageSeqLen, hiddenSize],
    List.replicate (imageSeqLen * hiddenSize) 1.0⟩
  embedSession ids := .ok ⟨[1, ids.length, hiddenSize],
    List.replicate (ids.length * hiddenSize) 0.0⟩
  decoderSession _ := .error "no decoder"
  tokenizer := tokenizer
  imageTokenId := imageTokenId
  eosTokenId := 0
  maxCtxSize := 8192

variable {tokenizer : HrmTokenizer} {imageTokenId : UInt32}

theorem flatEngine_embedTokens (nonempty : ids ≠ []) :
    ((flatEngine tokenizer imageTokenId).embedTokens ids).result =
      .ok (List.replicate (ids.length * hiddenSize) 0.0) := by
  have some : ids.length ≠ 0 := fun none => nonempty (List.length_eq_zero_iff.mp none)
  have input : inputTensor [1, ids.length] ids = pure ⟨[1, ids.length], ids⟩ :=
    inputTensor_ok (by simp [some]) (by simp)
  rw [embedTokens, input, Traced.succeed_bind]
  rfl

theorem flatEngine_visionEncode :
    ((flatEngine tokenizer imageTokenId).visionEncode
      ⟨List.replicate (3 * canvas * canvas) 0.0,
        List.replicate (canvas * canvas) true⟩).result =
      .ok (List.replicate (imageSeqLen * hiddenSize) 1.0) := by
  have pixels : inputTensor [1, 1, 3, canvas, canvas]
      (List.replicate (3 * canvas * canvas) (0.0 : Float32)) = pure ⟨_, _⟩ :=
    inputTensor_ok (by decide) (by rw [List.length_replicate]; rfl)
  have mask : inputTensor [1, 1, canvas, canvas]
      (List.replicate (canvas * canvas) true) = pure ⟨_, _⟩ :=
    inputTensor_ok (by decide) (by rw [List.length_replicate]; rfl)
  have answered (input : OrtTensor Float32) (mask : OrtTensor Bool) :
      Traced.lift (((flatEngine tokenizer imageTokenId).visionSession input
        mask).mapError EngineError.session) =
        (pure ⟨[1, imageSeqLen, hiddenSize],
          List.replicate (imageSeqLen * hiddenSize) 1.0⟩ :
          Generation (OrtTensor Float32)) := rfl
  rw [visionEncode, pixels, Traced.succeed_bind, mask, Traced.succeed_bind, answered,
    Traced.succeed_bind, if_neg (by decide), if_neg (by simp), List.take_replicate,
    Nat.min_self, Traced.pure_result]

/-- A tokenizer of single characters that knows the image token. -/
def imageTokenizer : HrmTokenizer where
  encodeWith text _ := .ok (tokenizeMarked imageMarker 49190 (fun _ => 1)
    (text.toList.length + 1) text.toList)
  decodeWith _ _ := .ok ""

theorem imageTokenizer_tokenizes :
    (flatEngine imageTokenizer 49190).TokenizesImages := by
  intro text ids encoded
  obtain rfl := Except.ok.inj encoded
  exact tokenizeMarked_tokens rfl (fun _ => rfl) (Nat.lt_succ_self _)

/-- A row of ones is not on a position outside the block. -/
theorem not_onBlock_of_early {position : Nat}
    (rowsOf : SplicedRows (List.replicate (imageSeqLen * hiddenSize) 1.0)
      (List.replicate (ids.length * hiddenSize) 0.0)
      (isImage engine.imageTokenId) imageSeqLen ids spliced)
    (given : imageRow? (isImage engine.imageTokenId) imageSeqLen ids position =
      some 0)
    (outside : ∀ index, ¬ engine.BlockPosition unicode messages ids index position) :
    ¬ engine.OnBlock unicode messages ids
      (List.replicate (ids.length * hiddenSize) 0.0)
      (List.replicate (imageSeqLen * hiddenSize) 1.0) spliced := by
  intro onBlock
  obtain ⟨⟨id, isId, -⟩, -⟩ := imageRow?_eq_some_iff.mp given
  have less : position < ids.length := (List.getElem?_eq_some_iff.mp isId).1
  have some : 0 < imageSeqLen := by decide
  have ones := rowsOf position
  rw [given] at ones
  dsimp only at ones
  rw [onBlock.others position fun index _ => outside index, row_replicate less,
    row_replicate some] at ones
  have same : (0.0 : Float32) = 1.0 :=
    (List.replicate_right_inj (by decide : hiddenSize ≠ 0)).mp ones
  exact absurd same (by decide +kernel)

/-- An image token before the block takes the first row of the image. -/
theorem not_imageOnBlock
    (occurs : ¬ imageMarker.Absent (textBefore unicode messages))
    (bytes : List UInt8) :
    ¬ (flatEngine imageTokenizer 49190).ImageOnBlock unicode messages bytes := by
  intro onBlock
  obtain ⟨ids, asked⟩ : ∃ ids, (flatEngine imageTokenizer 49190).chatIds unicode
      messages (some bytes) = .ok ids := ⟨_, rfl⟩
  obtain ⟨position, given, outside⟩ :=
    exists_early occurs (imageTokenizer_tokenizes.tokens asked)
  have nonempty : ids ≠ [] := by
    rintro rfl
    obtain ⟨⟨id, isId, -⟩, -⟩ := imageRow?_eq_some_iff.mp given
    cases isId
  have embedded := @flatEngine_embedTokens ids imageTokenizer 49190 nonempty
  have encoded := @flatEngine_visionEncode imageTokenizer 49190
  have sized : (List.replicate (ids.length * hiddenSize) (0.0 : Float32)).length =
      ids.length * hiddenSize := List.length_replicate
  obtain ⟨spliced, fed, rows, -⟩ :=
    onBlock ids _ _ _ asked embedded sized rfl encoded
  obtain ⟨other, isSpliced, rowsOf⟩ := @exists_spliced _ _
    (flatEngine imageTokenizer 49190).imageTokenId _ _
    (length_visionEncode encoded) sized.ge
  rw [promptEmbeds_eq embedded rfl encoded isSpliced] at fed
  obtain rfl := Except.ok.inj fed
  exact not_onBlock_of_early rowsOf given outside rows

/-- **The rows of the image go to the block** of every chat just when no message
before it has an image token in its role or in its content. -/
theorem imageOnBlock_iff (unicode : Char → List Char)
    (messages : List ChatMessage) :
    (∀ engine : SmolVlmEngine, engine.TokenizesImages →
      ∀ bytes, engine.ImageOnBlock unicode messages bytes) ↔
    ∀ message ∈ earlierMessages messages,
      ¬ imageToken <:+: capitalize unicode message.role ∧
        ¬ imageToken <:+: message.content := by
  refine Iff.trans ?_ absent_textBefore_iff
  constructor
  · intro all
    by_contra occurs
    exact not_imageOnBlock occurs [] (all _ imageTokenizer_tokenizes [])
  · intro absent engine tokenizes bytes
    exact .of_absent tokenizes absent

/-- A user who has asked about the token before the image moves its rows. -/
theorem askedToken_takesRow :
    ¬ ∀ engine : SmolVlmEngine, engine.TokenizesImages → ∀ bytes,
      engine.ImageOnBlock (fun c => [c])
        [⟨"user".toList, "What does <image> mean?".toList⟩,
          ⟨"assistant".toList, "A picture.".toList⟩,
          ⟨"user".toList, "And this?".toList⟩] bytes := by
  intro all
  refine not_imageOnBlock ?_ [] (all _ imageTokenizer_tokenizes [])
  rw [absent_textBefore_iff]
  intro absent
  have first := absent ⟨"user".toList, "What does <image> mean?".toList⟩
    List.mem_cons_self
  exact first.2 ⟨"What does ".toList, " mean?".toList, rfl⟩

end SmolVlmEngine

end TorchInference
