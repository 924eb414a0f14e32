import TorchInference.CanonicalJson
import TorchInference.LruCache

/-!
# Request deduplication

`predict` looks a request up under a key made of the model, a hash of the
canonical text of the inputs and a window of ten seconds.  The results are kept
in sixteen shards, each an LRU cache behind a lock of its own; a shard is
chosen by the hash of the key.

Every operation holds the lock of one shard at a time, so a concurrent run is a
list of such locked sections in any order.
-/

namespace TorchInference

structure DeduplicationEntry where
  result : JsonValue
  timestamp : UInt64
  ttl : UInt64

/-- The entry is younger than its TTL. -/
def DeduplicationEntry.isValid (entry : DeduplicationEntry) (now : UInt64) :
    Bool :=
  decide (now.toNat - entry.timestamp.toNat < entry.ttl.toNat)

structure RequestDeduplicator where
  shards : Vector (LruCache String DeduplicationEntry) 16

namespace RequestDeduplicator

def fnvOffset : UInt64 := 14695981039346656037

def fnvPrime : UInt64 := 1099511628211

def fnv1a (data : List UInt8) : UInt64 :=
  data.foldl (fun hash byte => (hash ^^^ byte.toUInt64) * fnvPrime) fnvOffset

/-- The UTF-8 bytes of a text. -/
def asBytes (text : List Char) : List UInt8 :=
  text.flatMap String.utf8EncodeChar

/-- The last hexadecimal digits of a number. -/
def hexDigits : Nat → Nat → List Char
  | 0, _ => []
  | count + 1, number =>
      hexDigits count (number / 16) ++ [Nat.digitChar (number % 16)]

/-- `RequestDeduplicator::new`. -/
def new (maxEntries : Nat) : RequestDeduplicator :=
  let perShard := max ((maxEntries + 15) / 16) 1
  ⟨Vector.replicate 16 (LruCache.empty perShard)⟩

def shardIndex (key : String) : Fin 16 :=
  ⟨(fnv1a (asBytes key.toList) &&& 15).toNat % 16, Nat.mod_lt _ (by decide)⟩

/-- The hash of the canonical text of the inputs. -/
def inputsHash (floats : FloatText) (inputs : JsonValue) : UInt64 :=
  fnv1a (asBytes (CanonicalJson.writeCanonicalJson floats inputs))

def generateKey (floats : FloatText) (model : String) (inputs : JsonValue)
    (now : UInt64) : String :=
  let hash := inputsHash floats inputs
  let epochWindow := now / 10
  String.ofList (model.toList ++ ':' :: hexDigits 16 hash.toNat ++
    ':' :: Nat.toDigits 10 epochWindow.toNat)

def get (deduplicator : RequestDeduplicator) (key : String) (now : UInt64) :
    Option JsonValue × RequestDeduplicator :=
  let shard := shardIndex key
  let cache := deduplicator.shards[shard]
  if (cache.find key).any (·.isValid now) then
    let (entry, used) := cache.get key
    (entry.map DeduplicationEntry.result,
      ⟨deduplicator.shards.set shard used⟩)
  else (none, ⟨deduplicator.shards.set shard (cache.remove key)⟩)

def set (deduplicator : RequestDeduplicator) (key : String)
    (result : JsonValue) (ttl now : UInt64) : RequestDeduplicator :=
  let shard := shardIndex key
  let cache := deduplicator.shards[shard]
  ⟨deduplicator.shards.set shard (cache.put key ⟨result, now, ttl⟩)⟩

def invalidate (deduplicator : RequestDeduplicator) (key : String) :
    RequestDeduplicator :=
  let shard := shardIndex key
  ⟨deduplicator.shards.set shard (deduplicator.shards[shard].remove key)⟩

/-- `clear` at one shard. -/
def clearShard (deduplicator : RequestDeduplicator) (shard : Fin 16) :
    RequestDeduplicator :=
  ⟨deduplicator.shards.set shard
    (LruCache.empty deduplicator.shards[shard].capacity)⟩

/-- `cleanup_expired` at one shard. -/
def cleanupShard (deduplicator : RequestDeduplicator) (shard : Fin 16)
    (now : UInt64) : RequestDeduplicator :=
  let cache := deduplicator.shards[shard]
  let expired := (cache.entries.filter fun entry => !entry.2.isValid now).map
    Prod.fst
  ⟨deduplicator.shards.set shard (expired.foldl LruCache.remove cache)⟩

end RequestDeduplicator

/-- A model and inputs that `serde_json` can hold. -/
structure DedupRequest where
  model : String
  inputs : JsonValue
  wellFormed : inputs.WellFormed

/-- A locked section of an operation.  A request is looked up, and its result
stored, under the key generated for it at some time before. -/
inductive DedupSection where
  | get (request : DedupRequest) (generatedAt now : UInt64)
  | set (request : DedupRequest) (generatedAt : UInt64) (result : JsonValue)
      (ttl now : UInt64)
  | invalidate (key : String)
  | clearShard (shard : Fin 16)
  | cleanupShard (shard : Fin 16) (now : UInt64)

namespace RequestDeduplicator

/-- The key of a request. -/
def requestKey (floats : FloatText) (request : DedupRequest)
    (generatedAt : UInt64) : String :=
  generateKey floats request.model request.inputs generatedAt

def perform (floats : FloatText) (deduplicator : RequestDeduplicator) :
    DedupSection → RequestDeduplicator
  | .get request generatedAt now =>
      (deduplicator.get (requestKey floats request generatedAt) now).2
  | .set request generatedAt result ttl now =>
      deduplicator.set (requestKey floats request generatedAt) result ttl now
  | .invalidate key => deduplicator.invalidate key
  | .clearShard shard => deduplicator.clearShard shard
  | .cleanupShard shard now => deduplicator.cleanupShard shard now

def run (floats : FloatText) (deduplicator : RequestDeduplicator)
    (sections : List DedupSection) : RequestDeduplicator :=
  sections.foldl (perform floats) deduplicator

/-! ## Keys -/

theorem hexDigits_length (count number : Nat) :
    (hexDigits count number).length = count := by
  induction count generalizing number with
  | zero => rfl
  | succ count ih => rw [hexDigits, List.length_append, ih]; rfl

theorem hexDigits_injective {count number other : Nat}
    (small : number < 16 ^ count) (otherSmall : other < 16 ^ count)
    (same : hexDigits count number = hexDigits count other) :
    number = other := by
  induction count generalizing number other with
  | zero => omega
  | succ count ih =>
      rw [hexDigits, hexDigits] at same
      obtain ⟨leading, last⟩ := List.append_inj' same rfl
      have quotients := ih (by rw [Nat.pow_succ] at small; omega)
        (by rw [Nat.pow_succ] at otherSmall; omega) leading
      have digits := congrArg CanonicalJson.hexValue (List.cons.inj last).1
      rw [CanonicalJson.hexValue_digitChar (by omega),
        CanonicalJson.hexValue_digitChar (by omega)] at digits
      omega

/-- The text after the last colon and the text before it. -/
theorem append_colon_inj {text other last otherLast : List Char}
    (plain : ∀ c ∈ last, c ≠ ':') (otherPlain : ∀ c ∈ otherLast, c ≠ ':')
    (same : text ++ ':' :: last = other ++ ':' :: otherLast) :
    text = other ∧ last = otherLast := by
  have reversed := congrArg List.reverse same
  simp only [List.reverse_append, List.reverse_cons, List.append_assoc,
    List.singleton_append] at reversed
  have symbols : ∀ c ∈ last.reverse, (c != ':') = true := by
    intro c member
    simpa using plain c (List.mem_reverse.mp member)
  have otherSymbols : ∀ c ∈ otherLast.reverse, (c != ':') = true := by
    intro c member
    simpa using otherPlain c (List.mem_reverse.mp member)
  obtain ⟨lasts, texts⟩ := UniqueReading.append_inj_of_symbols symbols
    otherSymbols (by simp) (by simp) reversed
  exact ⟨List.reverse_injective (List.cons.inj texts).2,
    List.reverse_injective lasts⟩

theorem decimal_ne_colon (number : Nat) :
    ∀ c ∈ Nat.toDigits 10 number, c ≠ ':' := by
  rintro c member rfl
  exact absurd (CanonicalJson.decimal_numberChars ':' member) (by decide)

/-- A key shows the model, the hash of the inputs and the window, whatever
characters the model has. -/
theorem generateKey_eq_iff {floats : FloatText} {model otherModel : String}
    {inputs otherInputs : JsonValue} {now otherNow : UInt64} :
    generateKey floats model inputs now =
        generateKey floats otherModel otherInputs otherNow ↔
      model = otherModel ∧
        inputsHash floats inputs = inputsHash floats otherInputs ∧
        now / 10 = otherNow / 10 := by
  constructor
  · intro same
    have texts := String.ofList_injective same
    obtain ⟨leading, windows⟩ := append_colon_inj (decimal_ne_colon _)
      (decimal_ne_colon _) texts
    obtain ⟨models, hashes⟩ := List.append_inj' leading
      (by simp only [List.length_cons, hexDigits_length])
    have hashNumbers := hexDigits_injective (UInt64.toNat_lt _)
      (UInt64.toNat_lt _) (List.cons.inj hashes).2
    exact ⟨String.toList_injective models, UInt64.toNat_inj.mp hashNumbers,
      UInt64.toNat_inj.mp (CanonicalJson.decimal_injective windows)⟩
  · rintro ⟨rfl, hashes, windows⟩
    simp only [generateKey, hashes, windows]

/-- Different canonical texts with the same FNV-1a hash. -/
def Collide (floats : FloatText) (inputs otherInputs : JsonValue) : Prop :=
  CanonicalJson.writeCanonicalJson floats inputs ≠
      CanonicalJson.writeCanonicalJson floats otherInputs ∧
    inputsHash floats inputs = inputsHash floats otherInputs

theorem inputsHash_eq_iff (floats : FloatText)
    (request other : DedupRequest) :
    inputsHash floats request.inputs = inputsHash floats other.inputs ↔
      request.inputs.Reordered other.inputs ∨
        Collide floats request.inputs other.inputs := by
  have reordered_of_same := CanonicalJson.reordered_of_same floats
    request.wellFormed other.wellFormed
  have same_of_reordered := CanonicalJson.same_of_reordered floats
    request.wellFormed other.wellFormed
  constructor
  · intro hashes
    by_cases same : CanonicalJson.writeCanonicalJson floats request.inputs =
        CanonicalJson.writeCanonicalJson floats other.inputs
    · exact .inl (reordered_of_same same)
    · exact .inr ⟨same, hashes⟩
  · rintro (reordered | ⟨_, hashes⟩)
    · rw [inputsHash, same_of_reordered reordered, inputsHash]
    · exact hashes

/-! ## Where results come from -/

/-- Every entry holds the result a section stored under its key. -/
def StoredBy (floats : FloatText) (sections : List DedupSection)
    (deduplicator : RequestDeduplicator) : Prop :=
  ∀ shard ∈ deduplicator.shards, ∀ entry ∈ shard.entries,
    ∃ request generatedAt ttl now,
      .set request generatedAt entry.2.result ttl now ∈ sections ∧
        requestKey floats request generatedAt = entry.1

theorem storedBy_new (floats : FloatText) (maxEntries : Nat) :
    StoredBy floats [] (new maxEntries) := by
  intro shard member entry remembered
  obtain rfl := (Vector.mem_replicate.mp member).2
  exact absurd remembered List.not_mem_nil

variable {floats : FloatText} {sections : List DedupSection}
  {deduplicator : RequestDeduplicator}

theorem StoredBy.append (stored : StoredBy floats sections deduplicator)
    (later : List DedupSection) :
    StoredBy floats (sections ++ later) deduplicator := by
  intro shard member entry remembered
  obtain ⟨request, generatedAt, ttl, now, performed, key⟩ :=
    stored shard member entry remembered
  exact ⟨request, generatedAt, ttl, now, List.mem_append_left _ performed, key⟩

theorem mem_setShard {shards : Vector (LruCache String DeduplicationEntry) 16}
    {shard : Fin 16} {cache other : LruCache String DeduplicationEntry}
    (member : other ∈ shards.set shard cache) :
    other ∈ shards ∨ other = cache := by
  obtain ⟨index, bound, rfl⟩ := Vector.getElem_of_mem member
  rw [Vector.getElem_set]
  split
  · exact .inr rfl
  · exact .inl (Vector.getElem_mem bound)

/-- A shard whose entries are among the old ones may take a shard's place. -/
theorem StoredBy.replace (stored : StoredBy floats sections deduplicator)
    (shard : Fin 16) {cache : LruCache String DeduplicationEntry}
    (kept : ∀ entry ∈ cache.entries,
      entry ∈ deduplicator.shards[shard].entries) :
    StoredBy floats sections ⟨deduplicator.shards.set shard cache⟩ := by
  intro other member entry remembered
  obtain old | rfl := mem_setShard member
  · exact stored other old entry remembered
  · exact stored _ (Vector.getElem_mem shard.isLt) entry
      (kept entry remembered)

theorem mem_foldl_remove (keys : List String)
    {cache : LruCache String DeduplicationEntry}
    {entry : String × DeduplicationEntry}
    (remembered : entry ∈ (keys.foldl LruCache.remove cache).entries) :
    entry ∈ cache.entries := by
  induction keys generalizing cache with
  | nil => exact remembered
  | cons key keys ih => exact LruCache.mem_remove (ih remembered)

theorem StoredBy.perform (stored : StoredBy floats sections deduplicator)
    (performed : DedupSection) :
    StoredBy floats (sections ++ [performed])
      (perform floats deduplicator performed) := by
  cases performed with
  | get request generatedAt now =>
      apply StoredBy.append
      simp only [RequestDeduplicator.perform, RequestDeduplicator.get]
      split
      · exact stored.replace _ fun entry => LruCache.mem_get
      · exact stored.replace _ fun entry => LruCache.mem_remove
  | set request generatedAt result ttl now =>
      intro other member entry remembered
      obtain old | rfl := mem_setShard member
      · exact stored.append _ other old entry remembered
      · obtain rfl | old := LruCache.mem_put remembered
        · exact ⟨request, generatedAt, ttl, now, by simp, rfl⟩
        · exact stored.append _ _ (Vector.getElem_mem _) entry old
  | invalidate key =>
      exact (stored.append _).replace _ fun entry => LruCache.mem_remove
  | clearShard shard =>
      exact (stored.append _).replace _ fun entry absent =>
        absurd absent List.not_mem_nil
  | cleanupShard shard now =>
      exact (stored.append _).replace _ fun entry => mem_foldl_remove _

theorem StoredBy.run (stored : StoredBy floats sections deduplicator)
    (later : List DedupSection) :
    StoredBy floats (sections ++ later) (run floats deduplicator later) := by
  induction later generalizing sections deduplicator with
  | nil => rwa [List.append_nil]
  | cons performed later ih =>
      have next := ih (stored.perform performed)
      rwa [List.append_assoc] at next

/-- What a hit returns is the result of an entry under its key. -/
theorem exists_entry_of_hit {key : String} {now : UInt64} {result : JsonValue}
    (hit : (deduplicator.get key now).1 = some result) :
    ∃ shard ∈ deduplicator.shards, ∃ entry ∈ shard.entries,
      entry.1 = key ∧ entry.2.result = result := by
  simp only [RequestDeduplicator.get] at hit
  split at hit
  · obtain ⟨entry, found, rfl⟩ := Option.map_eq_some_iff.mp hit
    have remembered : deduplicator.shards[shardIndex key].find key =
        some entry := by
      unfold LruCache.get at found
      split at found
      · next value known => rw [known]; exact found
      · exact absurd found (by simp)
    exact ⟨_, Vector.getElem_mem _, (key, entry),
      LruCache.mem_of_find remembered, rfl, rfl⟩
  · cases hit

/-- A stored result is found again until its TTL is over. -/
theorem get_set {key : String}
    (room : 0 < deduplicator.shards[shardIndex key].capacity)
    (result : JsonValue) {ttl stored now : UInt64}
    (young : now.toNat - stored.toNat < ttl.toNat) :
    ((deduplicator.set key result ttl stored).get key now).1 =
      some result := by
  have known : (deduplicator.set key result ttl stored).shards[shardIndex
      key].find key = some ⟨result, stored, ttl⟩ := by
    simp only [RequestDeduplicator.set, Fin.getElem_fin,
      Vector.getElem_set_self]
    exact LruCache.find_put room key _
  rw [RequestDeduplicator.get, if_pos]
  · rw [LruCache.get_of_find known]
    rfl
  · rw [known, Option.any_some, DeduplicationEntry.isValid]
    exact decide_eq_true young

/-! ## Requests that share a key -/

theorem requestKey_eq_iff {floats : FloatText} {request other : DedupRequest}
    {generatedAt otherGeneratedAt : UInt64} :
    requestKey floats request generatedAt =
        requestKey floats other otherGeneratedAt ↔
      request.model = other.model ∧
        (request.inputs.Reordered other.inputs ∨
          Collide floats request.inputs other.inputs) ∧
        generatedAt / 10 = otherGeneratedAt / 10 := by
  rw [requestKey, requestKey, generateKey_eq_iff, inputsHash_eq_iff]

/-- Equal keys are those of one model and one window and of inputs that are
equal up to the order of object members or collide, and a hit returns a result
stored for such a request. -/
theorem requestKey_sound (floats : FloatText) :
    (∀ (request other : DedupRequest) (generatedAt otherGeneratedAt : UInt64),
      requestKey floats request generatedAt =
          requestKey floats other otherGeneratedAt ↔
        request.model = other.model ∧
          (request.inputs.Reordered other.inputs ∨
            Collide floats request.inputs other.inputs) ∧
          generatedAt / 10 = otherGeneratedAt / 10) ∧
      ∀ (maxEntries : Nat) (sections : List DedupSection)
        (request : DedupRequest) (generatedAt now : UInt64)
        (result : JsonValue),
        ((run floats (new maxEntries) sections).get
            (requestKey floats request generatedAt) now).1 = some result →
          ∃ stored storedAt ttl time,
            .set stored storedAt result ttl time ∈ sections ∧
              stored.model = request.model ∧
              (stored.inputs.Reordered request.inputs ∨
                Collide floats stored.inputs request.inputs) ∧
              storedAt / 10 = generatedAt / 10 := by
  refine ⟨fun _ _ _ _ => requestKey_eq_iff, ?_⟩
  intro maxEntries sections request generatedAt now result hit
  obtain ⟨shard, member, entry, remembered, key, rfl⟩ :=
    exists_entry_of_hit hit
  obtain ⟨stored, storedAt, ttl, time, performed, storedKey⟩ :=
    (storedBy_new floats maxEntries).run sections shard member entry remembered
  rw [List.nil_append] at performed
  exact ⟨stored, storedAt, ttl, time, performed,
    requestKey_eq_iff.mp (storedKey.trans key)⟩

/-- A formatter that writes 2.5 as it is, and other floats as their bits with
an exponent. -/
def bitsText : FloatText where
  text bits :=
    if bits = 0x4004000000000000 then ['2', '.', '5']
    else Nat.toDigits 10 bits.toNat ++ ['e', '0']
  injective := by
    intro bits others _ _ same
    have noPoint : ∀ number, ['2', '.', '5'] ≠
        Nat.toDigits 10 number ++ ['e', '0'] := by
      intro number same
      have point : '.' ∈ Nat.toDigits 10 number ++ ['e', '0'] := by
        rw [← same]; decide
      rw [List.mem_append] at point
      obtain digit | sign := point
      · exact absurd (Nat.isDigit_of_mem_toDigits (by decide) (by decide) digit)
          (by decide)
      · exact absurd sign (by decide)
    by_cases first : bits = 0x4004000000000000
    · by_cases second : others = 0x4004000000000000
      · rw [first, second]
      · rw [if_pos first, if_neg second] at same
        exact absurd same (noPoint _)
    · rw [if_neg first] at same
      by_cases second : others = 0x4004000000000000
      · rw [if_pos second] at same
        exact absurd same.symm (noPoint _)
      · rw [if_neg second] at same
        exact UInt64.toNat_inj.mp
          (CanonicalJson.decimal_injective (List.append_cancel_right same))
  numberChars := by
    intro bits _ c member
    have plain : ∀ c ∈ ['2', '.', '5', 'e', '0'], isNumberChar c = true :=
      List.all_eq_true.mp rfl
    by_cases half : bits = 0x4004000000000000
    · rw [if_pos half] at member
      exact plain c (List.mem_append_left ['e', '0'] member)
    · rw [if_neg half] at member
      obtain digit | sign := List.mem_append.mp member
      · exact CanonicalJson.decimal_numberChars c digit
      · exact plain c (List.mem_append_right ['2', '.', '5'] sign)
  fractional := by
    intro bits _
    by_cases half : bits = 0x4004000000000000
    · rw [if_pos half]
      exact .inl (by decide)
    · rw [if_neg half]
      exact .inr (by simp)

def scoreRequest : DedupRequest where
  model := "resnet:50"
  inputs := .object [("top", .number (.posInt 1)),
    ("score", .number (.float 0x4004000000000000))]
  wellFormed := by
    refine .object _ (by decide) ?_
    intro entry member
    simp only [List.mem_cons, List.not_mem_nil, or_false] at member
    obtain rfl | rfl := member
    · exact .number _ trivial
    · exact .number _ (by decide)

def reorderedScoreRequest : DedupRequest where
  model := "resnet:50"
  inputs := .object [("score", .number (.float 0x4004000000000000)),
    ("top", .number (.posInt 1))]
  wellFormed := by
    refine .object _ (by decide) ?_
    intro entry member
    simp only [List.mem_cons, List.not_mem_nil, or_false] at member
    obtain rfl | rfl := member
    · exact .number _ (by decide)
    · exact .number _ trivial

theorem scoreRequests_reordered :
    scoreRequest.inputs.Reordered reorderedScoreRequest.inputs :=
  .object (List.Perm.swap _ _ []) (List.Perm.refl _) rfl
    (.cons (.number _) (.cons (.number _) .nil))

theorem scoreRequests_sameText :
    CanonicalJson.writeCanonicalJson bitsText scoreRequest.inputs =
      CanonicalJson.writeCanonicalJson bitsText reorderedScoreRequest.inputs :=
  (CanonicalJson.same_iff_reordered bitsText scoreRequest.wellFormed
    reorderedScoreRequest.wellFormed).mpr scoreRequests_reordered

theorem requestKey_sound_scoreRequest :
    ∃ stored storedAt ttl time,
      DedupSection.set stored storedAt (.string "cat") ttl time ∈
          [DedupSection.set scoreRequest 1700000000 (.string "cat") 10
            1700000001] ∧
        stored.model = reorderedScoreRequest.model ∧
        (stored.inputs.Reordered reorderedScoreRequest.inputs ∨
          Collide bitsText stored.inputs reorderedScoreRequest.inputs) ∧
        storedAt / 10 = 1700000004 / 10 := by
  have sound := requestKey_sound bitsText
  have sameKey : requestKey bitsText scoreRequest 1700000000 =
      requestKey bitsText reorderedScoreRequest 1700000004 :=
    (sound.1 _ _ _ _).mpr ⟨rfl, .inl scoreRequests_reordered, by decide⟩
  apply sound.2 5000 _ reorderedScoreRequest 1700000004 1700000004
  rw [← sameKey]
  apply get_set
  · simp [new, LruCache.empty]
  · decide

def nameRequest (name : String) : DedupRequest where
  model := "resnet:50"
  inputs := .string name
  wellFormed := .string name

/-- Two names whose texts have one hash: the second request is answered with
the result of the first. -/
theorem collidingNames_shareResult :
    requestKey bitsText (nameRequest "Nm2lYvLebkB") 1700000000 =
        requestKey bitsText (nameRequest "FL9TvNnDL1H") 1700000000 ∧
      ¬ (nameRequest "Nm2lYvLebkB").inputs.Reordered
        (nameRequest "FL9TvNnDL1H").inputs ∧
      ((run bitsText (new 5000)
          [.set (nameRequest "Nm2lYvLebkB") 1700000000 (.string "cat") 10
            1700000000]).get
        (requestKey bitsText (nameRequest "FL9TvNnDL1H") 1700000000)
        1700000001).1 = some (.string "cat") := by
  have hashes : inputsHash bitsText (.string "Nm2lYvLebkB") =
      inputsHash bitsText (.string "FL9TvNnDL1H") := by
    decide +kernel
  have sameKey : requestKey bitsText (nameRequest "Nm2lYvLebkB") 1700000000 =
      requestKey bitsText (nameRequest "FL9TvNnDL1H") 1700000000 :=
    generateKey_eq_iff.mpr ⟨rfl, hashes, rfl⟩
  refine ⟨sameKey, ?_, ?_⟩
  · intro reordered
    exact absurd reordered.string_eq (by decide)
  · rw [← sameKey]
    apply get_set
    · simp [new, LruCache.empty]
    · decide

end RequestDeduplicator

end TorchInference
