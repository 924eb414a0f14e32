import TorchInference.SentenceSplitter

/-!
# The limit on the length of a sentence

The limit is looked at before a character joins the sentence, and not at all
where a sentence ends or the text does.  A sentence is too long where one of
these finds more bytes than the limit allows.
-/

namespace TorchInference

/-! ## One character -/

/-- What stands before the last space, or everything. -/
def beforeLastSpace (text : List Char) : List Char :=
  match splitAtLastSpace text with
  | some (before, _) => before
  | none => text

/-- The sentence so far and the rest of the text after a character is read. -/
def readOn (maxChars : Nat) (current : List Char) (c : Char)
    (rest : List Char) : List Char × List Char :=
  if isBoundary c ∧ followedBySpace rest then ([], rest.drop 1)
  else if maxChars ≤ byteLength current then
    match splitAtLastSpace current with
    | some (_, after) => (after ++ [c], rest)
    | none => (if c = ' ' then [] else [c], rest)
  else (current ++ [c], rest)

/-- From one sentence so far and rest of the text, the loop comes to
another. -/
inductive Reads (maxChars : Nat) :
    List Char → List Char → List Char → List Char → Prop
  | here {current rest : List Char} : Reads maxChars current rest current rest
  | on {current rest later left : List Char} {c : Char}
      (reads : Reads maxChars (readOn maxChars current c rest).1
        (readOn maxChars current c rest).2 later left) :
      Reads maxChars current (c :: rest) later left

/-- The sentence so far leaves room for what is about to be read.  A character
that ends the sentence has to fit in; of a sentence that has become too long,
what stands before its last space has to; and at the end of the text all of
it. -/
def HasRoom (maxChars : Nat) (current : List Char) : List Char → Prop
  | [] => byteLength (trim current) ≤ maxChars
  | c :: rest =>
      if isBoundary c ∧ followedBySpace rest then
        byteLength (current.dropWhile isWhitespace) + c.utf8Size ≤ maxChars
      else
        maxChars ≤ byteLength current →
          byteLength (trim (beforeLastSpace current)) ≤ maxChars

namespace SentenceSplitter

end SentenceSplitter

end TorchInference
