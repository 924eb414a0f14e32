import TorchInference.SmolVlmEngine

/-!
# The prompt of the SmolVLM engine

A chat becomes one text.  An image stands in it as a block of image tokens, in
front of what the last message of the user says.
-/

namespace TorchInference

namespace SmolVlm

def imageToken : List Char :=
  "<image>".toList

def fakeImageToken : List Char :=
  "<fake_token_around_image>".toList

def globalImgToken : List Char :=
  "<global-img>".toList

def imageExpansionBlock : List Char :=
  fakeImageToken ++ globalImgToken ++
    (List.replicate imageSeqLen imageToken).flatten ++ fakeImageToken

/-- `char::to_uppercase`; beyond ASCII it is a table of Unicode. -/
def toUppercase (unicode : Char → List Char) (c : Char) : List Char :=
  if c.toNat < 128 then [c.toUpper] else unicode c

def capitalize (unicode : Char → List Char) : List Char → List Char
  | [] => []
  | f :: rest => toUppercase unicode f ++ rest

structure ChatMessage where
  role : List Char
  content : List Char

/-- What a message is in the prompt. -/
def messageText (unicode : Char → List Char) (message : ChatMessage) :
    List Char :=
  capitalize unicode message.role ++ ": ".toList ++ message.content ++
    "<end_of_utterance>\n".toList

def buildPrompt (unicode : Char → List Char) (messages : List ChatMessage) :
    List Char :=
  "<|im_start|>".toList ++ messages.flatMap (messageText unicode) ++
    "Assistant:".toList

/-- `iter_mut().find(..)` and what is assigned to the entry that is found. -/
def updateFirst {Entry : Type} (found : Entry → Bool) (update : Entry → Entry) :
    List Entry → Option (List Entry)
  | [] => none
  | entry :: entries =>
      if found entry then some (update entry :: entries)
      else (updateFirst found update entries).map (entry :: ·)

def ChatMessage.isUser (message : ChatMessage) : Bool :=
  message.role == "user".toList

def ChatMessage.withImage (message : ChatMessage) : ChatMessage :=
  { message with content := imageExpansionBlock ++ '\n' :: message.content }

/-- The block goes to the last message of the user, or into a new one. -/
def addImageBlock (messages : List ChatMessage) : List ChatMessage :=
  match updateFirst ChatMessage.isUser ChatMessage.withImage messages.reverse with
  | some changed => changed.reverse
  | none => messages ++ [⟨"user".toList, imageExpansionBlock⟩]

end SmolVlm

open SmolVlm

namespace SmolVlmEngine

variable (engine : SmolVlmEngine) (unicode : Char → List Char)

/-- The ids of a chat. -/
def chatIds (messages : List ChatMessage) (image : Option (List UInt8)) :
    Except String (List Nat) :=
  let messages := if image.isSome then addImageBlock messages else messages
  engine.tokenizer.encode (String.ofList (buildPrompt unicode messages)) true

def chat (env : GenerationEnv) (temperature : Float32)
    (messages : List ChatMessage) (image : Option (List UInt8))
    (maxTokens : UInt32) : Generation PUnit := do
  let ids ← .lift ((engine.chatIds unicode messages image).mapError
    EngineError.encode)
  engine.generate env temperature ids image maxTokens

end SmolVlmEngine

namespace SmolVlm

/-! ## Where the block stands -/

theorem updateFirst_append {Entry : Type} {found : Entry → Bool}
    (update : Entry → Entry) {before : List Entry} {entry : Entry}
    (others : ∀ other ∈ before, found other = false) (isFound : found entry = true)
    (after : List Entry) :
    updateFirst found update (before ++ entry :: after) =
      some (before ++ update entry :: after) := by
  induction before with
  | nil => exact if_pos isFound
  | cons other before ih =>
      obtain ⟨notFound, others⟩ := List.forall_mem_cons.mp others
      rw [List.cons_append, updateFirst, notFound, ih others]
      rfl

theorem updateFirst_eq_none {Entry : Type} {found : Entry → Bool}
    (update : Entry → Entry) {entries : List Entry}
    (others : ∀ entry ∈ entries, found entry = false) :
    updateFirst found update entries = none := by
  induction entries with
  | nil => rfl
  | cons entry entries ih =>
      obtain ⟨notFound, others⟩ := List.forall_mem_cons.mp others
      rw [updateFirst, notFound, ih others]
      rfl

/-- The last message of the user, with what stands before and after it. -/
def lastUser : List ChatMessage →
    Option (List ChatMessage × ChatMessage × List ChatMessage)
  | [] => none
  | message :: messages =>
      match lastUser messages with
      | some (earlier, last, later) => some (message :: earlier, last, later)
      | none => if message.isUser then some ([], message, messages) else none

theorem others_of_lastUser {messages : List ChatMessage}
    (missing : lastUser messages = none) :
    ∀ message ∈ messages, message.isUser = false := by
  induction messages with
  | nil => exact List.forall_mem_nil _
  | cons message messages ih =>
      rw [lastUser] at missing
      split at missing
      · cases missing
      · rename_i later
        split_ifs at missing with isUser
        exact List.forall_mem_cons.mpr ⟨Bool.eq_false_iff.mpr isUser, ih later⟩

theorem eq_of_lastUser {messages earlier later : List ChatMessage}
    {last : ChatMessage} (found : lastUser messages = some (earlier, last, later)) :
    messages = earlier ++ last :: later ∧ last.isUser = true ∧
      ∀ message ∈ later, message.isUser = false := by
  induction messages generalizing earlier with
  | nil => cases found
  | cons message messages ih =>
      rw [lastUser] at found
      split at found
      · rename_i before user after inner
        obtain ⟨rfl, rest⟩ := Prod.mk.inj (Option.some.inj found)
        obtain ⟨rfl, rfl⟩ := Prod.mk.inj rest
        obtain ⟨rfl, isUser, others⟩ := ih inner
        exact ⟨rfl, isUser, others⟩
      · rename_i none
        split_ifs at found with isUser
        obtain ⟨rfl, rest⟩ := Prod.mk.inj (Option.some.inj found)
        obtain ⟨rfl, rfl⟩ := Prod.mk.inj rest
        exact ⟨rfl, isUser, others_of_lastUser none⟩

/-- The messages before the one that gets the block. -/
def earlierMessages (messages : List ChatMessage) : List ChatMessage :=
  match lastUser messages with
  | some (earlier, _, _) => earlier
  | none => messages

/-- The text behind the block: what the user says, and the later messages. -/
def textBehind (unicode : Char → List Char) (messages : List ChatMessage) :
    List Char :=
  match lastUser messages with
  | some (_, last, later) =>
      '\n' :: (last.content ++ "<end_of_utterance>\n".toList ++
        later.flatMap (messageText unicode))
  | none => "<end_of_utterance>\n".toList

/-- The prompt up to the first image token of the block. -/
def textBefore (unicode : Char → List Char) (messages : List ChatMessage) :
    List Char :=
  "<|im_start|>".toList ++
    ((earlierMessages messages).flatMap (messageText unicode) ++
      ("User".toList ++ ": ".toList ++ (fakeImageToken ++ globalImgToken)))

def textAfter (unicode : Char → List Char) (messages : List ChatMessage) :
    List Char :=
  fakeImageToken ++ (textBehind unicode messages ++ "Assistant:".toList)

theorem addImageBlock_of_some {messages earlier later : List ChatMessage}
    {last : ChatMessage} (found : lastUser messages = some (earlier, last, later)) :
    addImageBlock messages = earlier ++ last.withImage :: later := by
  obtain ⟨rfl, isUser, others⟩ := eq_of_lastUser found
  have reversed : (earlier ++ last :: later).reverse =
      later.reverse ++ last :: earlier.reverse := by simp
  rw [addImageBlock, reversed, updateFirst_append ChatMessage.withImage
    (fun message mem => others message (List.mem_reverse.mp mem)) isUser]
  simp

theorem addImageBlock_of_none {messages : List ChatMessage}
    (missing : lastUser messages = none) :
    addImageBlock messages =
      messages ++ [⟨"user".toList, imageExpansionBlock⟩] := by
  have others := others_of_lastUser missing
  rw [addImageBlock, updateFirst_eq_none ChatMessage.withImage
    fun message mem => others message (List.mem_reverse.mp mem)]

theorem messageText_user (unicode : Char → List Char) {message : ChatMessage}
    (isUser : message.role = "user".toList) :
    messageText unicode message =
      "User".toList ++ ": ".toList ++ message.content ++
        "<end_of_utterance>\n".toList := by
  have capital : capitalize unicode "user".toList = "User".toList := rfl
  rw [messageText, isUser, capital]

/-- **The prompt of a chat with an image**: the image tokens of the block with
what stands before and after them. -/
theorem buildPrompt_addImageBlock (unicode : Char → List Char)
    (messages : List ChatMessage) :
    buildPrompt unicode (addImageBlock messages) =
      textBefore unicode messages ++
        ((List.replicate imageSeqLen imageToken).flatten ++
          textAfter unicode messages) := by
  unfold buildPrompt textBefore textAfter earlierMessages textBehind
  rcases found : lastUser messages with _ | ⟨earlier, last, later⟩
  · rw [addImageBlock_of_none found, List.flatMap_append, List.flatMap_singleton,
      messageText_user unicode rfl, imageExpansionBlock]
    simp only [List.append_assoc]
  · have isUser : last.withImage.role = "user".toList :=
      beq_iff_eq.mp (eq_of_lastUser found).2.1
    rw [addImageBlock_of_some found, List.flatMap_append, List.flatMap_cons,
      messageText_user unicode isUser, ChatMessage.withImage, imageExpansionBlock]
    simp only [List.append_assoc, List.cons_append]

end SmolVlm

end TorchInference
