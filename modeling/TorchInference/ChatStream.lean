import TorchInference.CanonicalJson
import TorchInference.ChatCompletions
import TorchInference.DelimitedText
import TorchInference.StreamingUtf8

/-!
# The stream of a chat

The service writes each event of a chat as a line behind `data:` and an empty
line.  The client decodes the chunks as they arrive, keeps the line that is not
yet complete, and stops at the marker.
-/

namespace TorchInference

/-! ## The service -/

/-- The data of an event; `serde_json` sorts the keys of an object. -/
def SseEvent.dataText (floats : FloatText) : SseEvent → List Char
  | .json data => CanonicalJson.writeCanonicalJson floats data
  | .text data => data.toList

/-- The bytes of an event. -/
def SseEvent.wire (floats : FloatText) (event : SseEvent) : List UInt8 :=
  LossyUtf8.encode ("data: ".toList ++ event.dataText floats ++ ['\n', '\n'])

/-! ## The client -/

namespace ChatStream

/-- White space and line terminators, as `trim` takes them. -/
def isSpace (c : Char) : Bool :=
  (9 ≤ c.toNat && c.toNat ≤ 13) || c.toNat == 0x20 || c.toNat == 0xA0 ||
    c.toNat == 0x1680 || (0x2000 ≤ c.toNat && c.toNat ≤ 0x200A) ||
    c.toNat == 0x2028 || c.toNat == 0x2029 || c.toNat == 0x202F ||
    c.toNat == 0x205F || c.toNat == 0x3000 || c.toNat == 0xFEFF

def trim (text : List Char) : List Char :=
  ((text.dropWhile isSpace).reverse.dropWhile isSpace).reverse

/-- `[0]` of a value. -/
def first : JsonValue → Option JsonValue
  | .array values => values[0]?
  | .object entries => entries.lookup "0"
  | _ => none

/-- `chunk.choices?.[0]?.delta?.content`; where it throws, there is no content
either. -/
def deltaContent (chunk : JsonValue) : Option JsonValue :=
  (((chunk.field "choices").bind first).bind (JsonValue.field "delta")).bind
    (JsonValue.field "content")

def isTruthy : JsonValue → Bool
  | .null | .bool false => false
  | .string value => value != ""
  | .number (.posInt value) => value != 0
  | .number (.float bits) => bits != 0 && bits != 0x8000000000000000
  | _ => true

/-- The loop over the lines of a chunk: the fragments, and whether the marker
has come.  `parse` is `JSON.parse`, without a value where it throws. -/
def streamLines (parse : List Char → Option JsonValue) :
    List (List Char) → List JsonValue × Bool
  | [] => ([], false)
  | line :: lines =>
      if "data:".toList.isPrefixOf line then
        let data := trim (line.drop 5)
        if data = "[DONE]".toList then ([], true)
        else
          match (parse data).bind deltaContent with
          | none => streamLines parse lines
          | some delta =>
              if isTruthy delta then
                (delta :: (streamLines parse lines).1,
                  (streamLines parse lines).2)
              else streamLines parse lines
      else streamLines parse lines

/-- The loop over the chunks of the body. -/
def readChunks (parse : List Char → Option JsonValue)
    (decoder : LossyUtf8.TextDecoder) (buf : List Char) :
    List (List UInt8) → List JsonValue × Bool
  | [] => ([], false)
  | chunk :: chunks =>
      let decoded := decoder.decode chunk
      let cut := DelimitedText.cutAt '\n' (buf ++ decoded.1)
      let streamed := streamLines parse cut.1
      if streamed.2 then (streamed.1, true)
      else
        let later := readChunks parse decoded.2 cut.2 chunks
        (streamed.1 ++ later.1, later.2)

/-- `streamChatCompletion`: the fragments it yields, and whether it returns at
the marker. -/
def streamChatCompletion (parse : List Char → Option JsonValue)
    (body : Option (List (List UInt8))) : List JsonValue × Bool :=
  match body with
  | none => ([], false)
  | some chunks => readChunks parse .initial [] chunks

end ChatStream

end TorchInference
