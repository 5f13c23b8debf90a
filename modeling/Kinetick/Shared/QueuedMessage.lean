import Kinetick.File.Jsonl

/-!
# Queued messages of the user

A message that was queued during a Turn is wrapped in `<queued-user-message>` tags, and the tags the
user wrote in it are escaped. Texts are lists of characters.
-/

namespace Kinetick

namespace QueuedMessage

/-! ## The pattern of a tag -/

/-- `QUEUED_USER_MESSAGE_TAG` -/
def tagName : List Char := "queued-user-message".toList

/-- A character matches one of the name whatever its case: the long s is one of `s`. -/
def matchesLetter (letter c : Char) : Bool :=
  c = letter || c = letter.toUpper || (letter = 's' && c.toNat = 0x17f)

/-- `\w`, where case is ignored in Unicode. -/
def isWordCharacter (c : Char) : Bool :=
  c.isAlphanum || c = '_' || c.toNat = 0x17f || c.toNat = 0x212a

/-- What follows the name. -/
def afterName : (name : List Char) → List Char → Option (List Char)
  | [], cs => some cs
  | letter :: name, c :: cs => if matchesLetter letter c then afterName name cs else none
  | _ :: _, [] => none

/-- `\/?` -/
def afterSlash : List Char → List Char
  | '/' :: cs => cs
  | cs => cs

/-- The text starts with `<\/?queued-user-message\b`. -/
def opensTag : List Char → Bool
  | '<' :: cs => (afterName tagName (afterSlash cs)).any fun rest => !rest.head?.any isWordCharacter
  | _ => false

/-- The text through its first `>`. -/
def throughEnd : List Char → Option (List Char)
  | [] => none
  | c :: cs => if c = '>' then some [c] else (throughEnd cs).map (c :: ·)

/-- The tag the text starts with. What opens it has no `>`, so its end is the first of the text. -/
def matchTag (text : List Char) : Option (List Char) :=
  if opensTag text then throughEnd text else none

/-- A text as the pattern cuts it. -/
inductive Segment
  | character (c : Char)
  | tag (text : List Char)
  deriving DecidableEq

/-- The segments of a text, of which `skip` characters belong to a tag. -/
def segmentsFrom : (skip : ℕ) → List Char → List Segment
  | _, [] => []
  | skip + 1, _ :: cs => segmentsFrom skip cs
  | 0, c :: cs =>
    match matchTag (c :: cs) with
    | some tag => .tag tag :: segmentsFrom (tag.length - 1) cs
    | none => .character c :: segmentsFrom 0 cs

/-- The text scanned from left to right for tags. -/
def segments (text : List Char) : List Segment := segmentsFrom 0 text

/-! ## Escaping -/

/-- `match.replace(/</gu, '&lt;').replace(/>/gu, '&gt;')` -/
def escapeAngles (tag : List Char) : List Char :=
  tag.flatMap fun c =>
    if c = '<' then "&lt;".toList else if c = '>' then "&gt;".toList else [c]

/-- The segment as it was typed. -/
def Segment.typed : Segment → List Char
  | character c => [c]
  | tag text => text

/-- The segment with its tag escaped. -/
def Segment.escaped : Segment → List Char
  | character c => [c]
  | tag text => escapeAngles text

def escapeQueuedUserMessageTags (text : List Char) : List Char :=
  (segments text).flatMap Segment.escaped

structure QueuedMessageMetadata where
  source : Option (List Char) := none
  itemId : Option (List Char) := none
  enqueuedAtMs : Option JsNumber := none

def escapeAttributeValue (value : List Char) : List Char :=
  value.flatMap fun c =>
    if c = '&' then "&amp;".toList
    else if c = '"' then "&quot;".toList
    else if c = '<' then "&lt;".toList
    else if c = '>' then "&gt;".toList
    else [c]

/-! ## Wrapping -/

/-- `!text || !text.trim()` -/
def isBlank (text : List Char) : Bool := jsTrim (String.ofList text) = ""

section Wrap

variable (format : Jsonl.NumberFormat)

/-- `name="value"` -/
def attributeText (name : String) (value : List Char) : List Char :=
  name.toList ++ "=\"".toList ++ value ++ "\"".toList

def attributes (metadata : QueuedMessageMetadata) : List (List Char) :=
  ((metadata.source.filter (· ≠ [])).map fun source =>
    attributeText "source" (escapeAttributeValue source)).toList ++
  ((metadata.itemId.filter (· ≠ [])).map fun itemId =>
    attributeText "item-id" (escapeAttributeValue itemId)).toList ++
  match metadata.enqueuedAtMs with
  | some (.finite ms) =>
    if ms = 0 then [] else [attributeText "enqueued-at-ms" (format.text ms).toList]
  | _ => []

/-- `attrSuffix` -/
def attributeSuffix (metadata : QueuedMessageMetadata) : List Char :=
  (attributes format metadata).flatMap (' ' :: ·)

def openingTag (metadata : QueuedMessageMetadata) : List Char :=
  '<' :: tagName ++ attributeSuffix format metadata ++ ['>']

def closingTag : List Char := '<' :: '/' :: tagName ++ ['>']

def wrapQueuedMessageText (text : List Char) (metadata : QueuedMessageMetadata) : List Char :=
  if isBlank text then []
  else openingTag format metadata ++ '\n' :: escapeQueuedUserMessageTags text ++ '\n' :: closingTag

structure QueuedItem where
  text : List Char
  metadata : QueuedMessageMetadata

/-- `texts.join('\n\n')` -/
def joinBlankLine (texts : List (List Char)) : List Char :=
  (texts.intersperse ['\n', '\n']).flatten

def wrapQueuedMessageBatch (items : List QueuedItem) : List Char :=
  joinBlankLine ((items.map fun item => wrapQueuedMessageText format item.text item.metadata).filter
    (· ≠ []))

/-! ## What a reader finds -/

/-- Characters outside of any tag. -/
def characters (text : List Char) : List Segment := text.map .character

/-- A message between its two tags, with the tags it had escaped. -/
def wrappedSegments (item : QueuedItem) : List Segment :=
  .tag (openingTag format item.metadata) ::
    characters ('\n' :: escapeQueuedUserMessageTags item.text ++ ['\n']) ++ [.tag closingTag]

/-- The messages that are not blank, each between its two tags. -/
def batchSegments (items : List QueuedItem) : List Segment :=
  (((items.filter fun item => !isBlank item.text).map (wrappedSegments format)).intersperse
    (characters ['\n', '\n'])).flatten

end Wrap

/-- The text is its segments as typed, and escaped tag by tag; escaping it again changes nothing. -/
structure EscapedOnce (text : List Char) : Prop where
  typed : (segments text).flatMap Segment.typed = text
  escaped : (segments text).flatMap Segment.escaped = escapeQueuedUserMessageTags text
  again : escapeQueuedUserMessageTags (escapeQueuedUserMessageTags text) =
    escapeQueuedUserMessageTags text

/-- A tag is opened in the text that no `>` ends. -/
def Unterminated (text : List Char) : Prop :=
  ∃ rest, rest <:+ text ∧ opensTag rest = true ∧ '>' ∉ rest

end QueuedMessage

end Kinetick
