import Kinetick.Js
import Kinetick.UriComponent

/-!
# Mentions of agents

`protocol.ts`: a text with references to agents is one string, in which a reference is a block that
`serializeAgentReference` writes and the tags in what the user wrote are escaped. The patterns of
the source are written out as matchers at the beginning of a text.
-/

namespace Kinetick.Mention

structure AgentReference where
  requestRef : String
  displayName : String
  deriving DecidableEq

inductive AgentReferenceErrorCode
  | invalidAgentReference
  | unknownAgentReference
  | unauthorizedAgentReference
  deriving DecidableEq

inductive AgentReferenceSegment
  | text (content : List Char)
  | agentReference (reference : AgentReference) (raw : List Char)
  deriving DecidableEq

/-! ### Patterns -/

def tag : List Char := "agent-reference".toList

/-- `\w` -/
def isWordChar (c : Char) : Bool :=
  'a' ≤ c && c ≤ 'z' || 'A' ≤ c && c ≤ 'Z' || '0' ≤ c && c ≤ '9' || c = '_'

/-- The characters that fold to one of `\w` and are none. -/
def foldsToWord (c : Char) : Bool := c.toNat = 0x17f || c.toNat = 0x212a

/-- `\b` after a character of a word. -/
def boundary (l : List Char) : Bool := l.head?.all fun c => !isWordChar c

/-- `\b` after a character of a word, of a pattern that ignores case. -/
def boundaryFolded (l : List Char) : Bool :=
  l.head?.all fun c => !(isWordChar c || foldsToWord c)

/-- The text begins with the pattern, case ignored; to its letters nothing but ASCII folds. -/
def beginsFolded (pattern l : List Char) : Bool :=
  pattern.length ≤ l.length && (l.take pattern.length).map Char.toLower = pattern

/-- `\/?agent-reference\b`, case ignored -/
def tagAt (l : List Char) : Bool :=
  let rest := if l.head? = some '/' then l.tail else l
  beginsFolded tag rest && boundaryFolded (rest.drop tag.length)

/-- `AGENT_REFERENCE_LITERAL_RE` -/
def literalAt (l : List Char) : Bool := l.head? = some '<' && tagAt l.tail

/-- `ESCAPED_AGENT_REFERENCE_LITERAL_RE` -/
def escapedLiteralAt (l : List Char) : Bool :=
  beginsFolded "&lt;".toList l && tagAt (l.drop 4)

/-- Some part of the text matches from its beginning on. -/
def occurs (p : List Char → Bool) : List Char → Bool
  | [] => p []
  | c :: l => p (c :: l) || occurs p l

/-- `<agent-reference\b`: what follows it. -/
def openerAt (l : List Char) : Option (List Char) :=
  if ('<' :: tag).isPrefixOf l && boundary (l.drop 16) then some (l.drop 16) else none

/-- `[^>]*>`: what it takes and what follows. -/
def throughTag : List Char → Option (List Char × List Char)
  | [] => none
  | c :: l =>
    if c = '>' then some (['>'], l)
    else (throughTag l).map fun (taken, rest) => (c :: taken, rest)

/-- `<\/agent-reference\s*>` -/
def closerAt (l : List Char) : Option (List Char) :=
  if "</agent-reference".toList.isPrefixOf l then
    let spaces := (l.drop 17).takeWhile isJsWhitespace
    if (l.drop (17 + spaces.length)).head? = some '>' then some (l.take (17 + spaces.length + 1))
    else none
  else none

/-- `[\s\S]*?<\/agent-reference\s*>` -/
def throughCloser : List Char → Option (List Char)
  | [] => none
  | c :: l =>
    match closerAt (c :: l) with
    | some closer => some closer
    | none => (throughCloser l).map (c :: ·)

/-- `AGENT_REFERENCE_BLOCK_RE` -/
def blockAt (l : List Char) : Option (List Char) :=
  match openerAt l with
  | none => none
  | some rest =>
    match throughTag rest with
    | none => none
    | some (attributes, body) =>
      (throughCloser body).map fun inner => '<' :: tag ++ attributes ++ inner

/-- `content.matchAll(AGENT_REFERENCE_BLOCK_RE)`: each match with what stands between it and the one
before, and what stands after the last. The first `skip` characters are of a match. -/
def matchAll : (skip : ℕ) → List Char → List (List Char × List Char) × List Char
  | _, [] => ([], [])
  | skip + 1, _ :: l => matchAll skip l
  | 0, c :: l =>
    match blockAt (c :: l) with
    | some raw => (([], raw) :: (matchAll (raw.length - 1) l).1, (matchAll (raw.length - 1) l).2)
    | none =>
      match matchAll 0 l with
      | ((before, raw) :: blocks, last) => ((c :: before, raw) :: blocks, last)
      | ([], last) => ([], c :: last)

/-- What follows a beginning. -/
def dropBeginning (beginning l : List Char) : Option (List Char) :=
  if beginning.isPrefixOf l then some (l.drop beginning.length) else none

/-- `"([^"]+)"`, after the first quotation mark: what it takes and what follows. -/
def attributeAt (l : List Char) : Option (List Char × List Char) :=
  match l.takeWhile (· ≠ '"'), l.dropWhile (· ≠ '"') with
  | c :: value, _ :: rest => some (c :: value, rest)
  | _, _ => none

/-- `EXACT_AGENT_REFERENCE_RE` -/
def exactAgentReference (raw : List Char) : Option (List Char × List Char × List Char) := do
  let rest ← dropBeginning "<agent-reference request-ref=\"".toList raw
  let (requestRef, rest) ← attributeAt rest
  let rest ← dropBeginning " display-name=\"".toList rest
  let (displayName, rest) ← attributeAt rest
  let rest ← dropBeginning ['>'] rest
  let body ← dropBeginning "</agent-reference>".toList.reverse rest.reverse
  return (requestRef, displayName, body.reverse)

/-! ### References -/

def appendError (errorCodes : List AgentReferenceErrorCode) (errorCode : AgentReferenceErrorCode) :
    List AgentReferenceErrorCode :=
  if errorCodes.contains errorCode then errorCodes else errorCodes ++ [errorCode]

def appendText (segments : List AgentReferenceSegment) (content : List Char) :
    List AgentReferenceSegment :=
  if content = [] then segments
  else
    match segments.getLast? with
    | some (.text previous) => segments.dropLast ++ [.text (previous ++ content)]
    | _ => segments ++ [.text content]

/-- What an escaped literal begins with is replaced by `<`; the rest of it has no other. -/
def restoreFrom : (skip : ℕ) → List Char → List Char
  | _, [] => []
  | skip + 1, _ :: l => restoreFrom skip l
  | 0, c :: l =>
    if escapedLiteralAt (c :: l) then '<' :: restoreFrom 3 l else c :: restoreFrom 0 l

def restoreEscapedAgentReferenceLiterals (content : List Char) : List Char := restoreFrom 0 content

def isUsableValue (value : String) : Bool :=
  jsTrim value ≠ "" && value.toList.all fun c => 0x1f < c.toNat && c.toNat ≠ 0x7f

def escapeText (value : List Char) : List Char :=
  value.flatMap fun c =>
    if c = '&' then "&amp;".toList
    else if c = '<' then "&lt;".toList
    else if c = '>' then "&gt;".toList
    else [c]

def parseSerializedAgentReference (raw : List Char) : Option AgentReference := do
  let (requestRef, displayName, body) ← exactAgentReference raw
  let requestRef ← UriComponent.decode (String.ofList requestRef)
  let displayName ← UriComponent.decode (String.ofList displayName)
  if isUsableValue requestRef && isUsableValue displayName &&
      body = escapeText ('@' :: displayName.toList) then
    some ⟨requestRef, displayName⟩
  else none

def serializeAgentReference (reference : AgentReference) : Option (List Char) :=
  if isUsableValue reference.requestRef && isUsableValue reference.displayName then
    some ("<agent-reference request-ref=\"".toList ++
      (UriComponent.encode reference.requestRef).toList ++ "\" display-name=\"".toList ++
      (UriComponent.encode reference.displayName).toList ++ "\">".toList ++
      escapeText ('@' :: reference.displayName.toList) ++ "</agent-reference>".toList)
  else none

/-- The rest of a literal has no other. -/
def escapeAgentReferenceLiterals : List Char → List Char
  | [] => []
  | c :: l =>
    if literalAt (c :: l) then "&lt;".toList ++ escapeAgentReferenceLiterals l
    else c :: escapeAgentReferenceLiterals l

/-! ### `parseAgentReferences` -/

/-- What a match adds, with what stands before it. -/
def addBlock (result : List AgentReferenceSegment × List AgentReferenceErrorCode)
    (block : List Char × List Char) : List AgentReferenceSegment × List AgentReferenceErrorCode :=
  match parseSerializedAgentReference block.2 with
  | some reference =>
    (appendText result.1 block.1 ++ [.agentReference reference block.2], result.2)
  | none => (appendText (appendText result.1 block.1) block.2,
      appendError result.2 .invalidAgentReference)

def AgentReferenceSegment.hasLiteral : AgentReferenceSegment → Bool
  | text content => occurs literalAt content
  | agentReference _ _ => false

def AgentReferenceSegment.restore : AgentReferenceSegment → AgentReferenceSegment
  | text content => text (restoreEscapedAgentReferenceLiterals content)
  | segment => segment

def parseAgentReferences (content : List Char) :
    List AgentReferenceSegment × List AgentReferenceErrorCode :=
  let (blocks, last) := matchAll 0 content
  let (segments, errorCodes) := blocks.foldl addBlock ([], [])
  let segments := appendText segments last
  (segments.map AgentReferenceSegment.restore,
    if segments.any AgentReferenceSegment.hasLiteral then
      appendError errorCodes .invalidAgentReference
    else errorCodes)

end Kinetick.Mention

/-!
## What mentions are to keep

What a user writes comes back as it was written, with its references, and only the serializer writes
a reference. Both depend on how the text was spelled.
-/

namespace Kinetick.Mention

/-! ### Round trips -/

/-- What an editor holds. -/
inductive Part
  | text (content : List Char)
  | agentReference (reference : AgentReference)
  deriving DecidableEq

/-- The string that is kept of a part. -/
def Part.stored : Part → List Char
  | text content => escapeAgentReferenceLiterals content
  | agentReference reference => (serializeAgentReference reference).getD []

/-- The segment that a part is to come back as. -/
def Part.segment : Part → AgentReferenceSegment
  | text content => .text content
  | agentReference reference =>
    .agentReference reference ((serializeAgentReference reference).getD [])

/-- The string that is kept of what an editor holds. -/
def stored (parts : List Part) : List Char := parts.flatMap Part.stored

/-- Texts that are not empty, none next to another, and references that the serializer accepts. -/
def Alternating : List Part → Prop
  | [] => True
  | .text content :: parts =>
    content ≠ [] ∧ (∀ next content', parts ≠ .text content' :: next) ∧ Alternating parts
  | .agentReference reference :: parts =>
    (serializeAgentReference reference).isSome = true ∧ Alternating parts

/-- The parts come back, without an error. -/
def RoundTrips (parts : List Part) : Prop :=
  parseAgentReferences (stored parts) = (parts.map Part.segment, [])

instance (parts : List Part) : Decidable (RoundTrips parts) := inferInstanceAs (Decidable (_ = _))

/-- A tag is begun, and the character after it is a word's only where case is ignored: the tag is no
literal to the escape, and is one to the search for blocks. -/
def disguisedAt (l : List Char) : Bool :=
  ('<' :: tag).isPrefixOf l && (l.drop 16).head?.any foldsToWord

/-- No text before a reference has a disguised tag. -/
def Undisguised : List Part → Prop
  | [] => True
  | .text content :: parts =>
    (occurs disguisedAt content = true → ∀ reference, .agentReference reference ∉ parts) ∧
      Undisguised parts
  | .agentReference _ :: parts => Undisguised parts

/-- No text has a tag that is escaped already, and none before a reference a disguised one. -/
def Plain (parts : List Part) : Prop :=
  (∀ content, .text content ∈ parts → occurs escapedLiteralAt content = false) ∧ Undisguised parts

/-! ### Forgeries -/

/-- What a segment keeps of the piece of the string that it was read from. -/
def Keeps (piece : List Char) : AgentReferenceSegment → Prop
  | .text content => occurs escapedLiteralAt piece = false → content = piece
  | .agentReference _ raw => raw = piece

/-- The string is cut into the pieces of its segments, each is kept, and what a reference is read
from is what the serializer writes for it. -/
def Faithful (content : List Char) : Prop :=
  (∃ pieces : List (List Char), pieces.flatten = content ∧
    List.Forall₂ Keeps pieces (parseAgentReferences content).1) ∧
    ∀ reference raw, .agentReference reference raw ∈ (parseAgentReferences content).1 →
      serializeAgentReference reference = some raw

/-- Every block that is a reference has its attributes well spelled. -/
def WellSpelled (content : List Char) : Prop :=
  ∀ block ∈ (matchAll 0 content).1, (parseSerializedAgentReference block.2).isSome = true →
    ∀ attributes ∈ exactAgentReference block.2,
      UriComponent.wellSpelled attributes.1 = true ∧
        UriComponent.wellSpelled attributes.2.1 = true

end Kinetick.Mention
