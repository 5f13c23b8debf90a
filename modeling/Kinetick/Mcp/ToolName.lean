import Kinetick.Js

/-!
# Names of MCP tools

`tool-name.ts`: the segment of a public name that stands for a server or a tool. A normalized
segment has letters, digits, hyphens and single underscores between them.
-/

namespace Kinetick.Mcp

/-- `MCP_RUNTIME_TOOL_NAME_MAX_LENGTH` -/
def runtimeToolNameMaxLength : ℕ := 80

/-- `MCP_RUNTIME_SERVER_SEGMENT_MAX_LENGTH` -/
def runtimeServerSegmentMaxLength : ℕ := 48

inductive NameKind
  | server
  | tool
  deriving DecidableEq

def NameKind.text : NameKind → String
  | server => "server"
  | tool => "tool"

/-- `[a-zA-Z0-9]` -/
def isAlphanumeric (c : Char) : Bool :=
  'a' ≤ c && c ≤ 'z' || 'A' ≤ c && c ≤ 'Z' || '0' ≤ c && c ≤ '9'

/-- `[A-Za-z0-9-]` -/
def isSegmentChar (c : Char) : Bool := isAlphanumeric c || c = '-'

/-- `\p{Cc}` and `\p{Cf}` -/
def isControlOrFormat (c : Char) : Bool :=
  c.toNat ≤ 0x1f || 0x7f ≤ c.toNat && c.toNat ≤ 0x9f ||
    [(0xad, 0xad), (0x600, 0x605), (0x61c, 0x61c), (0x6dd, 0x6dd), (0x70f, 0x70f), (0x890, 0x891),
      (0x8e2, 0x8e2), (0x180e, 0x180e), (0x200b, 0x200f), (0x202a, 0x202e), (0x2060, 0x2064),
      (0x2066, 0x206f), (0xfeff, 0xfeff), (0xfff9, 0xfffb), (0x110bd, 0x110bd),
      (0x110cd, 0x110cd), (0x13430, 0x1343f), (0x1bca0, 0x1bca3), (0x1d173, 0x1d17a),
      (0xe0001, 0xe0001), (0xe0020, 0xe007f)].any fun range =>
        range.1 ≤ c.toNat && c.toNat ≤ range.2

/-- Each run of characters of the kind becomes one underscore. -/
def replaceRuns (p : Char → Bool) : List Char → List Char
  | [] => []
  | [c] => [if p c then '_' else c]
  | c :: d :: rest =>
    if p c && p d then replaceRuns p (d :: rest)
    else (if p c then '_' else c) :: replaceRuns p (d :: rest)

/-- `.replace(/_+$/u, '')` -/
def dropTrailingUnderscores (text : List Char) : List Char :=
  (text.reverse.dropWhile (· = '_')).reverse

def normalizeMcpNameSegment (value : String) (kind : NameKind) : Except String String :=
  if value = "" ∨ value.toList.any isControlOrFormat then
    .error ("Invalid MCP " ++ kind.text ++ " name")
  else
    let segment := dropTrailingUnderscores ((replaceRuns (· = '_')
      (replaceRuns (fun c => !(isSegmentChar c || c = '_')) value.toList)).dropWhile (· = '_'))
    .ok (if segment.any isAlphanumeric then String.ofList segment else kind.text)

/-- The segment is normalized, so that its characters are single code units. -/
def shortenMcpNameSegment (segment : String) (max : ℕ) (kind : NameKind) : Except String String :=
  if max < 1 then .error ("MCP " ++ kind.text ++ " name has no room for a readable prefix")
  else
    let shortened := dropTrailingUnderscores (segment.toList.take max)
    .ok (if shortened.any isAlphanumeric then String.ofList shortened
      else String.ofList (kind.text.toList.take max))

end Kinetick.Mcp
