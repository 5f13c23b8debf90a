import Kinetick.History.Envelope
import Mathlib.Data.List.SplitOn

/-!
# Configurations of turns without credentials

The words of a name say whether it is the name of a credential. Before the configuration of a turn is
kept, the members of the model with such names are removed, at every depth.
-/

namespace Kinetick

namespace CredentialKeys

/-! ## The words of a name -/

def isUpper (c : Char) : Bool := 'A' ≤ c && c ≤ 'Z'

def isLower (c : Char) : Bool := 'a' ≤ c && c ≤ 'z'

def isDigit (c : Char) : Bool := '0' ≤ c && c ≤ '9'

/-- `.replaceAll(/([A-Z]+)([A-Z][a-z])/gu, '$1_$2')`: the match ends at the last of the capitals. -/
def splitAcronyms : List Char → List Char
  | a :: b :: c :: key =>
    if isUpper a && isUpper b && isLower c then a :: '_' :: splitAcronyms (b :: c :: key)
    else a :: splitAcronyms (b :: c :: key)
  | key => key

/-- `.replaceAll(/([a-z0-9])([A-Z])/gu, '$1_$2')` -/
def splitCapitals : List Char → List Char
  | a :: b :: key =>
    if (isLower a || isDigit a) && isUpper b then a :: '_' :: splitCapitals (b :: key)
    else a :: splitCapitals (b :: key)
  | key => key

/-- `toLowerCase`, as far as letters of the words come of it: the sign of the kelvin and the dotted
capital give two of them. -/
def toLowerCase (c : Char) : List Char :=
  if isUpper c then [Char.ofNat (c.toNat + 32)]
  else if c.toNat = 8490 then ['k']
  else if c.toNat = 304 then ['i', Char.ofNat 775]
  else [c]

def canonicalizeSensitiveKeyWords (key : String) : List String :=
  (((splitCapitals (splitAcronyms key.toList)).flatMap toLowerCase).splitOnP
    (fun c => !(isLower c || isDigit c)) |>.filter (· ≠ [])).map String.ofList

/-! ## The names of credentials -/

def sensitiveCompactKeys : List String :=
  ["access", "apikey", "apikeys", "authorization", "token", "tokens", "accesstoken",
    "accesstokens", "refreshtoken", "refreshtokens", "idtoken", "idtokens", "authtoken",
    "authtokens", "authentication", "bearer", "bearertoken", "bearertokens", "sessiontoken",
    "sessiontokens", "secret", "secrets", "clientsecret", "clientsecrets", "cookie", "cookies",
    "accesskeysecret", "secretaccesskey", "password", "passwords", "passwd", "pwd", "credential",
    "credentials", "headers", "jwt", "privatekey", "privatekeys", "signingkey", "signingkeys",
    "accesskey", "accesskeys", "requestsk", "refresh", "sk"]

def sensitiveCompactSuffixes : List String :=
  ["apikey", "apikeys", "authorization", "accesstoken", "accesstokens", "refreshtoken",
    "refreshtokens", "token", "tokens", "idtoken", "authtoken", "bearertoken", "sessiontoken",
    "clientsecret", "clientsecrets", "accesskeysecret", "secretaccesskey", "privatekey",
    "privatekeys", "signingkey", "signingkeys", "accesskey", "accesskeys", "secrets", "passwords",
    "requestsk"]

def sensitiveKeyWords : List String :=
  ["auth", "authentication", "authorization", "bearer", "cookie", "cookies", "headers", "jwt",
    "token", "tokens", "secret", "secrets", "password", "passwords", "passwd", "pwd", "credential",
    "credentials"]

def sensitiveKeyWordSequences : List (List String) :=
  [["api", "key"], ["api", "keys"], ["private", "key"], ["private", "keys"], ["access", "key"],
    ["access", "keys"], ["client", "secret"], ["access", "token"], ["refresh", "token"],
    ["id", "token"], ["auth", "token"], ["bearer", "token"], ["session", "token"],
    ["access", "key", "secret"], ["secret", "access", "key"], ["signing", "key"],
    ["signing", "keys"], ["request", "sk"]]

def publicTokenMetricQualifierWords : List String :=
  ["accepted", "argument", "audio", "budget", "cached", "completion", "completions", "content",
    "delta", "estimated", "generated", "image", "input", "lifecycle", "max", "original", "output",
    "overlap", "prompt", "prediction", "read", "recent", "reasoning", "rejected", "remaining",
    "remote", "reserve", "result", "shown", "size", "text", "tool", "total", "trained", "write"]

def publicTokenMetricCompactKeys : List String :=
  publicTokenMetricQualifierWords.map (fun qualifier => s!"{qualifier}tokens") ++
    ["fullvalidmeantokenaccuracy", "maxtokenstosample", "modelgradertokenusagepermodel",
      "pillmfirsttokenms", "trainmeantokenaccuracy", "validmeantokenaccuracy"]

def tokenMetricWords : List String := ["token", "tokens"]

def tokenMetricTrailingQualifiers : List String := ["details", "used"]

def publicCredentialMetadataSuffixWords : List String :=
  ["id", "ids", "url", "uri", "endpoint", "name", "type", "mode", "source", "version", "count",
    "limit", "budget", "usage", "quota", "window", "price", "cost", "rate", "length", "size", "ttl",
    "policy", "scope", "status", "plan", "algorithm", "expires", "expiry", "expiration", "enabled",
    "supported"]

def containsWordSequence (words sequence : List String) : Bool :=
  words.tails.any fun words => sequence.isPrefixOf words

def hasSensitiveKeyShape (words : List String) (compact : String) : Bool :=
  compact ∈ sensitiveCompactKeys ||
    sensitiveCompactSuffixes.any (fun suffix => suffix.toList.isSuffixOf compact.toList) ||
    words.any (· ∈ sensitiveKeyWords) ||
    sensitiveKeyWordSequences.any (containsWordSequence words)

/-- The words less a trailing qualifier, and the last word. -/
def tokenMetricShape (words : List String) : List String × Option String :=
  let trailingQualifier := words.getLast?
  if trailingQualifier.getD "" ∈ tokenMetricTrailingQualifiers then
    (words.dropLast, trailingQualifier)
  else (words, trailingQualifier)

def isPublicTokenMetric (words : List String) (compact : String) : Bool :=
  if compact ∈ publicTokenMetricCompactKeys then true
  else
    let (metricWords, trailingQualifier) := tokenMetricShape words
    let tokenWord := metricWords.getLast?.getD ""
    if tokenWord ∉ tokenMetricWords then false
    else
      let prefixWords := metricWords.dropLast
      if hasSensitiveKeyShape prefixWords (String.join prefixWords) then false
      else if prefixWords.length = 0 then tokenWord = "tokens" && trailingQualifier = some "used"
      else if tokenWord = "token" && trailingQualifier ≠ some "details" then false
      else prefixWords.getLast?.any (· ∈ publicTokenMetricQualifierWords)

def hasPublicCredentialMetadataSuffix (words : List String) (compact : String) : Bool :=
  let lastWord := words.getLast?
  if lastWord.any (· ∈ publicCredentialMetadataSuffixWords) then true
  else if isPublicTokenMetric words compact then true
  else lastWord = some "at" && words.dropLast.getLast? = some "expires"

def isSensitiveKey (key : String) : Bool :=
  let words := canonicalizeSensitiveKeyWords key
  let compact := String.join words
  if hasPublicCredentialMetadataSuffix words compact then false
  else hasSensitiveKeyShape words compact

example : ["apiKey", "OPENAI_API_KEY", "HTTPHeaders", "x-auth", "tokens"].all isSensitiveKey ∧
    ["apiKeyId", "maxTokens", "tokensUsed", "expiresAt", "keyboard", ""].all
      (!isSensitiveKey ·) := by
  decide +kernel

end CredentialKeys

namespace HistoryEnvelope

section Sanitizing

variable (isSensitiveKey : String → Bool)

mutual

def sanitizeModelValue : JsValue → JsValue
  | .array elements => .array (sanitizeModelElements elements)
  | .object fields => .object (sanitizeModelFields fields)
  | value => value

def sanitizeModelElements : List JsValue → List JsValue
  | [] => []
  | value :: elements => sanitizeModelValue value :: sanitizeModelElements elements

def sanitizeModelFields : List (String × JsValue) → List (String × JsValue)
  | [] => []
  | (key, value) :: fields =>
    if isSensitiveKey key then sanitizeModelFields fields
    else (key, sanitizeModelValue value) :: sanitizeModelFields fields

end

/-- `{ ...config, model }`, of a config that has a model. -/
def withModel (model : JsValue) (config : List (String × JsValue)) : List (String × JsValue) :=
  config.map fun field => if field.1 = "model" then (field.1, model) else field

def sanitizeTurnConfig (value : JsValue) : Except String JsValue := do
  let config ← requirePlainRecord value "turn_config"
  assertJsonCompatible value "turn_config"
  let model ← requirePlainRecord (value.get "model") "turn_config.model"
  -- `decodeTurnConfig` does not reject credentials here: to it no name is one
  decodeTurnConfig (fun _ => false)
    (.object (withModel (sanitizeModelValue isSensitiveKey (.object model)) config))

end Sanitizing

def sanitizeCanonicalTurnConfig : JsValue → Except String JsValue :=
  sanitizeTurnConfig CredentialKeys.isSensitiveKey

/-! ## Paths -/

inductive PathStep
  | key (name : String)
  | index (i : ℕ)
  deriving DecidableEq

/-- The value at a path, if the value has the path. -/
def valueAt : JsValue → List PathStep → Option JsValue
  | value, [] => some value
  | .object fields, .key name :: path =>
    if (JsValue.lookup name fields).isUndefined then none
    else valueAt (JsValue.lookup name fields) path
  | .array elements, .index i :: path => elements[i]?.bind (valueAt · path)
  | _, _ :: _ => none

/-- A value without its members: what it is, and how many elements it has. -/
inductive Outside
  | undefined
  | null
  | boolean (value : Bool)
  | number (value : JsNumber)
  | string (value : String)
  | array (length : ℕ)
  | object
  deriving DecidableEq

def outside : JsValue → Outside
  | .undefined => .undefined
  | .null => .null
  | .boolean b => .boolean b
  | .number n => .number n
  | .string s => .string s
  | .array elements => .array elements.length
  | .object _ => .object

/-- The path goes through the name of a credential. -/
def goesThrough (isSensitiveKey : String → Bool) (path : List PathStep) : Bool :=
  path.any fun step =>
    match step with
    | .key name => isSensitiveKey name
    | .index _ => false

/-- The path leads to a credential of the model. -/
def isSensitivePath (isSensitiveKey : String → Bool) : List PathStep → Bool
  | .key "model" :: path => goesThrough isSensitiveKey path
  | _ => false

mutual

/-- The values differ only in what is stored under names of credentials. -/
inductive Agree (isSensitiveKey : String → Bool) : JsValue → JsValue → Prop
  | same (value : JsValue) : Agree isSensitiveKey value value
  | array {elements elements' : List JsValue} :
    AgreeElements isSensitiveKey elements elements' →
    Agree isSensitiveKey (.array elements) (.array elements')
  | object {fields fields' : List (String × JsValue)} :
    AgreeFields isSensitiveKey fields fields' →
    Agree isSensitiveKey (.object fields) (.object fields')

inductive AgreeElements (isSensitiveKey : String → Bool) : List JsValue → List JsValue → Prop
  | nil : AgreeElements isSensitiveKey [] []
  | cons {value value' : JsValue} {elements elements' : List JsValue} :
    Agree isSensitiveKey value value' → AgreeElements isSensitiveKey elements elements' →
    AgreeElements isSensitiveKey (value :: elements) (value' :: elements')

inductive AgreeFields (isSensitiveKey : String → Bool) :
    List (String × JsValue) → List (String × JsValue) → Prop
  | nil : AgreeFields isSensitiveKey [] []
  | sensitive {key : String} {fields fields' : List (String × JsValue)} (value value' : JsValue) :
    isSensitiveKey key = true → AgreeFields isSensitiveKey fields fields' →
    AgreeFields isSensitiveKey ((key, value) :: fields) ((key, value') :: fields')
  | cons {key : String} {value value' : JsValue} {fields fields' : List (String × JsValue)} :
    Agree isSensitiveKey value value' → AgreeFields isSensitiveKey fields fields' →
    AgreeFields isSensitiveKey ((key, value) :: fields) ((key, value') :: fields')

end

/-- The configs differ only in what their models store under names of credentials. -/
def AgreeConfigs (isSensitiveKey : String → Bool) (value value' : JsValue) : Prop :=
  ∃ config config', value = .object config ∧ value' = .object config' ∧
    List.Forall₂ (fun field field' => field.1 = field'.1 ∧
      if field.1 = "model" then Agree isSensitiveKey field.2 field'.2 else field.2 = field'.2)
      config config'

/-- What is promised of the output of sanitizing. -/
structure Sanitized (value output : JsValue) : Prop where
  /-- Every user message may have it. -/
  accepted : ∀ fields envelope, (∀ field ∈ fields, field.1 ≠ "turn_config") →
    decodeCanonicalHistoryEnvelope CredentialKeys.isSensitiveKey (.object fields) = .ok envelope →
    envelope.message.hasRole "user" = true →
    decodeCanonicalHistoryEnvelope CredentialKeys.isSensitiveKey
      (.object (fields ++ [("turn_config", output)])) =
        .ok { envelope with turnConfig := some output }
  withoutCredentials : ∀ path, goesThrough CredentialKeys.isSensitiveKey path = true →
    valueAt (output.get "model") path = none
  again : sanitizeCanonicalTurnConfig output = .ok output
  keeps : ∀ path, isSensitivePath CredentialKeys.isSensitiveKey path = false →
    (valueAt output path).map outside = (valueAt value path).map outside
  independent : ∀ value' output', AgreeConfigs CredentialKeys.isSensitiveKey value value' →
    sanitizeCanonicalTurnConfig value' = .ok output' → output' = output

/-- An object has a member with the empty name. -/
def hasEmptyName : JsValue → Bool
  | .object fields => fields.any (·.1 = "")
  | _ => false

/-- The config or one of its tools has a member with the empty name. -/
def hasUnnamed (value : JsValue) : Bool :=
  hasEmptyName value ||
    match value.get "tools" with
    | .array tools => tools.any hasEmptyName
    | _ => false

end HistoryEnvelope

end Kinetick
