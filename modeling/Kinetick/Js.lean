import Mathlib.Algebra.Order.Ring.Rat
import Mathlib.Data.List.Basic

/-!
# Plain JavaScript values and what JSON keeps of them

A plain value is what an interface's data is made of: `undefined` is a value, and an object field
that is `undefined` reads as one that is absent. `json v` is `v` as it comes back from its JSON
text: the fields that are `undefined` are gone, and so are the numbers that are not finite and the
`undefined` elements of arrays, which come back `null`.
-/

namespace Kinetick

/-- A number: a finite one, or one of the three that are not. -/
inductive JsNumber
  | finite (value : ℚ)
  | nan
  | infinity
  | negInfinity
  deriving DecidableEq

namespace JsNumber

/-- `Number.isFinite` -/
def isFinite : JsNumber → Bool
  | finite _ => true
  | _ => false

/-- `a <= b` -/
def le : JsNumber → JsNumber → Bool
  | nan, _ => false
  | _, nan => false
  | negInfinity, _ => true
  | _, infinity => true
  | finite a, finite b => a ≤ b
  | _, _ => false

/-- `a < b` -/
def lt (a b : JsNumber) : Bool := le a b && !le b a

/-- `a + b` of a finite `b` -/
def add (a : JsNumber) (b : ℚ) : JsNumber :=
  match a with
  | finite a => finite (a + b)
  | a => a

@[simp] theorem isFinite_add (a : JsNumber) (b : ℚ) : (a.add b).isFinite = a.isFinite := by
  cases a <;> rfl

instance : Coe ℤ JsNumber := ⟨fun n => finite n⟩

end JsNumber

/-- The characters `String.prototype.trim` drops. -/
def isJsWhitespace (c : Char) : Bool :=
  [0x9, 0xa, 0xb, 0xc, 0xd, 0x20, 0xa0, 0x1680, 0x2028, 0x2029, 0x202f, 0x205f, 0x3000,
    0xfeff].contains c.toNat || (0x2000 ≤ c.toNat && c.toNat ≤ 0x200a)

/-- `text.trim()` -/
def jsTrim (text : String) : String :=
  String.ofList (((text.toList.dropWhile isJsWhitespace).reverse.dropWhile isJsWhitespace).reverse)

inductive JsValue
  | undefined
  | null
  | boolean (value : Bool)
  | number (value : JsNumber)
  | string (value : String)
  | array (elements : List JsValue)
  | object (fields : List (String × JsValue))

namespace JsValue

def isUndefined : JsValue → Bool
  | undefined => true
  | _ => false

/-- The first field of the name that is not `undefined`. -/
def lookup (key : String) : List (String × JsValue) → JsValue
  | [] => undefined
  | (k, v) :: fields => if k = key && !v.isUndefined then v else lookup key fields

/-- Whether the value is the text. -/
def isText (v : JsValue) (text : String) : Bool :=
  match v with
  | string s => s = text
  | _ => false

/-- The integer, if the value is a number that is a safe one: `Number.isSafeInteger(v)`. -/
def safeInteger : JsValue → Option ℤ
  | number (.finite q) => if q.den = 1 ∧ q.num.natAbs ≤ 9007199254740991 then some q.num else none
  | _ => none

/-- `Boolean(v)` -/
def truthy : JsValue → Bool
  | undefined => false
  | null => false
  | boolean b => b
  | number (.finite q) => q ≠ 0
  | number n => n ≠ .nan
  | string s => s ≠ ""
  | array _ => true
  | object _ => true

/-- `v ?? w` -/
def orElse (v w : JsValue) : JsValue :=
  match v with
  | undefined => w
  | null => w
  | v => v

/-- `{ ...v, [key]: w }` -/
def set (v : JsValue) (key : String) (w : JsValue) : JsValue :=
  match v with
  | object fields => object (fields.filter (fun field => field.1 ≠ key) ++ [(key, w)])
  | _ => object [(key, w)]

/-- `v[key]` -/
def get (v : JsValue) (key : String) : JsValue :=
  match v with
  | object fields => lookup key fields
  | _ => undefined

mutual

/-- `JSON.parse(JSON.stringify(v))` -/
def json : JsValue → JsValue
  | undefined => undefined
  | null => null
  | boolean b => boolean b
  | number n => if n.isFinite then number n else null
  | string s => string s
  | array elements => array (jsonElements elements)
  | object fields => object (jsonFields fields)

def jsonElements : List JsValue → List JsValue
  | [] => []
  | v :: elements => (if v.isUndefined then null else json v) :: jsonElements elements

def jsonFields : List (String × JsValue) → List (String × JsValue)
  | [] => []
  | (k, v) :: fields =>
    if v.isUndefined then jsonFields fields else (k, json v) :: jsonFields fields

end

mutual

/-- The value less its fields that are `undefined`, at every depth. -/
def dropUndefined : JsValue → JsValue
  | undefined => undefined
  | null => null
  | boolean b => boolean b
  | number n => number n
  | string s => string s
  | array elements => array (dropElements elements)
  | object fields => object (dropFields fields)

def dropElements : List JsValue → List JsValue
  | [] => []
  | v :: elements => dropUndefined v :: dropElements elements

def dropFields : List (String × JsValue) → List (String × JsValue)
  | [] => []
  | (k, v) :: fields =>
    if v.isUndefined then dropFields fields else (k, dropUndefined v) :: dropFields fields

end

mutual

/-- JSON keeps the value: its numbers are finite and its arrays have no `undefined` element. -/
def JsonSafe : JsValue → Prop
  | number n => n.isFinite = true
  | array elements => SafeElements elements
  | object fields => SafeFields fields
  | _ => True

def SafeElements : List JsValue → Prop
  | [] => True
  | v :: elements => v.isUndefined = false ∧ JsonSafe v ∧ SafeElements elements

def SafeFields : List (String × JsValue) → Prop
  | [] => True
  | (_, v) :: fields => JsonSafe v ∧ SafeFields fields

end

theorem eq_undefined_of_isUndefined {v : JsValue} (h : v.isUndefined = true) : v = undefined := by
  cases v <;> first | rfl | cases h

/-- In an object of distinct names a field reads as its value. -/
theorem lookup_of_mem {key : String} {v : JsValue} :
    ∀ {fields : List (String × JsValue)}, (fields.map Prod.fst).Nodup → (key, v) ∈ fields →
      lookup key fields = v
  | (k, w) :: fields, hnodup, hmem => by
    rw [List.map_cons, List.nodup_cons] at hnodup
    rcases List.mem_cons.1 hmem with heq | hmem
    · obtain ⟨rfl, rfl⟩ := Prod.mk.inj heq
      rcases hv : v.isUndefined with _ | _
      · simp [lookup, hv]
      · rw [eq_undefined_of_isUndefined hv]
        have habsent : ∀ {fields : List (String × JsValue)}, key ∉ fields.map Prod.fst →
            lookup key fields = undefined := by
          intro fields h
          induction fields with
          | nil => rfl
          | cons field fields ih =>
            rw [List.map_cons, List.mem_cons, not_or] at h
            simp [lookup, Ne.symm h.1, ih h.2]
        simpa [lookup, isUndefined] using habsent hnodup.1
    · have hne : k ≠ key := fun h =>
        hnodup.1 (List.mem_map.2 ⟨(key, v), hmem, h.symm⟩)
      simpa [lookup, hne] using lookup_of_mem hnodup.2 hmem

/-! ## Setting a field -/

theorem lookup_append (key : String) (xs ys : List (String × JsValue)) :
    lookup key (xs ++ ys) =
      if (lookup key xs).isUndefined then lookup key ys else lookup key xs := by
  induction xs with
  | nil => rfl
  | cons field xs ih =>
    rcases field with ⟨k, v⟩
    rcases hv : v.isUndefined with _ | _
    · by_cases hk : k = key <;> simp [lookup, hv, hk, ih]
    · simp [lookup, hv, ih]

theorem lookup_filter_ne (key other : String) (fields : List (String × JsValue)) :
    lookup other (fields.filter fun field => field.1 ≠ key) =
      if other = key then undefined else lookup other fields := by
  induction fields with
  | nil => simp [lookup]
  | cons field fields ih =>
    rcases field with ⟨k, v⟩
    by_cases hk : k = key
    · rw [List.filter_cons_of_neg (by simp [hk]), ih]
      split_ifs with hother
      · rfl
      · have hne : k ≠ other := fun h => hother (h.symm.trans hk)
        simp [lookup, hne]
    · rw [List.filter_cons_of_pos (by simp [hk])]
      by_cases hother : other = key
      · have hne : k ≠ other := fun h => hk (h.trans hother)
        rw [if_pos hother] at ih ⊢
        rw [lookup, ih]
        simp [hne]
      · simp only [lookup, ih, if_neg hother]

/-- A field that is set reads as it was set, and the others as before. -/
theorem get_set_object (fields : List (String × JsValue)) (key other : String) (w : JsValue) :
    ((object fields).set key w).get other = if other = key then w else (object fields).get other := by
  simp only [JsValue.set, JsValue.get, lookup_append, lookup_filter_ne]
  by_cases hother : other = key
  · rw [if_pos hother, if_pos hother, if_pos (by rfl), hother]
    rcases hw : w.isUndefined with _ | _
    · simp [lookup, hw]
    · rw [eq_undefined_of_isUndefined hw]
      simp [lookup, isUndefined]
  · rw [if_neg hother, if_neg hother]
    split_ifs with hundefined
    · have hne : key ≠ other := fun h => hother h.symm
      rw [eq_undefined_of_isUndefined hundefined]
      simp [lookup, hne]
    · rfl

/-! ## Reading what JSON kept -/

@[simp] theorem isUndefined_json (v : JsValue) : (json v).isUndefined = v.isUndefined := by
  cases v with
  | number n => simp only [json]; split_ifs <;> rfl
  | _ => rfl

@[simp] theorem isUndefined_dropUndefined (v : JsValue) :
    (dropUndefined v).isUndefined = v.isUndefined := by
  cases v <;> rfl

theorem lookup_jsonFields (key : String) :
    ∀ fields, lookup key (jsonFields fields) = json (lookup key fields)
  | [] => rfl
  | (k, v) :: fields => by
    have ih := lookup_jsonFields key fields
    rcases hv : v.isUndefined with _ | _
    · by_cases hk : k = key <;> simp [jsonFields, lookup, hv, hk, ih]
    · simp [jsonFields, lookup, hv, ih]

/-- A field reads as JSON keeps its value. -/
@[simp] theorem get_json (v : JsValue) (key : String) : (json v).get key = json (v.get key) := by
  cases v with
  | object fields => exact lookup_jsonFields key fields
  | number n => simp only [json]; split_ifs <;> rfl
  | _ => rfl

mutual

/-- What JSON kept it keeps again. -/
@[simp] theorem json_json : ∀ v, json (json v) = json v
  | undefined => rfl
  | null => rfl
  | boolean _ => rfl
  | number n => by cases h : n.isFinite <;> simp [json, h]
  | string _ => rfl
  | array elements => by simp [json, jsonElements_jsonElements elements]
  | object fields => by simp [json, jsonFields_jsonFields fields]

theorem jsonElements_jsonElements : ∀ elements,
    jsonElements (jsonElements elements) = jsonElements elements
  | [] => rfl
  | v :: elements => by
    have hv := json_json v
    have ih := jsonElements_jsonElements elements
    rcases h : v.isUndefined with _ | _
    · simp [jsonElements, h, hv, ih]
    · rw [eq_undefined_of_isUndefined h]
      simp [jsonElements, isUndefined, json, ih]

theorem jsonFields_jsonFields : ∀ fields, jsonFields (jsonFields fields) = jsonFields fields
  | [] => rfl
  | (k, v) :: fields => by
    have hv := json_json v
    have ih := jsonFields_jsonFields fields
    rcases h : v.isUndefined with _ | _ <;> simp [jsonFields, h, hv, ih]

end

mutual

/-- JSON keeps the value exactly when it is safe. -/
theorem json_eq_dropUndefined : ∀ v, json v = dropUndefined v ↔ JsonSafe v
  | undefined => by simp [json, dropUndefined, JsonSafe]
  | null => by simp [json, dropUndefined, JsonSafe]
  | boolean _ => by simp [json, dropUndefined, JsonSafe]
  | number n => by cases h : n.isFinite <;> simp [json, dropUndefined, JsonSafe, h]
  | string _ => by simp [json, dropUndefined, JsonSafe]
  | array elements => by
    simpa [json, dropUndefined, JsonSafe] using jsonElements_eq_dropElements elements
  | object fields => by
    simpa [json, dropUndefined, JsonSafe] using jsonFields_eq_dropFields fields

theorem jsonElements_eq_dropElements : ∀ elements,
    jsonElements elements = dropElements elements ↔ SafeElements elements
  | [] => by simp [jsonElements, dropElements, SafeElements]
  | v :: elements => by
    have hv := json_eq_dropUndefined v
    have ih := jsonElements_eq_dropElements elements
    rcases h : v.isUndefined with _ | _
    · simp [jsonElements, dropElements, SafeElements, h, hv, ih]
    · rw [eq_undefined_of_isUndefined h]
      simp [jsonElements, dropElements, SafeElements, isUndefined, dropUndefined]

theorem jsonFields_eq_dropFields : ∀ fields,
    jsonFields fields = dropFields fields ↔ SafeFields fields
  | [] => by simp [jsonFields, dropFields, SafeFields]
  | (k, v) :: fields => by
    have hv := json_eq_dropUndefined v
    have ih := jsonFields_eq_dropFields fields
    rcases h : v.isUndefined with _ | _
    · simp [jsonFields, dropFields, SafeFields, h, hv, ih]
    · rw [eq_undefined_of_isUndefined h]
      simp [jsonFields, dropFields, SafeFields, isUndefined, JsonSafe, ih]

end

end JsValue

/-- A JSON text, by the value it was written from: `JSON.stringify(value)`. -/
structure JsonText where
  stringified : JsValue

/-- `JSON.parse(text)` -/
def JsonText.parse (text : JsonText) : JsValue := text.stringified.json

namespace CodeUnits

/-- A text as its UTF-16 code units, in pairs for the characters that take two. -/
abbrev Units := List ℕ

/-- The units of a text. -/
def ofText (text : String) : Units :=
  text.toList.flatMap fun c =>
    if c.toNat < 65536 then [c.toNat]
    else [55296 + (c.toNat - 65536) / 1024, 56320 + (c.toNat - 65536) % 1024]

end CodeUnits

end Kinetick
