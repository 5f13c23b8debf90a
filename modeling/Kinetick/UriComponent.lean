import Kinetick.Utf8

/-!
# `encodeURIComponent`

Letters, digits and a few marks stand for themselves; every other character is written as the bytes
of its UTF-8 encoding, each as a percent sign and two hexadecimal digits. So the encoding has no
colon, and what was encoded can be read back.
-/

namespace Kinetick

namespace UriComponent

/-- A letter or digit of ASCII. -/
def isAlphanumeric (c : Char) : Bool :=
  'A'.toNat ≤ c.toNat && c.toNat ≤ 'Z'.toNat || 'a'.toNat ≤ c.toNat && c.toNat ≤ 'z'.toNat ||
    '0'.toNat ≤ c.toNat && c.toNat ≤ '9'.toNat

/-- The characters `encodeURIComponent` leaves as they are. -/
def isUnescaped (c : Char) : Bool :=
  isAlphanumeric c || "-_.!~*'()".toList.contains c

/-- A hexadecimal digit. -/
def hexDigit (n : ℕ) : Char := "0123456789ABCDEF".toList.getD n '0'

/-- A byte, escaped. -/
def escape (b : UInt8) : List Char := ['%', hexDigit (b.toNat / 16), hexDigit (b.toNat % 16)]

def encodeChar (c : Char) : List Char :=
  if isUnescaped c then [c] else (String.utf8EncodeChar c).flatMap escape

/-- `encodeURIComponent` -/
def encode (text : String) : String := String.ofList (text.toList.flatMap encodeChar)

/-- The value of a hexadecimal digit. -/
def hexValue (c : Char) : ℕ := "0123456789ABCDEF".toList.idxOf c

/-- The bytes an encoding stands for. -/
def bytes : List Char → List UInt8
  | '%' :: a :: b :: rest => UInt8.ofNat (hexValue a * 16 + hexValue b) :: bytes rest
  | c :: rest => UInt8.ofNat c.toNat :: bytes rest
  | [] => []

theorem hexValue_hexDigit : ∀ n : Fin 16, hexValue (hexDigit n) = n := by decide

theorem bytes_cons {c : Char} (h : c ≠ '%') (rest : List Char) :
    bytes (c :: rest) = UInt8.ofNat c.toNat :: bytes rest := by
  rw [bytes]
  rintro a b rest rfl
  exact absurd rfl h

theorem bytes_escape (b : UInt8) (rest : List Char) :
    bytes (escape b ++ rest) = b :: bytes rest := by
  have hlt := b.toNat_lt
  have hhigh := hexValue_hexDigit ⟨b.toNat / 16, by omega⟩
  have hlow := hexValue_hexDigit ⟨b.toNat % 16, by omega⟩
  simp only at hhigh hlow
  simp only [escape, List.cons_append, List.nil_append, bytes, hhigh, hlow, List.cons.injEq,
    and_true]
  rw [Nat.div_add_mod']
  exact UInt8.ofNat_toNat

theorem bytes_flatMap_escape (bs : List UInt8) (rest : List Char) :
    bytes (bs.flatMap escape ++ rest) = bs ++ bytes rest := by
  induction bs with
  | nil => rfl
  | cons b bs ih => rw [List.flatMap_cons, List.append_assoc, bytes_escape, ih, List.cons_append]

theorem isUnescaped_iff_mem (c : Char) :
    isUnescaped c = true ↔ isAlphanumeric c = true ∨ c ∈ "-_.!~*'()".toList := by
  simp [isUnescaped]

theorem toNat_lt_of_isUnescaped {c : Char} (h : isUnescaped c = true) : c.toNat < 128 := by
  rw [isUnescaped_iff_mem] at h
  rcases h with h | h
  · simp only [isAlphanumeric, Bool.or_eq_true, Bool.and_eq_true, decide_eq_true_eq] at h
    have hZ : 'Z'.toNat = 90 := rfl
    have hz : 'z'.toNat = 122 := rfl
    have h9 : '9'.toNat = 57 := rfl
    omega
  · have hmarks : ("-_.!~*'()".toList.all fun c => decide (c.toNat < 128)) = true := by decide
    exact of_decide_eq_true (List.all_eq_true.1 hmarks c h)

theorem utf8EncodeChar_of_isUnescaped {c : Char} (h : isUnescaped c = true) :
    String.utf8EncodeChar c = [UInt8.ofNat c.toNat] := by
  have hlt := toNat_lt_of_isUnescaped h
  have hval : c.toNat = c.val.toNat := rfl
  unfold String.utf8EncodeChar
  simp only [← hval]
  rw [if_pos (by omega)]

theorem bytes_encodeChar (c : Char) (rest : List Char) :
    bytes (encodeChar c ++ rest) = String.utf8EncodeChar c ++ bytes rest := by
  unfold encodeChar
  split_ifs with h
  · have hpercent : c ≠ '%' := by
      rintro rfl
      revert h
      decide
    rw [List.singleton_append, bytes_cons hpercent, utf8EncodeChar_of_isUnescaped h]
    rfl
  · exact bytes_flatMap_escape _ _

theorem bytes_encode (text : List Char) :
    bytes (text.flatMap encodeChar) = text.flatMap String.utf8EncodeChar := by
  induction text with
  | nil => rfl
  | cons c text ih => rw [List.flatMap_cons, bytes_encodeChar, ih, List.flatMap_cons]

/-- What was encoded can be read back. -/
theorem encode_injective : Function.Injective encode := by
  intro a b h
  have hbytes : a.toList.flatMap String.utf8EncodeChar =
      b.toList.flatMap String.utf8EncodeChar := by
    rw [← bytes_encode, ← bytes_encode, String.ofList_injective h]
  rw [← String.toByteArray_inj, ← String.ofList_toList (s := a), ← String.ofList_toList (s := b),
    String.toByteArray_ofList, String.toByteArray_ofList]
  unfold List.utf8Encode
  rw [hbytes]

theorem hexDigit_ne_colon : ∀ n : Fin 16, hexDigit n ≠ ':' := by decide

theorem not_colon_mem_escape (b : UInt8) : ':' ∉ escape b := by
  have hlt := b.toNat_lt
  have hhigh := hexDigit_ne_colon ⟨b.toNat / 16, by omega⟩
  have hlow := hexDigit_ne_colon ⟨b.toNat % 16, by omega⟩
  simp only [escape, List.mem_cons, List.not_mem_nil, or_false, not_or]
  exact ⟨by decide, hhigh.symm, hlow.symm⟩

theorem not_colon_mem_encodeChar (c : Char) : ':' ∉ encodeChar c := by
  unfold encodeChar
  split_ifs with h
  · rw [List.mem_singleton]
    rintro rfl
    revert h
    decide
  · rw [List.mem_flatMap]
    rintro ⟨b, -, hb⟩
    exact not_colon_mem_escape b hb

theorem not_colon_mem_encode (text : String) : ':' ∉ (encode text).toList := by
  rw [encode, String.toList_ofList, List.mem_flatMap]
  rintro ⟨c, -, hc⟩
  exact not_colon_mem_encodeChar c hc

/-! ### `decodeURIComponent` -/

/-- The value of a hexadecimal digit of either case. -/
def hexDigitValue (c : Char) : Option ℕ :=
  let value := "0123456789abcdef".toList.idxOf
    (if 'A' ≤ c && c ≤ 'F' then Char.ofNat (c.toNat + 32) else c)
  if value < 16 then some value else none

/-- The bytes a text stands for, if every percent sign has two hexadecimal digits. -/
def octets : List Char → Option (List UInt8)
  | [] => some []
  | [c] => if c = '%' then none else some (String.utf8EncodeChar c)
  | [c, d] => if c = '%' then none else (octets [d]).map (String.utf8EncodeChar c ++ ·)
  | c :: d :: e :: rest =>
    if c = '%' then
      match hexDigitValue d, hexDigitValue e with
      | some high, some low => (octets rest).map (UInt8.ofNat (high * 16 + low) :: ·)
      | _, _ => none
    else (octets (d :: e :: rest)).map (String.utf8EncodeChar c ++ ·)

/-- `decodeURIComponent`, which throws where the bytes are the UTF-8 encoding of no text. -/
def decode (text : String) : Option String :=
  match octets text.toList with
  | some bytes =>
    if Utf8.encode (Utf8.decode bytes) = bytes then some (Utf8.decode bytes) else none
  | none => none

theorem hexDigitValue_hexDigit : ∀ n : Fin 16, hexDigitValue (hexDigit n.val) = some n.val := by
  decide

theorem octets_cons {c : Char} (hc : c ≠ '%') (rest : List Char) :
    octets (c :: rest) = (octets rest).map (String.utf8EncodeChar c ++ ·) := by
  match rest with
  | [] => simp [octets, hc]
  | [d] => simp only [octets, if_neg hc]
  | d :: e :: rest => rw [octets, if_neg hc]

theorem octets_escape (b : UInt8) (rest : List Char) :
    octets (escape b ++ rest) = (octets rest).map (b :: ·) := by
  have hlt := b.toNat_lt
  have hhigh := hexDigitValue_hexDigit ⟨b.toNat / 16, by omega⟩
  have hlow := hexDigitValue_hexDigit ⟨b.toNat % 16, by omega⟩
  simp only at hhigh hlow
  simp only [escape, List.cons_append, List.nil_append, octets, hhigh, hlow, if_true]
  rw [Nat.div_add_mod', UInt8.ofNat_toNat]

theorem octets_flatMap_escape (bs : List UInt8) (rest : List Char) :
    octets (bs.flatMap escape ++ rest) = (octets rest).map (bs ++ ·) := by
  induction bs with
  | nil => cases h : octets rest <;> simp [h]
  | cons b bs ih =>
    rw [List.flatMap_cons, List.append_assoc, octets_escape, ih]
    cases octets rest <;> rfl

theorem octets_encodeChar (c : Char) (rest : List Char) :
    octets (encodeChar c ++ rest) = (octets rest).map (String.utf8EncodeChar c ++ ·) := by
  unfold encodeChar
  split_ifs with h
  · refine octets_cons ?_ rest
    rintro rfl
    revert h
    decide
  · exact octets_flatMap_escape _ rest

theorem octets_encode (text : List Char) :
    octets (text.flatMap encodeChar) = some (text.flatMap String.utf8EncodeChar) := by
  induction text with
  | nil => rfl
  | cons c text ih => rw [List.flatMap_cons, octets_encodeChar, ih, List.flatMap_cons]; rfl

/-- What was encoded is decoded. -/
theorem decode_encode (text : String) : decode (encode text) = some text := by
  have hoctets : octets (encode text).toList = some (Utf8.encode text) := by
    rw [encode, String.toList_ofList, octets_encode]
    rfl
  unfold decode
  rw [hoctets]
  dsimp only
  rw [Utf8.decode_encode, if_pos rfl]

/-- An encoding has only characters that stand for themselves, percent signs and digits. -/
theorem mem_encode {text : String} {c : Char} (h : c ∈ (encode text).toList) :
    isUnescaped c = true ∨ c = '%' := by
  have hdigit : ∀ n : Fin 16, isUnescaped (hexDigit n) = true := by decide
  rw [encode, String.toList_ofList, List.mem_flatMap] at h
  obtain ⟨d, -, hd⟩ := h
  unfold encodeChar at hd
  split_ifs at hd with hunescaped
  · rw [List.mem_singleton.1 hd]
    exact Or.inl hunescaped
  · obtain ⟨b, -, hb⟩ := List.mem_flatMap.1 hd
    have hlt := b.toNat_lt
    have hhigh := hdigit ⟨b.toNat / 16, by omega⟩
    have hlow := hdigit ⟨b.toNat % 16, by omega⟩
    simp only [escape, List.mem_cons, List.not_mem_nil, or_false] at hb
    rcases hb with rfl | rfl | rfl
    · exact Or.inr rfl
    · exact Or.inl hhigh
    · exact Or.inl hlow

/-! ### What is written as it would be encoded -/

def isUpperHexDigit (c : Char) : Bool := "0123456789ABCDEF".toList.contains c

/-- The text is written as `encodeURIComponent` writes: what needs no percent sign has none, what
needs one has it, and digits are of the upper case. -/
def wellSpelled : List Char → Bool
  | [] => true
  | [c] => isUnescaped c
  | [c, d] => isUnescaped c && isUnescaped d
  | c :: d :: e :: rest =>
    if c = '%' then
      isUpperHexDigit d && isUpperHexDigit e &&
        !isUnescaped (Char.ofNat (hexValue d * 16 + hexValue e)) && wellSpelled rest
    else isUnescaped c && wellSpelled (d :: e :: rest)

/-- A byte of an encoding. -/
def encodeByte (b : UInt8) : List Char :=
  if isUnescaped (Char.ofNat b.toNat) then [Char.ofNat b.toNat] else escape b

theorem toNat_ofNat_of_lt {n : ℕ} (h : n < 256) : (Char.ofNat n).toNat = n :=
  by
  have hvalid : n.isValidChar := Or.inl (by omega)
  rw [Char.ofNat, dif_pos hvalid]
  rfl

theorem le_of_mem_utf8EncodeChar {c : Char} {b : UInt8} (hc : 128 ≤ c.toNat)
    (h : b ∈ String.utf8EncodeChar c) : 128 ≤ b.toNat := by
  have hval : c.val.toNat = c.toNat := rfl
  have hlt : c.toNat < 1114112 := by
    rcases c.valid with h | ⟨-, h⟩
    · have : c.toNat < 55296 := h
      omega
    · exact h
  have hbyte : ∀ n : ℕ, 128 ≤ n → n < 256 → 128 ≤ (UInt8.ofNat n).toNat := by
    intro n hn hn'
    rw [UInt8.toNat_ofNat']
    omega
  unfold String.utf8EncodeChar at h
  simp only [hval] at h
  rw [if_neg (by omega)] at h
  split_ifs at h
  all_goals simp only [List.mem_cons, List.not_mem_nil, or_false] at h
  · rcases h with rfl | rfl <;> exact hbyte _ (by omega) (by omega)
  · rcases h with rfl | rfl | rfl <;> exact hbyte _ (by omega) (by omega)
  · rcases h with rfl | rfl | rfl | rfl <;> exact hbyte _ (by omega) (by omega)

theorem encodeByte_of_le {b : UInt8} (h : 128 ≤ b.toNat) : encodeByte b = escape b := by
  have hlt := b.toNat_lt
  unfold encodeByte
  rw [if_neg]
  intro hunescaped
  have := toNat_lt_of_isUnescaped hunescaped
  rw [toNat_ofNat_of_lt (by omega)] at this
  omega

/-- An encoding may be written byte by byte. -/
theorem encodeChar_eq (c : Char) :
    encodeChar c = (String.utf8EncodeChar c).flatMap encodeByte := by
  have hval : c.val.toNat = c.toNat := rfl
  by_cases hc : c.toNat < 128
  · have hbyte : String.utf8EncodeChar c = [UInt8.ofNat c.toNat] := by
      unfold String.utf8EncodeChar
      simp only [← hval]
      rw [if_pos (by omega)]
    have hnat : (UInt8.ofNat c.toNat).toNat = c.toNat := by
      rw [UInt8.toNat_ofNat']
      omega
    unfold encodeChar encodeByte
    rw [hbyte]
    simp only [List.flatMap_cons, List.flatMap_nil, List.append_nil, hnat, Char.ofNat_toNat]
  · have hunescaped : ¬ isUnescaped c = true := fun h => hc (toNat_lt_of_isUnescaped h)
    unfold encodeChar
    rw [if_neg hunescaped]
    refine List.flatMap_congr fun b hb => (encodeByte_of_le ?_).symm
    exact le_of_mem_utf8EncodeChar (by omega) hb

theorem encode_eq_bytes (text : String) :
    (encode text).toList = (Utf8.encode text).flatMap encodeByte := by
  unfold encode Utf8.encode
  rw [String.toList_ofList, List.flatMap_assoc]
  exact List.flatMap_congr fun c _ => encodeChar_eq c

theorem octets_of_decode {l : List Char} {text : String} (h : decode (String.ofList l) = some text) :
    octets l = some (Utf8.encode text) := by
  unfold decode at h
  rw [String.toList_ofList] at h
  cases hoctets : octets l with
  | none => simp [hoctets] at h
  | some bs =>
    rw [hoctets] at h
    dsimp only at h
    split_ifs at h with heq
    rw [← Option.some.inj h, heq]

theorem head_encodeChar {c : Char} (h : ¬ isUnescaped c = true) (rest : List Char) :
    (encodeChar c ++ rest).head? = some '%' := by
  unfold encodeChar
  rw [if_neg h]
  cases hbytes : String.utf8EncodeChar c with
  | nil => exact absurd hbytes (by simp)
  | cons b bs => rfl

theorem hexDigitValue_lt {d : Char} {n : ℕ} (h : hexDigitValue d = some n) : n < 16 := by
  unfold hexDigitValue at h
  dsimp only at h
  split_ifs at h with hcase hlt hlt
  · rw [← Option.some.inj h]
    exact hlt
  · rw [← Option.some.inj h]
    exact hlt

theorem isUpperHexDigit_hexDigit : ∀ n : Fin 16, isUpperHexDigit (hexDigit n.val) = true := by
  decide

theorem hexDigit_of_isUpperHexDigit {d : Char} (h : isUpperHexDigit d = true) :
    hexDigitValue d = some (hexValue d) ∧ hexDigit (hexValue d) = d := by
  have hall : ("0123456789ABCDEF".toList.all fun d =>
      hexDigitValue d = some (hexValue d) ∧ hexDigit (hexValue d) = d) = true := by decide
  have hmem : d ∈ "0123456789ABCDEF".toList := List.contains_iff_mem.1 h
  simpa using List.all_eq_true.1 hall d hmem

/-- A digit is of the upper case where it is the one that is written for its value. -/
theorem hexDigit_eq_iff {d : Char} {n : ℕ} (h : hexDigitValue d = some n) :
    hexDigit n = d ↔ isUpperHexDigit d = true := by
  constructor
  · rintro rfl
    exact isUpperHexDigit_hexDigit ⟨n, hexDigitValue_lt h⟩
  · intro hupper
    obtain ⟨hvalue, hdigit⟩ := hexDigit_of_isUpperHexDigit hupper
    rw [h] at hvalue
    rw [Option.some.inj hvalue, hdigit]

theorem wellSpelled_char_iff {c : Char} (hc : c ≠ '%') {rest : List Char} {bs : List UInt8}
    (ih : wellSpelled rest = true ↔ bs.flatMap encodeByte = rest) :
    (isUnescaped c && wellSpelled rest) = true ↔
      (String.utf8EncodeChar c ++ bs).flatMap encodeByte = c :: rest := by
  rw [List.flatMap_append, ← encodeChar_eq, Bool.and_eq_true, ih]
  by_cases h : isUnescaped c = true
  · unfold encodeChar
    rw [if_pos h, List.singleton_append, List.cons.injEq]
    simp [h]
  · have hhead := head_encodeChar h (bs.flatMap encodeByte)
    constructor
    · exact fun hunescaped => absurd hunescaped.1 h
    · intro heq
      rw [heq] at hhead
      exact absurd (Option.some.inj hhead) hc

theorem wellSpelled_escape_iff {d e : Char} {high low : ℕ} (hd : hexDigitValue d = some high)
    (he : hexDigitValue e = some low) {rest : List Char} {bs : List UInt8}
    (ih : wellSpelled rest = true ↔ bs.flatMap encodeByte = rest) :
    (isUpperHexDigit d && isUpperHexDigit e &&
        !isUnescaped (Char.ofNat (hexValue d * 16 + hexValue e)) && wellSpelled rest) = true ↔
      (UInt8.ofNat (high * 16 + low) :: bs).flatMap encodeByte = '%' :: d :: e :: rest := by
  have hhigh := hexDigitValue_lt hd
  have hlow := hexDigitValue_lt he
  have hb : (UInt8.ofNat (high * 16 + low)).toNat = high * 16 + low := by
    rw [UInt8.toNat_ofNat']
    omega
  rw [List.flatMap_cons, encodeByte, hb]
  simp only [Bool.and_eq_true, Bool.not_eq_true', ih]
  by_cases hunescaped : isUnescaped (Char.ofNat (high * 16 + low)) = true
  · rw [if_pos hunescaped]
    constructor
    · rintro ⟨⟨⟨hd', he'⟩, hnot⟩, -⟩
      rw [(hexDigit_of_isUpperHexDigit hd').1] at hd
      rw [(hexDigit_of_isUpperHexDigit he').1] at he
      rw [Option.some.inj hd, Option.some.inj he, hunescaped] at hnot
      cases hnot
    · intro heq
      rw [List.singleton_append, List.cons.injEq] at heq
      rw [heq.1] at hunescaped
      exact absurd hunescaped (by decide)
  · have hdigits : (high * 16 + low) / 16 = high ∧ (high * 16 + low) % 16 = low := by omega
    rw [if_neg hunescaped, escape, hb, hdigits.1, hdigits.2]
    simp only [List.cons_append, List.nil_append, List.cons.injEq, true_and, hexDigit_eq_iff hd,
      hexDigit_eq_iff he]
    constructor
    · rintro ⟨⟨⟨hd', he'⟩, -⟩, hrest⟩
      exact ⟨hd', he', hrest⟩
    · rintro ⟨hd', he', hrest⟩
      refine ⟨⟨⟨hd', he'⟩, ?_⟩, hrest⟩
      rw [(hexDigit_of_isUpperHexDigit hd').1] at hd
      rw [(hexDigit_of_isUpperHexDigit he').1] at he
      rw [Option.some.inj hd, Option.some.inj he]
      simpa using hunescaped

/-- A text is well spelled where it is the encoding of its bytes. -/
theorem wellSpelled_iff {l : List Char} {bs : List UInt8} (h : octets l = some bs) :
    wellSpelled l = true ↔ bs.flatMap encodeByte = l := by
  match l with
  | [] =>
    rw [← Option.some.inj h]
    simp [wellSpelled]
  | [c] =>
    unfold octets at h
    split_ifs at h with hc
    rw [← Option.some.inj h]
    have := @wellSpelled_char_iff c hc [] [] (by simp [wellSpelled])
    simpa [wellSpelled] using this
  | [c, d] =>
    unfold octets at h
    split_ifs at h with hc
    obtain ⟨bs', hd, rfl⟩ := Option.map_eq_some_iff.1 h
    simpa [wellSpelled] using wellSpelled_char_iff hc (wellSpelled_iff hd)
  | c :: d :: e :: rest =>
    unfold octets at h
    unfold wellSpelled
    by_cases hc : c = '%'
    · rw [if_pos hc] at h ⊢
      cases hd : hexDigitValue d with
      | none => simp [hd] at h
      | some high =>
        cases he : hexDigitValue e with
        | none => simp [hd, he] at h
        | some low =>
          simp only [hd, he] at h
          obtain ⟨bs', hrest, rfl⟩ := Option.map_eq_some_iff.1 h
          rw [hc]
          exact wellSpelled_escape_iff hd he (wellSpelled_iff hrest)
    · rw [if_neg hc] at h ⊢
      obtain ⟨bs', hrest, rfl⟩ := Option.map_eq_some_iff.1 h
      exact wellSpelled_char_iff hc (wellSpelled_iff hrest)

/-- What decodes to a text is its encoding where it is well spelled. -/
theorem wellSpelled_iff_encode {l : List Char} {text : String}
    (h : decode (String.ofList l) = some text) :
    wellSpelled l = true ↔ (encode text).toList = l := by
  rw [encode_eq_bytes]
  exact wellSpelled_iff (octets_of_decode h)

end UriComponent

end Kinetick
