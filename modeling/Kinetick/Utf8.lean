import Mathlib.Data.List.Basic

/-!
# Reading bytes as UTF-8

The decoder reads any bytes: what is no character of UTF-8 it reads as replacement characters, one
for each longest beginning of a character. A line feed ends whatever was begun, so a text may be
decoded line by line.
-/

namespace Kinetick

namespace Utf8

/-- A character begun: how many bytes are to come, what was read, and the bounds of the next byte. A
character is not written in more bytes than it needs. -/
structure Begun where
  needed : ℕ
  codePoint : ℕ
  lower : ℕ
  upper : ℕ
  lower_ge : 128 ≤ lower
  long : 0 < codePoint ∨ 144 ≤ lower

/-- U+FFFD -/
def replacement : Char := Char.ofNat 65533

/-- A byte between characters. -/
def start (b : ℕ) : List Char × Option Begun :=
  if b < 128 then ([Char.ofNat b], none)
  else if h : 194 ≤ b ∧ b < 224 then ([], some ⟨1, b - 192, 128, 191, by omega, by omega⟩)
  else if b = 224 then ([], some ⟨2, 0, 160, 191, by omega, by omega⟩)
  else if b = 237 then ([], some ⟨2, 13, 128, 159, by omega, by omega⟩)
  else if h : 224 < b ∧ b < 240 then ([], some ⟨2, b - 224, 128, 191, by omega, by omega⟩)
  else if b = 240 then ([], some ⟨3, 0, 144, 191, by omega, by omega⟩)
  else if b = 244 then ([], some ⟨3, 4, 128, 143, by omega, by omega⟩)
  else if h : 240 < b ∧ b < 244 then ([], some ⟨3, b - 240, 128, 191, by omega, by omega⟩)
  else ([replacement], none)

/-- A byte of a character begun, where it is one. -/
def Begun.next (begun : Begun) (b : ℕ) (h : begun.lower ≤ b) : List Char × Option Begun :=
  if begun.needed ≤ 1 then ([Char.ofNat (64 * begun.codePoint + (b - 128))], none)
  else ([], some ⟨begun.needed - 1, 64 * begun.codePoint + (b - 128), 128, 191, by omega, by
    rcases begun.long with hlong | hlong <;> omega⟩)

def step (begun : Option Begun) (b : ℕ) : List Char × Option Begun :=
  match begun with
  | none => start b
  | some begun =>
    if h : begun.lower ≤ b ∧ b ≤ begun.upper then begun.next b h.1
    else (replacement :: (start b).1, (start b).2)

def decodeFrom : Option Begun → List UInt8 → List Char
  | none, [] => []
  | some _, [] => [replacement]
  | begun, b :: bytes => (step begun b.toNat).1 ++ decodeFrom (step begun b.toNat).2 bytes

/-- `bytes.toString('utf8')` -/
def decode (bytes : List UInt8) : String := String.ofList (decodeFrom none bytes)

/-- `Buffer.from(text, 'utf8')` -/
def encode (text : String) : List UInt8 := text.toList.flatMap String.utf8EncodeChar

/-! ## Line by line -/

/-- A line feed is read as one, wherever it stands. -/
theorem step_feed_some (begun : Begun) : step (some begun) 10 = ([replacement, '\n'], none) := by
  have h := begun.lower_ge
  have hb : ¬(begun.lower ≤ 10 ∧ 10 ≤ begun.upper) := by omega
  unfold step
  simp only [dif_neg hb]
  rfl

theorem decodeFrom_append (begun : Option Begun) (bytes bytes' : List UInt8) :
    decodeFrom begun (bytes ++ 10 :: bytes') =
      decodeFrom begun bytes ++ '\n' :: decodeFrom none bytes' := by
  induction bytes generalizing begun with
  | nil =>
    rcases begun with _ | begun
    · rfl
    · have hfeed : step (some begun) (10 : UInt8).toNat = ([replacement, '\n'], none) :=
        step_feed_some begun
      change (step (some begun) (10 : UInt8).toNat).1 ++
        decodeFrom (step (some begun) (10 : UInt8).toNat).2 bytes' = _
      rw [hfeed]
      rfl
  | cons b bytes ih =>
    rw [List.cons_append]
    rcases begun with _ | begun <;> simp only [decodeFrom, ih, List.append_assoc]

theorem toNat_ofNat_ne {n : ℕ} (h : n ≠ 10) : Char.ofNat n ≠ '\n' := by
  intro heq
  have hnat : (Char.ofNat n).toNat = 10 := by rw [heq]; rfl
  by_cases hvalid : n.isValidChar
  · rw [Char.ofNat, dif_pos hvalid] at hnat
    exact h hnat
  · rw [Char.ofNat, dif_neg hvalid] at hnat
    cases hnat

theorem feed_not_mem_start {b : ℕ} (h : b ≠ 10) : '\n' ∉ (start b).1 := by
  have hreplacement : '\n' ∉ [replacement] := by decide
  unfold start
  split_ifs
  · simpa using (toNat_ofNat_ne h).symm
  all_goals first | exact hreplacement | exact List.not_mem_nil

theorem feed_not_mem_step (begun : Option Begun) {b : ℕ} (h : b ≠ 10) : '\n' ∉ (step begun b).1 := by
  have hreplacement : '\n' ≠ replacement := by decide
  rcases begun with _ | begun
  · exact feed_not_mem_start h
  · unfold step
    dsimp only
    split_ifs with hb
    · unfold Begun.next
      split_ifs
      · have hlong : 64 * begun.codePoint + (b - 128) ≠ 10 := by
          rcases begun.long with hlong | hlong <;> omega
        simpa using (toNat_ofNat_ne hlong).symm
      · exact List.not_mem_nil
    · simpa [hreplacement] using feed_not_mem_start h

/-- Only a line feed is read as one. -/
theorem feed_not_mem_decodeFrom (begun : Option Begun) {bytes : List UInt8} (h : 10 ∉ bytes) :
    '\n' ∉ decodeFrom begun bytes := by
  induction bytes generalizing begun with
  | nil => rcases begun with _ | begun <;> simp [decodeFrom, show '\n' ≠ replacement by decide]
  | cons b bytes ih =>
    rw [List.mem_cons, not_or] at h
    have hb : b.toNat ≠ 10 := fun hb => h.1 (UInt8.toNat_inj.1 (by rw [hb]; rfl))
    rcases begun with _ | begun <;>
      simpa [decodeFrom, feed_not_mem_step _ hb] using ih _ h.2

/-! ## What was encoded -/

theorem decodeFrom_cons (begun : Option Begun) (b : ℕ) (hb : b < 256) (bytes : List UInt8) :
    decodeFrom begun (UInt8.ofNat b :: bytes) =
      (step begun b).1 ++ decodeFrom (step begun b).2 bytes := by
  have h : (UInt8.ofNat b).toNat = b := by
    rw [UInt8.toNat_ofNat']
    omega
  rcases begun with _ | begun <;> simp only [decodeFrom, h]

/-- A byte that continues a character, not its last. -/
theorem decodeFrom_more (needed codePoint lower upper : ℕ) (hlower : 128 ≤ lower)
    (hlong : 0 < codePoint ∨ 144 ≤ lower) {b : ℕ} (hb : lower ≤ b ∧ b ≤ upper) (hupper : b < 192)
    (hneeded : 1 < needed) (hlong' : 0 < 64 * codePoint + (b - 128) ∨ 144 ≤ 128)
    (bytes : List UInt8) :
    decodeFrom (some ⟨needed, codePoint, lower, upper, hlower, hlong⟩) (UInt8.ofNat b :: bytes) =
      decodeFrom (some ⟨needed - 1, 64 * codePoint + (b - 128), 128, 191, Nat.le_refl 128, hlong'⟩)
        bytes := by
  have hmore : ¬ needed ≤ 1 := by omega
  rw [decodeFrom_cons _ _ (by omega)]
  simp only [step, dif_pos hb, Begun.next, if_neg hmore, List.nil_append]

/-- The last byte of a character. -/
theorem decodeFrom_last (codePoint lower upper : ℕ) (hlower : 128 ≤ lower)
    (hlong : 0 < codePoint ∨ 144 ≤ lower) {b : ℕ} (hb : lower ≤ b ∧ b ≤ upper) (hupper : b < 192)
    (bytes : List UInt8) :
    decodeFrom (some ⟨1, codePoint, lower, upper, hlower, hlong⟩) (UInt8.ofNat b :: bytes) =
      Char.ofNat (64 * codePoint + (b - 128)) :: decodeFrom none bytes := by
  rw [decodeFrom_cons _ _ (by omega)]
  simp only [step, dif_pos hb, Begun.next, if_pos (Nat.le_refl 1), List.singleton_append]

theorem start_two {b : ℕ} (hb : 194 ≤ b ∧ b < 224) :
    start b = ([], some ⟨1, b - 192, 128, 191, by omega, by omega⟩) := by
  unfold start
  rw [if_neg (by omega), dif_pos hb]

/-- The bounds of the second byte of three are narrower after two of the first bytes. -/
theorem start_three {b : ℕ} (hb : 224 ≤ b ∧ b < 240) : ∃ lower upper hlower hlong,
    start b = ([], some ⟨2, b - 224, lower, upper, hlower, hlong⟩) ∧
      lower = (if b = 224 then 160 else 128) ∧ upper = if b = 237 then 159 else 191 := by
  unfold start
  rw [if_neg (by omega), dif_neg (by omega)]
  by_cases h1 : b = 224
  · subst h1
    exact ⟨160, 191, _, _, rfl, rfl, rfl⟩
  · rw [if_neg h1, if_neg h1]
    by_cases h2 : b = 237
    · subst h2
      exact ⟨128, 159, _, _, rfl, rfl, rfl⟩
    · rw [if_neg h2, if_neg h2, dif_pos (by omega)]
      exact ⟨128, 191, _, _, rfl, rfl, rfl⟩

/-- And so it is after two of the first bytes of four. -/
theorem start_four {b : ℕ} (hb : 240 ≤ b ∧ b ≤ 244) : ∃ lower upper hlower hlong,
    start b = ([], some ⟨3, b - 240, lower, upper, hlower, hlong⟩) ∧
      lower = (if b = 240 then 144 else 128) ∧ upper = if b = 244 then 143 else 191 := by
  unfold start
  rw [if_neg (by omega), dif_neg (by omega), if_neg (by omega), if_neg (by omega),
    dif_neg (by omega)]
  by_cases h1 : b = 240
  · subst h1
    exact ⟨144, 191, _, _, rfl, rfl, rfl⟩
  · rw [if_neg h1, if_neg h1]
    by_cases h2 : b = 244
    · subst h2
      exact ⟨128, 143, _, _, rfl, rfl, rfl⟩
    · rw [if_neg h2, if_neg h2, dif_pos (by omega)]
      exact ⟨128, 191, _, _, rfl, rfl, rfl⟩

theorem decodeFrom_encodeChar (c : Char) (bytes : List UInt8) :
    decodeFrom none (String.utf8EncodeChar c ++ bytes) = c :: decodeFrom none bytes := by
  have hval : c.val.toNat = c.toNat := rfl
  have hc : Char.ofNat c.toNat = c := Char.ofNat_toNat c
  have hlt : c.toNat < 1114112 ∧ (c.toNat < 55296 ∨ 57343 < c.toNat) := by
    rcases c.valid with h | ⟨h, h'⟩
    · exact ⟨by have : c.toNat < 55296 := h; omega, .inl h⟩
    · exact ⟨h', .inr h⟩
  unfold String.utf8EncodeChar
  simp only [hval]
  split_ifs with h1 h2 h3
  · rw [List.singleton_append, decodeFrom_cons _ _ (by omega)]
    have hstart : step none c.toNat = ([Char.ofNat c.toNat], none) := by
      unfold step start
      exact if_pos (by omega)
    rw [hstart, hc]
    rfl
  · rw [List.cons_append, List.singleton_append, decodeFrom_cons _ _ (by omega)]
    simp only [step, start_two (b := c.toNat / 64 % 32 + 192) (by omega), List.nil_append]
    rw [decodeFrom_last _ _ _ _ _ (by omega) (by omega),
      show 64 * (c.toNat / 64 % 32 + 192 - 192) + (c.toNat % 64 + 128 - 128) = c.toNat by omega, hc]
  · obtain ⟨lower, upper, hlower, hlong, hstart, hl, hu⟩ :=
      start_three (b := c.toNat / 4096 % 16 + 224) (by omega)
    simp only [List.cons_append, List.nil_append]
    rw [decodeFrom_cons _ _ (by omega)]
    simp only [step, hstart, List.nil_append]
    rw [decodeFrom_more _ _ _ _ _ _ (by split_ifs at hl hu <;> omega) (by omega) (by omega)
      (by split_ifs at hl <;> omega), decodeFrom_last _ _ _ (Nat.le_refl 128) _
        (by omega) (by omega),
      show 64 * (64 * (c.toNat / 4096 % 16 + 224 - 224) + (c.toNat / 64 % 64 + 128 - 128)) +
        (c.toNat % 64 + 128 - 128) = c.toNat by omega, hc]
  · obtain ⟨lower, upper, hlower, hlong, hstart, hl, hu⟩ :=
      start_four (b := c.toNat / 262144 % 8 + 240) (by omega)
    simp only [List.cons_append, List.nil_append]
    rw [decodeFrom_cons _ _ (by omega)]
    simp only [step, hstart, List.nil_append]
    rw [decodeFrom_more _ _ _ _ _ _ (by split_ifs at hl hu <;> omega) (by omega) (by omega)
      (by split_ifs at hl <;> omega), decodeFrom_more _ _ _ _ (Nat.le_refl 128) _ (by omega)
      (by omega) (by omega) (by omega), decodeFrom_last _ _ _ (Nat.le_refl 128) _
        (by omega) (by omega),
      show 64 * (64 * (64 * (c.toNat / 262144 % 8 + 240 - 240) +
        (c.toNat / 4096 % 64 + 128 - 128)) + (c.toNat / 64 % 64 + 128 - 128)) +
          (c.toNat % 64 + 128 - 128) = c.toNat by omega, hc]

theorem decode_encode_append (text : String) (bytes : List UInt8) :
    decodeFrom none (encode text ++ bytes) = text.toList ++ decodeFrom none bytes := by
  unfold encode
  induction text.toList with
  | nil => rfl
  | cons c cs ih => rw [List.flatMap_cons, List.append_assoc, decodeFrom_encodeChar, ih]; rfl

theorem decode_encode (text : String) : decode (encode text) = text := by
  have h := decode_encode_append text []
  rw [List.append_nil] at h
  unfold decode
  rw [h]
  simp [decodeFrom]

theorem encode_ofList_append (a b : List Char) :
    encode (String.ofList (a ++ b)) = encode (String.ofList a) ++ encode (String.ofList b) := by
  unfold encode
  simp

theorem encode_feed : encode (String.ofList ['\n']) = [10] := rfl

/-- Only a line feed is written with its byte. -/
theorem feed_not_mem_encode {text : String} (h : '\n' ∉ text.toList) : 10 ∉ encode text := by
  have hbyte : ∀ n : ℕ, n < 256 → n ≠ 10 → (10 : UInt8) ≠ UInt8.ofNat n := by
    intro n hn hne heq
    have hnat : (10 : UInt8).toNat = n % 256 := by rw [heq, UInt8.toNat_ofNat']
    have : (10 : UInt8).toNat = 10 := rfl
    omega
  intro hmem
  obtain ⟨c, hc, hbytes⟩ := List.mem_flatMap.1 hmem
  have hval : c.val.toNat = c.toNat := rfl
  have hlt : c.toNat < 1114112 := by
    rcases c.valid with h | ⟨-, h⟩
    · have : c.toNat < 55296 := h
      omega
    · exact h
  unfold String.utf8EncodeChar at hbytes
  simp only [hval] at hbytes
  split_ifs at hbytes with h1 h2 h3
  · have hfeed : c.toNat ≠ 10 := by
      intro heq
      refine h ?_
      rw [show '\n' = c by rw [← Char.ofNat_toNat c, heq]]
      exact hc
    exact hbyte _ (by omega) hfeed (by simpa using hbytes)
  all_goals simp only [List.mem_cons, List.not_mem_nil, or_false] at hbytes
  · rcases hbytes with hb | hb <;> exact hbyte _ (by omega) (by omega) hb
  · rcases hbytes with hb | hb | hb <;> exact hbyte _ (by omega) (by omega) hb
  · rcases hbytes with hb | hb | hb | hb <;> exact hbyte _ (by omega) (by omega) hb

/-- Bytes are read as something. -/
theorem decodeFrom_ne_nil {begun : Option Begun} {bytes : List UInt8}
    (h : begun ≠ none ∨ bytes ≠ []) : decodeFrom begun bytes ≠ [] := by
  have hstart : ∀ b, (start b).1 ≠ [] ∨ (start b).2 ≠ none := by
    intro b
    unfold start
    split_ifs <;> simp
  have hstep : ∀ begun b, (step begun b).1 ≠ [] ∨ (step begun b).2 ≠ none := by
    rintro (_ | begun) b
    · exact hstart b
    · unfold step
      dsimp only
      split_ifs
      · unfold Begun.next
        split_ifs <;> simp
      · simp
  induction bytes generalizing begun with
  | nil => rcases begun with _ | begun <;> simp_all [decodeFrom]
  | cons b bytes ih =>
    rcases hstep begun b.toNat with h | h
    · rcases begun with _ | begun <;> simp [decodeFrom, h]
    · have := ih (.inl h)
      rcases begun with _ | begun <;> simp [decodeFrom, this]

end Utf8

end Kinetick
