import Kinetick.AuthLease.Codec
import Kinetick.Proofs.JsonlAppend
import Mathlib.Data.List.Forall2
import Mathlib.Tactic.SplitIfs

/-!
# Auth lease frames in chunks

The loop of the decoder cuts its buffer into frames as far as they go. So a stream of frames cut
anywhere reads as their values, and a decoder that returns keeps less than one frame.
-/

namespace Kinetick

namespace AuthLease

/-! ## Lengths -/

@[simp] theorem length_writeUInt32BE (n : ℕ) : (writeUInt32BE n).length = framePrefixBytes := rfl

theorem readUInt32BE_writeUInt32BE {n : ℕ} (h : n < 4294967296) (more : List UInt8) :
    readUInt32BE (writeUInt32BE n ++ more) = n := by
  simp only [readUInt32BE, writeUInt32BE, List.cons_append, List.nil_append, List.take_succ_cons,
    List.take_zero, List.foldl_cons, List.foldl_nil, UInt8.toNat_ofNat']
  omega

theorem readUInt32BE_append {buffer : List UInt8} (h : framePrefixBytes ≤ buffer.length)
    (more : List UInt8) : readUInt32BE (buffer ++ more) = readUInt32BE buffer := by
  have htake : (buffer ++ more).take 4 = buffer.take 4 := List.take_append_of_le_length h
  unfold readUInt32BE
  rw [htake]

/-- Four bytes are the length that they read as. -/
theorem take_eq_writeUInt32BE {buffer : List UInt8} (h : framePrefixBytes ≤ buffer.length) :
    buffer.take framePrefixBytes = writeUInt32BE (readUInt32BE buffer) := by
  have hbyte : ∀ (b : UInt8) (n : ℕ), n % 256 = b.toNat → b = UInt8.ofNat n := by
    intro b n hn
    rw [← UInt8.toNat_inj, UInt8.toNat_ofNat', hn]
  obtain ⟨b₀, b₁, b₂, b₃, rest, rfl⟩ : ∃ b₀ b₁ b₂ b₃ rest, buffer = b₀ :: b₁ :: b₂ :: b₃ :: rest := by
    rcases buffer with _ | ⟨b₀, _ | ⟨b₁, _ | ⟨b₂, _ | ⟨b₃, rest⟩⟩⟩⟩
    · exact absurd h (by simp [framePrefixBytes])
    · exact absurd h (by simp [framePrefixBytes])
    · exact absurd h (by simp [framePrefixBytes])
    · exact absurd h (by simp [framePrefixBytes])
    · exact ⟨b₀, b₁, b₂, b₃, rest, rfl⟩
  have h₀ := b₀.toNat_lt
  have h₁ := b₁.toNat_lt
  have h₂ := b₂.toNat_lt
  have h₃ := b₃.toNat_lt
  simp only [framePrefixBytes, writeUInt32BE, readUInt32BE, List.take_succ_cons, List.take_zero,
    List.foldl_cons, List.foldl_nil]
  rw [← hbyte b₀, ← hbyte b₁, ← hbyte b₂, ← hbyte b₃] <;> omega

/-! ## The frame at the beginning of a buffer -/

section Reading

variable (parse : String → Option JsValue)

def frameAt (buffer : List UInt8) : Reading JsValue :=
  if framePrefixBytes ≤ buffer.length then
    if readUInt32BE buffer = 0 ∨ maxFrameBytes < readUInt32BE buffer then .bad
    else if buffer.length < framePrefixBytes + readUInt32BE buffer then .more
    else
      match parse (Utf8.decode (subarray buffer framePrefixBytes
          (framePrefixBytes + readUInt32BE buffer))) with
      | none => .bad
      | some value => .item value (framePrefixBytes + readUInt32BE buffer)
  else .more

variable {parse} {buffer : List UInt8} {value : JsValue} {size : ℕ}

/-- What an item at the beginning says of the buffer. -/
theorem frameAt_item (h : frameAt parse buffer = .item value size) :
    framePrefixBytes ≤ buffer.length ∧ 0 < readUInt32BE buffer ∧
      readUInt32BE buffer ≤ maxFrameBytes ∧ size = framePrefixBytes + readUInt32BE buffer ∧
      size ≤ buffer.length ∧
      parse (Utf8.decode (subarray buffer framePrefixBytes size)) = some value := by
  unfold frameAt at h
  split_ifs at h with h₁ h₂ h₃
  generalize hparse : parse (Utf8.decode (subarray buffer framePrefixBytes
    (framePrefixBytes + readUInt32BE buffer))) = parsed at h
  rcases parsed with _ | parsed
  · cases h
  · cases h
    exact ⟨h₁, by omega, by omega, rfl, by omega, hparse⟩

theorem frameAt_bad : frameAt parse buffer = .bad ↔ BeginsBadly parse buffer := by
  unfold frameAt BeginsBadly
  split_ifs with h₁ h₂ h₃
  · exact iff_of_true rfl ⟨h₁, by omega⟩
  · refine iff_of_false nofun ?_
    rintro ⟨-, h | h | h⟩ <;> omega
  · generalize parse (Utf8.decode (subarray buffer framePrefixBytes
      (framePrefixBytes + readUInt32BE buffer))) = parsed
    rcases parsed with _ | parsed
    · exact iff_of_true rfl ⟨h₁, .inr (.inr ⟨by omega, rfl⟩)⟩
    · refine iff_of_false nofun ?_
      rintro ⟨-, h | h | ⟨-, h⟩⟩
      · omega
      · omega
      · cases h
  · exact iff_of_false nofun fun h => h₁ h.1

theorem frameAt_more (h : frameAt parse buffer = .more) :
    buffer.length < maxFrameBytes + framePrefixBytes := by
  have hmax : framePrefixBytes ≤ maxFrameBytes + framePrefixBytes := by decide
  unfold frameAt at h
  split_ifs at h with h₁ h₂ h₃
  · omega
  · generalize parse (Utf8.decode (subarray buffer framePrefixBytes
      (framePrefixBytes + readUInt32BE buffer))) = parsed at h
    rcases parsed with _ | parsed <;> cases h
  · omega

theorem subarray_append {stop : ℕ} (h : stop ≤ buffer.length) (start : ℕ) (more : List UInt8) :
    subarray (buffer ++ more) start stop = subarray buffer start stop := by
  unfold subarray
  rw [List.take_append_of_le_length h]

variable (parse) in
/-- The frames as the items of a stream. -/
def frames : Framing UInt8 JsValue where
  next := frameAt parse
  progress h := by
    obtain ⟨-, hpos, -, hsize, hle, -⟩ := frameAt_item h
    exact ⟨by omega, hle⟩
  item_append {buffer value size} more h := by
    obtain ⟨hpre, hpos, hmax, rfl, hle, hparse⟩ := frameAt_item h
    have hlength : (buffer ++ more).length = buffer.length + more.length := List.length_append
    unfold frameAt
    rw [readUInt32BE_append hpre, subarray_append hle, if_pos (by omega), if_neg (by omega),
      if_neg (by omega), hparse]
  bad_append {buffer} more h := by
    obtain ⟨hpre, h⟩ := frameAt_bad.1 h
    have hlength : (buffer ++ more).length = buffer.length + more.length := List.length_append
    refine frameAt_bad.2 ⟨by omega, ?_⟩
    rw [readUInt32BE_append hpre]
    rcases h with h | h | ⟨hle, h⟩
    · exact .inl h
    · exact .inr (.inl h)
    · exact .inr (.inr ⟨by omega, by rwa [subarray_append hle]⟩)

/-- A frame, and whatever follows it. -/
theorem frameAt_frame {frame : List UInt8} (h : IsFrameOf parse value frame) (more : List UInt8) :
    frameAt parse (frame ++ more) = .item value frame.length := by
  obtain ⟨payload, hpos, hmax, rfl, hparse⟩ := h
  have hfits : maxFrameBytes < 4294967296 := by decide
  have hread : readUInt32BE (writeUInt32BE payload.length ++ payload ++ more) = payload.length := by
    rw [List.append_assoc]
    exact readUInt32BE_writeUInt32BE (by omega) _
  have hlength : (writeUInt32BE payload.length ++ payload ++ more).length =
      framePrefixBytes + payload.length + more.length := by
    simp only [List.length_append, length_writeUInt32BE]
  have hpayload : subarray (writeUInt32BE payload.length ++ payload ++ more) framePrefixBytes
      (framePrefixBytes + payload.length) = payload := by
    rw [subarray_append (by simp), subarray, List.take_of_length_le (by simp)]
    exact List.drop_left' (length_writeUInt32BE payload.length)
  unfold frameAt
  rw [hread, hpayload, if_pos (by omega), if_neg (by omega), if_neg (by omega), hparse]
  simp

/-- An item at the beginning is a frame. -/
theorem frame_of_item (h : frameAt parse buffer = .item value size) :
    IsFrameOf parse value (buffer.take size) := by
  obtain ⟨hpre, hpos, hmax, rfl, hle, hparse⟩ := frameAt_item h
  have hlength : (subarray buffer framePrefixBytes
      (framePrefixBytes + readUInt32BE buffer)).length = readUInt32BE buffer := by
    simp only [subarray, List.length_drop, List.length_take]
    omega
  refine ⟨subarray buffer framePrefixBytes (framePrefixBytes + readUInt32BE buffer), by omega,
    by omega, ?_, hparse⟩
  have htake : (buffer.take (framePrefixBytes + readUInt32BE buffer)).take framePrefixBytes =
      buffer.take framePrefixBytes := by
    rw [List.take_take, Nat.min_eq_left (by omega)]
  rw [hlength, ← take_eq_writeUInt32BE hpre, ← htake, subarray, List.take_append_drop]

/-- Frames one after the other are cut into their values. -/
theorem cut_frames {values : List JsValue} {sent : List (List UInt8)}
    (h : List.Forall₂ (IsFrameOf parse) values sent) (rest : List UInt8) :
    (frames parse).Cut (sent.flatten ++ rest) values rest := by
  induction h with
  | nil => exact .nil rest
  | cons hframe _ ih =>
    rw [List.flatten_cons, List.append_assoc]
    refine .cons (frameAt_frame hframe _) ?_
    rw [List.drop_left]
    exact ih

/-- And what is cut is frames. -/
theorem frames_of_cut {values : List JsValue} {rest : List UInt8}
    (h : (frames parse).Cut buffer values rest) :
    ∃ sent, List.Forall₂ (IsFrameOf parse) values sent ∧ buffer = sent.flatten ++ rest := by
  induction h with
  | nil rest => exact ⟨[], .nil, rfl⟩
  | @cons buffer value size values rest hitem _ ih =>
    obtain ⟨sent, hsent, heq⟩ := ih
    refine ⟨buffer.take size :: sent, .cons (frame_of_item hitem) hsent, ?_⟩
    rw [List.flatten_cons, List.append_assoc, ← heq, List.take_append_drop]

/-- A frame that was encoded is one of the value that JSON reads back. -/
theorem isFrameOf_of_encode {format : Jsonl.NumberFormat} {frame : List UInt8}
    (hread : ReadsBack parse format value)
    (h : encodeAuthLeaseFrame format value = .ok frame) : IsFrameOf parse value.json frame := by
  unfold encodeAuthLeaseFrame at h
  generalize htext : Jsonl.stringify format value = text at h
  rcases text with _ | text
  · cases h
  · simp only at h
    split_ifs at h with hlength
    cases h
    refine ⟨_, by omega, by omega, rfl, ?_⟩
    rw [Utf8.decode_encode]
    exact hread text htext

end Reading

namespace AuthLeaseFrameDecoder

variable {parse : String → Option JsValue} {buffer : List UInt8}

/-! ## The loop -/

theorem readFrames_item {value : JsValue} {size : ℕ} (h : frameAt parse buffer = .item value size)
    (read : List JsValue) :
    readFrames parse read buffer = readFrames parse (read ++ [value]) (buffer.drop size) := by
  obtain ⟨hpre, hpos, hmax, rfl, hle, hparse⟩ := frameAt_item h
  rw [readFrames, if_pos hpre]
  simp only
  rw [if_neg (by omega), if_neg (by omega), hparse]

theorem readFrames_more (h : frameAt parse buffer = .more) (read : List JsValue) :
    readFrames parse read buffer = (.ok read, { buffer }) := by
  have hmax := frameAt_more h
  rw [readFrames]
  unfold frameAt at h
  simp only
  split_ifs at h ⊢ with h₁ h₂ h₃ h₄
  · omega
  · rfl
  · generalize parse (Utf8.decode (subarray buffer framePrefixBytes
      (framePrefixBytes + readUInt32BE buffer))) = parsed at h
    rcases parsed with _ | parsed <;> cases h
  · rfl

theorem readFrames_bad (h : frameAt parse buffer = .bad) (read : List JsValue) :
    readFrames parse read buffer = invalidRequest := by
  obtain ⟨hpre, h⟩ := frameAt_bad.1 h
  rw [readFrames, if_pos hpre]
  simp only
  by_cases hlength : readUInt32BE buffer = 0 ∨ maxFrameBytes < readUInt32BE buffer
  · rw [if_pos hlength]
  · obtain ⟨hle, hparse⟩ : framePrefixBytes + readUInt32BE buffer ≤ buffer.length ∧ _ := by
      rcases h with h | h | h
      · exact absurd (.inl h) hlength
      · exact absurd (.inr h) hlength
      · exact h
    rw [if_neg hlength, if_neg (by omega), hparse]

/-- The loop reads the frames and leaves the rest, if it is not bad. -/
theorem readFrames_cut {values : List JsValue} {rest : List UInt8}
    (h : (frames parse).Cut buffer values rest) (read : List JsValue) :
    readFrames parse read buffer = readFrames parse (read ++ values) rest := by
  induction h generalizing read with
  | nil => rw [List.append_nil]
  | cons hitem _ ih =>
    rw [readFrames_item hitem, ih, List.append_assoc, List.singleton_append]

/-! ## Pushes -/

/-- The decoder holds less than a frame, and nothing bad. -/
def Waiting (parse : String → Option JsValue) (decoder : AuthLeaseFrameDecoder) : Prop :=
  frameAt parse decoder.buffer = .more

theorem waiting_nil : Waiting parse {} := rfl

variable {decoder : AuthLeaseFrameDecoder} {chunk rest : List UInt8} {values : List JsValue}

theorem push_eq (h : decoder.Waiting parse) (chunk : List UInt8) :
    decoder.push parse chunk = readFrames parse [] (decoder.buffer ++ chunk) := by
  unfold push
  split_ifs with hchunk
  · rw [List.length_eq_zero_iff.1 hchunk, List.append_nil, readFrames_more h]
  · rfl

theorem push_more (h : decoder.Waiting parse)
    (hcut : (frames parse).Cut (decoder.buffer ++ chunk) values rest)
    (hrest : frameAt parse rest = .more) :
    decoder.push parse chunk = (.ok values, { buffer := rest }) := by
  rw [push_eq h, readFrames_cut hcut, readFrames_more hrest, List.nil_append]

theorem push_bad (h : decoder.Waiting parse)
    (hcut : (frames parse).Cut (decoder.buffer ++ chunk) values rest)
    (hrest : frameAt parse rest = .bad) : decoder.push parse chunk = invalidRequest := by
  rw [push_eq h, readFrames_cut hcut, readFrames_bad hrest]

/-- What a push does: it cuts what there is as far as it goes. -/
theorem push_cases (h : decoder.Waiting parse) (chunk : List UInt8) :
    ∃ values rest, (frames parse).Cut (decoder.buffer ++ chunk) values rest ∧
      (frameAt parse rest = .more ∧ decoder.push parse chunk = (.ok values, { buffer := rest }) ∨
        frameAt parse rest = .bad ∧ decoder.push parse chunk = invalidRequest) := by
  obtain ⟨values, rest, hcut, hended⟩ :=
    Framing.exists_cut (frames parse) (decoder.buffer ++ chunk)
  refine ⟨values, rest, hcut, ?_⟩
  rcases hrest : frameAt parse rest with _ | _ | ⟨value, size⟩
  · exact .inl ⟨rfl, push_more h hcut hrest⟩
  · exact .inr ⟨rfl, push_bad h hcut hrest⟩
  · exact absurd hrest (hended value size)

theorem waiting_push (h : decoder.Waiting parse) (chunk : List UInt8) :
    (decoder.push parse chunk).2.Waiting parse := by
  obtain ⟨values, rest, -, ⟨hrest, heq⟩ | ⟨-, heq⟩⟩ := push_cases h chunk
  · rw [heq]
    exact hrest
  · rw [heq]
    rfl

theorem waiting_pushAll (h : decoder.Waiting parse) (chunks : List (List UInt8)) :
    (decoder.pushAll parse chunks).2.Waiting parse := by
  induction chunks generalizing decoder with
  | nil => exact h
  | cons chunk chunks ih => exact ih (waiting_push h chunk)

/-! ## Runs -/

/-- Chunks of a stream of frames are all answered, together with the values. -/
theorem pushAll_of_cut {chunks : List (List UInt8)} (h : decoder.Waiting parse)
    (hcut : (frames parse).Cut (decoder.buffer ++ chunks.flatten) values []) :
    ∃ answers : List (List JsValue),
      decoder.pushAll parse chunks = (answers.map .ok, {}) ∧ answers.flatten = values := by
  induction chunks generalizing decoder values with
  | nil =>
    rw [List.flatten_nil, List.append_nil] at hcut
    obtain ⟨rfl, hnil⟩ := hcut.unique (Framing.ended_of_more rfl) (.nil decoder.buffer)
      (Framing.ended_of_more h)
    refine ⟨[], ?_, rfl⟩
    rcases decoder with ⟨buffer⟩
    cases hnil
    rfl
  | cons chunk chunks ih =>
    rw [List.flatten_cons, ← List.append_assoc] at hcut
    obtain ⟨first, others, rest, rfl, hfirst, hrest, hothers⟩ := hcut.of_append rfl
    have hwaiting : Waiting parse { buffer := rest } := hrest
    obtain ⟨answers, heq, hflat⟩ := ih hwaiting hothers
    refine ⟨first :: answers, ?_, by rw [List.flatten_cons, hflat]⟩
    simp only [pushAll, push_more h hfirst hrest, heq, List.map_cons]

/-- Chunks that are all answered are the frames of the answers and what is still held. -/
theorem cut_of_pushAll {chunks : List (List UInt8)} {answers : List (List JsValue)}
    {decoder' : AuthLeaseFrameDecoder} (h : decoder.Waiting parse)
    (hrun : decoder.pushAll parse chunks = (answers.map .ok, decoder')) :
    (frames parse).Cut (decoder.buffer ++ chunks.flatten) answers.flatten decoder'.buffer := by
  induction chunks generalizing decoder answers with
  | nil =>
    simp only [pushAll, Prod.mk.injEq] at hrun
    obtain ⟨hanswers, rfl⟩ := hrun
    rw [List.nil_eq, List.map_eq_nil_iff] at hanswers
    subst hanswers
    simpa using Framing.Cut.nil decoder.buffer
  | cons chunk chunks ih =>
    simp only [pushAll, Prod.mk.injEq] at hrun
    obtain ⟨hanswers, hdecoder⟩ := hrun
    rcases answers with _ | ⟨answer, answers⟩
    · cases hanswers
    obtain ⟨hanswer, hanswers⟩ := List.cons.inj hanswers
    obtain ⟨values, rest, hcut, ⟨hrest, heq⟩ | ⟨-, heq⟩⟩ := push_cases h chunk
    · rw [heq] at hanswer hanswers hdecoder
      cases hanswer
      rw [List.flatten_cons, List.flatten_cons, ← List.append_assoc]
      have hwaiting : Waiting parse { buffer := rest } := hrest
      exact (hcut.append _).trans (ih hwaiting (Prod.ext hanswers hdecoder))
    · rw [heq] at hanswer
      cases hanswer

end AuthLeaseFrameDecoder

section Streams

open AuthLeaseFrameDecoder

/-- Frames cut into chunks anywhere are answered with the values, and nothing is held at the end. Of
any stream, the values answered between two throws are those of the frames it consists of, one where
the one before it ended, and less than a frame of it is held; a push throws exactly if a length that
no frame has or a text that is no JSON comes after the frames, and then nothing is held. -/
theorem frames_survive_chunking (format : Jsonl.NumberFormat) (parse : String → Option JsValue) :
    (∀ (values : List JsValue) (sent chunks : List (List UInt8)),
      (∀ value ∈ values, ReadsBack parse format value) →
      List.Forall₂ (fun value frame => encodeAuthLeaseFrame format value = .ok frame) values sent →
      chunks.flatten = sent.flatten →
      ∃ answers : List (List JsValue),
        AuthLeaseFrameDecoder.pushAll parse {} chunks = (answers.map .ok, {}) ∧
          answers.flatten = values.map JsValue.json) ∧
    ∀ (chunks : List (List UInt8)) (decoder : AuthLeaseFrameDecoder),
      (AuthLeaseFrameDecoder.pushAll parse {} chunks).2 = decoder →
      (∀ (more : List (List UInt8)) (answers : List (List JsValue))
        (decoder' : AuthLeaseFrameDecoder), decoder.pushAll parse more = (answers.map .ok, decoder') →
        decoder'.bufferedBytes < maxFrameBytes + 4 ∧
          ∃ sent, List.Forall₂ (IsFrameOf parse) answers.flatten sent ∧
            decoder.buffer ++ more.flatten = sent.flatten ++ decoder'.buffer) ∧
      ∀ chunk : List UInt8,
        (decoder.push parse chunk = (.error .invalidRequest, {}) ↔
          ∃ values sent rest, List.Forall₂ (IsFrameOf parse) values sent ∧
            decoder.buffer ++ chunk = sent.flatten ++ rest ∧ BeginsBadly parse rest) ∧
        ∀ e, (decoder.push parse chunk).1 = .error e →
          decoder.push parse chunk = (.error .invalidRequest, {}) := by
  refine ⟨fun values sent chunks hread hsent hchunks => ?_, fun chunks decoder hdecoder => ?_⟩
  · have hframes : List.Forall₂ (IsFrameOf parse) (values.map JsValue.json) sent := by
      rw [List.forall₂_map_left_iff]
      rw [List.forall₂_iff_zip] at hsent ⊢
      refine ⟨hsent.1, fun hmem => ?_⟩
      exact isFrameOf_of_encode (hread _ (List.of_mem_zip hmem).1) (hsent.2 hmem)
    have hcut := cut_frames hframes []
    rw [List.append_nil, ← hchunks] at hcut
    exact pushAll_of_cut waiting_nil hcut
  · have hwaiting : decoder.Waiting parse := hdecoder ▸ waiting_pushAll waiting_nil chunks
    refine ⟨fun more answers decoder' hrun => ?_, fun chunk => ?_⟩
    · have hwaiting' := waiting_pushAll hwaiting more
      rw [hrun] at hwaiting'
      obtain ⟨sent, hsent, heq⟩ := frames_of_cut (cut_of_pushAll hwaiting hrun)
      exact ⟨frameAt_more hwaiting', sent, hsent, heq⟩
    · obtain ⟨values, rest, hcut, h⟩ := push_cases hwaiting chunk
      refine ⟨⟨fun herror => ?_, ?_⟩, fun e herror => ?_⟩
      · rcases h with ⟨-, heq⟩ | ⟨hrest, -⟩
        · rw [heq] at herror
          cases herror
        · obtain ⟨sent, hsent, heq⟩ := frames_of_cut hcut
          exact ⟨values, sent, rest, hsent, heq, frameAt_bad.1 hrest⟩
      · rintro ⟨values', sent, rest', hsent, heq, hbad⟩
        exact push_bad hwaiting (heq ▸ cut_frames hsent rest') (frameAt_bad.2 hbad)
      · rcases h with ⟨-, heq⟩ | ⟨-, heq⟩
        · rw [heq] at herror
          cases herror
        · exact heq

/-- `JSON.parse` of the two texts in the run here. -/
def accentParse (text : String) : Option JsValue :=
  if text = "\"é\"" then some (.string "é") else if text = "null" then some .null else none

/-- Chunks that end within a length, within a character and nowhere. -/
theorem frames_survive_chunking_accent :
    ∃ answers : List (List JsValue), AuthLeaseFrameDecoder.pushAll accentParse {}
        [[0, 0], [0, 4, 34, 195], [], [169, 34, 0, 0, 0], [4, 110, 117], [108, 108]] =
      (answers.map .ok, {}) ∧ answers.flatten = [.string "é", .null] := by
  refine (frames_survive_chunking Jsonl.zeroFormat accentParse).1 [.string "é", .null]
    [[0, 0, 0, 4, 34, 195, 169, 34], [0, 0, 0, 4, 110, 117, 108, 108]] _ ?_ ?_ rfl
  · intro value hvalue text htext
    rcases List.mem_cons.1 hvalue with rfl | hvalue
    · cases htext
      rfl
    · rcases List.mem_singleton.1 hvalue
      cases htext
      rfl
  · exact .cons rfl (.cons rfl .nil)

end Streams

end AuthLease

end Kinetick
