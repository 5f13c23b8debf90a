import Kinetick.File.Jsonl
import Kinetick.Framing

/-!
# Frames of the auth lease protocol

A value travels as a frame: how many bytes its JSON text has, in four bytes with the highest first,
and then the text. The decoder keeps the bytes it was sent until they make up a frame, and throws
away all of them at a length that no frame has or at a text that is no JSON.
-/

namespace Kinetick

namespace AuthLease

def maxFrameBytes : ℕ := 64 * 1024

def framePrefixBytes : ℕ := 4

inductive AuthLeaseErrorCode
  | authRequired
  | brokerUnavailable
  | capabilityRejected
  | protocolMismatch
  | invalidRequest
  | internalError
  deriving DecidableEq

/-- `prefix.writeUInt32BE(n, 0)` -/
def writeUInt32BE (n : ℕ) : List UInt8 :=
  [UInt8.ofNat (n / 16777216), UInt8.ofNat (n / 65536), UInt8.ofNat (n / 256), UInt8.ofNat n]

/-- `buffer.readUInt32BE(0)` -/
def readUInt32BE (buffer : List UInt8) : ℕ :=
  (buffer.take 4).foldl (fun n b => 256 * n + b.toNat) 0

def encodeAuthLeaseFrame (format : Jsonl.NumberFormat) (value : JsValue) :
    Except AuthLeaseErrorCode (List UInt8) :=
  match Jsonl.stringify format value with
  -- `Buffer.from(undefined)` throws
  | none => .error .invalidRequest
  | some text =>
    let payload := Utf8.encode (String.ofList text)
    if payload.length = 0 ∨ maxFrameBytes < payload.length then .error .invalidRequest
    else .ok (writeUInt32BE payload.length ++ payload)

/-- `buffer.subarray(start, end)` -/
def subarray (buffer : List UInt8) (start stop : ℕ) : List UInt8 :=
  (buffer.take stop).drop start

structure AuthLeaseFrameDecoder where
  buffer : List UInt8 := []
  deriving DecidableEq

namespace AuthLeaseFrameDecoder

def bufferedBytes (decoder : AuthLeaseFrameDecoder) : ℕ := decoder.buffer.length

/-- The answer of a push, or what it throws, and the decoder it leaves. -/
abbrev Pushed := Except AuthLeaseErrorCode (List JsValue) × AuthLeaseFrameDecoder

/-- Everything is thrown away. -/
def invalidRequest : Pushed := (.error .invalidRequest, { buffer := [] })

-- `JSON.parse`, or none where it throws
variable (parse : String → Option JsValue)

/-- The loop of `push`, with the frames that it has read. -/
def readFrames (frames : List JsValue) (buffer : List UInt8) : Pushed :=
  if framePrefixBytes ≤ buffer.length then
    let payloadLength := readUInt32BE buffer
    if payloadLength = 0 ∨ maxFrameBytes < payloadLength then invalidRequest
    else
      let frameLength := framePrefixBytes + payloadLength
      if buffer.length < frameLength then
        if maxFrameBytes + framePrefixBytes < buffer.length then invalidRequest
        else (.ok frames, { buffer })
      else
        match parse (Utf8.decode (subarray buffer framePrefixBytes frameLength)) with
        | none => invalidRequest
        | some value => readFrames (frames ++ [value]) (buffer.drop frameLength)
  else (.ok frames, { buffer })
termination_by buffer.length
decreasing_by
  rw [List.length_drop]
  have : framePrefixBytes = 4 := rfl
  omega

def push (decoder : AuthLeaseFrameDecoder) (chunk : List UInt8) : Pushed :=
  if chunk.length = 0 then (.ok [], decoder)
  else readFrames parse [] (decoder.buffer ++ chunk)

/-- The decoder is sent the chunks one after the other. -/
def pushAll (decoder : AuthLeaseFrameDecoder) :
    List (List UInt8) → List (Except AuthLeaseErrorCode (List JsValue)) × AuthLeaseFrameDecoder
  | [] => ([], decoder)
  | chunk :: chunks =>
    let (answer, decoder) := decoder.push parse chunk
    let (answers, decoder) := decoder.pushAll chunks
    (answer :: answers, decoder)

end AuthLeaseFrameDecoder

/-! ## Streams of frames -/

variable (parse : String → Option JsValue)

/-- The bytes are a frame whose text is the JSON of the value. -/
def IsFrameOf (value : JsValue) (frame : List UInt8) : Prop :=
  ∃ payload : List UInt8, 0 < payload.length ∧ payload.length ≤ maxFrameBytes ∧
    frame = writeUInt32BE payload.length ++ payload ∧ parse (Utf8.decode payload) = some value

/-- The bytes begin with a length that no frame has, or with a frame whose text is no JSON. -/
def BeginsBadly (buffer : List UInt8) : Prop :=
  framePrefixBytes ≤ buffer.length ∧
    (readUInt32BE buffer = 0 ∨ maxFrameBytes < readUInt32BE buffer ∨
      framePrefixBytes + readUInt32BE buffer ≤ buffer.length ∧
        parse (Utf8.decode (subarray buffer framePrefixBytes
          (framePrefixBytes + readUInt32BE buffer))) = none)

/-- JSON reads back the texts that it writes of the value. -/
def ReadsBack (format : Jsonl.NumberFormat) (value : JsValue) : Prop :=
  ∀ text, Jsonl.stringify format value = some text →
    parse (String.ofList text) = some value.json

end AuthLease

end Kinetick
