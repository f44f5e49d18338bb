import Msg801.Bytes

/-! # Frames of the relay protocol

A frame on the wire is a four octet length, a method byte and a body; the length counts
the method byte and the body.
-/
namespace Msg801.Relay
open BigEndian

/-- The bytes that have a name as a method. -/
def namedBytes : List Byte := [0x01, 0x02, 0x03, 0x04, 0x05, 0x06, 0x10, 0x11, 0x12, 0xff]

/-- A method byte: a named one, or any other the cast from a byte lets through. -/
inductive Method where
  | register
  | ready
  | newSession
  | forwardSession
  | sessionOk
  | sessionErr
  | data
  | dataEof
  | sessionClose
  | eof
  | unnamed (b : Byte) (h : b ∉ namedBytes)
  deriving DecidableEq

namespace Method

def toByte : Method → Byte
  | register => 0x01
  | ready => 0x02
  | newSession => 0x03
  | forwardSession => 0x04
  | sessionOk => 0x05
  | sessionErr => 0x06
  | data => 0x10
  | dataEof => 0x11
  | sessionClose => 0x12
  | eof => 0xff
  | unnamed b _ => b

/-- `static_cast<Method>`. -/
def ofByte (b : Byte) : Method :=
  if b = 0x01 then register
  else if b = 0x02 then ready
  else if b = 0x03 then newSession
  else if b = 0x04 then forwardSession
  else if b = 0x05 then sessionOk
  else if b = 0x06 then sessionErr
  else if b = 0x10 then data
  else if b = 0x11 then dataEof
  else if b = 0x12 then sessionClose
  else if b = 0xff then eof
  else if h : b ∈ namedBytes then register
  else unnamed b h

theorem ofByte_toByte (m : Method) : ofByte m.toByte = m := by
  cases m
  case unnamed b h =>
    have hb := h
    simp only [namedBytes, List.mem_cons, not_or] at hb
    simp [ofByte, toByte, hb, h]
  all_goals rfl

end Method

def UUID_BYTES : ℕ := 36

structure Frame where
  method : Method
  body : ByteVector
  deriving DecidableEq

def buildFrameBytes (method : Method) (body : ByteSpan) : ByteVector :=
  octets (UInt32.ofNat (1 + body.length)) ++ [method.toByte] ++ body

/-- A session identifier; the node that makes one gives it `UUID_BYTES` bytes. -/
abbrev Uuid := ByteVector

def buildUuidBody (uuid : Uuid) : ByteVector := uuid
def buildUuidDataBody (uuid : Uuid) (data : ByteSpan) : ByteVector := uuid ++ data

/-- How a call of `read_frame` ends. -/
inductive ReadFrame where
  | frame (f : Frame)
  | nullopt
  | thrown
  deriving DecidableEq

/-- `read_frame` on a socket that will give `input` and then end: the result, and what is
left to read. A missing header or a zero length gives none, a short payload throws. -/
def readFrame (input : ByteSpan) : ReadFrame × ByteSpan :=
  if input.length < 4 then (.nullopt,[])
  else
    let len := (word input).toNat
    let rest := input.drop 4
    if len < 1 then (.nullopt,rest)
    else if rest.length < len then (.thrown,[])
    else (.frame ⟨.ofByte (rest.getD 0 0),(rest.take len).drop 1⟩,rest.drop len)

theorem buildFrameBytes_ne_nil (m : Method) (body : ByteSpan) : buildFrameBytes m body ≠ [] := by
  simp [buildFrameBytes, octets]

/-- Reading gives back the frame that was built, and leaves what follows it. -/
theorem readFrame_buildFrameBytes (m : Method) {body : ByteSpan} (h : body.length < 2 ^ 32 - 1)
    (rest : ByteSpan) : readFrame (buildFrameBytes m body ++ rest) = (.frame ⟨m,body⟩,rest) := by
  have hlen : (UInt32.ofNat (1 + body.length)).toNat = 1 + body.length := by
    rw [UInt32.toNat_ofNat', Nat.mod_eq_of_lt (by omega)]
  have hcat : buildFrameBytes m body ++ rest =
      octets (UInt32.ofNat (1 + body.length)) ++ (m.toByte :: (body ++ rest)) := by
    simp [buildFrameBytes]
  have hword : word (buildFrameBytes m body ++ rest) = UInt32.ofNat (1 + body.length) := by
    rw [hcat, word_append (by rw [octets_length]), word_octets]
  have hdrop : (buildFrameBytes m body ++ rest).drop 4 = m.toByte :: (body ++ rest) := by
    rw [hcat]
    rfl
  have htake : (m.toByte :: (body ++ rest)).take (1 + body.length) = m.toByte :: body := by
    rw [Nat.add_comm, List.take_succ_cons, List.take_left]
  have hrest : (m.toByte :: (body ++ rest)).drop (1 + body.length) = rest := by
    rw [Nat.add_comm, List.drop_succ_cons, List.drop_left]
  rw [readFrame, if_neg (by simp [hcat])]
  simp only [hword, hlen, hdrop]
  rw [if_neg (by omega), if_neg (by simp only [List.length_cons, List.length_append]; omega), htake, hrest]
  simp [Method.ofByte_toByte]

end Msg801.Relay
