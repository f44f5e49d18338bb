import Msg801.Lib.BigEndian

/-! # Byte strings -/
namespace Msg801

abbrev Byte := UInt8
abbrev ByteVector := List Byte
abbrev ByteSpan := List Byte

/-- The bytes of a text literal of the source, all of them ASCII. -/
def text (s : String) : ByteVector := s.toList.map fun c => c.toNat.toUInt8

/-- The first of several occurrences is found. -/
theorem idxOf?_append_cons {c : Byte} {pre : ByteSpan} (h : c ∉ pre) (post : ByteSpan) :
    (pre ++ c :: post).idxOf? c = some pre.length := by
  induction pre with
  | nil => simp [List.idxOf?_cons]
  | cons a pre ih =>
    rw [List.mem_cons, not_or] at h
    simp [List.idxOf?_cons, ih h.2, Ne.symm h.1]

end Msg801
