import Msg801.Lib.BitFields
import Msg801.Relay.Provider
import Msg801.Relay.Visitor

/-! # The identifiers of the sessions

B draws two words for every session and prints them in the form of a version 4 UUID. The
text has the length at which both nodes split the body of a frame.
-/
namespace Msg801.Relay
open BitFields

/-- The text of two words, as the format string has it. -/
def uuidText (hi lo : UInt64) : Uuid :=
  let buf := (text "-").intercalate [field 8 (hi >>> 32).toUInt32.toNat,
    field 4 ((hi >>> 16) &&& 0xFFFF).toUInt32.toNat, field 4 (hi &&& 0xFFFF).toUInt32.toNat,
    field 4 ((lo >>> 48) &&& 0xFFFF).toUInt32.toNat, field 12 (lo &&& 0x0000FFFFFFFFFFFF).toNat]
  buf.take UUID_BYTES

/-- `generate_uuid` on the two words it draws. -/
def generateUuid (hi lo : UInt64) : Uuid :=
  let hi := (hi &&& ~~~0xF000) ||| 0x4000
  let lo := (lo &&& ~~~0xC000000000000000) ||| 0x8000000000000000
  uuidText hi lo

/-- Five fields of lower case digits, with the version and the variant in their places. -/
def UuidForm (u : Uuid) : Prop := ∃ a b c d e : ByteVector, u = (text "-").intercalate [a,b,c,d,e] ∧
  a.length = 8 ∧ b.length = 4 ∧ c.length = 4 ∧ d.length = 4 ∧ e.length = 12 ∧
  (∀ x ∈ a ++ b ++ c ++ d ++ e, IsDigit x) ∧ c.head? = some 52 ∧
  (d.head? = some 56 ∨ d.head? = some 57 ∨ d.head? = some 97 ∨ d.head? = some 98)

theorem mask_toNat (x m : UInt64) (k : ℕ) (hm : m.toNat = 2 ^ k - 1) : (x &&& m).toNat = x.toNat % 2 ^ k := by
  rw [UInt64.toNat_and, hm, Nat.and_two_pow_sub_one_eq_mod]

theorem intercalate_length {a b c d e : ByteVector} (ha : a.length = 8) (hb : b.length = 4) (hc : c.length = 4)
    (hd : d.length = 4) (he : e.length = 12) : ((text "-").intercalate [a,b,c,d,e]).length = UUID_BYTES := by
  have hdash : (text "-").length = 1 := rfl
  simp [List.intercalate, ha, hb, hc, hd, he, hdash]
  rfl

/-- The parts of the two words that the fields hold. -/
theorem uuidText_eq (hi lo : UInt64) : uuidText hi lo = (text "-").intercalate [field 8 (hi.toNat / 2 ^ 32),
    field 4 (hi.toNat / 2 ^ 16 % 2 ^ 16), field 4 (hi.toNat % 2 ^ 16), field 4 (lo.toNat / 2 ^ 48),
    field 12 (lo.toNat % 2 ^ 48)] := by
  have hh := hi.toNat_lt
  have hl := lo.toNat_lt
  have ha : (hi >>> 32).toUInt32.toNat = hi.toNat / 2 ^ 32 := by
    rw [UInt64.toNat_toUInt32, UInt64.toNat_shiftRight, Nat.shiftRight_eq_div_pow,
      show (32 : UInt64).toNat % 64 = 32 from rfl]
    omega
  have hb : ((hi >>> 16) &&& 0xFFFF).toUInt32.toNat = hi.toNat / 2 ^ 16 % 2 ^ 16 := by
    rw [UInt64.toNat_toUInt32, mask_toNat _ _ 16 rfl, UInt64.toNat_shiftRight, Nat.shiftRight_eq_div_pow,
      show (16 : UInt64).toNat % 64 = 16 from rfl]
    omega
  have hc : (hi &&& 0xFFFF).toUInt32.toNat = hi.toNat % 2 ^ 16 := by
    rw [UInt64.toNat_toUInt32, mask_toNat _ _ 16 rfl]
    omega
  have hd : ((lo >>> 48) &&& 0xFFFF).toUInt32.toNat = lo.toNat / 2 ^ 48 := by
    rw [UInt64.toNat_toUInt32, mask_toNat _ _ 16 rfl, UInt64.toNat_shiftRight, Nat.shiftRight_eq_div_pow,
      show (48 : UInt64).toNat % 64 = 48 from rfl]
    omega
  have he : (lo &&& 0x0000FFFFFFFFFFFF).toNat = lo.toNat % 2 ^ 48 := mask_toNat _ _ 48 rfl
  rw [uuidText, ha, hb, hc, hd, he]
  apply List.take_of_length_le
  rw [intercalate_length]
  all_goals apply field_length
  all_goals omega

theorem uuidText_length (hi lo : UInt64) : (uuidText hi lo).length = UUID_BYTES := by
  have hh := hi.toNat_lt
  have hl := lo.toNat_lt
  rw [uuidText_eq, intercalate_length]
  all_goals apply field_length
  all_goals omega

theorem intercalate_inj {a b c d e a' b' c' d' e' : ByteVector} (ha : a.length = a'.length)
    (hb : b.length = b'.length) (hc : c.length = c'.length) (hd : d.length = d'.length)
    (h : (text "-").intercalate [a,b,c,d,e] = (text "-").intercalate [a',b',c',d',e']) :
    a = a' ∧ b = b' ∧ c = c' ∧ d = d' ∧ e = e' := by
  have hdash : text "-" = [45] := rfl
  simp only [List.intercalate, hdash, List.intersperse, List.flatten_cons, List.flatten_nil, List.append_nil,
    List.singleton_append] at h
  obtain ⟨ha,h₁⟩ := List.append_inj h ha
  obtain ⟨hb,h₂⟩ := List.append_inj (List.cons.inj h₁).2 hb
  obtain ⟨hc,h₃⟩ := List.append_inj (List.cons.inj h₂).2 hc
  obtain ⟨hd,h₄⟩ := List.append_inj (List.cons.inj h₃).2 hd
  exact ⟨ha,hb,hc,hd,(List.cons.inj h₄).2⟩

/-- The text tells all bits of both words. -/
theorem uuidText_injective {hi lo hi' lo' : UInt64} (h : uuidText hi lo = uuidText hi' lo') : hi = hi' ∧ lo = lo' := by
  have hh := hi.toNat_lt
  have hl := lo.toNat_lt
  have hh' := hi'.toNat_lt
  have hl' := lo'.toNat_lt
  have hlen {w n m : ℕ} (hn : n < 16 ^ w) (hm : m < 16 ^ w) : (field w n).length = (field w m).length := by
    rw [field_length hn, field_length hm]
  rw [uuidText_eq, uuidText_eq] at h
  obtain ⟨ha,hb,hc,hd,he⟩ := intercalate_inj (hlen (by omega) (by omega)) (hlen (by omega) (by omega))
    (hlen (by omega) (by omega)) (hlen (by omega) (by omega)) h
  have ha := field_injective (by omega) (by omega) ha
  have hb := field_injective (by omega) (by omega) hb
  have hc := field_injective (by omega) (by omega) hc
  have hd := field_injective (by omega) (by omega) hd
  have he := field_injective (by omega) (by omega) he
  constructor
  · apply UInt64.toNat_inj.mp
    omega
  · apply UInt64.toNat_inj.mp
    omega

theorem forced_toNat (a m c : UInt64) : ((a &&& ~~~m) ||| c).toNat &&& m.toNat = c.toNat &&& m.toNat :=
  congrArg BitVec.toNat (force_and m.toBitVec c.toBitVec a.toBitVec)

theorem forced_inj {m c : UInt64} (h : c &&& ~~~m = 0) (a b : UInt64) :
    (a &&& ~~~m) ||| c = (b &&& ~~~m) ||| c ↔ a &&& ~~~m = b &&& ~~~m := by
  have hc : c.toBitVec &&& ~~~m.toBitVec = 0 := congrArg UInt64.toBitVec h
  have hf := force_inj hc a.toBitVec b.toBitVec
  rw [← UInt64.toBitVec_inj, ← UInt64.toBitVec_inj]
  exact hf

/-- Two draws give one identifier only if they agree on the 60 and 62 bits that are kept. -/
theorem generateUuid_inj (hi lo hi' lo' : UInt64) : generateUuid hi lo = generateUuid hi' lo' ↔
    hi &&& ~~~0xF000 = hi' &&& ~~~0xF000 ∧
      lo &&& ~~~0xC000000000000000 = lo' &&& ~~~0xC000000000000000 := by
  rw [← forced_inj (show (0x4000 : UInt64) &&& ~~~0xF000 = 0 by decide),
    ← forced_inj (show (0x8000000000000000 : UInt64) &&& ~~~0xC000000000000000 = 0 by decide)]
  constructor
  · exact uuidText_injective
  · rintro ⟨hh,hl⟩
    rw [generateUuid, hh, hl, generateUuid]

/-- The bits that are forced, as the first digits of their fields. -/
theorem forced_digits (hi lo : UInt64) :
    ((hi &&& ~~~0xF000) ||| 0x4000).toNat % 2 ^ 16 / 16 ^ 3 = 4 ∧
    ((lo &&& ~~~0xC000000000000000) ||| 0x8000000000000000).toNat / 2 ^ 62 = 2 := by
  have hl := ((lo &&& ~~~0xC000000000000000) ||| 0x8000000000000000).toNat_lt
  have hv := bits_of_and (k := 12) (j := 4) (p := 4) (forced_toNat hi 0xF000 0x4000)
  have hw := bits_of_and (k := 62) (j := 2) (p := 2) (forced_toNat lo 0xC000000000000000 0x8000000000000000)
  omega

theorem generateUuid_form (hi lo : UInt64) : UuidForm (generateUuid hi lo) := by
  obtain ⟨hv,hw⟩ := forced_digits hi lo
  rw [generateUuid, uuidText_eq]
  generalize (hi &&& ~~~0xF000) ||| 0x4000 = hi at hv
  generalize (lo &&& ~~~0xC000000000000000) ||| 0x8000000000000000 = lo at hw
  have hh := hi.toNat_lt
  have hl := lo.toNat_lt
  have ha : hi.toNat / 2 ^ 32 < 16 ^ 8 := by omega
  have hb : hi.toNat / 2 ^ 16 % 2 ^ 16 < 16 ^ 4 := by omega
  have hc : hi.toNat % 2 ^ 16 < 16 ^ 4 := by omega
  have hd : lo.toNat / 2 ^ 48 < 16 ^ 4 := by omega
  have he : lo.toNat % 2 ^ 48 < 16 ^ 12 := by omega
  refine ⟨_,_,_,_,_,rfl,field_length ha,field_length hb,field_length hc,field_length hd,field_length he,?_,?_,?_⟩
  · intro x hx
    simp only [List.mem_append] at hx
    rcases hx with (((hx | hx) | hx) | hx) | hx
    exacts [isDigit_of_mem ha hx,isDigit_of_mem hb hx,isDigit_of_mem hc hx,isDigit_of_mem hd hx,isDigit_of_mem he hx]
  · rw [field_head hc, hv]
    rfl
  · rw [field_head hd]
    obtain h | h | h | h : lo.toNat / 2 ^ 48 / 16 ^ 3 = 8 ∨ lo.toNat / 2 ^ 48 / 16 ^ 3 = 9 ∨
        lo.toNat / 2 ^ 48 / 16 ^ 3 = 10 ∨ lo.toNat / 2 ^ 48 / 16 ^ 3 = 11 := by omega
    all_goals
      rw [h]
      decide

/-- The identifiers are UUIDs of version 4, as long as both nodes take them to be, and tell
all the bits that were drawn. What is sent under one splits into it and the payload. -/
theorem uuid_separable (hi lo hi' lo' : UInt64) (data : ByteSpan) (x : ClientSession) (y : SessionState) :
    UuidForm (generateUuid hi lo) ∧ (generateUuid hi lo).length = UUID_BYTES ∧
    (generateUuid hi lo = generateUuid hi' lo' ↔ hi &&& ~~~0xF000 = hi' &&& ~~~0xF000 ∧
      lo &&& ~~~0xC000000000000000 = lo' &&& ~~~0xC000000000000000) ∧
    (buildUuidDataBody (generateUuid hi lo) data).take UUID_BYTES = generateUuid hi lo ∧
    (buildUuidDataBody (generateUuid hi lo) data).drop UUID_BYTES = data ∧
    visitorKey (dataFrame (generateUuid hi lo) data) = some (generateUuid hi lo) ∧
    providerKey (dataFrame (generateUuid hi lo) data) = some (generateUuid hi lo) ∧
    x.onFrame (dataFrame (generateUuid hi lo) data) =
      { session := x
        write := if data.length > 0 then some data else none } ∧
    y.onFrame (dataFrame (generateUuid hi lo) data) =
      if y.closed then { session := y }
      else if y.remoteConnected then
        { session := y
          write := some data }
      else if y.connecting then { session := y.buffer data }
      else { session := y } := by
  have hlen : (generateUuid hi lo).length = UUID_BYTES := uuidText_length _ _
  have htake : (dataFrame (generateUuid hi lo) data).body.take UUID_BYTES = generateUuid hi lo :=
    List.take_left' hlen
  have hdrop : (dataFrame (generateUuid hi lo) data).body.drop UUID_BYTES = data := List.drop_left' hlen
  have hshort : ¬(dataFrame (generateUuid hi lo) data).body.length < UUID_BYTES := by
    simp [dataFrame, buildUuidDataBody, hlen]
  have hmethod : (dataFrame (generateUuid hi lo) data).method = .data := rfl
  refine ⟨generateUuid_form hi lo,hlen,generateUuid_inj hi lo hi' lo',htake,hdrop,?_,?_,?_,?_⟩
  · rw [visitorKey, if_neg hshort, htake]
  · simp only [providerKey, hmethod, if_neg hshort, htake]
  · simp only [ClientSession.onFrame, hmethod, hdrop]
  · simp only [SessionState.onFrame, hmethod, hdrop]

end Msg801.Relay
