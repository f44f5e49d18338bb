import Msg801.Tunnel.Processor
import Msg801.Lib.Framing

/-! # The padding processor

Input is cut into chunks; every chunk becomes a frame with two lengths, the chunk and
random padding. The decoder accumulates bytes and takes whole frames off the front.
-/
namespace Msg801.Tunnel
open Stage BigEndian

/-- The random engine and the uniform distributions from zero upwards that draw from it. -/
structure RandomEngine where
  State : Type
  seed : UInt64 → State
  uniform : UInt32 → State → UInt32 × State
  uniform_le : ∀ hi s, (uniform hi s).1 ≤ hi

structure PaddingProcessor (R : RandomEngine) where
  reverse : Bool
  chunkSize : ℕ
  padMax : ℕ
  packRng : R.State
  unpackBuffer : ByteVector := []

namespace PaddingProcessor
variable {R : RandomEngine}

/-- The two roles draw from different sequences of one seed. -/
def new (chunkSize padMax : ℕ) (seed : UInt64) (reverse : Bool) : PaddingProcessor R where
  reverse := reverse
  chunkSize := chunkSize
  padMax := padMax
  packRng := R.seed (if reverse then seed ^^^ 0x9e3779b97f4a7c15 else seed)

def writeU32 (out : ByteVector) (v : UInt32) : ByteVector := out ++ octets v
def readU32 (p : ByteSpan) : UInt32 := word p

def padBytes : ℕ → R.State → ByteVector × R.State
  | 0, rng => ([],rng)
  | n + 1, rng =>
    let d := R.uniform 255 rng
    let r := padBytes n d.2
    (d.1.toUInt8 :: r.1,r.2)

/-- One frame of `payload`, with as much padding as the engine says. -/
def packFrame (padMax : ℕ) (payload : ByteSpan) (rng : R.State) : DataBuffer × R.State :=
  let d := R.uniform (UInt32.ofNat padMax) rng
  let pad := padBytes d.1.toNat d.2
  (writeU32 (writeU32 [] (UInt32.ofNat payload.length)) d.1 ++ payload ++ pad.1,pad.2)

/-- The loop over `pos`, which the number of rounds allowed bounds from outside. -/
def packLoop (chunkSize padMax : ℕ) (input : ByteSpan) :
    ℕ → ℕ → R.State → DataBufferList × R.State × Option Abort
  | 0, _, rng => ([],rng,some .endless)
  | rounds + 1, pos, rng =>
    if pos < input.length then
      let payloadLen := min chunkSize (input.length - pos)
      let f := packFrame padMax ((input.drop pos).take payloadLen) rng
      let r := packLoop chunkSize padMax input rounds (pos + payloadLen) f.2
      (f.1 :: r.1,r.2)
    else ([],rng,none)

def applyPack (p : PaddingProcessor R) (input : ByteSpan) : Outcome (PaddingProcessor R) :=
  let r := packLoop p.chunkSize p.padMax input (input.length + 1) 0 p.packRng
  ⟨{ p with packRng := r.2.1 },r.1,r.2.2⟩

/-- The loop over `pos`: the frames taken, the position reached, the exception thrown. -/
def unpackLoop (chunkSize padMax : ℕ) (acc : ByteVector) (pos : ℕ) (hpos : pos ≤ acc.length) :
    DataBufferList × ℕ × Option Abort :=
  if acc.length - pos < 8 then ([],pos,none)
  else
    let payloadLen := (readU32 (acc.drop pos)).toNat
    let padLen := (readU32 (acc.drop (pos + 4))).toNat
    if payloadLen > chunkSize ∨ padLen > padMax then
      ([],pos,some (.runtimeError "invalid padding frame header"))
    else
      let frameLen := 8 + payloadLen + padLen
      if frameLen > 2 ^ 64 - 1 then
        ([],pos,some (.runtimeError "invalid padding frame length overflow"))
      else if hlen : acc.length - pos < frameLen then ([],pos,none)
      else
        let out := (acc.drop (pos + 8)).take payloadLen
        let r := unpackLoop chunkSize padMax acc (pos + frameLen) (by omega)
        (out :: r.1,r.2)
termination_by acc.length - pos
decreasing_by omega

def applyUnpack (p : PaddingProcessor R) (input : ByteSpan) : Outcome (PaddingProcessor R) :=
  let acc := p.unpackBuffer ++ input
  let r := unpackLoop p.chunkSize p.padMax acc 0 (Nat.zero_le _)
  -- an exception leaves before the consumed frames are erased
  ⟨{ p with unpackBuffer := if r.2.2.isNone ∧ r.2.1 > 0 then acc.drop r.2.1 else acc },r.1,r.2.2⟩

def pack (p : PaddingProcessor R) (input : ByteSpan) : Outcome (PaddingProcessor R) :=
  p.applyPack input

def unpack (p : PaddingProcessor R) (input : ByteSpan) : Outcome (PaddingProcessor R) :=
  p.applyUnpack input

instance : TwoWayProcessor (PaddingProcessor R) where
  reverse := PaddingProcessor.reverse
  pack := pack
  unpack := unpack
  packHalf p := { p with unpackBuffer := [] }
  unpackHalf p := { p with packRng := R.seed 0 }
  pack_within _ _ := rfl
  pack_unseen _ _ := rfl
  unpack_within _ _ := rfl
  unpack_unseen _ _ := rfl
  reverse_packHalf _ := rfl
  reverse_unpackHalf _ := rfl
  reverse_pack _ _ := rfl
  reverse_unpack _ _ := rfl

/-- A frame within the bounds of a configuration. -/
structure PadFrame (chunkSize padMax : ℕ) where
  payload : ByteVector
  padding : ByteVector
  payload_le : payload.length ≤ chunkSize
  padding_le : padding.length ≤ padMax

def PadFrame.bytes {chunkSize padMax : ℕ} (f : PadFrame chunkSize padMax) : ByteVector :=
  octets (UInt32.ofNat f.payload.length) ++ octets (UInt32.ofNat f.padding.length) ++ f.payload ++
    f.padding

/-- What the decoder reads at the front of its buffer. -/
def padHead (chunkSize padMax : ℕ) (acc : ByteVector) : Framing.Head ByteVector :=
  if acc.length < 8 then .short
  else if (readU32 acc).toNat > chunkSize ∨ (readU32 (acc.drop 4)).toNat > padMax then .malformed
  else if acc.length < 8 + (readU32 acc).toNat + (readU32 (acc.drop 4)).toNat then .short
  else .frame ((acc.drop 8).take (readU32 acc).toNat)
    (8 + (readU32 acc).toNat + (readU32 (acc.drop 4)).toNat)

theorem readU32_append {acc : ByteVector} (h : ¬acc.length < 8) (m : ByteVector) :
    readU32 (acc ++ m) = readU32 acc ∧ readU32 ((acc ++ m).drop 4) = readU32 (acc.drop 4) := by
  refine ⟨word_append (by omega) m,?_⟩
  rw [List.drop_append_of_le_length (by omega)]
  exact word_append (by simp only [List.length_drop]; omega) m

/-- The frame grammar of a configuration. -/
def padGrammar (chunkSize padMax : ℕ) : Framing.Grammar Byte ByteVector where
  head := padHead chunkSize padMax
  frame_size {l v n} h := by
    unfold padHead at h
    split_ifs at h
    cases h
    omega
  frame_append {l v n} h m := by
    unfold padHead at h ⊢
    split_ifs at h with h₁ h₂ h₃
    cases h
    obtain ⟨ha,hb⟩ := readU32_append h₁ m
    have h₄ : ¬(l ++ m).length < 8 := by simp only [List.length_append]; omega
    have h₅ : ¬(l ++ m).length < 8 + (readU32 l).toNat + (readU32 (l.drop 4)).toNat := by
      simp only [List.length_append]; omega
    rw [ha, hb, if_neg h₄, if_neg h₂, if_neg h₅, List.drop_append_of_le_length (by omega),
      List.take_append_of_le_length (by simp only [List.length_drop]; omega)]
  malformed_append {l} h m := by
    unfold padHead at h ⊢
    split_ifs at h with h₁ h₂ h₃
    obtain ⟨ha,hb⟩ := readU32_append h₁ m
    have h₄ : ¬(l ++ m).length < 8 := by simp only [List.length_append]; omega
    rw [ha, hb, if_neg h₄, if_pos h₂]

/-- The loop drains what lies behind its position. -/
theorem unpackLoop_eq_drain (chunkSize padMax : ℕ) (acc : ByteVector) (pos : ℕ)
    (hpos : pos ≤ acc.length) : ∃ stop,
      unpackLoop chunkSize padMax acc pos hpos =
        (((padGrammar chunkSize padMax).drain (acc.drop pos)).values,stop,
          if ((padGrammar chunkSize padMax).drain (acc.drop pos)).broken then
            some (.runtimeError "invalid padding frame header") else none) ∧
      acc.drop stop = ((padGrammar chunkSize padMax).drain (acc.drop pos)).rest := by
  have hlen : (acc.drop pos).length = acc.length - pos := List.length_drop
  have hdrop (k : ℕ) : (acc.drop pos).drop k = acc.drop (pos + k) := List.drop_drop
  have ha := (readU32 (acc.drop pos)).toNat_lt
  have hb := (readU32 (acc.drop (pos + 4))).toNat_lt
  rw [unpackLoop]
  by_cases h₁ : acc.length - pos < 8
  · have hh : (padGrammar chunkSize padMax).head (acc.drop pos) = .short := by
      simp only [padGrammar, padHead, hlen, if_pos h₁]
    exact ⟨pos,by simp [h₁, Framing.Grammar.drain_short hh],by rw [Framing.Grammar.drain_short hh]⟩
  by_cases h₂ : (readU32 (acc.drop pos)).toNat > chunkSize ∨
      (readU32 (acc.drop (pos + 4))).toNat > padMax
  · have hh : (padGrammar chunkSize padMax).head (acc.drop pos) = .malformed := by
      simp only [padGrammar, padHead, hlen, hdrop, if_neg h₁, if_pos h₂]
    exact ⟨pos,by simp [h₁, h₂, Framing.Grammar.drain_malformed hh],
      by rw [Framing.Grammar.drain_malformed hh]⟩
  have h₃ : ¬8 + (readU32 (acc.drop pos)).toNat + (readU32 (acc.drop (pos + 4))).toNat >
      2 ^ 64 - 1 := by omega
  by_cases h₄ : acc.length - pos <
      8 + (readU32 (acc.drop pos)).toNat + (readU32 (acc.drop (pos + 4))).toNat
  · have hh : (padGrammar chunkSize padMax).head (acc.drop pos) = .short := by
      simp only [padGrammar, padHead, hlen, hdrop, if_neg h₁, if_neg h₂, if_pos h₄]
    refine ⟨pos,?_,by rw [Framing.Grammar.drain_short hh]⟩
    simp only [if_neg h₁, if_neg h₂, if_neg h₃, dif_pos h₄, Framing.Grammar.drain_short hh]
    rfl
  · have hh : (padGrammar chunkSize padMax).head (acc.drop pos) =
        .frame ((acc.drop (pos + 8)).take (readU32 (acc.drop pos)).toNat)
          (8 + (readU32 (acc.drop pos)).toNat + (readU32 (acc.drop (pos + 4))).toNat) := by
      simp only [padGrammar, padHead, hlen, hdrop, if_neg h₁, if_neg h₂, if_neg h₄]
    obtain ⟨stop,hs,hr⟩ := unpackLoop_eq_drain chunkSize padMax acc (pos +
      (8 + (readU32 (acc.drop pos)).toNat + (readU32 (acc.drop (pos + 4))).toNat)) (by omega)
    refine ⟨stop,?_,?_⟩
    · simp only [if_neg h₁, if_neg h₂, if_neg h₃, dif_neg h₄, hs,
        Framing.Grammar.drain_frame hh, hdrop]
    · rw [Framing.Grammar.drain_frame hh, hdrop, hr]
termination_by acc.length - pos
decreasing_by omega

theorem unpack_eq_drain {q : PaddingProcessor R} {x : ByteSpan}
    (h : ((padGrammar q.chunkSize q.padMax).drain (q.unpackBuffer ++ x)).broken = false) :
    unpack q x = ⟨{ q with
        unpackBuffer := ((padGrammar q.chunkSize q.padMax).drain (q.unpackBuffer ++ x)).rest },
      ((padGrammar q.chunkSize q.padMax).drain (q.unpackBuffer ++ x)).values,none⟩ := by
  obtain ⟨stop,hs,hr⟩ := unpackLoop_eq_drain q.chunkSize q.padMax (q.unpackBuffer ++ x) 0
    (Nat.zero_le _)
  rw [List.drop_zero] at hs hr
  simp only [h, Bool.false_eq_true, if_false] at hs
  simp only [unpack, applyUnpack, hs, Option.isNone_none, true_and]
  rw [← hr]
  by_cases h0 : stop > 0
  · rw [if_pos h0]
  · rw [if_neg h0, Nat.eq_zero_of_not_pos h0, List.drop_zero]

theorem unpack_feed {q : PaddingProcessor R} (hq : q.unpackBuffer = []) (ys : List ByteSpan)
    (h : ((padGrammar q.chunkSize q.padMax).drain ys.flatten).broken = false) :
    feed unpack q ys = ⟨{ q with
        unpackBuffer := ((padGrammar q.chunkSize q.padMax).drain ys.flatten).rest },
      ((padGrammar q.chunkSize q.padMax).drain ys.flatten).values,none⟩ := by
  induction ys using List.reverseRecOn with
  | nil =>
    have hh : (padGrammar q.chunkSize q.padMax).head [] = .short := rfl
    rw [List.flatten_nil, Framing.Grammar.drain_short hh, ← hq]
    rfl
  | append_singleton ys y ih =>
    rw [List.flatten_append, List.flatten_singleton] at h ⊢
    have hy := (Framing.Grammar.drain_prefix (List.prefix_append ys.flatten y) h).1
    have hf := ih hy
    rw [Framing.Grammar.drain_append hy] at h ⊢
    rw [feed_append _ (by rw [hf]), hf, feed_singleton, unpack_eq_drain h]

theorem padBytes_length (n : ℕ) (rng : R.State) : (padBytes n rng).1.length = n := by
  induction n generalizing rng with
  | zero => rfl
  | succ n ih => simp [padBytes, ih]

/-- The distributions stay within what the header can say. -/
theorem packFrame_eq {chunkSize padMax : ℕ} (hm : padMax < 2 ^ 32) {payload : ByteSpan}
    (hp : payload.length ≤ chunkSize) (rng : R.State) :
    ∃ f : PadFrame chunkSize padMax, f.payload = payload ∧ (packFrame padMax payload rng).1 = f.bytes := by
  have hle := UInt32.le_iff_toNat_le.mp (R.uniform_le (UInt32.ofNat padMax) rng)
  rw [UInt32.toNat_ofNat_of_lt' hm] at hle
  refine ⟨⟨payload,(padBytes (R.uniform (UInt32.ofNat padMax) rng).1.toNat
    (R.uniform (UInt32.ofNat padMax) rng).2).1,hp,by rwa [padBytes_length]⟩,rfl,?_⟩
  simp [packFrame, PadFrame.bytes, writeU32, padBytes_length]

theorem packLoop_frames {chunkSize padMax : ℕ} (hc : 1 ≤ chunkSize) (hm : padMax < 2 ^ 32)
    (input : ByteSpan) (rounds pos : ℕ) (rng : R.State) (hr : input.length - pos < rounds) :
    (packLoop chunkSize padMax input rounds pos rng).2.2 = none ∧
    ∃ fs : List (PadFrame chunkSize padMax),
      (packLoop chunkSize padMax input rounds pos rng).1 = fs.map PadFrame.bytes ∧
      (∀ f ∈ fs, f.payload ≠ []) ∧ (fs.map PadFrame.payload).flatten = input.drop pos := by
  induction rounds generalizing pos rng with
  | zero => omega
  | succ rounds ih =>
    simp only [packLoop]
    by_cases h : pos < input.length
    · rw [if_pos h]
      have hlen : ((input.drop pos).take (min chunkSize (input.length - pos))).length =
          min chunkSize (input.length - pos) := by
        simp only [List.length_take, List.length_drop]
        omega
      obtain ⟨f,hf,hb⟩ := packFrame_eq hm (hlen.trans_le (Nat.min_le_left ..)) rng
      obtain ⟨he,fs,hfs,hne,hd⟩ := ih (pos + min chunkSize (input.length - pos))
        (packFrame padMax ((input.drop pos).take (min chunkSize (input.length - pos))) rng).2
        (by omega)
      refine ⟨he,f :: fs,by simp [hfs, hb],List.forall_mem_cons.mpr ⟨?_,hne⟩,?_⟩
      · rw [← List.length_pos_iff, hf, hlen]
        omega
      · rw [List.map_cons, List.flatten_cons, hd, hf, ← List.drop_drop, List.take_append_drop]
    · rw [if_neg h]
      exact ⟨rfl,[],rfl,nofun,(List.drop_of_length_le (by omega)).symm⟩

/-- However the input is cut, the encoder has emitted frames that carry it. -/
theorem pack_feed {p : PaddingProcessor R} (hc : 1 ≤ p.chunkSize) (hm : p.padMax < 2 ^ 32)
    (xs : List ByteSpan) : (feed pack p xs).error = none ∧
    ∃ fs : List (PadFrame p.chunkSize p.padMax),
      (feed pack p xs).output = fs.map PadFrame.bytes ∧
      (fs.map PadFrame.payload).flatten = xs.flatten := by
  induction xs generalizing p with
  | nil => exact ⟨rfl,[],rfl,rfl⟩
  | cons x xs ih =>
    obtain ⟨he,fs,hfs,-,hd⟩ := packLoop_frames hc hm x (x.length + 1) 0 p.packRng (by omega)
    have hx : (pack p x).error = none := he
    obtain ⟨hes,gs,hgs,hgd⟩ : (feed pack (pack p x).state xs).error = none ∧
        ∃ gs : List (PadFrame p.chunkSize p.padMax),
          (feed pack (pack p x).state xs).output = gs.map PadFrame.bytes ∧
          (gs.map PadFrame.payload).flatten = xs.flatten := ih hc hm
    rw [feed_cons hx]
    refine ⟨hes,fs ++ gs,?_,?_⟩
    · rw [List.map_append, ← hfs]
      exact congrArg _ hgs
    · rw [List.map_append, List.flatten_append, hd, List.drop_zero]
      exact congrArg _ hgd

theorem head_bytes {chunkSize padMax : ℕ} (hc : chunkSize < 2 ^ 32) (hm : padMax < 2 ^ 32)
    (f : PadFrame chunkSize padMax) :
    (padGrammar chunkSize padMax).head f.bytes = .frame f.payload f.bytes.length := by
  have hp := UInt32.toNat_ofNat_of_lt' (f.payload_le.trans_lt hc)
  have hd := UInt32.toNat_ofNat_of_lt' (f.padding_le.trans_lt hm)
  have ha : (readU32 f.bytes).toNat = f.payload.length := by
    rw [← hp]
    simp only [PadFrame.bytes, List.append_assoc, readU32]
    rw [word_append (by simp), word_octets]
  have hb : (readU32 (f.bytes.drop 4)).toNat = f.padding.length := by
    rw [← hd]
    simp only [PadFrame.bytes, List.append_assoc, readU32]
    rw [List.drop_left' (by simp), word_append (by simp), word_octets]
  have hlen : f.bytes.length = 8 + f.payload.length + f.padding.length := by
    simp [PadFrame.bytes]
    omega
  have hpay : (f.bytes.drop 8).take f.payload.length = f.payload := by
    simp only [PadFrame.bytes, List.append_assoc]
    rw [← List.append_assoc (octets _), List.drop_left' (by simp), List.take_left' rfl]
  have := f.payload_le
  have := f.padding_le
  simp only [padGrammar, padHead, ha, hb, hlen, hpay]
  rw [if_neg (by omega), if_neg (by omega), if_neg (by omega)]

theorem decodes {R' : RandomEngine} {p : PaddingProcessor R} {q : PaddingProcessor R'}
    (hc : 1 ≤ p.chunkSize) (hc' : p.chunkSize < 2 ^ 32) (hm : p.padMax < 2 ^ 32)
    (hqc : q.chunkSize = p.chunkSize) (hqm : q.padMax = p.padMax) (hq : q.unpackBuffer = []) :
    Decodes pack p unpack q := by
  have key : ∀ xs, ((padGrammar p.chunkSize p.padMax).drain (feed pack p xs).bytes).broken = false ∧
      ((padGrammar p.chunkSize p.padMax).drain (feed pack p xs).bytes).values.flatten = xs.flatten := by
    intro xs
    obtain ⟨-,fs,hfs,hd⟩ := pack_feed hc hm xs
    have hdrain := Framing.Grammar.drain_flatMap PadFrame.bytes PadFrame.payload fs
      (fun f _ => head_bytes hc' hm f) []
    have hnil : (padGrammar p.chunkSize p.padMax).head [] = .short := rfl
    rw [List.append_nil, Framing.Grammar.drain_short hnil, List.append_nil] at hdrain
    have hbytes : (feed pack p xs).bytes = fs.flatMap PadFrame.bytes := by
      rw [Outcome.bytes, hfs, List.flatMap_def]
    rw [hbytes, hdrain]
    exact ⟨rfl,hd⟩
  have hfeed : ∀ xs ys, ys.flatten <+: (feed pack p xs).bytes → (feed unpack q ys).error = none ∧
      (feed unpack q ys).output = ((padGrammar p.chunkSize p.padMax).drain ys.flatten).values := by
    intro xs ys hy
    have hclean := (Framing.Grammar.drain_prefix hy (key xs).1).1
    rw [← hqc, ← hqm] at hclean ⊢
    rw [unpack_feed hq ys hclean]
    exact ⟨rfl,rfl⟩
  constructor
  case encodes => exact fun xs => (pack_feed hc hm xs).1
  case accepts => exact fun xs ys hy => (hfeed xs ys hy).1
  case beginning =>
    intro xs ys hy
    have hv := (Framing.Grammar.drain_prefix hy (key xs).1).2
    rw [Outcome.bytes, (hfeed xs ys hy).2, ← (key xs).2]
    exact hv.flatten
  case whole =>
    intro xs ys hy
    rw [Outcome.bytes, (hfeed xs ys (hy ▸ List.prefix_rfl)).2, hy, (key xs).2]

end PaddingProcessor

end Msg801.Tunnel
