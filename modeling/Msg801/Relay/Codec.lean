import Msg801.Lib.Framing
import Msg801.Relay.Matcher

/-! # The frame codec over whole streams

Two functions encode a frame, and two decode one: `read_frame`, and the loop `run_node` has
for the answer to its registration. The frames that `read_frame` can return are the words of
one grammar.
-/
namespace Msg801.Relay
open BigEndian Framing

/-- The three buffers of `write_frame`: length, method byte and body. -/
def writeFrame (method : Method) (data : ByteSpan) : ByteVector :=
  let total := UInt32.ofNat (1 + data.length)
  let hdr := octets total
  let methodByte := [method.toByte]
  [hdr, methodByte, data].flatten

def Frame.bytes (f : Frame) : ByteVector := buildFrameBytes f.method f.body

/-- The body leaves room for the method byte in the length. -/
def Frame.Fits (f : Frame) : Prop := f.body.length ≤ 2 ^ 32 - 2

/-- How the wait for `READY` ends: an exception where the stream is cut off. -/
inductive Readiness where
  | ready
  | rejected
  | thrown
  deriving DecidableEq

/-- The reader of `run_node`, on a socket that will give `input` and then end. -/
def awaitReady (input : ByteSpan) : Readiness × ByteSpan :=
  if input.length < 4 then (.thrown,[])
  else
    let len := (word input).toNat
    let rest := input.drop 4
    if rest.length < len then (.thrown,[])
    else
      let payload := rest.take len
      if payload = [] ∨ payload.getD 0 0 ≠ Method.ready.toByte then (.rejected,rest.drop len)
      else (.ready,rest.drop len)

/-- What lies at the front of a stream. -/
def frameHead (input : ByteSpan) : Head Frame :=
  if input.length < 4 then .short
  else if (word input).toNat < 1 then .malformed
  else if input.length < 4 + (word input).toNat then .short
  else .frame ⟨.ofByte (input.getD 4 0),(input.drop 5).take ((word input).toNat - 1)⟩ (4 + (word input).toNat)

/-- The stream ends here, or the sequence of frames does: a zero length word, or a frame
that is cut off. -/
def Stops (input : ByteSpan) : Prop :=
  input.length < 4 ∨ word input = 0 ∨ input.length < 4 + (word input).toNat

/-- `read_frame` takes what lies at the front. -/
theorem readFrame_eq (input : ByteSpan) : readFrame input = match frameHead input with
    | .frame f n => (.frame f,input.drop n)
    | .malformed => (.nullopt,input.drop 4)
    | .short => (if input.length < 4 then .nullopt else .thrown,[]) := by
  unfold readFrame frameHead
  by_cases h₁ : input.length < 4
  · simp [h₁]
  by_cases h₂ : (word input).toNat < 1
  · simp [h₁, h₂]
  by_cases h₃ : input.length < 4 + (word input).toNat
  · have h₃' : (input.drop 4).length < (word input).toNat := by
      simp only [List.length_drop]
      omega
    simp only [if_neg h₁, if_neg h₂, if_pos h₃, if_pos h₃']
  · have h₃' : ¬(input.drop 4).length < (word input).toNat := by
      simp only [List.length_drop]
      omega
    simp only [if_neg h₁, if_neg h₂, if_neg h₃, if_neg h₃', List.drop_drop]
    congr 3
    · simp [List.getD_eq_getElem?_getD]
    · rw [List.drop_take, List.drop_drop]

theorem stops_iff (l : ByteSpan) : Stops l ↔ ∀ f n, frameHead l ≠ .frame f n := by
  have hzero : (word l).toNat < 1 ↔ word l = 0 := by
    rw [Nat.lt_one_iff, ← UInt32.toNat_inj]
    rfl
  unfold Stops frameHead
  split_ifs with h₁ h₂ h₃
  · exact iff_of_true (.inl h₁) (by simp)
  · exact iff_of_true (.inr (.inl (hzero.mp h₂))) (by simp)
  · exact iff_of_true (.inr (.inr h₃)) (by simp)
  · refine iff_of_false ?_ (fun h => h _ _ rfl)
    rintro (h | h | h)
    exacts [h₁ h,h₂ (hzero.mpr h),h₃ h]

theorem frameHead_append {l : ByteSpan} (h : frameHead l ≠ .short) (m : ByteSpan) :
    frameHead (l ++ m) = frameHead l := by
  unfold frameHead at h ⊢
  by_cases h₁ : l.length < 4
  · simp [h₁] at h
  have h₁' : ¬(l ++ m).length < 4 := by
    simp only [List.length_append]
    omega
  rw [if_neg h₁] at h ⊢
  rw [if_neg h₁', word_append (by omega)]
  by_cases h₂ : (word l).toNat < 1
  · rw [if_pos h₂, if_pos h₂]
  rw [if_neg h₂] at h ⊢
  by_cases h₃ : l.length < 4 + (word l).toNat
  · simp [h₃] at h
  have h₃' : ¬(l ++ m).length < 4 + (word l).toNat := by
    simp only [List.length_append]
    omega
  rw [if_neg h₂, if_neg h₃, if_neg h₃', List.getD_append _ _ _ _ (by omega),
    List.drop_append_of_le_length (by omega),
    List.take_append_of_le_length (by simp only [List.length_drop]; omega)]

/-- The grammar of the frames that `read_frame` takes. -/
def frameGrammar : Grammar Byte Frame where
  head := frameHead
  frame_size {l v n} h := by
    unfold frameHead at h
    split_ifs at h
    cases h
    omega
  frame_append h m := (frameHead_append (by simp [h]) m).trans h
  malformed_append h m := (frameHead_append (by simp [h]) m).trans h

/-- The length of a frame that fits does not wrap. -/
theorem Frame.Fits.toNat {f : Frame} (h : f.Fits) :
    (UInt32.ofNat (1 + f.body.length)).toNat = 1 + f.body.length := by
  unfold Frame.Fits at h
  rw [UInt32.toNat_ofNat', Nat.mod_eq_of_lt (by omega)]

theorem Frame.bytes_eq (f : Frame) :
    f.bytes = octets (UInt32.ofNat (1 + f.body.length)) ++ (f.method.toByte :: f.body) := by
  simp [Frame.bytes, buildFrameBytes]

theorem Frame.length_bytes (f : Frame) : f.bytes.length = 5 + f.body.length := by
  simp only [f.bytes_eq, List.length_append, octets_length, List.length_cons]
  omega

theorem frameHead_bytes {f : Frame} (h : f.Fits) : frameHead f.bytes = .frame f f.bytes.length := by
  have hword : (word f.bytes).toNat = 1 + f.body.length := by
    rw [f.bytes_eq, word_append (by rw [octets_length]), word_octets, h.toNat]
  have hlen := f.length_bytes
  have hmethod : f.bytes.getD 4 0 = f.method.toByte := by
    rw [f.bytes_eq]
    rfl
  have hbody : f.bytes.drop 5 = f.body := by
    rw [f.bytes_eq]
    rfl
  unfold frameHead
  rw [hword, if_neg (by omega), if_neg (by omega), if_neg (by omega), hmethod, hbody, Method.ofByte_toByte,
    Nat.add_sub_cancel_left, List.take_length, hlen]
  congr 1
  omega

theorem Method.toByte_ofByte (b : Byte) : (Method.ofByte b).toByte = b := by
  by_cases h : b ∈ namedBytes
  · simp only [namedBytes, List.mem_cons, List.not_mem_nil, or_false] at h
    rcases h with rfl | rfl | rfl | rfl | rfl | rfl | rfl | rfl | rfl | rfl <;> rfl
  · have hb := h
    simp only [namedBytes, List.mem_cons, not_or] at hb
    simp [Method.ofByte, Method.toByte, hb, h]

/-- What `read_frame` returns is a frame that fits, and encodes as what was taken. -/
theorem frameHead_frame {l : ByteSpan} {f : Frame} {n : ℕ} (h : frameHead l = .frame f n) :
    f.Fits ∧ f.bytes = l.take n := by
  unfold frameHead at h
  split_ifs at h with h₁ h₂ h₃
  injection h with hf hn
  have hlt := (word l).toNat_lt
  have hbody : f.body.length = (word l).toNat - 1 := by
    rw [← hf]
    simp only [List.length_take, List.length_drop]
    omega
  refine ⟨by unfold Frame.Fits; omega,?_⟩
  have htotal : UInt32.ofNat (1 + f.body.length) = word l := by
    rw [hbody, Nat.add_sub_cancel' (by omega), UInt32.ofNat_toNat]
  have hfour : l.drop 4 = l.getD 4 0 :: l.drop 5 := by
    rw [List.drop_eq_getElem_cons (by omega), List.getD_eq_getElem]
  rw [f.bytes_eq, htotal, octets_word (by omega), ← hn, List.take_add, hfour, ← hf, Method.toByte_ofByte]
  obtain ⟨k,hk⟩ : ∃ k, (word l).toNat = k + 1 := ⟨(word l).toNat - 1,by omega⟩
  rw [hk, List.take_succ_cons, Nat.add_sub_cancel]

/-- The frames that fit are the words of the grammar. -/
theorem frameGrammar_encodes : frameGrammar.Encodes (fun f : { f : Frame // f.Fits } => f.1.bytes) Subtype.val where
  head_encode f := frameHead_bytes f.2
  of_frame {l f n} h := ⟨⟨f,(frameHead_frame h).1⟩,(frameHead_frame h).2,rfl⟩
  injective f g h := by
    have hf := frameHead_bytes f.2
    have h' : f.1.bytes = g.1.bytes := h
    rw [h', frameHead_bytes g.2] at hf
    injection hf with he
    exact Subtype.ext he.symm

theorem readFrame_frame {input rest : ByteSpan} {f : Frame} (h : readFrame input = (.frame f,rest)) :
    ∃ n, frameHead input = .frame f n ∧ rest = input.drop n := by
  rw [readFrame_eq] at h
  split at h
  case h_1 g n hg =>
    injection h with hf hr
    exact ⟨n,ReadFrame.frame.inj hf ▸ hg,hr.symm⟩
  case h_2 => cases congrArg Prod.fst h
  case h_3 =>
    have hf := congrArg Prod.fst h
    dsimp only at hf
    split_ifs at hf

theorem readFrame_stops {input : ByteSpan} (h : Stops input) (f : Frame) : (readFrame input).1 ≠ .frame f := by
  intro hf
  have hread : readFrame input = (.frame f,(readFrame input).2) := Prod.ext hf rfl
  obtain ⟨n,hn,-⟩ := readFrame_frame hread
  exact (stops_iff input).mp h f n hn

theorem readFrame_length {input rest : ByteSpan} {f : Frame} (h : readFrame input = (.frame f,rest)) :
    rest.length < input.length := by
  obtain ⟨n,hn,rfl⟩ := readFrame_frame h
  have hsize := frameGrammar.frame_size hn
  rw [List.length_drop]
  omega

/-- What successive calls of `read_frame` give: the frames, the result that is none, and
what was there when its call began. -/
structure FrameSequence where
  frames : List Frame
  last : ReadFrame
  left : ByteSpan
  deriving DecidableEq

/-- The calls of a loop around `read_frame`. -/
def readFrames (input : ByteSpan) : FrameSequence :=
  match _h : readFrame input with
  | (.frame f,rest) =>
    let r := readFrames rest
    { r with frames := f :: r.frames }
  | (last,_) => ⟨[],last,input⟩
termination_by input.length
decreasing_by exact readFrame_length _h

theorem readFrames_frame {input : ByteSpan} {f : Frame} {n : ℕ} (h : frameHead input = .frame f n) :
    readFrames input = { readFrames (input.drop n) with frames := f :: (readFrames (input.drop n)).frames } := by
  have hr : readFrame input = (.frame f,input.drop n) := by rw [readFrame_eq, h]
  rw [readFrames]
  split
  case h_1 g rest hg =>
    obtain ⟨hf,rfl⟩ := Prod.mk.inj (hg.symm.trans hr)
    obtain rfl := ReadFrame.frame.inj hf
    rfl
  case h_2 last rest hne hl =>
    have hlast := congrArg Prod.fst (hl.symm.trans hr)
    exact absurd hlast (hne f)

theorem readFrames_stops {input : ByteSpan} (h : Stops input) :
    readFrames input = ⟨[],(readFrame input).1,input⟩ := by
  rw [readFrames]
  split
  case h_1 f rest hf => exact absurd (congrArg Prod.fst hf) (readFrame_stops h f)
  case h_2 last rest hne hl => rw [hl]

/-- The loop drains its stream. -/
theorem readFrames_eq_drain (input : ByteSpan) : readFrames input = ⟨(frameGrammar.drain input).values,
    (readFrame (frameGrammar.drain input).rest).1,(frameGrammar.drain input).rest⟩ := by
  induction input using frameGrammar.drain_induction with
  | short l hl =>
    rw [Grammar.drain_short hl, readFrames_stops]
    rw [stops_iff]
    intro f n hf
    cases hf.symm.trans hl
  | malformed l hl =>
    rw [Grammar.drain_malformed hl, readFrames_stops]
    rw [stops_iff]
    intro f n hf
    cases hf.symm.trans hl
  | frame l f n hl ih =>
    rw [Grammar.drain_frame hl, readFrames_frame hl, ih]

theorem stops_drain (input : ByteSpan) : Stops (frameGrammar.drain input).rest := by
  rw [stops_iff]
  intro f n hf
  have hrest := Grammar.head_rest (g := frameGrammar) input
  rw [show frameGrammar.head _ = _ from hf] at hrest
  split_ifs at hrest

/-- A stream is the encodings of the frames read from it and a rest that stops the loop. -/
def Reads (input : ByteSpan) (frames : List Frame) (left : ByteSpan) : Prop :=
  input = frames.flatMap Frame.bytes ++ left ∧ (∀ f ∈ frames, f.Fits) ∧ Stops left

theorem Reads.splits {input left : ByteSpan} {frames : List Frame} (h : Reads input frames left) :
    ∃ fs : List { f : Frame // f.Fits }, fs.map Subtype.val = frames ∧
      Grammar.Splits (fun f : { f : Frame // f.Fits } => f.1.bytes) input fs left := by
  obtain ⟨hi,hf,hs⟩ := h
  obtain ⟨fs,rfl⟩ : ∃ fs : List { f : Frame // f.Fits }, fs.map Subtype.val = frames :=
    ⟨frames.attachWith Frame.Fits hf,List.attachWith_map_subtype_val _⟩
  refine ⟨fs,rfl,?_,?_⟩
  · rw [hi, List.flatMap_map]
  · rintro f ⟨m,hm⟩
    have hhead := frameGrammar.frame_append (frameGrammar_encodes.head_encode f) m
    rw [hm] at hhead
    exact (stops_iff left).mp hs _ _ hhead

theorem reads_drain (input : ByteSpan) :
    Reads input (frameGrammar.drain input).values (frameGrammar.drain input).rest := by
  obtain ⟨fs,⟨hl,-⟩,hv⟩ := frameGrammar_encodes.splits_drain input
  refine ⟨?_,?_,stops_drain input⟩
  · rw [hv, List.flatMap_map]
    exact hl
  · rw [hv]
    intro f hf
    obtain ⟨g,-,rfl⟩ := List.mem_map.mp hf
    exact g.2

theorem Reads.unique {input left left' : ByteSpan} {frames frames' : List Frame}
    (h : Reads input frames left) (h' : Reads input frames' left') : frames' = frames ∧ left' = left := by
  obtain ⟨fs,rfl,hs⟩ := h.splits
  obtain ⟨fs',rfl,hs'⟩ := h'.splits
  obtain ⟨rfl,rfl⟩ := frameGrammar_encodes.splits_unique hs hs'
  exact ⟨rfl,rfl⟩

theorem writeFrame_eq (m : Method) (body : ByteSpan) : writeFrame m body = buildFrameBytes m body := by
  simp [writeFrame, buildFrameBytes]

theorem toByte_eq_ready (m : Method) : m.toByte = Method.ready.toByte ↔ m = .ready := by
  constructor
  · intro h
    rw [← Method.ofByte_toByte m, h, Method.ofByte_toByte]
  · rintro rfl
    rfl

/-- The two readers take the same bytes, and the same frames tell a node that it is ready. -/
theorem awaitReady_agrees (input : ByteSpan) : (awaitReady input).2 = (readFrame input).2 ∧
    ((awaitReady input).1 = .ready ↔ ∃ f, (readFrame input).1 = .frame f ∧ f.method = .ready) := by
  rw [readFrame_eq]
  unfold awaitReady frameHead
  by_cases h₁ : input.length < 4
  · simp [h₁]
  by_cases h₂ : (word input).toNat < 1
  · have hzero : (word input).toNat = 0 := Nat.lt_one_iff.mp h₂
    simp [h₁, hzero]
  by_cases h₃ : input.length < 4 + (word input).toNat
  · have h₃' : (input.drop 4).length < (word input).toNat := by
      rw [List.length_drop]
      omega
    simp only [if_neg h₁, if_neg h₂, if_pos h₃, if_pos h₃']
    simp
  · have h₃' : ¬(input.drop 4).length < (word input).toNat := by
      rw [List.length_drop]
      omega
    have hne : (input.drop 4).take (word input).toNat ≠ [] := by
      rw [← List.length_pos_iff, List.length_take, List.length_drop]
      omega
    have hfirst : ((input.drop 4).take (word input).toNat).getD 0 0 = input.getD 4 0 := by
      simp only [List.getD_eq_getElem?_getD, List.getElem?_take, List.getElem?_drop]
      rw [if_pos (by omega)]
    have hmethod : input.getD 4 0 = Method.ready.toByte ↔ Method.ofByte (input.getD 4 0) = .ready := by
      rw [← toByte_eq_ready, Method.toByte_ofByte]
    simp only [if_neg h₁, if_neg h₂, if_neg h₃, if_neg h₃', hne, false_or, hfirst, ne_eq, hmethod, List.drop_drop]
    generalize Method.ofByte (input.getD 4 0) = m
    by_cases hm : m = .ready <;> simp [hm]

theorem stops_iff_readFrame (input : ByteSpan) : Stops input ↔ ∀ f, (readFrame input).1 ≠ .frame f := by
  refine ⟨readFrame_stops,fun h => ?_⟩
  rw [stops_iff]
  intro f n hf
  apply h f
  rw [readFrame_eq, hf]

theorem readFrames_flatMap {frames : List Frame} (h : ∀ f ∈ frames, f.Fits) :
    readFrames (frames.flatMap Frame.bytes) = ⟨frames,.nullopt,[]⟩ := by
  have hr : Reads (frames.flatMap Frame.bytes) frames [] :=
    ⟨(List.append_nil _).symm,h,.inl (by decide)⟩
  obtain ⟨hv,hl⟩ := (reads_drain (frames.flatMap Frame.bytes)).unique hr
  rw [readFrames_eq_drain, ← hv, ← hl]
  rfl

/-- What was read is encoded again, and forwarded, as one frame. -/
theorem readFrame_fits {input rest : ByteSpan} {f : Frame} (h : readFrame input = (.frame f,rest)) :
    input = f.bytes ++ rest ∧ f.Fits := by
  obtain ⟨n,hn,rfl⟩ := readFrame_frame h
  obtain ⟨hf,hb⟩ := frameHead_frame hn
  rw [hb, List.take_append_drop]
  exact ⟨rfl,hf⟩

theorem readFrame_forwarded {f : Frame} (h : f.Fits) (r : Role) (later : ByteSpan) :
    readFrame (writeFrame (translate r f).method (translate r f).body ++ later) = (.frame (translate r f),later) := by
  have hbody : (translate r f).body = f.body := by
    unfold translate
    split_ifs <;> rfl
  unfold Frame.Fits at h
  rw [writeFrame_eq, readFrame_buildFrameBytes _ (by rw [hbody]; omega)]

/-- The codec. Reading the encodings of frames gives the frames back and then ends. Whatever
the stream, the frames read from it encode as the bytes they were read from, in the only way
there is, and the reading stops at the first zero length word or at a frame that is cut off.
Both encoders write the same bytes, a frame that was read and is forwarded keeps its
boundaries, and the reader of a registering node takes the same bytes as `read_frame`. -/
theorem frame_codec (frames : List Frame) (input : ByteSpan) (m : Method) (body : ByteSpan) :
    ((∀ f ∈ frames, f.Fits) → readFrames (frames.flatMap Frame.bytes) = ⟨frames,.nullopt,[]⟩) ∧
    (Reads input (readFrames input).frames (readFrames input).left ∧
      ∀ frames' left', Reads input frames' left' →
        frames' = (readFrames input).frames ∧ left' = (readFrames input).left) ∧
    (Stops input ↔ ∀ f, (readFrame input).1 ≠ .frame f) ∧
    writeFrame m body = buildFrameBytes m body ∧
    (∀ f rest, readFrame input = (.frame f,rest) → input = f.bytes ++ rest ∧
      (UInt32.ofNat (1 + f.body.length)).toNat = 1 + f.body.length ∧
      ∀ r later, readFrame (writeFrame (translate r f).method (translate r f).body ++ later) =
        (.frame (translate r f),later)) ∧
    (awaitReady input).2 = (readFrame input).2 ∧
    ((awaitReady input).1 = .ready ↔ ∃ f, (readFrame input).1 = .frame f ∧ f.method = .ready) := by
  refine ⟨readFrames_flatMap,?_,stops_iff_readFrame input,writeFrame_eq m body,?_,awaitReady_agrees input⟩
  · rw [readFrames_eq_drain]
    exact ⟨reads_drain input,fun frames' left' h => (reads_drain input).unique h⟩
  · intro f rest h
    obtain ⟨hi,hf⟩ := readFrame_fits h
    exact ⟨hi,hf.toNat,readFrame_forwarded hf⟩

/-- An empty body, a zero length word, and bytes behind it. -/
example : (readFrames ([0,0,0,1,2] ++ [0,0,0,0] ++ [0,0,0,1,2])).left = [0,0,0,0,0,0,0,1,2] := by
  rw [readFrames_frame (f := ⟨.ready,[]⟩) (n := 5) rfl, readFrames_stops (.inr (.inl rfl))]
  rfl

end Msg801.Relay
