import Msg801.Tunnel.Build

/-! # What the padding processor accepts and emits

The words of the grammar are the bytes of the frames within the bounds. A stream splits
in one way into such frames and a rest that none of them begins; the decoder finds this
split however the stream is cut into calls. The encoder comes to the end of its input
unless it was configured for chunks without bytes.
-/
namespace Msg801.Tunnel.PaddingProcessor
open Stage BigEndian Framing

variable {R : RandomEngine} {chunkSize padMax : ℕ}

theorem PadFrame.length_bytes (f : PadFrame chunkSize padMax) :
    f.bytes.length = 8 + f.payload.length + f.padding.length := by
  simp only [PadFrame.bytes, List.length_append, octets_length]

theorem PadFrame.bytes_drop (f : PadFrame chunkSize padMax) :
    f.bytes.drop 8 = f.payload ++ f.padding := by
  rw [PadFrame.bytes, List.append_assoc]
  exact List.drop_left' (by simp)

/-- The header tells where the payload ends. -/
theorem PadFrame.bytes_injective (hc : chunkSize < 2 ^ 32) (hm : padMax < 2 ^ 32) :
    Function.Injective (@PadFrame.bytes chunkSize padMax) := by
  intro f g h
  have hf := head_bytes hc hm f
  rw [h, head_bytes hc hm g] at hf
  injection hf with hpay
  have hd := congrArg (List.drop 8) h
  rw [f.bytes_drop, g.bytes_drop, hpay] at hd
  have hpad := List.append_cancel_left hd
  cases f
  cases g
  cases hpay
  cases hpad
  rfl

/-- A whole frame at the front of a buffer is the bytes of one within the bounds. -/
theorem padHead_frame {l v : ByteVector} {n : ℕ} (h : padHead chunkSize padMax l = .frame v n) :
    ∃ f : PadFrame chunkSize padMax, f.bytes = l.take n ∧ f.payload = v := by
  unfold padHead at h
  split_ifs at h with h₁ h₂ h₃
  injection h with hv hn
  have hpay : v.length = (readU32 l).toNat := by
    rw [← hv, List.length_take, List.length_drop]
    omega
  obtain ⟨pad,hpad,hlen⟩ : ∃ pad : ByteVector,
      pad = (l.drop (8 + (readU32 l).toNat)).take (readU32 (l.drop 4)).toNat ∧
      pad.length = (readU32 (l.drop 4)).toNat :=
    ⟨_,rfl,by rw [List.length_take, List.length_drop]; omega⟩
  have hfirst : octets (readU32 l) = l.take 4 := octets_word (by omega)
  have hsecond : octets (readU32 (l.drop 4)) = (l.drop 4).take 4 :=
    octets_word (by rw [List.length_drop]; omega)
  have hheader : l.take 4 ++ (l.drop 4).take 4 = l.take 8 := List.take_add.symm
  have hbytes : octets (UInt32.ofNat v.length) ++ octets (UInt32.ofNat pad.length) ++ v ++ pad =
      l.take n := by
    rw [hpay, hlen, UInt32.ofNat_toNat, UInt32.ofNat_toNat, hfirst, hsecond, hheader, ← hn,
      List.take_add, List.take_add, hv, hpad]
  exact ⟨⟨v,pad,by omega,by omega⟩,hbytes,rfl⟩

/-- The frames within the bounds are the words of the grammar. -/
theorem padGrammar_encodes (hc : chunkSize < 2 ^ 32) (hm : padMax < 2 ^ 32) :
    (padGrammar chunkSize padMax).Encodes
      (@PadFrame.bytes chunkSize padMax) PadFrame.payload where
  head_encode := head_bytes hc hm
  of_frame := padHead_frame
  injective := PadFrame.bytes_injective hc hm

/-- The position moves forward by at least a header for every frame taken, and stays inside. -/
theorem unpackLoop_position (chunkSize padMax : ℕ) (acc : ByteVector) (pos : ℕ)
    (hpos : pos ≤ acc.length) :
    pos + 8 * (unpackLoop chunkSize padMax acc pos hpos).1.length ≤
        (unpackLoop chunkSize padMax acc pos hpos).2.1 ∧
      (unpackLoop chunkSize padMax acc pos hpos).2.1 ≤ acc.length := by
  fun_induction unpackLoop chunkSize padMax acc pos hpos
  case case5 pos hpos hshort payloadLen padLen hbounds frameLen hover hlen out r ih =>
    obtain ⟨hlow,hhigh⟩ := ih
    refine ⟨?_,hhigh⟩
    simp only [List.length_cons, r]
    omega
  all_goals exact ⟨Nat.le_refl _,by assumption⟩

/-- The one exception there is. -/
theorem unpack_throws (q : PaddingProcessor R) (x : ByteSpan) : (unpack q x).error =
    if ((padGrammar q.chunkSize q.padMax).drain (q.unpackBuffer ++ x)).broken then
      some (.runtimeError "invalid padding frame header") else none := by
  obtain ⟨stop,hs,-⟩ := unpackLoop_eq_drain q.chunkSize q.padMax (q.unpackBuffer ++ x) 0
    (Nat.zero_le _)
  rw [List.drop_zero] at hs
  simp only [unpack, applyUnpack, hs]

/-- One call throws exactly when the buffer it works on runs into a header out of bounds. -/
theorem unpack_error (q : PaddingProcessor R) (x : ByteSpan) : (unpack q x).error = none ↔
    ((padGrammar q.chunkSize q.padMax).drain (q.unpackBuffer ++ x)).broken = false := by
  rw [unpack_throws]
  cases ((padGrammar q.chunkSize q.padMax).drain (q.unpackBuffer ++ x)).broken <;> simp

theorem unpack_feed_error {q : PaddingProcessor R} (hq : q.unpackBuffer = []) (ys : List ByteSpan) :
    (feed unpack q ys).error = none ↔
      ((padGrammar q.chunkSize q.padMax).drain ys.flatten).broken = false := by
  refine ⟨fun h => ?_,fun h => by rw [unpack_feed hq ys h]⟩
  induction ys using List.reverseRecOn with
  | nil => exact congrArg Drained.broken (Grammar.drain_short (l := []) rfl)
  | append_singleton ys y ih =>
    obtain ⟨hys,hy⟩ := feed_append_error.mp h
    rw [unpack_feed hq ys (ih hys), feed_singleton, unpack_error] at hy
    rw [List.flatten_append, List.flatten_singleton, Grammar.drain_append (ih hys)]
    exact hy

/-- Whole frames, one a call, give their payloads. -/
theorem unpack_frames {q : PaddingProcessor R} (hq : q.unpackBuffer = []) (hc : q.chunkSize < 2 ^ 32)
    (hm : q.padMax < 2 ^ 32) (fs : List (PadFrame q.chunkSize q.padMax)) :
    (feed unpack q (fs.map PadFrame.bytes)).error = none ∧
    (feed unpack q (fs.map PadFrame.bytes)).bytes = fs.flatMap PadFrame.payload := by
  have hdrain := Grammar.drain_flatMap PadFrame.bytes PadFrame.payload fs (fun f _ => head_bytes hc hm f) []
  have hnil : (padGrammar q.chunkSize q.padMax).head [] = .short := rfl
  rw [List.append_nil, Grammar.drain_short hnil, List.append_nil, List.flatMap_def] at hdrain
  have hfeed := unpack_feed hq (fs.map PadFrame.bytes) (by rw [hdrain])
  rw [hdrain] at hfeed
  rw [hfeed, List.flatMap_def]
  exact ⟨rfl,rfl⟩

/-- A header that says more than the bounds allow. -/
def BadHeader (chunkSize padMax : ℕ) (r : ByteSpan) : Prop :=
  8 ≤ r.length ∧ ((readU32 r).toNat > chunkSize ∨ (readU32 (r.drop 4)).toNat > padMax)

theorem padHead_malformed {l : ByteVector} :
    padHead chunkSize padMax l = .malformed ↔ BadHeader chunkSize padMax l := by
  unfold padHead BadHeader
  split_ifs with h₁ h₂ h₃
  · simp only [false_iff, not_and]
    omega
  · exact iff_of_true rfl ⟨by omega,h₂⟩
  · simp [h₂]
  · simp [h₂]

theorem padHead_short {l : ByteVector} (h : padHead chunkSize padMax l = .short) :
    l.length < 8 + chunkSize + padMax := by
  unfold padHead at h
  split_ifs at h with h₁ h₂ h₃
  · omega
  · omega

/-- The decoder splits its stream into frames and a rest, in the one way there is, however
the stream is cut into calls. It throws exactly for a rest with a bad header. Otherwise it
has emitted the payloads and holds the rest, never holding as much as the largest frame. -/
theorem unpack_splits (hc : chunkSize < 2 ^ 32) (hm : padMax < 2 ^ 32) (seed : UInt64)
    (reverse : Bool) (calls : List ByteSpan) :
    let p : PaddingProcessor R := new chunkSize padMax seed reverse
    ∃ (fs : List (PadFrame chunkSize padMax)) (r : ByteSpan),
      Grammar.Splits PadFrame.bytes calls.flatten fs r ∧
      (∀ fs' r', Grammar.Splits PadFrame.bytes calls.flatten fs' r' → fs' = fs ∧ r' = r) ∧
      ((feed unpack p calls).error ≠ none ↔ BadHeader chunkSize padMax r) ∧
      ((feed unpack p calls).error = none →
        (feed unpack p calls).bytes = fs.flatMap PadFrame.payload ∧
        (feed unpack p calls).state.unpackBuffer = r ∧
        ∀ k, (feed unpack p (calls.take k)).state.unpackBuffer.length < 8 + chunkSize + padMax) ∧
      ∀ acc pos hpos, pos + 8 * (unpackLoop chunkSize padMax acc pos hpos).1.length ≤
          (unpackLoop chunkSize padMax acc pos hpos).2.1 ∧
        (unpackLoop chunkSize padMax acc pos hpos).2.1 ≤ acc.length := by
  intro p
  have henc := padGrammar_encodes hc hm
  obtain ⟨fs,hs,hv⟩ := henc.splits_drain calls.flatten
  have hrest := Grammar.head_rest (g := padGrammar chunkSize padMax) calls.flatten
  have herr := unpack_feed_error (q := p) rfl calls
  refine ⟨fs,_,hs,fun fs' r' hs' => henc.splits_unique hs hs',?_,fun hnone => ?_,
    unpackLoop_position chunkSize padMax⟩
  · rw [ne_eq, herr, ← padHead_malformed]
    change ¬((padGrammar chunkSize padMax).drain calls.flatten).broken = false ↔
      (padGrammar chunkSize padMax).head _ = .malformed
    rw [hrest]
    cases ((padGrammar chunkSize padMax).drain calls.flatten).broken <;> simp
  · have hfeed := unpack_feed (q := p) rfl calls (herr.mp hnone)
    rw [hfeed]
    refine ⟨?_,rfl,fun k => ?_⟩
    · rw [Outcome.bytes, List.flatMap_def, ← hv]
      rfl
    -- the calls made so far have drained a beginning of the stream
    · have hk : ((padGrammar chunkSize padMax).drain (calls.take k).flatten).broken = false :=
        (Grammar.drain_prefix ((List.take_prefix k calls).flatten) (herr.mp hnone)).1
      have hhead := Grammar.head_rest (g := padGrammar chunkSize padMax) (calls.take k).flatten
      rw [unpack_feed (q := p) rfl (calls.take k) hk]
      rw [hk] at hhead
      exact padHead_short hhead

/-- A stream cut inside its first header and behind its first frame. -/
def cutCalls : List ByteSpan := [[0,0,0],[2,0,0,0,1,0x61,0x62,7],[0,0]]

theorem unpack_splits_cutCalls :
    (feed unpack (new 4 2 0 false : PaddingProcessor zeroEngine) cutCalls).bytes = text "ab" ∧
    (feed unpack (new 4 2 0 false : PaddingProcessor zeroEngine) cutCalls).state.unpackBuffer =
      [0,0] := by
  obtain ⟨fs,r,-,hunique,herr,hout,-⟩ := unpack_splits (R := zeroEngine)
    (show 4 < 2 ^ 32 by decide) (show 2 < 2 ^ 32 by decide) 0 false cutCalls
  have hsplit : Grammar.Splits PadFrame.bytes cutCalls.flatten
      [(⟨text "ab",[7],by decide,by decide⟩ : PadFrame 4 2)] [0,0] := by
    refine ⟨by decide,fun f hf => ?_⟩
    have hlen := hf.length_le
    rw [f.length_bytes, List.length_cons, List.length_singleton] at hlen
    omega
  obtain ⟨rfl,rfl⟩ := hunique _ _ hsplit
  have hbad : ¬BadHeader 4 2 [0,0] := fun h => absurd h.1 (by decide)
  obtain ⟨hbytes,hbuffer,-⟩ := hout (not_not.mp fun h => hbad (herr.mp h))
  exact ⟨hbytes,hbuffer⟩

/-- The loop of `apply_pack` comes to an end, having cut the input into frames none of
which is empty. -/
def PackEnds (chunkSize padMax : ℕ) (input : ByteSpan) (rng : R.State) : Prop :=
  ∃ (rounds : ℕ) (fs : List (PadFrame chunkSize padMax)),
    (packLoop chunkSize padMax input rounds 0 rng).2.2 = none ∧
    (packLoop chunkSize padMax input rounds 0 rng).1 = fs.map PadFrame.bytes ∧
    (∀ f ∈ fs, f.payload ≠ []) ∧ (fs.map PadFrame.payload).flatten = input

/-- Without bytes to carry the loop stays where it is. -/
theorem packLoop_stuck (padMax : ℕ) {input : ByteSpan} {pos : ℕ} (hpos : pos < input.length)
    (rounds : ℕ) (rng : R.State) :
    (packLoop 0 padMax input rounds pos rng).2.2 = some .endless := by
  induction rounds generalizing rng with
  | zero => rfl
  | succ rounds ih =>
    simp only [packLoop, if_pos hpos, Nat.zero_min, Nat.add_zero]
    exact ih _

theorem packEnds_iff (hm : padMax < 2 ^ 32) (input : ByteSpan) (rng : R.State) :
    PackEnds chunkSize padMax input rng ↔ 1 ≤ chunkSize ∨ input = [] := by
  constructor
  case mp =>
    rintro ⟨rounds,-,hend,-⟩
    by_contra hnot
    push Not at hnot
    obtain ⟨hchunk,hinput⟩ := hnot
    obtain rfl : chunkSize = 0 := by omega
    rw [packLoop_stuck padMax (List.length_pos_iff.mpr hinput)] at hend
    cases hend
  case mpr =>
    rintro (hc | rfl)
    · obtain ⟨hend,fs,hfs,hne,hd⟩ :=
        packLoop_frames hc hm input (input.length + 1) 0 rng (by omega)
      exact ⟨_,fs,hend,hfs,hne,hd⟩
    · exact ⟨1,[],rfl,rfl,nofun,rfl⟩

section Accepted
variable {C : Crypto} {host : Host} {reverse : Bool}

theorem addProcessors_mem {specs : List ByteSpan} {chain : ProcessorChain ProcessorPtr}
    (h : buildProcessorChain C R host reverse specs = .ok (some chain)) {spec : ByteSpan}
    (hs : spec ∈ specs) :
    ∃ i p, buildProcessor C R host reverse i spec = .ok (some p) ∧ p ∈ chain := by
  rw [buildProcessorChain, if_neg (by simpa using List.ne_nil_of_mem hs)] at h
  obtain ⟨ps,rfl,hps⟩ := addProcessors_some h
  have hmem : spec ∈ if reverse then specs.reverse else specs := by
    split
    · exact List.mem_reverse.mpr hs
    · exact hs
  obtain ⟨k,hk,rfl⟩ := List.mem_iff_getElem.mp hmem
  obtain ⟨i,hi⟩ := hps.get hk (hps.length_eq ▸ hk)
  exact ⟨i,_,hi,by simp⟩

/-- A padding processor of an accepted chain ends its loop on an input exactly when its
chunks have bytes or the input has none. -/
theorem accepted_pack_ends_iff {specs : List ByteSpan} {chain : ProcessorChain ProcessorPtr}
    (h : buildProcessorChain C R host reverse specs = .ok (some chain)) {spec : ByteSpan}
    (hs : spec ∈ specs) (hn : specName spec = text "padding") :
    ∃ i a, paddingArgs host (specKv spec) i = .ok (some a) ∧
      ⟨(new a.chunk.toNat a.max.toNat a.seed (resolveProcessorReverse (specKv spec) reverse) :
        PaddingProcessor R)⟩ ∈ chain ∧
      ∀ (input : ByteSpan) (rng : R.State),
        PackEnds a.chunk.toNat a.max.toNat input rng ↔ 1 ≤ a.chunk.toNat ∨ input = [] := by
  obtain ⟨i,p,hp,hmem⟩ := addProcessors_mem h hs
  rw [buildProcessor, hn, if_neg (by decide), if_neg (by decide), if_neg (by decide),
    if_pos rfl, buildPadding] at hp
  rcases ha : paddingArgs host (specKv spec) i with e | _ | a
  · simp [ha] at hp
  · simp [ha] at hp
  · simp only [ha] at hp
    obtain rfl := Option.some.inj (Except.ok.inj hp)
    obtain ⟨-,-,-,-,-,-,hbound,-⟩ := paddingArgs_some ha
    have hm : a.max.toNat < 2 ^ 32 := by
      simp only [U32_MAX_AS_SIZE_T] at hbound
      omega
    exact ⟨i,a,ha,hmem,fun input rng => packEnds_iff hm input rng⟩

end Accepted

theorem accepted_pack_ends_hello : ∃ chain,
    buildProcessorChain CfbNonceProcessor.knownCrypto zeroEngine zeroHost false
      [text "padding:chunk=4,max=0"] = .ok (some chain) ∧
    PackEnds 4 0 (text "hello") (zeroEngine.seed 0) := by
  obtain ⟨chain,hchain⟩ : ∃ chain, buildProcessorChain CfbNonceProcessor.knownCrypto zeroEngine
      zeroHost false [text "padding:chunk=4,max=0"] = .ok (some chain) := ⟨_,rfl⟩
  obtain ⟨i,a,ha,-,hends⟩ := accepted_pack_ends_iff hchain (List.mem_singleton.mpr rfl) (by decide)
  obtain rfl : a = ⟨4,0,0⟩ := (Option.some.inj (Except.ok.inj ha)).symm
  exact ⟨chain,hchain,(hends (text "hello") (zeroEngine.seed 0)).mpr (.inl (by decide))⟩

/-- The specification `padding:chunk=0,max=0` is accepted and its loop never ends. -/
theorem chunk_zero_accepted_endless :
    buildProcessorChain CfbNonceProcessor.knownCrypto zeroEngine zeroHost false
        [text "padding:chunk=0,max=0"] =
      .ok (some [⟨(new 0 0 0 false : PaddingProcessor zeroEngine)⟩]) ∧
    (∀ rounds, (packLoop 0 0 (text "a") rounds 0 (zeroEngine.seed 0)).2.2 = some .endless) ∧
    ¬PackEnds 0 0 (text "a") (zeroEngine.seed 0) := by
  have hstuck := packLoop_stuck (R := zeroEngine) 0 (show 0 < (text "a").length by decide)
  refine ⟨rfl,fun rounds => hstuck rounds (zeroEngine.seed 0),fun hends => ?_⟩
  obtain ⟨rounds,-,hend,-⟩ := hends
  rw [hstuck] at hend
  cases hend

end Msg801.Tunnel.PaddingProcessor
