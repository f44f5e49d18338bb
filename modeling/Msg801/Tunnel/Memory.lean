import Msg801.Lib.Budget
import Msg801.Tunnel.PaddingGrammar
import Msg801.Tunnel.Segmentation

/-! # What a session holds in memory

A loop reads again only when all that came of the last read is written, and a processor
holds back less than one packet. So what a session holds is bounded once its chain is built,
whatever the two ends send and however slowly they take what they are sent. That is so where
the padding cuts the input into chunks that are not empty: with empty ones a call makes
frames for ever.
-/
namespace Msg801.Tunnel
open Stage Processor Transition

theorem CfbProcessor.pack_pays (Q : CfbProcessor → Prop) (hQ : ∀ p x, Q p → Q (pack p x).state) :
    Pays pack Q (fun _ => 0) 1 := by
  intro p x hp _
  refine ⟨hQ p x hp,?_⟩
  have hlen : (Cfb.encrypt p.packKeystream x).2.length = x.length := Mealy.run_length ..
  simp [pack, Outcome.bytes, hlen]

theorem CfbProcessor.unpack_pays (Q : CfbProcessor → Prop) (hQ : ∀ p x, Q p → Q (unpack p x).state) :
    Pays unpack Q (fun _ => 0) 1 := by
  intro p x hp _
  refine ⟨hQ p x hp,?_⟩
  have hlen : (Cfb.decrypt p.unpackKeystream x).2.length = x.length := Mealy.run_length ..
  simp [unpack, Outcome.bytes, hlen]

namespace CfbNonceProcessor
variable {C : Crypto}

/-- The packet of a direction that has yet to be sent is put by. -/
def unsent (p : CfbNonceProcessor C) : ℕ := if p.packReady then 0 else HANDSHAKE_PACKET_SIZE

/-- A processor waits for less than a whole packet. -/
def Waits (p : CfbNonceProcessor C) : Prop := p.unpackHandshakeBuffer.length < HANDSHAKE_PACKET_SIZE

theorem encrypt_length (k : Cfb.Keystream) (x : ByteSpan) : (Cfb.encrypt k x).2.length = x.length := Mealy.run_length ..
theorem decrypt_length (k : Cfb.Keystream) (x : ByteSpan) : (Cfb.decrypt k x).2.length = x.length := Mealy.run_length ..

theorem pack_pays : Pays (pack (C := C)) Waits unsent 1 := by
  intro p x hp he
  cases hr : p.packReady with
  | true =>
    rw [pack_ready hr]
    refine ⟨hp,?_⟩
    simp [encrypt, Outcome.bytes, encrypt_length, unsent, hr]
  | false =>
    cases hn : p.randBytes 0 with
    | none =>
      rw [pack_no_nonce hr hn] at he
      cases he
    | some nonce =>
      rcases Nat.lt_or_ge INT_MAX p.hmacKey.length with hk | hk
      · rw [pack_no_mac hr hn hk] at he
        cases he
      · rw [pack_first hr hn hk]
        refine ⟨hp,?_⟩
        have htag := C.hmac_length p.hmacKey nonce.1
        have hnonce := nonce.2
        simp only [Outcome.bytes, List.flatten_cons, List.flatten_nil, List.append_nil, List.length_append,
          encrypt_length, unsent, hr, htag, hnonce]
        simp [HANDSHAKE_PACKET_SIZE]

theorem pack_ends (p : CfbNonceProcessor C) (x : ByteSpan) : (pack p x).error ≠ some .endless := by
  cases hr : p.packReady with
  | true =>
    rw [pack_ready hr]
    simp [encrypt]
  | false =>
    cases hn : p.randBytes 0 with
    | none =>
      rw [pack_no_nonce hr hn]
      simp
    | some nonce =>
      rcases Nat.lt_or_ge INT_MAX p.hmacKey.length with hk | hk
      · rw [pack_no_mac hr hn hk]
        simp
      · rw [pack_first hr hn hk]
        simp

theorem unpack_ends (p : CfbNonceProcessor C) (x : ByteSpan) : (unpack p x).error ≠ some .endless := by
  cases hr : p.unpackReady with
  | true =>
    rw [unpack_ready hr]
    simp [decrypt]
  | false =>
    by_cases hl : (p.unpackHandshakeBuffer ++ x).length < HANDSHAKE_PACKET_SIZE
    · rw [unpack_waiting hr hl]
      simp
    · rcases Nat.lt_or_ge INT_MAX p.hmacKey.length with hk | hk
      · rw [unpack_no_mac hr hk hl]
        simp
      by_cases ha : Authentic C p.hmacKey (p.unpackHandshakeBuffer ++ x)
      · rw [unpack_first hr hk hl ha]
        simp
      · rw [unpack_refused hr hk hl ha]
        simp

/-- What was waited for is not emitted with the rest. -/
theorem unpack_pays : Pays (unpack (C := C)) Waits (fun p => p.unpackHandshakeBuffer.length) 1 := by
  intro p x hp he
  cases hr : p.unpackReady with
  | true =>
    rw [unpack_ready hr]
    refine ⟨hp,?_⟩
    simp [decrypt, Outcome.bytes, decrypt_length, Nat.add_comm]
  | false =>
    by_cases hl : (p.unpackHandshakeBuffer ++ x).length < HANDSHAKE_PACKET_SIZE
    · rw [unpack_waiting hr hl]
      exact ⟨hl,by simp [Outcome.bytes]⟩
    · rcases Nat.lt_or_ge INT_MAX p.hmacKey.length with hk | hk
      · rw [unpack_no_mac hr hk hl] at he
        cases he
      by_cases ha : Authentic C p.hmacKey (p.unpackHandshakeBuffer ++ x)
      · rw [unpack_first hr hk hl ha]
        refine ⟨by simp [Waits, HANDSHAKE_PACKET_SIZE, TAG_SIZE, NONCE_SIZE],?_⟩
        simp only [Outcome.bytes, List.flatten_cons, List.flatten_nil, List.append_nil, decrypt_length, List.length_drop,
          List.length_append, List.length_nil]
        omega
      · rw [unpack_refused hr hk hl ha] at he
        cases he

end CfbNonceProcessor

namespace PaddingProcessor
variable {R : RandomEngine}

/-- A processor of a configuration, which cuts off chunks and holds less than one frame. -/
structure Holds (chunkSize padMax : ℕ) (p : PaddingProcessor R) : Prop where
  chunk : p.chunkSize = chunkSize
  max : p.padMax = padMax
  pos : 1 ≤ chunkSize
  bound : padMax < 2 ^ 32
  buffer : p.unpackBuffer.length < 8 + chunkSize + padMax

theorem Holds.pack_error {chunkSize padMax : ℕ} {p : PaddingProcessor R} (h : Holds chunkSize padMax p) (x : ByteSpan) :
    (pack p x).error = none := by
  obtain ⟨rfl,rfl,hc,hm,-⟩ := h
  exact (packLoop_frames hc hm x (x.length + 1) 0 p.packRng (by omega)).1

/-- Every byte packed may come in a frame of its own. -/
theorem pack_pays {chunkSize padMax : ℕ} : Pays (pack (R := R)) (Holds chunkSize padMax) (fun _ => 0) (9 + padMax) := by
  rintro p x ⟨rfl,rfl,hc,hm,hbuf⟩ -
  refine ⟨⟨rfl,rfl,hc,hm,hbuf⟩,?_⟩
  change (packLoop p.chunkSize p.padMax x (x.length + 1) 0 p.packRng).1.flatten.length ≤ 0 + (9 + p.padMax) * x.length
  obtain ⟨-,fs,hfs,hne,hd⟩ := packLoop_frames hc hm x (x.length + 1) 0 p.packRng (by omega)
  rw [hfs, ← List.drop_zero (l := x), ← hd, Nat.zero_add]
  clear hfs hd
  induction fs with
  | nil => simp
  | cons f fs ih =>
    have hrest := ih fun g hg => hne g (List.mem_cons_of_mem _ hg)
    have hpos := List.length_pos_iff.mpr (hne f (List.mem_cons_self ..))
    have hpad := f.padding_le
    simp only [List.map_cons, List.flatten_cons, List.length_append, f.length_bytes, Nat.mul_add] at hrest ⊢
    have hframe : 8 + p.padMax ≤ (8 + p.padMax) * f.payload.length := Nat.le_mul_of_pos_right _ hpos
    have hsplit : (9 + p.padMax) * f.payload.length = (8 + p.padMax) * f.payload.length + f.payload.length := by
      rw [← Nat.succ_mul]
      congr 1
      omega
    omega

/-- What a grammar takes off the front is not made longer. -/
theorem drain_length (chunkSize padMax : ℕ) (l : ByteVector) :
    ((padGrammar chunkSize padMax).drain l).values.flatten.length +
      ((padGrammar chunkSize padMax).drain l).rest.length ≤ l.length := by
  induction l using (padGrammar chunkSize padMax).drain_induction with
  | short l hl =>
    rw [Framing.Grammar.drain_short hl]
    simp
  | malformed l hl =>
    rw [Framing.Grammar.drain_malformed hl]
    simp
  | frame l v n hl ih =>
    have hv : v.length ≤ n ∧ n ≤ l.length := by
      have hhead := hl
      simp only [padGrammar, padHead] at hhead
      split_ifs at hhead
      obtain ⟨rfl,rfl⟩ := Framing.Head.frame.inj hhead
      rw [List.length_take]
      omega
    rw [Framing.Grammar.drain_frame hl]
    simp only [List.flatten_cons, List.length_append, List.length_drop] at ih ⊢
    omega

theorem unpack_pays {chunkSize padMax : ℕ} :
    Pays (unpack (R := R)) (Holds chunkSize padMax) (fun p => p.unpackBuffer.length) (9 + padMax) := by
  rintro p x ⟨rfl,rfl,hc,hm,hbuf⟩ he
  have hclean := (unpack_error p x).mp he
  rw [unpack_eq_drain hclean]
  have hhead := Framing.Grammar.head_rest (g := padGrammar p.chunkSize p.padMax) (p.unpackBuffer ++ x)
  rw [hclean] at hhead
  refine ⟨⟨rfl,rfl,hc,hm,padHead_short hhead⟩,?_⟩
  have hlen := drain_length p.chunkSize p.padMax (p.unpackBuffer ++ x)
  rw [List.length_append] at hlen
  have hgrow : x.length ≤ (9 + p.padMax) * x.length := Nat.le_mul_of_pos_left _ (by omega)
  simp only [Outcome.bytes]
  omega

theorem unpack_ends (p : PaddingProcessor R) (x : ByteSpan) : (unpack p x).error ≠ some .endless := by
  rw [unpack_throws]
  split_ifs <;> simp

end PaddingProcessor

section Chain
variable {C : Crypto} {R : RandomEngine}

/-- A processor within its budget: what it has put by is at most `hold`, and it emits at most
`grow` bytes for one. -/
inductive Fits (C : Crypto) (R : RandomEngine) : Budget → ProcessorPtr → Prop
  | identity (p : IdentityProcessor) : Fits C R ⟨0,1⟩ ⟨p⟩
  | cfb (p : CfbProcessor) : Fits C R ⟨0,1⟩ ⟨p⟩
  | cfbNonce (p : CfbNonceProcessor C) (h : p.unpackHandshakeBuffer.length < HANDSHAKE_PACKET_SIZE) :
      Fits C R ⟨HANDSHAKE_PACKET_SIZE,1⟩ ⟨p⟩
  | padding (p : PaddingProcessor R) (hc : 1 ≤ p.chunkSize) (hm : p.padMax < 2 ^ 32)
      (h : p.unpackBuffer.length < 8 + p.chunkSize + p.padMax) : Fits C R ⟨8 + p.chunkSize + p.padMax,9 + p.padMax⟩ ⟨p⟩

/-- Calls one after another come to an end, and stay within the budget. -/
structure Within {P : Type*} (call : P → ByteSpan → Outcome P) (Q : P → Prop) (b : Budget) (p : P) (xs : List ByteSpan) :
    Prop where
  ends : (feed call p xs).error ≠ some .endless
  pays : (feed call p xs).error = none →
    Q (feed call p xs).state ∧ (feed call p xs).bytes.length ≤ b.limit xs.flatten.length

theorem within_of_pays {P : Type*} {call : P → ByteSpan → Outcome P} {Q : P → Prop} {held : P → ℕ} {b : Budget}
    (hends : ∀ p x, Q p → (call p x).error ≠ some .endless) (hpays : Pays call Q held b.grow)
    (hheld : ∀ p, Q p → held p ≤ b.hold) {p : P} (hp : Q p) (xs : List ByteSpan) : Within call Q b p xs := by
  refine ⟨feed_error_ne (fun q x hq he => (hpays q x hq he).1) hends hp xs,fun he => ?_⟩
  obtain ⟨hq,hlen⟩ := hpays.feed hp xs he
  have hhold := hheld p hp
  exact ⟨hq,by rw [Budget.limit]; omega⟩

/-- Both calls of an object keep to the budget whichever of them packs. -/
theorem Within.turned {P : Type} [TwoWayProcessor P] {Q : P → Prop} {b : Budget} {p : P} {xs : List ByteSpan}
    (hpack : Within pack Q b p xs) (hunpack : Within unpack Q b p xs) :
    Within onLocalData Q b p xs ∧ Within onRemoteData Q b p xs := by
  cases hr : reverse p with
  | false =>
    obtain ⟨hl,hr⟩ := TwoWayProcessor.feed_forward hr xs
    exact ⟨⟨hl ▸ hpack.ends,hl ▸ hpack.pays⟩,⟨hr ▸ hunpack.ends,hr ▸ hunpack.pays⟩⟩
  | true =>
    obtain ⟨hl,hr⟩ := TwoWayProcessor.feed_reverse hr xs
    exact ⟨⟨hl ▸ hunpack.ends,hl ▸ hunpack.pays⟩,⟨hr ▸ hpack.ends,hr ▸ hpack.pays⟩⟩

/-- The calls through the pointer keep to the budget as those of the object do. -/
theorem Within.fits {P : Type} [TwoWayProcessor P] {Q : P → Prop} {b : Budget} {p : P} {xs : List ByteSpan}
    (hpack : Within pack Q b p xs) (hunpack : Within unpack Q b p xs) (hfits : ∀ q, Q q → Fits C R b ⟨q⟩) :
    Within onLocalData (Fits C R b) b (⟨p⟩ : ProcessorPtr) xs ∧
      Within onRemoteData (Fits C R b) b (⟨p⟩ : ProcessorPtr) xs := by
  obtain ⟨hl,hr⟩ := hpack.turned hunpack
  have hlocal := ProcessorPtr.onLocalData_mapped.feed p xs
  have hremote := ProcessorPtr.onRemoteData_mapped.feed p xs
  refine ⟨⟨?_,?_⟩,⟨?_,?_⟩⟩
  · rw [hlocal]
    exact hl.ends
  · rw [hlocal]
    exact fun he => ⟨hfits _ (hl.pays he).1,(hl.pays he).2⟩
  · rw [hremote]
    exact hr.ends
  · rw [hremote]
    exact fun he => ⟨hfits _ (hr.pays he).1,(hr.pays he).2⟩

theorem Fits.feed {b : Budget} {p : ProcessorPtr} (h : Fits C R b p) (xs : List ByteSpan) :
    Within onLocalData (Fits C R b) b p xs ∧ Within onRemoteData (Fits C R b) b p xs := by
  cases h with
  | identity p =>
    have hpays : Pays IdentityProcessor.pack (fun _ => True) (fun _ => 0) 1 := by
      intro p x _ _
      exact ⟨trivial,by simp [IdentityProcessor.pack, Outcome.bytes]⟩
    have hwithin : Within IdentityProcessor.pack (fun _ => True) ⟨0,1⟩ p xs :=
      within_of_pays (fun _ _ _ => by simp [IdentityProcessor.pack]) hpays (fun _ _ => le_rfl) trivial xs
    exact Within.fits hwithin hwithin fun q _ => .identity q
  | cfb p =>
    have hpack : Within CfbProcessor.pack (fun _ => True) ⟨0,1⟩ p xs :=
      within_of_pays (fun _ _ _ => by simp [CfbProcessor.pack])
        (CfbProcessor.pack_pays (fun _ => True) fun _ _ _ => trivial) (fun _ _ => le_rfl) trivial xs
    have hunpack : Within CfbProcessor.unpack (fun _ => True) ⟨0,1⟩ p xs :=
      within_of_pays (fun _ _ _ => by simp [CfbProcessor.unpack])
        (CfbProcessor.unpack_pays (fun _ => True) fun _ _ _ => trivial) (fun _ _ => le_rfl) trivial xs
    exact hpack.fits hunpack fun q _ => .cfb q
  | cfbNonce p hbuf =>
    have hp : CfbNonceProcessor.Waits p := hbuf
    have hunsent : ∀ q : CfbNonceProcessor C, q.Waits → q.unsent ≤ HANDSHAKE_PACKET_SIZE := by
      intro q _
      rw [CfbNonceProcessor.unsent]
      split_ifs
      · exact Nat.zero_le _
      · exact le_rfl
    have hwaiting : ∀ q : CfbNonceProcessor C, q.Waits → q.unpackHandshakeBuffer.length ≤ HANDSHAKE_PACKET_SIZE :=
      fun q hq => le_of_lt hq
    have hpack : Within CfbNonceProcessor.pack CfbNonceProcessor.Waits ⟨HANDSHAKE_PACKET_SIZE,1⟩ p xs :=
      within_of_pays (fun q x _ => q.pack_ends x) CfbNonceProcessor.pack_pays hunsent hp xs
    have hunpack : Within CfbNonceProcessor.unpack CfbNonceProcessor.Waits ⟨HANDSHAKE_PACKET_SIZE,1⟩ p xs :=
      within_of_pays (fun q x _ => q.unpack_ends x) CfbNonceProcessor.unpack_pays hwaiting hp xs
    exact hpack.fits hunpack fun q hq => .cfbNonce q hq
  | padding p hc hm hbuf =>
    have hp : PaddingProcessor.Holds p.chunkSize p.padMax p := ⟨rfl,rfl,hc,hm,hbuf⟩
    have hpack : Within PaddingProcessor.pack (PaddingProcessor.Holds p.chunkSize p.padMax)
        ⟨8 + p.chunkSize + p.padMax,9 + p.padMax⟩ p xs :=
      within_of_pays (fun q x hq => by simp [hq.pack_error x]) PaddingProcessor.pack_pays (fun _ _ => Nat.zero_le _) hp xs
    have hunpack : Within PaddingProcessor.unpack (PaddingProcessor.Holds p.chunkSize p.padMax)
        ⟨8 + p.chunkSize + p.padMax,9 + p.padMax⟩ p xs :=
      within_of_pays (fun q x _ => q.unpack_ends x) PaddingProcessor.unpack_pays (fun q hq => le_of_lt hq.buffer) hp xs
    refine hpack.fits hunpack fun q hq => ?_
    have hfits := Fits.padding (C := C) q (hq.chunk ▸ hq.pos) (hq.max ▸ hq.bound) (by rw [hq.chunk, hq.max]; exact hq.buffer)
    rwa [hq.chunk, hq.max] at hfits

/-- A padding specification asks for chunks that are not empty. -/
def Chunked (spec : ByteSpan) : Prop :=
  specName spec = text "padding" → ∀ v ∈ specKv spec (text "chunk"), ∀ chunk ∈ (stoull v).toOption, 1 ≤ chunk.toNat

-- The bound is decided on the one value there is, not over all of `UInt64`.
instance (spec : ByteSpan) : Decidable (Chunked spec) :=
  decidable_of_iff (specName spec = text "padding" → ∀ v ∈ specKv spec (text "chunk"),
      (stoull v).toOption.all fun chunk => decide (1 ≤ chunk.toNat)) (by
    simp only [Option.all_eq_true, decide_eq_true_eq]
    rfl)

/-- A chain that was built is within the budgets of its processors. -/
theorem buildProcessorChain_fits {host : Host} {reverse : Bool} {specs : List ByteSpan}
    {chain : ProcessorChain ProcessorPtr} (hchunk : ∀ spec ∈ specs, Chunked spec)
    (h : buildProcessorChain C R host reverse specs = .ok (some chain)) : ∃ bs, List.Forall₂ (Fits C R) bs chain := by
  have hbuilt : ∀ {spec : ByteSpan} {p : ProcessorPtr}, Chunked spec →
      (∃ i, buildProcessor C R host reverse i spec = .ok (some p)) → ∃ b, Fits C R b p := by
    rintro spec p hspec ⟨i,hb⟩
    obtain ⟨-,rfl⟩ | ⟨-,key,-,rfl⟩ | ⟨-,iv,key,-,-,-,rfl⟩ | ⟨hn,a,ha,rfl⟩ := buildProcessor_some hb
    · exact ⟨_,.identity _⟩
    · exact ⟨_,.cfb _⟩
    · exact ⟨_,.cfbNonce _ (by simp [CfbNonceProcessor.new, HANDSHAKE_PACKET_SIZE, TAG_SIZE, NONCE_SIZE])⟩
    · obtain ⟨c,-,hc,-,hchunk,-,hbound,-⟩ := paddingArgs_some ha
      refine ⟨_,.padding _ (hspec hn c hc a.chunk (by rw [hchunk]; rfl)) ?_ ?_⟩
      · simp only [PaddingProcessor.new, U32_MAX_AS_SIZE_T] at hbound ⊢
        omega
      · simp only [PaddingProcessor.new, List.length_nil]
        omega
  have hall : ∀ {specs : List ByteSpan} {ps : List ProcessorPtr}, (∀ spec ∈ specs, Chunked spec) →
      List.Forall₂ (fun spec p => ∃ i, buildProcessor C R host reverse i spec = .ok (some p)) specs ps →
        ∃ bs, List.Forall₂ (Fits C R) bs ps := by
    intro specs ps hchunk hps
    induction hps with
    | nil => exact ⟨[],.nil⟩
    | cons hp _ ih =>
      obtain ⟨b,hb⟩ := hbuilt (hchunk _ (List.mem_cons_self ..)) hp
      obtain ⟨bs,hbs⟩ := ih fun spec hs => hchunk spec (List.mem_cons_of_mem _ hs)
      exact ⟨b :: bs,.cons hb hbs⟩
  rw [buildProcessorChain] at h
  split_ifs at h
  case pos =>
    obtain rfl := Option.some.inj (Except.ok.inj h)
    exact ⟨[⟨0,1⟩],.cons (.identity _) .nil⟩
  all_goals
    obtain ⟨ps,rfl,hps⟩ := addProcessors_some h
    exact hall (by simpa using hchunk) hps

theorem exists_budget {bs : List Budget} {chain : List ProcessorPtr} (h : List.Forall₂ (Fits C R) bs chain) :
    ∀ p ∈ chain, ∃ b, Fits C R b p := by
  induction h with
  | nil => simp
  | cons hp _ ih => exact List.forall_mem_cons.mpr ⟨⟨_,hp⟩,ih⟩

/-- The calls of a chain come to an end. -/
theorem chain_ends {bs : List Budget} {chain : ProcessorChain ProcessorPtr} (h : List.Forall₂ (Fits C R) bs chain)
    (x : ByteSpan) : (chain.onLocalData x).error ≠ some .endless ∧ (chain.onRemoteData x).error ≠ some .endless := by
  have hfits := exists_budget h
  rw [ProcessorChain.onLocalData_eq_through, ProcessorChain.onRemoteData_eq_through]
  refine ⟨through_error_ne (fun p hp xs => ?_) [x],through_error_ne (fun p hp xs => ?_) [x]⟩
  · obtain ⟨b,hb⟩ := hfits p hp
    exact (hb.feed xs).1.ends
  · obtain ⟨b,hb⟩ := hfits p (List.mem_reverse.mp hp)
    exact (hb.feed xs).2.ends

theorem chain_within {bs : List Budget} {chain : ProcessorChain ProcessorPtr} (h : List.Forall₂ (Fits C R) bs chain) (x : ByteSpan) :
    ((chain.onLocalData x).error = none → List.Forall₂ (Fits C R) bs (chain.onLocalData x).state ∧
      (chain.onLocalData x).bytes.length ≤ Budget.total bs x.length) ∧
    ((chain.onRemoteData x).error = none → List.Forall₂ (Fits C R) bs (chain.onRemoteData x).state ∧
      (chain.onRemoteData x).bytes.length ≤ Budget.total bs.reverse x.length) := by
  have hflat : [x].flatten.length = x.length := by simp
  rw [ProcessorChain.onLocalData_eq_through, ProcessorChain.onRemoteData_eq_through]
  refine ⟨fun he => ?_,fun he => ?_⟩
  · exact hflat ▸ through_within (fun b p xs hp => (Fits.feed hp xs).1.pays) h [x] he
  · obtain ⟨hstate,hlen⟩ := through_within (fun b p xs hp => (Fits.feed hp xs).2.pays) (List.rel_reverse h) [x] he
    refine ⟨?_,hflat ▸ hlen⟩
    have hback := List.rel_reverse hstate
    rwa [List.reverse_reverse] at hback

end Chain

namespace SessionState
variable {C : Crypto} {R : RandomEngine} {bs : List Budget} {s t : SessionState} {side : Side} {e : LoopEvent}

/-- The most that can come out of the chain for one read of a side. -/
def most (bs : List Budget) : Side → ℕ
  | .localSide => Budget.total bs READ_SIZE
  | .remoteSide => Budget.total bs.reverse READ_SIZE

/-- A session whose processors are within their budgets and whose loops have no more to
write than what can come of one read. -/
structure Bounded (C : Crypto) (R : RandomEngine) (bs : List Budget) (s : SessionState) : Prop where
  fits : List.Forall₂ (Fits C R) bs s.chain
  pending : ∀ t, (pending (s.loop t).pc).length ≤ most bs t

theorem step_read_length {input : ByteVector} (hs : s.step (side,.read (.data input)) = some t) : input.length ≤ READ_SIZE := by
  have hpc := step_reading hs
  rw [step_eq] at hs
  simp only [readLoop, hpc] at hs
  split_ifs at hs with hlen
  omega

theorem onData_bounded (h : s.Bounded C R bs) {input : ByteVector} (hlen : input.length ≤ READ_SIZE)
    (he : (onData side s.chain input).error = none) :
    List.Forall₂ (Fits C R) bs (onData side s.chain input).state ∧
      (onData side s.chain input).output.flatten.length ≤ most bs side := by
  obtain ⟨hl,hr⟩ := chain_within h.fits input
  cases side with
  | localSide => exact ⟨(hl he).1,(hl he).2.trans (Budget.total_mono bs hlen)⟩
  | remoteSide => exact ⟨(hr he).1,(hr he).2.trans (Budget.total_mono bs.reverse hlen)⟩

/-- A step that leaves the session open leaves it within its bounds. -/
theorem step_bounded (hi : s.Inv) (h : s.Bounded C R bs) (hs : s.step (side,e) = some t) (ht : t.closed = false) :
    t.Bounded C R bs := by
  have hother : t.loop side.opposite = s.loop side.opposite := (readLoop_advance ((step_eq s side e).symm.trans hs)).apart.1
  have hnow : List.Forall₂ (Fits C R) bs t.chain ∧ (pending (t.loop side).pc).length ≤ most bs side := by
    have hold := h.pending side
    have hover : ∀ z : SessionState, (pending ((z.finish side).loop side).pc).length ≤ most bs side := by
      intro z
      rw [finish_loop]
      simp [setPc, pending]
    cases step_turn hi hs with
    | start =>
      obtain ⟨-,-,hpending⟩ := writeNext_keeps s side []
      exact ⟨(next_chain s side).symm ▸ h.fits,by rw [show s.next side = s.writeNext side [] from rfl, hpending]; simp⟩
    | data input hpc he =>
      obtain ⟨hfits,hlen⟩ := onData_bounded h (step_read_length hs) he
      obtain ⟨-,-,hpending⟩ := writeNext_keeps (s.absorb side (onData side s.chain input)) side (onData side s.chain input).output
      exact ⟨(writeNext_chain (s.absorb side _) side _).symm ▸ hfits,hpending ▸ hlen⟩
    | eof =>
      refine ⟨?_,hover _⟩
      rw [finish_chain]
      split_ifs <;> exact h.fits
    | aborted =>
      rw [finish_chain]
      exact ⟨h.fits,hover s⟩
    | transfer sent now rest more n hpc =>
      rw [hpc] at hold
      simp only [pending, List.length_append] at hold
      refine ⟨h.fits,?_⟩
      simp only [setPc, setSock_loop, setLoop_loop, pending, List.length_append]
      omega
    | writeOk sent more hpc =>
      obtain ⟨-,-,hpending⟩ := writeNext_keeps (s.count side sent.length) side more
      rw [hpc] at hold
      exact ⟨(writeNext_chain (s.count side sent.length) side more).symm ▸ h.fits,hpending ▸ hold⟩
    | fault =>
      rw [finish_closed, closeOnce_closed] at ht
      cases ht
  refine ⟨hnow.1,fun u => ?_⟩
  obtain rfl | rfl := u.eq_or_eq_opposite side
  · exact hnow.2
  · rw [hother]
    exact h.pending _

theorem Bounded.ends (h : s.Bounded C R bs) (side : Side) (input : ByteSpan) :
    (onData side s.chain input).error ≠ some .endless := by
  obtain ⟨hl,hr⟩ := chain_ends h.fits input
  cases side
  · exact hl
  · exact hr

/-- Once a chain is built whose padding has chunks that are not empty, what a session on it
holds is bounded, in every run and as long as the session is open: every processor has put by
no more than its budget, and what a loop has yet to write is no more than can come of one
read of 64 KiB, whatever the two ends send, in whatever pieces, and however slowly they take
what is written. No call is left out by this, for every one of them comes to its end; with an
empty chunk a call goes on for ever, which is no step of a session. -/
theorem session_bounded {host : Host} {reverse : Bool} {specs : List ByteSpan} {chain : ProcessorChain ProcessorPtr}
    (hchunk : ∀ spec ∈ specs, Chunked spec) (hbuild : buildProcessorChain C R host reverse specs = .ok (some chain)) :
    ∃ bs, ∀ (id : UInt64) (events : List (Side × LoopEvent)) (s : SessionState),
      run step (startSession id chain) events = some s → s.closed = false →
        List.Forall₂ (Fits C R) bs s.chain ∧ (∀ t, (pending (s.loop t).pc).length ≤ most bs t) ∧
        ∀ t input, (onData t s.chain input).error ≠ some .endless := by
  obtain ⟨bs,hbs⟩ := buildProcessorChain_fits hchunk hbuild
  refine ⟨bs,fun id events s hrun hopen => ?_⟩
  have hstart := startSession_inv id (buildProcessorChain_silent hbuild)
  have hall := run_invariant (P := fun s : SessionState => s.Inv ∧ (s.closed = false → s.Bounded C R bs)) hrun
    ⟨hstart,fun _ => ⟨hbs,fun _ => Nat.zero_le _⟩⟩ ?_
  · have hbounded := hall.2 hopen
    exact ⟨hbounded.fits,hbounded.pending,hbounded.ends⟩
  · rintro s t ⟨side,e⟩ ⟨hi,hb⟩ hs
    refine ⟨step_inv hi hs,fun ht => ?_⟩
    have hs' : s.closed = false := by
      rw [← Bool.not_eq_true]
      intro hc
      rw [step_closed hi hs hc] at ht
      cases ht
    exact step_bounded hi (hb hs') hs ht

/-- A byte is read that the padding processor makes a frame of. -/
def paddedEvents : List (Side × LoopEvent) := [(.localSide,.start),(.localSide,.read (.data [0x61]))]

theorem session_bounded_padded : ∃ chain bs s,
    buildProcessorChain CfbNonceProcessor.knownCrypto zeroEngine zeroHost false [text "padding:chunk=4,max=2,seed=1"] =
      .ok (some chain) ∧ run step (startSession 0 chain) paddedEvents = some s ∧
    (pending (s.loop .localSide).pc).length = 9 ∧ 9 ≤ most bs .localSide := by
  obtain ⟨chain,hbuild,s,hrun,hpending,hopen⟩ : ∃ chain,
      buildProcessorChain CfbNonceProcessor.knownCrypto zeroEngine zeroHost false [text "padding:chunk=4,max=2,seed=1"] =
        .ok (some chain) ∧ ∃ s, run step (startSession 0 chain) paddedEvents = some s ∧
      (pending (s.loop .localSide).pc).length = 9 ∧ s.closed = false := ⟨_,rfl,_,rfl,rfl,rfl⟩
  have hchunk : ∀ spec ∈ [text "padding:chunk=4,max=2,seed=1"], Chunked spec := by
    decide +kernel
  obtain ⟨bs,hbs⟩ := session_bounded hchunk hbuild
  exact ⟨chain,bs,s,hbuild,hrun,hpending,hpending ▸ (hbs 0 paddedEvents s hrun hopen).2.1 .localSide⟩

end SessionState

end Msg801.Tunnel
