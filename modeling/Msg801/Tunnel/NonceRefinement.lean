import Msg801.Tunnel.CfbNonce

/-! # The nonce processor as a plain CFB processor behind a packet

Calls of `pack` and `unpack` come in any order. Behind the packet each direction is what
a fresh CFB processor with the derived key makes of it.
-/
namespace Msg801.Tunnel.CfbNonceProcessor
open Stage TwoWayProcessor

variable {C : Crypto}

/-- The inputs of the `pack` calls and the joined inputs of the `unpack` calls. -/
def packInputs (calls : List (ByteSpan ⊕ ByteSpan)) : List ByteSpan := calls.filterMap Sum.getLeft?
def unpackInput (calls : List (ByteSpan ⊕ ByteSpan)) : ByteSpan :=
  (calls.filterMap Sum.getRight?).flatten

/-- A derived key is long enough to be taken as it is. -/
theorem new_derived_keystream (C : Crypto) (data : ByteSpan) (reverse : Bool) :
    (CfbProcessor.new (C.SHA512 data) reverse).packKeystream = (C.SHA512 data,0) ∧
    (CfbProcessor.new (C.SHA512 data) reverse).unpackKeystream = (C.SHA512 data,0) := by
  have hkey : CfbProcessor.extendKey (C.SHA512 data) = C.SHA512 data := by
    unfold CfbProcessor.extendKey
    rw [C.sha512_length, if_neg (by decide)]
  exact ⟨congrArg (·,0) hkey,congrArg (·,0) hkey⟩

/-- The cipher loops only ever meet vectors of the digest's length: those in place once a
direction is ready, and those the two initializations are about to put there. -/
structure Keyed (p : CfbNonceProcessor C) : Prop where
  pack : p.packReady = true → p.packIv.length = 64
  unpack : p.unpackReady = true → p.unpackIv.length = 64
  initPack : p.initPack.error = none → p.initPack.state.packIv.length = 64
  initUnpack : ∀ packet q, p.initUnpack packet = .ok q → q.unpackIv.length = 64

theorem Keyed.of_ready {p : CfbNonceProcessor C} (hp : p.packReady = true → p.packIv.length = 64)
    (hu : p.unpackReady = true → p.unpackIv.length = 64) : p.Keyed := by
  refine ⟨hp,hu,fun h => ?_,fun packet q h => ?_⟩
  · simp only [CfbNonceProcessor.initPack] at h ⊢
    rcases hm : p.makeNonce.2 with e | nonce
    · simp [hm] at h
    · rcases ht : hmacSha256 C p.hmacKey nonce.1 with e | tag
      · simp [hm, ht] at h
      · simp only [ht]
        exact C.sha512_length _
  · simp only [CfbNonceProcessor.initUnpack] at h
    rcases ht : hmacSha256 C p.hmacKey ((packet.drop TAG_SIZE).take NONCE_SIZE) with e | tag
    · simp [ht] at h
    · simp only [ht] at h
      split_ifs at h
      · cases h
        exact C.sha512_length _

theorem Keyed.pack_call {p : CfbNonceProcessor C} (h : p.Keyed) (x : ByteSpan) :
    (CfbNonceProcessor.pack p x).state.Keyed := by
  cases hr : p.packReady with
  | true =>
    rw [pack_ready hr]
    refine .of_ready (fun _ => ?_) h.unpack
    exact (Cfb.encrypt_iv_length (p.packIv,p.packOffset) x).trans (h.pack hr)
  | false =>
    cases hn : p.randBytes 0 with
    | none =>
      rw [pack_no_nonce hr hn]
      exact .of_ready h.pack h.unpack
    | some nonce =>
      rcases Nat.lt_or_ge INT_MAX p.hmacKey.length with hk | hk
      · rw [pack_no_mac hr hn hk]
        exact .of_ready h.pack h.unpack
      · rw [pack_first hr hn hk]
        refine .of_ready (fun _ => ?_) h.unpack
        exact (Cfb.encrypt_iv_length (p.deriveIv nonce.1,p.packOffset) x).trans (C.sha512_length _)

theorem Keyed.unpack_call {p : CfbNonceProcessor C} (h : p.Keyed) (x : ByteSpan) :
    (CfbNonceProcessor.unpack p x).state.Keyed := by
  cases hr : p.unpackReady with
  | true =>
    rw [unpack_ready hr]
    refine .of_ready h.pack fun _ => ?_
    exact (Cfb.decrypt_iv_length (p.unpackIv,p.unpackOffset) x).trans (h.unpack hr)
  | false =>
    by_cases hl : (p.unpackHandshakeBuffer ++ x).length < HANDSHAKE_PACKET_SIZE
    · rw [unpack_waiting hr hl]
      exact .of_ready h.pack h.unpack
    rcases Nat.lt_or_ge INT_MAX p.hmacKey.length with hk | hk
    · rw [unpack_no_mac hr hk hl]
      exact .of_ready h.pack h.unpack
    by_cases ha : Authentic C p.hmacKey (p.unpackHandshakeBuffer ++ x)
    · rw [unpack_first hr hk hl ha]
      refine .of_ready h.pack fun _ => ?_
      exact (Cfb.decrypt_iv_length (p.deriveIv _,p.unpackOffset) _).trans (C.sha512_length _)
    · rw [unpack_refused hr hk hl ha]
      exact .of_ready h.pack h.unpack

/-- Whatever the calls and however they end, a cipher loop runs on a vector of 64 bytes. -/
theorem exchange_keyed (iv hmacKey : ByteSpan) (reverse : Bool) (randBytes : ℕ → Option Nonce)
    (calls : List (ByteSpan ⊕ ByteSpan)) :
    (exchange pack unpack (new iv hmacKey reverse randBytes : CfbNonceProcessor C) calls).state.Keyed :=
  exchange_keeps (Q := Keyed) (fun _ x h => h.pack_call x) (fun _ x h => h.unpack_call x)
    (.of_ready (fun h => absurd h Bool.false_ne_true) fun h => absurd h Bool.false_ne_true) calls

/-- Any calls of both methods, with an authentic packet from the peer if a whole one has
come. Nothing throws. What was packed is the packet, once, and behind it the output of a
CFB processor keyed by the nonce drawn; what was unpacked is the output of one keyed by
the peer's nonce on the bytes behind the peer's packet. -/
theorem refines_cfb (iv hmacKey : ByteSpan) (reverse : Bool) (randBytes : ℕ → Option Nonce)
    (nonce : Nonce) (calls : List (ByteSpan ⊕ ByteSpan)) (hk : hmacKey.length ≤ INT_MAX)
    (hn : randBytes 0 = some nonce)
    (hpeer : HANDSHAKE_PACKET_SIZE ≤ (unpackInput calls).length →
      Authentic C hmacKey (unpackInput calls)) :
    let r := exchange pack unpack (new iv hmacKey reverse randBytes : CfbNonceProcessor C) calls
    let cipher := CfbProcessor.new (C.SHA512 (nonce.1 ++ iv)) reverse
    let peer := CfbProcessor.new (C.SHA512 (receivedNonce (unpackInput calls) ++ iv)) reverse
    r.error = none ∧
    r.left = (if packInputs calls = [] then []
      else C.HMAC hmacKey nonce.1 ++ nonce.1 ++ (feed CfbProcessor.pack cipher (packInputs calls)).bytes) ∧
    r.right = (if (unpackInput calls).length < HANDSHAKE_PACKET_SIZE then []
      else (CfbProcessor.unpack peer ((unpackInput calls).drop HANDSHAKE_PACKET_SIZE)).bytes) ∧
    r.state.Keyed := by
  intro r cipher peer
  obtain ⟨hcipher,-⟩ := new_derived_keystream C (nonce.1 ++ iv) reverse
  obtain ⟨-,hkeys⟩ := new_derived_keystream C (receivedNonce (unpackInput calls) ++ iv) reverse
  let p : CfbNonceProcessor C := new iv hmacKey reverse randBytes
  -- each method called alone
  have hpacked : (feed pack p (packInputs calls)).error = none ∧
      (feed pack p (packInputs calls)).bytes = if packInputs calls = [] then []
        else C.HMAC hmacKey nonce.1 ++ nonce.1 ++
          (feed CfbProcessor.pack cipher (packInputs calls)).bytes := by
    cases hcalls : packInputs calls with
    | nil => exact ⟨rfl,rfl⟩
    | cons x xs =>
      obtain ⟨he,hb⟩ := pack_feed (p := p) rfl rfl hk hn x xs
      obtain ⟨-,hplain,-⟩ := CfbProcessor.pack_feed cipher (x :: xs)
      rw [if_neg (List.cons_ne_nil x xs), hplain, hcipher]
      exact ⟨he,hb⟩
  have hgate : p.gateError (unpackInput calls) = none := if_neg fun ⟨hl,ha⟩ => ha (hpeer hl)
  obtain ⟨herror,-,hbytes⟩ := unpack_feed (p := p) rfl rfl hk rfl (calls.filterMap Sum.getRight?) hgate
  obtain ⟨h₁,h₂,h₃⟩ := exchange_separate (p := p) (pack_within (P := CfbNonceProcessor C))
    pack_unseen unpack_within unpack_unseen hpacked.1 herror
  refine ⟨h₁,h₂.trans hpacked.2,h₃.trans (hbytes.trans ?_),exchange_keyed iv hmacKey reverse _ calls⟩
  change p.plaintext (unpackInput calls) = _
  by_cases hl : (unpackInput calls).length < HANDSHAKE_PACKET_SIZE
  · rw [if_pos hl]
    exact if_neg fun hopen => absurd hopen.1 (by omega)
  · rw [if_neg hl, plaintext, if_pos ⟨by omega,hpeer (by omega)⟩, CfbProcessor.unpack, hkeys]
    exact (List.append_nil _).symm

/-- Two packs around the peer's packet, which comes cut inside its nonce. -/
def crossedCalls : List (ByteSpan ⊕ ByteSpan) :=
  [.inl (text "hi"),.inr (knownTag ++ List.replicate 500 0),.inl (text "!"),
    .inr (List.replicate 12 0 ++ [0x41])]

theorem refines_cfb_crossed :
    let nonce : Nonce := ⟨List.replicate 512 0,List.length_replicate⟩
    let r := exchange pack unpack
      (new (text "v") (text "k") false (fun _ => some nonce) : CfbNonceProcessor knownCrypto) crossedCalls
    let cipher := CfbProcessor.new (knownCrypto.SHA512 (nonce.1 ++ text "v")) false
    r.error = none ∧ r.state.Keyed ∧
    r.left = knownTag ++ nonce.1 ++ (feed CfbProcessor.pack cipher [text "hi",text "!"]).bytes ∧
    r.right = (CfbProcessor.unpack cipher [0x41]).bytes := by
  intro nonce r cipher
  obtain ⟨herror,hleft,hright,hkeyed⟩ := refines_cfb (C := knownCrypto) (text "v") (text "k") false
    (fun _ => some nonce) nonce crossedCalls (by decide) rfl (fun _ => by decide +kernel)
  have hnonce : receivedNonce (unpackInput crossedCalls) = nonce.1 := by decide +kernel
  have hlong : ¬(unpackInput crossedCalls).length < HANDSHAKE_PACKET_SIZE := by decide +kernel
  have htail : (unpackInput crossedCalls).drop HANDSHAKE_PACKET_SIZE = [0x41] := by decide +kernel
  have htag : knownCrypto.HMAC (text "k") nonce.1 = knownTag := by decide +kernel
  rw [if_neg hlong, htail, hnonce] at hright
  rw [if_neg (by decide), htag] at hleft
  exact ⟨herror,hkeyed,hleft,hright⟩

end Msg801.Tunnel.CfbNonceProcessor
