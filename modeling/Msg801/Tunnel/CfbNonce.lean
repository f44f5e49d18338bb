import Msg801.Tunnel.Cfb

/-! # The CFB processor behind an authenticated nonce

Each direction starts with a packet `tag ++ nonce`; the key stream of the direction is
derived from the nonce and the base vector. The digest, the MAC and the random bytes come
from a library and are parameters.
-/
namespace Msg801.Tunnel
open Stage

def NONCE_SIZE : ℕ := 512
def TAG_SIZE : ℕ := 32
def HANDSHAKE_PACKET_SIZE : ℕ := TAG_SIZE + NONCE_SIZE

/-- The largest `int`, which bounds the key length the MAC call can be given. -/
def INT_MAX : ℕ := 2 ^ 31 - 1

/-- HMAC-SHA256 and SHA-512 as functions of their inputs with results of fixed length. -/
structure Crypto where
  HMAC : ByteSpan → ByteSpan → ByteVector
  SHA512 : ByteSpan → ByteVector
  hmac_length : ∀ key data, (HMAC key data).length = TAG_SIZE
  sha512_length : ∀ data, (SHA512 data).length = 64

/-- A string of nonce length. -/
abbrev Nonce := { nonce : ByteVector // nonce.length = NONCE_SIZE }

structure CfbNonceProcessor (C : Crypto) where
  reverse : Bool
  baseIv : ByteVector
  hmacKey : ByteVector
  packIv : ByteVector := []
  unpackIv : ByteVector := []
  packOffset : UInt64 := 0
  unpackOffset : UInt64 := 0
  packReady : Bool := false
  unpackReady : Bool := false
  unpackHandshakeBuffer : ByteVector := []
  /-- What the coming calls of `RAND_bytes` give, `none` for a failure. -/
  randBytes : ℕ → Option Nonce

namespace CfbNonceProcessor
variable {C : Crypto}

def new (iv hmacKey : ByteSpan) (reverse : Bool) (randBytes : ℕ → Option Nonce) :
    CfbNonceProcessor C where
  reverse := reverse
  baseIv := iv
  hmacKey := hmacKey
  randBytes := randBytes

def hmacSha256 (C : Crypto) (key data : ByteSpan) : Except Abort ByteVector :=
  if key.length > INT_MAX then .error (.runtimeError "hmac key is too large")
  else .ok (C.HMAC key data)

def deriveIv (p : CfbNonceProcessor C) (nonce : ByteSpan) : ByteVector :=
  C.SHA512 (nonce ++ p.baseIv)

def makeNonce (p : CfbNonceProcessor C) : CfbNonceProcessor C × Except Abort Nonce :=
  ({ p with randBytes := fun k => p.randBytes (k + 1) },
    match p.randBytes 0 with
    | none => .error (.runtimeError "failed to generate cfb_nonce nonce")
    | some nonce => .ok nonce)

def initPack (p : CfbNonceProcessor C) : Outcome (CfbNonceProcessor C) :=
  let m := p.makeNonce
  match m.2 with
  | .error e => ⟨m.1,[],some e⟩
  | .ok nonce =>
    match hmacSha256 C p.hmacKey nonce.1 with
    | .error e => ⟨m.1,[],some e⟩
    | .ok tag =>
      ⟨{ m.1 with packIv := p.deriveIv nonce.1, packReady := true },[tag ++ nonce.1],none⟩

def initUnpack (p : CfbNonceProcessor C) (packet : ByteSpan) :
    Except Abort (CfbNonceProcessor C) :=
  let expectedTag := packet.take TAG_SIZE
  let nonce := (packet.drop TAG_SIZE).take NONCE_SIZE
  match hmacSha256 C p.hmacKey nonce with
  | .error e => .error e
  | .ok actualTag =>
    if expectedTag = actualTag then
      .ok { p with unpackIv := p.deriveIv nonce, unpackReady := true }
    else .error (.runtimeError "cfb_nonce handshake hmac mismatch")

/-- `encrypt` on the pack key stream, the member's own copy of the loop. -/
def encrypt (p : CfbNonceProcessor C) (input : ByteSpan) : Outcome (CfbNonceProcessor C) :=
  let r := Cfb.encrypt (p.packIv,p.packOffset) input
  ⟨{ p with packIv := r.1.1, packOffset := r.1.2 },[r.2],none⟩

/-- `decrypt` on the unpack key stream, the member's own copy of the loop. -/
def decrypt (p : CfbNonceProcessor C) (input : ByteSpan) : Outcome (CfbNonceProcessor C) :=
  let r := Cfb.decrypt (p.unpackIv,p.unpackOffset) input
  ⟨{ p with unpackIv := r.1.1, unpackOffset := r.1.2 },[r.2],none⟩

def pack (p : CfbNonceProcessor C) (input : ByteSpan) : Outcome (CfbNonceProcessor C) :=
  if !p.packReady then
    let h := p.initPack
    match h.error with
    | some e => ⟨h.state,h.output,some e⟩
    | none =>
      let r := h.state.encrypt input
      ⟨r.state,h.output ++ r.output,none⟩
  else p.encrypt input

/-- The handshake branch of `unpack`, once the input is in the handshake buffer. -/
def unpackHandshake (p : CfbNonceProcessor C) : Outcome (CfbNonceProcessor C) :=
  if p.unpackHandshakeBuffer.length < HANDSHAKE_PACKET_SIZE then ⟨p,[],none⟩
  else
    match p.initUnpack (p.unpackHandshakeBuffer.take HANDSHAKE_PACKET_SIZE) with
    | .error e => ⟨p,[],some e⟩
    | .ok q =>
      let r := q.decrypt (q.unpackHandshakeBuffer.drop HANDSHAKE_PACKET_SIZE)
      ⟨{ r.state with unpackHandshakeBuffer := [] },r.output,none⟩

/-- The buffer with the input appended. -/
def bufferHandshake (p : CfbNonceProcessor C) (input : ByteSpan) : CfbNonceProcessor C :=
  { p with unpackHandshakeBuffer := p.unpackHandshakeBuffer ++ input }

def unpack (p : CfbNonceProcessor C) (input : ByteSpan) : Outcome (CfbNonceProcessor C) :=
  if !p.unpackReady then (p.bufferHandshake input).unpackHandshake
  else p.decrypt input

/-- The nonce in the first bytes of a direction. -/
def receivedNonce (received : ByteSpan) : ByteSpan := (received.drop TAG_SIZE).take NONCE_SIZE

/-- The first bytes of a direction are a packet whose tag is the MAC of its nonce. -/
def Authentic (C : Crypto) (hmacKey : ByteSpan) (received : ByteSpan) : Prop :=
  received.take TAG_SIZE = C.HMAC hmacKey (receivedNonce received)

instance (hmacKey received : ByteSpan) : Decidable (Authentic C hmacKey received) :=
  inferInstanceAs (Decidable (_ = _))

section Calls
variable {p : CfbNonceProcessor C} {nonce : Nonce}

theorem pack_ready (h : p.packReady = true) (x : ByteSpan) : pack p x = p.encrypt x := by
  simp [pack, h]

theorem pack_no_nonce (h : p.packReady = false) (hn : p.randBytes 0 = none) (x : ByteSpan) :
    pack p x = ⟨p.makeNonce.1,[],some (.runtimeError "failed to generate cfb_nonce nonce")⟩ := by
  simp [pack, h, initPack, makeNonce, hn]

theorem pack_no_mac (h : p.packReady = false) (hn : p.randBytes 0 = some nonce)
    (hk : p.hmacKey.length > INT_MAX) (x : ByteSpan) :
    pack p x = ⟨p.makeNonce.1,[],some (.runtimeError "hmac key is too large")⟩ := by
  simp [pack, h, initPack, makeNonce, hn, hmacSha256, hk]

/-- The first call emits the packet and then works on the derived key stream. -/
theorem pack_first (h : p.packReady = false) (hn : p.randBytes 0 = some nonce)
    (hk : p.hmacKey.length ≤ INT_MAX) (x : ByteSpan) :
    pack p x = ⟨{ p with
        packIv := (Cfb.encrypt (p.deriveIv nonce.1,p.packOffset) x).1.1
        packOffset := (Cfb.encrypt (p.deriveIv nonce.1,p.packOffset) x).1.2
        packReady := true
        randBytes := fun k => p.randBytes (k + 1) },
      [C.HMAC p.hmacKey nonce.1 ++ nonce.1,
        (Cfb.encrypt (p.deriveIv nonce.1,p.packOffset) x).2],none⟩ := by
  simp [pack, h, initPack, makeNonce, hn, hmacSha256, Nat.not_lt.mpr hk, encrypt]

theorem unpack_ready (h : p.unpackReady = true) (x : ByteSpan) : unpack p x = p.decrypt x := by
  simp [unpack, h]

theorem unpack_unready (h : p.unpackReady = false) (x : ByteSpan) :
    unpack p x = (p.bufferHandshake x).unpackHandshake := by
  simp [unpack, h]

@[simp] theorem bufferHandshake_buffer (p : CfbNonceProcessor C) (x : ByteSpan) :
    (p.bufferHandshake x).unpackHandshakeBuffer = p.unpackHandshakeBuffer ++ x := rfl
@[simp] theorem bufferHandshake_hmacKey (p : CfbNonceProcessor C) (x : ByteSpan) :
    (p.bufferHandshake x).hmacKey = p.hmacKey := rfl

theorem unpackHandshake_error {e : Abort}
    (hl : ¬p.unpackHandshakeBuffer.length < HANDSHAKE_PACKET_SIZE)
    (he : p.initUnpack (p.unpackHandshakeBuffer.take HANDSHAKE_PACKET_SIZE) = .error e) :
    p.unpackHandshake = ⟨p,[],some e⟩ := by
  simp [unpackHandshake, hl, he]

theorem unpack_waiting (h : p.unpackReady = false) {x : ByteSpan}
    (hl : (p.unpackHandshakeBuffer ++ x).length < HANDSHAKE_PACKET_SIZE) :
    unpack p x = ⟨p.bufferHandshake x,[],none⟩ := by
  rw [unpack_unready h]
  exact if_pos hl

theorem initUnpack_packet (hk : p.hmacKey.length ≤ INT_MAX) (received : ByteSpan) :
    p.initUnpack (received.take HANDSHAKE_PACKET_SIZE) =
      if Authentic C p.hmacKey received then
        .ok { p with unpackIv := p.deriveIv (receivedNonce received), unpackReady := true }
      else .error (.runtimeError "cfb_nonce handshake hmac mismatch") := by
  have ht : (received.take HANDSHAKE_PACKET_SIZE).take TAG_SIZE = received.take TAG_SIZE := by
    rw [List.take_take]
    rfl
  have hn : ((received.take HANDSHAKE_PACKET_SIZE).drop TAG_SIZE).take NONCE_SIZE =
      receivedNonce received := by
    rw [List.drop_take, List.take_take]
    rfl
  simp only [initUnpack, hmacSha256, ht, hn, Nat.not_lt.mpr hk, if_false, Authentic]
  rfl

/-- The call that completes the packet throws when the MAC cannot be computed. -/
theorem unpack_no_mac (h : p.unpackReady = false) (hk : p.hmacKey.length > INT_MAX) {x : ByteSpan}
    (hl : ¬(p.unpackHandshakeBuffer ++ x).length < HANDSHAKE_PACKET_SIZE) :
    unpack p x = ⟨p.bufferHandshake x,[],some (.runtimeError "hmac key is too large")⟩ := by
  rw [unpack_unready h]
  exact unpackHandshake_error hl (by simp [initUnpack, hmacSha256, hk])

theorem unpack_refused (h : p.unpackReady = false) (hk : p.hmacKey.length ≤ INT_MAX)
    {x : ByteSpan} (hl : ¬(p.unpackHandshakeBuffer ++ x).length < HANDSHAKE_PACKET_SIZE)
    (ha : ¬Authentic C p.hmacKey (p.unpackHandshakeBuffer ++ x)) :
    unpack p x = ⟨p.bufferHandshake x,[],
      some (.runtimeError "cfb_nonce handshake hmac mismatch")⟩ := by
  rw [unpack_unready h]
  exact unpackHandshake_error hl ((initUnpack_packet (p := p.bufferHandshake x) hk _).trans (if_neg ha))

theorem unpack_first (h : p.unpackReady = false) (hk : p.hmacKey.length ≤ INT_MAX)
    {x : ByteSpan} (hl : ¬(p.unpackHandshakeBuffer ++ x).length < HANDSHAKE_PACKET_SIZE)
    (ha : Authentic C p.hmacKey (p.unpackHandshakeBuffer ++ x)) :
    unpack p x =
      let k := (p.deriveIv (receivedNonce (p.unpackHandshakeBuffer ++ x)),p.unpackOffset)
      let r := Cfb.decrypt k ((p.unpackHandshakeBuffer ++ x).drop HANDSHAKE_PACKET_SIZE)
      ⟨{ p with
        unpackIv := r.1.1, unpackOffset := r.1.2, unpackReady := true,
        unpackHandshakeBuffer := [] },[r.2],none⟩ := by
  have hi := initUnpack_packet (p := p.bufferHandshake x) hk (p.unpackHandshakeBuffer ++ x)
  rw [bufferHandshake_hmacKey, if_pos ha] at hi
  rw [unpack_unready h, unpackHandshake, bufferHandshake_buffer, if_neg hl, hi]
  rfl

end Calls

/-- The fields that only `pack` reads or writes. -/
def packHalf (p : CfbNonceProcessor C) : CfbNonceProcessor C := { p with
  unpackIv := [], unpackOffset := 0, unpackReady := false, unpackHandshakeBuffer := [] }

/-- The fields that only `unpack` reads or writes. -/
def unpackHalf (p : CfbNonceProcessor C) : CfbNonceProcessor C := { p with
  packIv := [], packOffset := 0, packReady := false, randBytes := fun _ => none }

/-- What a call of `pack` does, by the state it meets. -/
theorem pack_frame (p : CfbNonceProcessor C) (x : ByteSpan) :
    pack p.packHalf x = ⟨(pack p x).state.packHalf,(pack p x).output,(pack p x).error⟩ ∧
    (pack p x).state.unpackHalf = p.unpackHalf ∧ (pack p x).state.reverse = p.reverse := by
  cases hr : p.packReady with
  | true =>
    rw [pack_ready hr, pack_ready (p := p.packHalf) hr]
    exact ⟨rfl,rfl,rfl⟩
  | false =>
    cases hn : p.randBytes 0 with
    | none =>
      rw [pack_no_nonce hr hn, pack_no_nonce (p := p.packHalf) hr hn]
      exact ⟨rfl,rfl,rfl⟩
    | some nonce =>
      rcases Nat.lt_or_ge INT_MAX p.hmacKey.length with hk | hk
      · rw [pack_no_mac hr hn hk, pack_no_mac (p := p.packHalf) hr hn hk]
        exact ⟨rfl,rfl,rfl⟩
      · rw [pack_first hr hn hk, pack_first (p := p.packHalf) hr hn hk]
        exact ⟨rfl,rfl,rfl⟩

/-- What a call of `unpack` does, by the state it meets. -/
theorem unpack_frame (p : CfbNonceProcessor C) (x : ByteSpan) :
    unpack p.unpackHalf x = ⟨(unpack p x).state.unpackHalf,(unpack p x).output,(unpack p x).error⟩ ∧
    (unpack p x).state.packHalf = p.packHalf ∧ (unpack p x).state.reverse = p.reverse := by
  cases hr : p.unpackReady with
  | true =>
    rw [unpack_ready hr, unpack_ready (p := p.unpackHalf) hr]
    exact ⟨rfl,rfl,rfl⟩
  | false =>
    by_cases hl : (p.unpackHandshakeBuffer ++ x).length < HANDSHAKE_PACKET_SIZE
    · rw [unpack_waiting hr hl, unpack_waiting (p := p.unpackHalf) hr hl]
      exact ⟨rfl,rfl,rfl⟩
    rcases Nat.lt_or_ge INT_MAX p.hmacKey.length with hk | hk
    · rw [unpack_no_mac hr hk hl, unpack_no_mac (p := p.unpackHalf) hr hk hl]
      exact ⟨rfl,rfl,rfl⟩
    by_cases ha : Authentic C p.hmacKey (p.unpackHandshakeBuffer ++ x)
    · rw [unpack_first hr hk hl ha, unpack_first (p := p.unpackHalf) hr hk hl ha]
      exact ⟨rfl,rfl,rfl⟩
    · rw [unpack_refused hr hk hl ha, unpack_refused (p := p.unpackHalf) hr hk hl ha]
      exact ⟨rfl,rfl,rfl⟩

instance : TwoWayProcessor (CfbNonceProcessor C) where
  reverse := CfbNonceProcessor.reverse
  pack := pack
  unpack := unpack
  packHalf := packHalf
  unpackHalf := unpackHalf
  pack_within p x := (pack_frame p x).1
  pack_unseen p x := (pack_frame p x).2.1
  unpack_within p x := (unpack_frame p x).1
  unpack_unseen p x := (unpack_frame p x).2.1
  reverse_packHalf _ := rfl
  reverse_unpackHalf _ := rfl
  reverse_pack p x := (pack_frame p x).2.2
  reverse_unpack p x := (unpack_frame p x).2.2

/-- The key stream a received packet selects. -/
def sessionKeystream (p : CfbNonceProcessor C) (received : ByteSpan) : Cfb.Keystream :=
  (p.deriveIv (receivedNonce received),0)

/-- The gate is open: a whole packet has come and it is authentic. -/
def Opened (p : CfbNonceProcessor C) (received : ByteSpan) : Prop :=
  HANDSHAKE_PACKET_SIZE ≤ received.length ∧ Authentic C p.hmacKey received

instance (p : CfbNonceProcessor C) (received : ByteSpan) : Decidable (p.Opened received) :=
  inferInstanceAs (Decidable (_ ∧ _))

/-- The plaintext of all that has come so far. -/
def plaintext (p : CfbNonceProcessor C) (received : ByteSpan) : ByteVector :=
  if p.Opened received then
    (Cfb.decrypt (p.sessionKeystream received) (received.drop HANDSHAKE_PACKET_SIZE)).2
  else []

/-- The object after all that has come so far. -/
def unpacked (p : CfbNonceProcessor C) (received : ByteSpan) : CfbNonceProcessor C :=
  if p.Opened received then
    let k := (Cfb.decrypt (p.sessionKeystream received) (received.drop HANDSHAKE_PACKET_SIZE)).1
    { p with unpackIv := k.1, unpackOffset := k.2, unpackReady := true, unpackHandshakeBuffer := [] }
  else { p with unpackHandshakeBuffer := received }

/-- The call that completes a packet, and every later one, throws when the packet is forged. -/
def gateError (p : CfbNonceProcessor C) (received : ByteSpan) : Option Abort :=
  if HANDSHAKE_PACKET_SIZE ≤ received.length ∧ ¬Authentic C p.hmacKey received then
    some (.runtimeError "cfb_nonce handshake hmac mismatch")
  else none

theorem receivedNonce_append {received : ByteSpan}
    (h : HANDSHAKE_PACKET_SIZE ≤ received.length) (x : ByteSpan) :
    receivedNonce (received ++ x) = receivedNonce received := by
  have hl : 544 ≤ received.length := h
  simp only [receivedNonce, TAG_SIZE, NONCE_SIZE]
  rw [List.drop_append_of_le_length (by omega),
    List.take_append_of_le_length (by simp only [List.length_drop]; omega)]

/-- The verdict on a packet does not change with what follows it. -/
theorem authentic_append {key received : ByteSpan} (h : HANDSHAKE_PACKET_SIZE ≤ received.length)
    (x : ByteSpan) : Authentic C key (received ++ x) ↔ Authentic C key received := by
  have hl : 544 ≤ received.length := h
  simp only [Authentic, receivedNonce_append h, TAG_SIZE]
  rw [List.take_append_of_le_length (by omega)]

/-- Behind the open gate a call decrypts what it is given. -/
theorem unpack_opened {p : CfbNonceProcessor C} {received : ByteSpan} (hopen : p.Opened received)
    (x : ByteSpan) : ∃ out, unpack (p.unpacked received) x =
        ⟨p.unpacked (received ++ x),out,p.gateError (received ++ x)⟩ ∧
      p.plaintext (received ++ x) = p.plaintext received ++ out.flatten := by
  have hl := hopen.1
  have ha := (authentic_append hl x).mpr hopen.2
  have hopen' : p.Opened (received ++ x) := ⟨hl.trans (by simp),ha⟩
  have hd : (received ++ x).drop HANDSHAKE_PACKET_SIZE =
      received.drop HANDSHAKE_PACKET_SIZE ++ x := List.drop_append_of_le_length hl
  have hk : p.sessionKeystream (received ++ x) = p.sessionKeystream received := by
    simp only [sessionKeystream, receivedNonce_append hl]
  have hready : (p.unpacked received).unpackReady = true := by simp only [unpacked, if_pos hopen]
  refine ⟨[(Cfb.decrypt (Cfb.decrypt (p.sessionKeystream received)
    (received.drop HANDSHAKE_PACKET_SIZE)).1 x).2],(unpack_ready hready x).trans ?_,?_⟩
  · simp only [unpacked, if_pos hopen', if_pos hopen, decrypt, gateError, ha, not_true, and_false,
      if_false, hd, hk, Cfb.decrypt, Mealy.run_append]
  · simp only [plaintext, if_pos hopen', if_pos hopen, hd, hk, Cfb.decrypt, Mealy.run_append,
      List.flatten_singleton]

/-- Before the closed gate a call waits, opens it, or throws. -/
theorem unpack_closed {p : CfbNonceProcessor C} (hr : p.unpackReady = false)
    (ho : p.unpackOffset = 0) (hk : p.hmacKey.length ≤ INT_MAX) {received : ByteSpan}
    (hopen : ¬p.Opened received) (x : ByteSpan) : ∃ out, unpack (p.unpacked received) x =
        ⟨p.unpacked (received ++ x),out,p.gateError (received ++ x)⟩ ∧
      p.plaintext (received ++ x) = p.plaintext received ++ out.flatten := by
  have hstate : p.unpacked received = { p with unpackHandshakeBuffer := received } := if_neg hopen
  have hready : (p.unpacked received).unpackReady = false := by rw [hstate]; exact hr
  have hbuf : (p.unpacked received).unpackHandshakeBuffer = received := by rw [hstate]
  have hkey : (p.unpacked received).hmacKey = p.hmacKey := by rw [hstate]
  have hnext : (p.unpacked received).bufferHandshake x =
      { p with unpackHandshakeBuffer := received ++ x } := by
    rw [hstate]
    rfl
  rw [show p.plaintext received = [] from if_neg hopen]
  by_cases hl : (received ++ x).length < HANDSHAKE_PACKET_SIZE
  · have hclosed : ¬p.Opened (received ++ x) := fun h => absurd h.1 (by omega)
    refine ⟨[],?_,if_neg hclosed⟩
    rw [unpack_waiting hready (by rwa [hbuf]), hnext, unpacked, if_neg hclosed, gateError,
      if_neg (by omega)]
  by_cases ha : Authentic C p.hmacKey (received ++ x)
  · have hopen' : p.Opened (received ++ x) := ⟨by omega,ha⟩
    refine ⟨[(Cfb.decrypt (p.sessionKeystream (received ++ x))
        ((received ++ x).drop HANDSHAKE_PACKET_SIZE)).2],
      (unpack_first hready (hkey ▸ hk) (by rwa [hbuf]) (by rwa [hbuf, hkey])).trans ?_,?_⟩
    · rw [hbuf, hstate, ho, unpacked, if_pos hopen', gateError, if_neg fun h => h.2 ha]
      rfl
    · simp [plaintext, if_pos hopen']
  · have hclosed : ¬p.Opened (received ++ x) := fun h => ha h.2
    refine ⟨[],?_,if_neg hclosed⟩
    rw [unpack_refused hready (hkey ▸ hk) (by rwa [hbuf]) (by rwa [hbuf, hkey]), hnext, unpacked,
      if_neg hclosed, gateError, if_pos ⟨by omega,ha⟩]

/-- One call, whatever came before and however it ended: the object is a function of all
the bytes received, and what the call emits continues the plaintext. -/
theorem unpack_unpacked {p : CfbNonceProcessor C} (hr : p.unpackReady = false)
    (ho : p.unpackOffset = 0) (hk : p.hmacKey.length ≤ INT_MAX) (received x : ByteSpan) :
    ∃ out, unpack (p.unpacked received) x =
        ⟨p.unpacked (received ++ x),out,p.gateError (received ++ x)⟩ ∧
      p.plaintext (received ++ x) = p.plaintext received ++ out.flatten := by
  by_cases hopen : p.Opened received
  · exact unpack_opened hopen x
  · exact unpack_closed hr ho hk hopen x

/-- Successive calls, exceptions included, leave and emit what all the bytes received say. -/
theorem unpack_after {p : CfbNonceProcessor C} (hr : p.unpackReady = false)
    (ho : p.unpackOffset = 0) (hk : p.hmacKey.length ≤ INT_MAX)
    (hb : p.unpackHandshakeBuffer = []) (calls : List ByteSpan) :
    after unpack p calls = p.unpacked calls.flatten ∧
    emitted unpack p calls = p.plaintext calls.flatten := by
  induction calls using List.reverseRecOn with
  | nil =>
    have hclosed : ¬p.Opened [] := fun h => absurd h.1 (by decide)
    have hfresh : p.unpacked [] = p := by
      rw [unpacked, if_neg hclosed, ← hb]
    exact ⟨hfresh.symm,(if_neg hclosed).symm⟩
  | append_singleton calls x ih =>
    obtain ⟨out,hu,hp⟩ := unpack_unpacked hr ho hk calls.flatten x
    rw [after_append, emitted_append, ih.1, ih.2, List.flatten_append, List.flatten_singleton, hp]
    simp only [after, emitted, List.foldl_cons, List.foldl_nil, hu, Outcome.bytes, List.append_nil]
    exact ⟨trivial,trivial⟩

theorem gateError_of_append {p : CfbNonceProcessor C} {received x : ByteSpan}
    (h : p.gateError (received ++ x) = none) : p.gateError received = none := by
  refine if_neg fun ⟨hl,ha⟩ => ?_
  have hf : p.gateError (received ++ x) = some (.runtimeError "cfb_nonce handshake hmac mismatch") :=
    if_pos ⟨hl.trans (by simp),fun h => ha ((authentic_append hl x).mp h)⟩
  rw [hf] at h
  exact Option.some_ne_none _ h

theorem unpack_feed {p : CfbNonceProcessor C} (hr : p.unpackReady = false)
    (ho : p.unpackOffset = 0) (hk : p.hmacKey.length ≤ INT_MAX)
    (hb : p.unpackHandshakeBuffer = []) (calls : List ByteSpan)
    (hg : p.gateError calls.flatten = none) : (feed unpack p calls).error = none ∧
      (feed unpack p calls).state = p.unpacked calls.flatten ∧
      (feed unpack p calls).bytes = p.plaintext calls.flatten := by
  induction calls using List.reverseRecOn with
  | nil =>
    obtain ⟨hs,hp⟩ := unpack_after hr ho hk hb []
    exact ⟨rfl,hs,hp⟩
  | append_singleton calls x ih =>
    rw [List.flatten_append, List.flatten_singleton] at hg ⊢
    obtain ⟨he,hs,hp⟩ := ih (gateError_of_append hg)
    obtain ⟨out,hu,ht⟩ := unpack_unpacked hr ho hk calls.flatten x
    rw [feed_append _ he, feed_singleton, hs, hu, ht, ← hp]
    exact ⟨hg,rfl,List.flatten_append⟩

theorem pack_feed_ready {p : CfbNonceProcessor C} (h : p.packReady = true) (xs : List ByteSpan) :
    (feed pack p xs).error = none ∧
    (feed pack p xs).bytes = (Cfb.encrypt (p.packIv,p.packOffset) xs.flatten).2 := by
  have he : encrypt = ofMealy (fun p : CfbNonceProcessor C => (p.packIv,p.packOffset))
      (fun p k => { p with packIv := k.1, packOffset := k.2 }) Cfb.encryptByte := rfl
  have hf : feed pack p xs = feed encrypt p xs := by
    induction xs generalizing p with
    | nil => rfl
    | cons x xs ih =>
      have hnext : (p.encrypt x).state.packReady = true := h
      rw [feed_cons (by rw [pack_ready h]; rfl), feed_cons rfl, pack_ready h, ih hnext]
  have hregister : Register (fun p : CfbNonceProcessor C => (p.packIv,p.packOffset))
      (fun p k => { p with packIv := k.1, packOffset := k.2 }) :=
    ⟨fun _ _ => rfl,fun _ _ _ => rfl,fun _ => rfl⟩
  obtain ⟨hnone,hbytes,-⟩ := feed_ofMealy (ε := Abort) hregister Cfb.encryptByte p xs
  rw [hf, he]
  exact ⟨hnone,hbytes⟩

/-- What a direction carries: the packet and the ciphertext behind it. -/
def wire (p : CfbNonceProcessor C) (nonce : Nonce) (plain : ByteSpan) : ByteVector :=
  C.HMAC p.hmacKey nonce.1 ++ nonce.1 ++ (Cfb.encrypt (p.deriveIv nonce.1,0) plain).2

theorem pack_feed {p : CfbNonceProcessor C} {nonce : Nonce} (hr : p.packReady = false)
    (ho : p.packOffset = 0) (hk : p.hmacKey.length ≤ INT_MAX) (hn : p.randBytes 0 = some nonce)
    (x : ByteSpan) (xs : List ByteSpan) : (feed pack p (x :: xs)).error = none ∧
      (feed pack p (x :: xs)).bytes = p.wire nonce (x :: xs).flatten := by
  have hx := pack_first hr hn hk x
  rw [ho] at hx
  obtain ⟨he,hb⟩ := pack_feed_ready (p := (pack p x).state) (by rw [hx]) xs
  rw [feed_cons (by rw [hx])]
  refine ⟨he,?_⟩
  rw [Outcome.bytes] at hb ⊢
  rw [List.flatten_append, hb, hx]
  simp only [wire, Cfb.encrypt, List.flatten_cons, List.flatten_nil, List.append_nil,
    Mealy.run_append, List.append_assoc]

theorem wire_split (p : CfbNonceProcessor C) (nonce : Nonce) (plain : ByteSpan) :
    receivedNonce (p.wire nonce plain) = nonce.1 ∧ Authentic C p.hmacKey (p.wire nonce plain) ∧
    (p.wire nonce plain).drop HANDSHAKE_PACKET_SIZE =
      (Cfb.encrypt (p.deriveIv nonce.1,0) plain).2 := by
  have ht := C.hmac_length p.hmacKey nonce.1
  have hn := nonce.2
  have hw : p.wire nonce plain = C.HMAC p.hmacKey nonce.1 ++
      (nonce.1 ++ (Cfb.encrypt (p.deriveIv nonce.1,0) plain).2) := List.append_assoc ..
  have hr : receivedNonce (p.wire nonce plain) = nonce.1 := by
    rw [receivedNonce, hw, List.drop_left' ht, List.take_left' hn]
  refine ⟨hr,?_,?_⟩
  · rw [Authentic, hr, hw, List.take_left' ht]
  · exact List.drop_left' (by rw [List.length_append, ht, hn]; rfl)

/-- An end decodes an end with the same vector and MAC key, whatever nonce that one drew. -/
theorem decodes {p q : CfbNonceProcessor C} {nonce : Nonce} (hpr : p.packReady = false)
    (hpo : p.packOffset = 0) (hn : p.randBytes 0 = some nonce) (hqr : q.unpackReady = false)
    (hqo : q.unpackOffset = 0) (hqb : q.unpackHandshakeBuffer = []) (hiv : q.baseIv = p.baseIv)
    (hkey : q.hmacKey = p.hmacKey) (hk : p.hmacKey.length ≤ INT_MAX) : Decodes pack p unpack q := by
  have hd : q.deriveIv nonce.1 = p.deriveIv nonce.1 := by rw [deriveIv, hiv, deriveIv]
  have hw : ∀ plain, q.wire nonce plain = p.wire nonce plain := by
    intro plain
    rw [wire, wire, hkey, hd]
  have hsent : ∀ xs, (feed pack p xs).error = none ∧
      (xs ≠ [] → (feed pack p xs).bytes = q.wire nonce xs.flatten) ∧
      (feed pack p xs).bytes <+: q.wire nonce xs.flatten := by
    intro xs
    cases xs with
    | nil => exact ⟨rfl,fun h => absurd rfl h,List.nil_prefix⟩
    | cons x xs =>
      obtain ⟨he,hb⟩ := pack_feed hpr hpo hk hn x xs
      rw [hw]
      exact ⟨he,fun _ => hb,hb ▸ List.prefix_rfl⟩
  -- a beginning of what was sent meets no forged packet, and its plaintext is a beginning
  have hgot : ∀ plain received, received <+: q.wire nonce plain →
      q.gateError received = none ∧ q.plaintext received <+: plain := by
    rintro plain received ⟨rest,hrest⟩
    obtain ⟨hnonce,hauth,hdrop⟩ := q.wire_split nonce plain
    refine ⟨gateError_of_append (x := rest) (hrest ▸ if_neg fun h => h.2 hauth),?_⟩
    by_cases hopen : q.Opened received
    · have hcipher : received.drop HANDSHAKE_PACKET_SIZE <+:
          (Cfb.encrypt (q.sessionKeystream received) plain).2 := by
        rw [sessionKeystream, ← receivedNonce_append hopen.1 rest, hrest, hnonce, ← hdrop, ← hrest,
          List.drop_append_of_le_length hopen.1]
        exact List.prefix_append _ _
      rw [plaintext, if_pos hopen]
      exact Cfb.decryptByte_undoes.run_prefix hcipher ▸ List.take_prefix _ _
    · rw [plaintext, if_neg hopen]
      exact List.nil_prefix
  have hfeed := fun ys h => unpack_feed hqr hqo (hkey ▸ hk) hqb ys h
  constructor
  case encodes => exact fun xs => (hsent xs).1
  case accepts => exact fun xs ys hy => (hfeed ys (hgot _ _ (hy.trans (hsent xs).2.2)).1).1
  case beginning =>
    intro xs ys hy
    obtain ⟨hg,hp⟩ := hgot _ _ (hy.trans (hsent xs).2.2)
    rw [(hfeed ys hg).2.2]
    exact hp
  case whole =>
    intro xs ys hy
    obtain ⟨hg,hp⟩ := hgot _ _ (hy ▸ (hsent xs).2.2)
    rw [(hfeed ys hg).2.2]
    by_cases hxs : xs = []
    · subst hxs
      exact List.prefix_nil.mp hp
    obtain ⟨hnonce,hauth,hdrop⟩ := q.wire_split nonce xs.flatten
    rw [hy, (hsent xs).2.1 hxs]
    have hopen : q.Opened (q.wire nonce xs.flatten) :=
      ⟨by simp [wire, C.hmac_length, nonce.2, HANDSHAKE_PACKET_SIZE],hauth⟩
    rw [plaintext, if_pos hopen, hdrop, sessionKeystream, hnonce]
    exact congrArg Prod.snd (Cfb.decryptByte_undoes.run _ _)

/-- The gate. Take any successive calls, thrown or not, and a next one. Before a whole
packet is there nothing is emitted and nothing thrown; after an authentic packet nothing
is thrown and the output is the decryption of what followed it; after a forged one every
call throws and nothing is ever emitted. -/
theorem handshake_gate (iv hmacKey : ByteSpan) (reverse : Bool) (randBytes : ℕ → Option Nonce)
    (hk : hmacKey.length ≤ INT_MAX) (calls : List ByteSpan) (next : ByteSpan) :
    let p : CfbNonceProcessor C := new iv hmacKey reverse randBytes
    let received := (calls ++ [next]).flatten
    let call := unpack (after unpack p calls) next
    let output := emitted unpack p (calls ++ [next])
    (received.length < HANDSHAKE_PACKET_SIZE → call.error = none ∧ output = []) ∧
    (HANDSHAKE_PACKET_SIZE ≤ received.length → Authentic C hmacKey received →
      call.error = none ∧ output = (Cfb.decrypt (C.SHA512 (receivedNonce received ++ iv),0)
        (received.drop HANDSHAKE_PACKET_SIZE)).2) ∧
    (HANDSHAKE_PACKET_SIZE ≤ received.length → ¬Authentic C hmacKey received →
      call.error ≠ none ∧ output = []) := by
  intro p received call output
  obtain ⟨hs,-⟩ := unpack_after (p := p) rfl rfl hk rfl calls
  have ho : output = p.plaintext received := (unpack_after (p := p) rfl rfl hk rfl _).2
  obtain ⟨out,hu,-⟩ := unpack_unpacked (p := p) rfl rfl hk calls.flatten next
  have hr : calls.flatten ++ next = received := by simp [received]
  have he : call.error = p.gateError received := by
    rw [hr] at hu
    simp only [call, hs, hu]
  rw [he, ho]
  refine ⟨?_,?_,?_⟩
  · intro hl
    have hclosed : ¬p.Opened received := fun h => absurd h.1 (by omega)
    exact ⟨if_neg (by omega),if_neg hclosed⟩
  · intro hl ha
    exact ⟨if_neg fun h => h.2 ha,if_pos ⟨hl,ha⟩⟩
  · intro hl ha
    refine ⟨?_,if_neg fun h => ha h.2⟩
    rw [gateError, if_pos ⟨hl,ha⟩]
    exact Option.some_ne_none _

/-- HMAC-SHA256 of 512 zero bytes under the key `k`. -/
def knownTag : ByteVector :=
  [0xe1, 0x11, 0x94, 0x4b, 0x33, 0xfc, 0x5c, 0x2e, 0x42, 0xbb, 0xb9, 0xa5, 0x33, 0x4f, 0x8e, 0x2d,
    0xde, 0x87, 0x43, 0xf1, 0xc0, 0x29, 0xa4, 0x8d, 0x55, 0x27, 0x5b, 0x04, 0x5f, 0x45, 0x47, 0x56]

/-- SHA-512 of 512 zero bytes followed by `v`. -/
def knownDigest : ByteVector :=
  [0x20, 0x2e, 0x4c, 0x4f, 0x8f, 0xbd, 0x7f, 0xad, 0xb4, 0x54, 0x35, 0x65, 0x69, 0xfc, 0xf2, 0x70,
    0x3e, 0x99, 0xaa, 0xb2, 0x8c, 0x6b, 0xdb, 0xfe, 0xca, 0xa4, 0xf6, 0x8c, 0x60, 0x15, 0x20, 0xeb,
    0x7e, 0xd6, 0x71, 0xb7, 0xff, 0x23, 0x96, 0x7a, 0x01, 0x99, 0x3b, 0x0f, 0xbc, 0x39, 0xee, 0xae,
    0x8e, 0x7a, 0x89, 0x38, 0xcc, 0x0e, 0xed, 0x16, 0xad, 0x33, 0xa7, 0xd1, 0xf2, 0x1a, 0x9b, 0x16]

/-- The two functions at the arguments of the run below, where they have their real values. -/
def knownCrypto : Crypto where
  HMAC key data :=
    if key = text "k" ∧ data = List.replicate 512 0 then knownTag else List.replicate 32 0
  SHA512 data := if data = List.replicate 512 0 ++ text "v" then knownDigest else List.replicate 64 0
  hmac_length key data := by split <;> rfl
  sha512_length data := by split <;> rfl

/-- A packet cut inside its nonce, with the first ciphertext byte in the second call. -/
theorem handshake_gate_known :
    let p : CfbNonceProcessor knownCrypto := new (text "v") (text "k") false fun _ => none
    let calls := [knownTag ++ List.replicate 500 0]
    let next := List.replicate 12 0 ++ [0x41]
    (unpack (after unpack p calls) next).error = none ∧
    emitted unpack p (calls ++ [next]) = [0x61] := by
  intro p calls next
  obtain ⟨-,hauthentic,-⟩ := handshake_gate (C := knownCrypto) (text "v") (text "k") false
    (fun _ => none) (by decide) calls next
  obtain ⟨he,ho⟩ := hauthentic (by decide +kernel) (by decide +kernel)
  have hd : (Cfb.decrypt (knownCrypto.SHA512 (receivedNonce (calls ++ [next]).flatten ++ text "v"),0)
      ((calls ++ [next]).flatten.drop HANDSHAKE_PACKET_SIZE)).2 = [0x61] := by decide +kernel
  exact ⟨he,ho.trans hd⟩

end CfbNonceProcessor

end Msg801.Tunnel
