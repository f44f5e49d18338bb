import Msg801.Tunnel.Processor

/-! # The CFB processor

The keystream is the initialization vector itself: every byte reads it at the running
offset and then changes it at two positions with the ciphertext byte.
-/
namespace Msg801.Tunnel
open Stage

namespace Cfb

/-- The vector and the running offset, `offset + i` in the loops of the source. -/
abbrev Keystream := ByteVector × UInt64

/-- `iv[pos] += cipher; iv[(pos + 1) % iv.size()] ^= cipher`. -/
def mix (cipher : Byte) (iv : ByteVector) (pos : ℕ) : ByteVector :=
  let iv := iv.set pos (iv.getD pos 0 + cipher)
  iv.set ((pos + 1) % iv.length) (iv.getD ((pos + 1) % iv.length) 0 ^^^ cipher)

def encryptByte (k : Keystream) (plain : Byte) : Keystream × Byte :=
  let pos := k.2.toNat % k.1.length
  let cipher := plain ^^^ k.1.getD pos 0
  ((mix cipher k.1 pos,k.2 + 1),cipher)

def decryptByte (k : Keystream) (cipher : Byte) : Keystream × Byte :=
  let pos := k.2.toNat % k.1.length
  ((mix cipher k.1 pos,k.2 + 1),cipher ^^^ k.1.getD pos 0)

def encrypt (k : Keystream) (input : ByteSpan) : Keystream × ByteVector :=
  Mealy.run encryptByte k input

def decrypt (k : Keystream) (input : ByteSpan) : Keystream × ByteVector :=
  Mealy.run decryptByte k input

theorem encryptByte_undoes : Mealy.Undoes encryptByte decryptByte := by
  intro k cipher
  simp only [decryptByte, encryptByte, UInt8.xor_assoc, UInt8.xor_self, UInt8.xor_zero]

theorem mix_length (cipher : Byte) (iv : ByteVector) (pos : ℕ) :
    (mix cipher iv pos).length = iv.length := by
  simp only [mix, List.length_set]

theorem encrypt_iv_length (k : Keystream) (input : ByteSpan) :
    (encrypt k input).1.1.length = k.1.length :=
  Mealy.run_keeps (fun k => k.1.length) (fun _ _ => mix_length ..) k input

theorem decrypt_iv_length (k : Keystream) (input : ByteSpan) :
    (decrypt k input).1.1.length = k.1.length :=
  Mealy.run_keeps (fun k => k.1.length) (fun _ _ => mix_length ..) k input

theorem decryptByte_undoes : Mealy.Undoes decryptByte encryptByte := by
  intro k plain
  simp only [decryptByte, encryptByte, UInt8.xor_assoc, UInt8.xor_self, UInt8.xor_zero]

end Cfb

structure CfbProcessor where
  reverse : Bool
  packIv : ByteVector
  unpackIv : ByteVector
  packOffset : UInt64 := 0
  unpackOffset : UInt64 := 0

namespace CfbProcessor

/-- The constructor's loop: a short key is continued by its own positions. -/
def extendKey (iv : ByteVector) : ByteVector :=
  if iv.length < 8 then extendKey (iv ++ [UInt8.ofNat iv.length]) else iv
termination_by 8 - iv.length
decreasing_by simp only [List.length_append, List.length_singleton]; omega

def new (key : ByteSpan) (reverse : Bool) : CfbProcessor where
  reverse := reverse
  packIv := extendKey key
  unpackIv := extendKey key

def packKeystream (p : CfbProcessor) : Cfb.Keystream := (p.packIv,p.packOffset)
def unpackKeystream (p : CfbProcessor) : Cfb.Keystream := (p.unpackIv,p.unpackOffset)

def pack (p : CfbProcessor) (input : ByteSpan) : Outcome CfbProcessor :=
  let r := Cfb.encrypt p.packKeystream input
  ⟨{ p with packIv := r.1.1, packOffset := r.1.2 },[r.2],none⟩

def unpack (p : CfbProcessor) (input : ByteSpan) : Outcome CfbProcessor :=
  let r := Cfb.decrypt p.unpackKeystream input
  ⟨{ p with unpackIv := r.1.1, unpackOffset := r.1.2 },[r.2],none⟩

instance : TwoWayProcessor CfbProcessor where
  reverse := CfbProcessor.reverse
  pack := pack
  unpack := unpack
  packHalf p := { p with unpackIv := [], unpackOffset := 0 }
  unpackHalf p := { p with packIv := [], packOffset := 0 }
  pack_within _ _ := rfl
  pack_unseen _ _ := rfl
  unpack_within _ _ := rfl
  unpack_unseen _ _ := rfl
  reverse_packHalf _ := rfl
  reverse_unpackHalf _ := rfl
  reverse_pack _ _ := rfl
  reverse_unpack _ _ := rfl

theorem packRegister : Register packKeystream
    fun p k => { p with packIv := k.1, packOffset := k.2 } :=
  ⟨fun _ _ => rfl,fun _ _ _ => rfl,fun _ => rfl⟩

theorem unpackRegister : Register unpackKeystream
    fun p k => { p with unpackIv := k.1, unpackOffset := k.2 } :=
  ⟨fun _ _ => rfl,fun _ _ _ => rfl,fun _ => rfl⟩

theorem pack_feed (p : CfbProcessor) (xs : List ByteSpan) : (feed pack p xs).error = none ∧
    (feed pack p xs).bytes = (Cfb.encrypt p.packKeystream xs.flatten).2 ∧
    (feed pack p xs).state = (pack p xs.flatten).state :=
  feed_ofMealy packRegister Cfb.encryptByte p xs

theorem unpack_feed (p : CfbProcessor) (xs : List ByteSpan) : (feed unpack p xs).error = none ∧
    (feed unpack p xs).bytes = (Cfb.decrypt p.unpackKeystream xs.flatten).2 ∧
    (feed unpack p xs).state = (unpack p xs.flatten).state :=
  feed_ofMealy unpackRegister Cfb.decryptByte p xs

theorem extendKey_length (iv : ByteVector) : 8 ≤ (extendKey iv).length := by
  fun_induction extendKey iv with
  | case1 iv h ih => exact ih
  | case2 iv h => omega

theorem exchange_iv_length (key : ByteSpan) (reverse : Bool) (calls : List (ByteSpan ⊕ ByteSpan)) :
    8 ≤ (exchange pack unpack (new key reverse) calls).state.packIv.length ∧
    8 ≤ (exchange pack unpack (new key reverse) calls).state.unpackIv.length := by
  refine exchange_keeps (Q := fun p : CfbProcessor => 8 ≤ p.packIv.length ∧ 8 ≤ p.unpackIv.length)
    ?_ ?_ ⟨extendKey_length key,extendKey_length key⟩ calls
  · intro p x ⟨hpack,hunpack⟩
    exact ⟨hpack.trans_eq (Cfb.encrypt_iv_length p.packKeystream x).symm,hunpack⟩
  · intro p x ⟨hpack,hunpack⟩
    exact ⟨hpack,hunpack.trans_eq (Cfb.decrypt_iv_length p.unpackKeystream x).symm⟩

/-- In every state a processor can come to, a direction is a stream cipher: cutting the
stream into calls changes nothing, encryption and decryption undo each other and move the
key stream alike, and every output byte is settled by the input up to it. -/
theorem stream_bijection (key : ByteSpan) (reverse : Bool) (earlier : List (ByteSpan ⊕ ByteSpan)) :
    let p := (exchange pack unpack (new key reverse) earlier).state
    (8 ≤ p.packIv.length ∧ 8 ≤ p.unpackIv.length) ∧
    (∀ calls, (feed pack p calls).bytes = (pack p calls.flatten).bytes ∧
      (feed pack p calls).state = (pack p calls.flatten).state) ∧
    (∀ calls, (feed unpack p calls).bytes = (unpack p calls.flatten).bytes ∧
      (feed unpack p calls).state = (unpack p calls.flatten).state) ∧
    ∀ (k : Cfb.Keystream) (s : ByteSpan),
      Cfb.decrypt k (Cfb.encrypt k s).2 = ((Cfb.encrypt k s).1,s) ∧
      Cfb.encrypt k (Cfb.decrypt k s).2 = ((Cfb.decrypt k s).1,s) ∧
      ∀ i, (Cfb.encrypt k (s.take i)).2 = (Cfb.encrypt k s).2.take i ∧
        (Cfb.decrypt k (s.take i)).2 = (Cfb.decrypt k s).2.take i := by
  intro p
  refine ⟨?_,fun calls => ?_,fun calls => ?_,fun k s => ⟨?_,?_,fun i => ⟨?_,?_⟩⟩⟩
  · exact exchange_iv_length key reverse earlier
  · obtain ⟨-,hbytes,hstate⟩ := pack_feed p calls
    exact ⟨hbytes.trans (List.append_nil _).symm,hstate⟩
  · obtain ⟨-,hbytes,hstate⟩ := unpack_feed p calls
    exact ⟨hbytes.trans (List.append_nil _).symm,hstate⟩
  · exact Cfb.decryptByte_undoes.run k s
  · exact Cfb.encryptByte_undoes.run k s
  · exact Mealy.run_take Cfb.encryptByte k s i
  · exact Mealy.run_take Cfb.decryptByte k s i

theorem decodes {p q : CfbProcessor} (h : q.unpackKeystream = p.packKeystream) :
    Decodes pack p unpack q where
  encodes xs := (pack_feed p xs).1
  accepts _ ys _ := (unpack_feed q ys).1
  beginning xs ys hy := by
    rw [(pack_feed p xs).2.1] at hy
    rw [(unpack_feed q ys).2.1, h]
    exact Cfb.decryptByte_undoes.run_prefix hy ▸ List.take_prefix _ _
  whole xs ys hy := by
    rw [(unpack_feed q ys).2.1, h, hy, (pack_feed p xs).2.1]
    exact congrArg Prod.snd (Cfb.decryptByte_undoes.run _ _)

end CfbProcessor

end Msg801.Tunnel
