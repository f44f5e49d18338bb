import Msg801.Tunnel.Cfb

/-! # What becomes of a byte that is changed on the way

The vector is changed with the bytes that are received. A wrong byte stays in two of its
positions, so that two bytes of every round over the vector come out wrong from there on,
and no others.
-/
namespace Msg801.Tunnel
open Stage

namespace Cfb

/-- The position in the vector that the byte `i` of the stream is masked with. -/
def position (k : Keystream) (i : ℕ) : ℕ := (k.2 + UInt64.ofNat i).toNat % k.1.length

/-- What `mix` at the position `pos` makes of the byte `x` at the position `q`. -/
def touch (cipher : Byte) (n pos q : ℕ) (x : Byte) : Byte :=
  let x := if q = pos then x + cipher else x
  if q = (pos + 1) % n then x ^^^ cipher else x

theorem mix_getD (cipher : Byte) {iv : ByteVector} {pos q : ℕ} (hpos : pos < iv.length) (hq : q < iv.length) :
    (mix cipher iv pos).getD q 0 = touch cipher iv.length pos q (iv.getD q 0) := by
  have hget : ∀ (xs : ByteVector) (p : ℕ) (x : Byte), p < xs.length → ∀ r,
      (xs.set p x).getD r 0 = if r = p then x else xs.getD r 0 := by
    intro xs p x hp r
    rw [List.getD_eq_getElem?_getD, List.getD_eq_getElem?_getD, List.getElem?_set]
    split_ifs with h h' h'
    · rfl
    · exact absurd h.symm h'
    · exact absurd h'.symm h
    · rfl
  have hnext : (pos + 1) % iv.length < iv.length := Nat.mod_lt _ (by omega)
  simp only [mix, List.length_set]
  rw [hget _ _ _ (by rwa [List.length_set]), hget _ _ _ hpos, hget _ _ _ hpos, touch]
  have hfirst : ∀ r, (if r = pos then iv.getD pos 0 + cipher else iv.getD r 0) =
      if r = pos then iv.getD r 0 + cipher else iv.getD r 0 := by
    intro r
    split_ifs with h
    · rw [h]
    · rfl
  rw [hfirst, hfirst]
  by_cases h : q = (pos + 1) % iv.length
  · rw [if_pos h, if_pos h, ← h]
  · rw [if_neg h, if_neg h]

theorem touch_inj {cipher : Byte} {n pos q : ℕ} {x y : Byte} :
    touch cipher n pos q x = touch cipher n pos q y ↔ x = y := by
  simp only [touch]
  split_ifs <;> simp

/-- The position after the last is another one. -/
theorem next_ne {n pos : ℕ} (hn : 2 ≤ n) (hpos : pos < n) : (pos + 1) % n ≠ pos := by
  rcases Nat.lt_or_ge (pos + 1) n with hlt | hge
  · rw [Nat.mod_eq_of_lt hlt]
    omega
  · obtain rfl : n = pos + 1 := by omega
    rw [Nat.mod_self]
    omega

/-- Two bytes mixed in differ in their effect on two positions. -/
theorem touch_eq_iff {c c' : Byte} (hc : c ≠ c') {n pos q : ℕ} (hn : 2 ≤ n) (hpos : pos < n) (x : Byte) :
    touch c n pos q x = touch c' n pos q x ↔ q ≠ pos ∧ q ≠ (pos + 1) % n := by
  have hne := next_ne hn hpos
  unfold touch
  by_cases hq : q = pos
  · subst hq
    simp [hne.symm, hc]
  · by_cases hq' : q = (pos + 1) % n
    · simp [hq', hne, hc]
    · simp [hq, hq']

/-- Two key streams at the same offset of vectors of one length. -/
def Aligned (k k' : Keystream) : Prop := k.1.length = k'.1.length ∧ k.2 = k'.2

theorem Aligned.position_eq {k k' : Keystream} (h : Aligned k k') (i : ℕ) : position k i = position k' i := by
  rw [position, position, h.1, h.2]

theorem decrypt_offset (k : Keystream) (s : ByteSpan) : (decrypt k s).1.2 = k.2 + UInt64.ofNat s.length := by
  induction s generalizing k with
  | nil => simp [decrypt]
  | cons c s ih =>
    change (decrypt (decryptByte k c).1 s).1.2 = _
    rw [ih, List.length_cons, Nat.add_comm, UInt64.ofNat_add, ← UInt64.add_assoc]
    rfl

theorem position_decrypt (k : Keystream) (s : ByteSpan) (i : ℕ) :
    position (decrypt k s).1 i = position k (s.length + i) := by
  rw [position, position, decrypt_offset, decrypt_iv_length, UInt64.ofNat_add, ← UInt64.add_assoc]

theorem position_lt {k : Keystream} (hk : 0 < k.1.length) (i : ℕ) : position k i < k.1.length := Nat.mod_lt _ hk

theorem decryptByte_length (k : Keystream) (c : Byte) : (decryptByte k c).1.1.length = k.1.length := mix_length ..

theorem position_decryptByte (k : Keystream) (c : Byte) (i : ℕ) : position (decryptByte k c).1 i = position k (i + 1) := by
  rw [position, position, decryptByte_length, Nat.add_comm i, UInt64.ofNat_add, ← UInt64.add_assoc]
  rfl

theorem decryptByte_getD {k : Keystream} (hk : 0 < k.1.length) (c : Byte) {q : ℕ} (hq : q < k.1.length) :
    (decryptByte k c).1.1.getD q 0 = touch c k.1.length (position k 0) q (k.1.getD q 0) := by
  have hpos : k.2.toNat % k.1.length = position k 0 := by simp [position]
  simp only [decryptByte, hpos]
  exact mix_getD c (position_lt hk 0) hq

/-- The same bytes leave two vectors in a position as equal, or as different, as they were,
and the bytes they mask come out so. -/
theorem decrypt_getD_iff {k k' : Keystream} (h : Aligned k k') (hk : 0 < k.1.length) (s : ByteSpan) {j : ℕ} (hj : j < s.length) :
    (decrypt k s).2.getD j 0 = (decrypt k' s).2.getD j 0 ↔
      k.1.getD (position k j) 0 = k'.1.getD (position k j) 0 := by
  induction s generalizing k k' j with
  | nil => cases hj
  | cons c s ih =>
    cases j with
    | zero =>
      have hpos : ∀ k : Keystream, k.2.toNat % k.1.length = position k 0 := fun k => by simp [position]
      change c ^^^ k.1.getD (k.2.toNat % k.1.length) 0 = c ^^^ k'.1.getD (k'.2.toNat % k'.1.length) 0 ↔ _
      rw [hpos, hpos, ← h.position_eq]
      simp
    | succ j =>
      have hnext : Aligned (decryptByte k c).1 (decryptByte k' c).1 := by
        refine ⟨?_,congrArg (· + 1) h.2⟩
        rw [decryptByte_length, decryptByte_length, h.1]
      have hq := position_lt hk (j + 1)
      change (decrypt (decryptByte k c).1 s).2.getD j 0 = (decrypt (decryptByte k' c).1 s).2.getD j 0 ↔ _
      rw [ih hnext (decryptByte_length k c ▸ hk) (Nat.lt_of_succ_lt_succ hj), position_decryptByte,
        decryptByte_getD hk c hq, decryptByte_getD (h.1 ▸ hk) c (h.1 ▸ hq), ← h.position_eq, h.1, touch_inj]

/-- A byte that is changed on the way comes out wrong, and so do the bytes behind it that
are masked with one of the two positions it was mixed into; all others come out right. -/
theorem decrypt_corrupted (k : Keystream) (hk : 2 ≤ k.1.length) (pre post : ByteSpan) {c c' : Byte} (hc : c ≠ c') {j : ℕ}
    (hj : j < (pre ++ c :: post).length) :
    (decrypt k (pre ++ c :: post)).2.getD j 0 = (decrypt k (pre ++ c' :: post)).2.getD j 0 ↔
      j ≠ pre.length ∧ (pre.length < j → position k j ≠ position k pre.length ∧
        position k j ≠ (position k pre.length + 1) % k.1.length) := by
  have hout : ∀ x : Byte, (decrypt k (pre ++ x :: post)).2 = (decrypt k pre).2 ++
      (decryptByte (decrypt k pre).1 x).2 :: (decrypt (decryptByte (decrypt k pre).1 x).1 post).2 := by
    intro x
    rw [decrypt, Mealy.run_append, Mealy.run_cons]
    rfl
  have hlen : (decrypt k pre).2.length = pre.length := Mealy.run_length ..
  rw [hout, hout]
  rcases Nat.lt_trichotomy j pre.length with hlt | rfl | hgt
  · rw [List.getD_append _ _ _ _ (hlen ▸ hlt), List.getD_append _ _ _ _ (hlen ▸ hlt)]
    simp [hlt.ne, hlt.not_gt]
  · rw [List.getD_append_right _ _ _ _ hlen.le, List.getD_append_right _ _ _ _ hlen.le, hlen, Nat.sub_self]
    simp [decryptByte, hc]
  · obtain ⟨m,rfl⟩ := Nat.exists_eq_add_of_lt hgt
    have hm : pre.length + m + 1 - (decrypt k pre).2.length = m + 1 := by omega
    have hk' : 2 ≤ (decrypt k pre).1.1.length := decrypt_iv_length k pre ▸ hk
    have hpost : m < post.length := by
      rw [List.length_append, List.length_cons] at hj
      omega
    have haligned : Aligned (decryptByte (decrypt k pre).1 c).1 (decryptByte (decrypt k pre).1 c').1 := by
      refine ⟨?_,rfl⟩
      rw [decryptByte_length, decryptByte_length]
    have hpos : position (decrypt k pre).1 0 = position k pre.length := position_decrypt k pre 0
    have hq : position (decrypt k pre).1 (m + 1) = position k (pre.length + m + 1) := position_decrypt k pre (m + 1)
    have hlt := position_lt (k := (decrypt k pre).1) (by omega) (m + 1)
    rw [List.getD_append_right _ _ _ _ (by omega), List.getD_append_right _ _ _ _ (by omega), hm, List.getD_cons_succ,
      List.getD_cons_succ, decrypt_getD_iff haligned (by rw [decryptByte_length]; omega) post hpost, position_decryptByte,
      decryptByte_getD (by omega) c hlt, decryptByte_getD (by omega) c' hlt,
      touch_eq_iff hc hk' (position_lt (by omega) 0), hpos, hq, decrypt_iv_length]
    have hne : pre.length + m + 1 ≠ pre.length := by omega
    simp [hne, hgt]

end Cfb

namespace CfbProcessor

/-- Take a processor, whatever it has done before, and another that is in step with it. One
byte of what the first packs is changed on the way. The second takes it without an error, in
whatever pieces it comes, and gives as many bytes as were packed. That byte is wrong, and
behind it all those that are masked with one of the two positions of the vector it was mixed
into, to the end of the stream; all others are right. -/
theorem corruption_confined (key : ByteSpan) (reverse : Bool) (earlier : List (ByteSpan ⊕ ByteSpan)) {p q : CfbProcessor}
    (hp : p = (exchange pack unpack (new key reverse) earlier).state) (hsync : q.unpackKeystream = p.packKeystream)
    (xs ys : List ByteSpan) {pre post : ByteSpan} {c c' : Byte} (hc : c ≠ c')
    (hsent : (feed pack p xs).bytes = pre ++ c :: post) (hcame : ys.flatten = pre ++ c' :: post) :
    (feed unpack q ys).error = none ∧ (feed unpack q ys).bytes.length = xs.flatten.length ∧
    ∀ j < xs.flatten.length, ((feed unpack q ys).bytes.getD j 0 = xs.flatten.getD j 0 ↔
      j ≠ pre.length ∧ (pre.length < j →
        Cfb.position p.packKeystream j ≠ Cfb.position p.packKeystream pre.length ∧
        Cfb.position p.packKeystream j ≠ (Cfb.position p.packKeystream pre.length + 1) % p.packIv.length)) := by
  obtain ⟨-,hpack,-⟩ := pack_feed p xs
  obtain ⟨hnone,hunpack,-⟩ := unpack_feed q ys
  have hiv : 8 ≤ p.packKeystream.1.length := hp ▸ (exchange_iv_length key reverse earlier).1
  have hplain : (Cfb.decrypt p.packKeystream (pre ++ c :: post)).2 = xs.flatten := by
    rw [← hsent, hpack]
    exact congrArg Prod.snd (Cfb.decryptByte_undoes.run _ _)
  have hlen : (pre ++ c :: post).length = xs.flatten.length := by
    rw [← hplain]
    exact (Mealy.run_length ..).symm
  rw [hunpack, hcame, hsync]
  refine ⟨hnone,?_,fun j hj => ?_⟩
  · rw [← hlen]
    exact (Mealy.run_length ..).trans (by simp)
  · rw [← hplain, eq_comm]
    exact Cfb.decrypt_corrupted p.packKeystream (by omega) pre post hc (hlen ▸ hj)

theorem corruption_confined_first : ∃ q : CfbProcessor, (feed unpack q [[0],[3,0]]).error = none ∧
    (feed unpack q [[0],[3,0]]).bytes.length = 3 ∧ (feed unpack q [[0],[3,0]]).bytes.getD 0 0 ≠ 1 ∧
    (feed unpack q [[0],[3,0]]).bytes.getD 2 0 = 3 := by
  have hkey : (new (List.replicate 8 0) false).packKeystream = (List.replicate 8 0,0) := by
    simp [new, packKeystream, extendKey]
  have hne : (1 : Byte) ≠ 0 := by decide
  have hsent : (feed pack (new (List.replicate 8 0) false) [[1,2,3]]).bytes = [] ++ 1 :: [3,0] := by
    rw [(pack_feed _ _).2.1, hkey]
    rfl
  obtain ⟨hnone,hlen,hall⟩ := corruption_confined (List.replicate 8 0) false [] (p := new (List.replicate 8 0) false)
    (q := new (List.replicate 8 0) false) rfl rfl [[1,2,3]] [[0],[3,0]] hne hsent rfl
  refine ⟨new (List.replicate 8 0) false,hnone,hlen,fun h => ?_,?_⟩
  · exact ((hall 0 (by decide)).mp h).1 rfl
  · refine (hall 2 (by decide)).mpr ⟨by decide,fun _ => ?_⟩
    have hiv : (new (List.replicate 8 0) false).packIv = List.replicate 8 0 := congrArg Prod.fst hkey
    simp only [Cfb.position, hkey, hiv]
    decide

end CfbProcessor

end Msg801.Tunnel
