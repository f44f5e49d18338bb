import Mathlib.Data.Nat.Bitwise

/-! # Four octets as a 32-bit word, most significant first -/
namespace BigEndian

/-- The octets of a word, by shifts and masks. -/
def octets (v : UInt32) : List UInt8 :=
  [((v >>> 24) &&& 0xff).toUInt8,((v >>> 16) &&& 0xff).toUInt8,((v >>> 8) &&& 0xff).toUInt8,
    (v &&& 0xff).toUInt8]

/-- The word of the first four octets, by shifts and disjunctions; absent octets count as zero. -/
def word (p : List UInt8) : UInt32 :=
  ((p.getD 0 0).toUInt32 <<< 24) ||| ((p.getD 1 0).toUInt32 <<< 16) |||
    ((p.getD 2 0).toUInt32 <<< 8) ||| (p.getD 3 0).toUInt32

@[simp] theorem octets_length (v : UInt32) : (octets v).length = 4 := rfl

theorem word_append {p : List UInt8} (h : 4 ≤ p.length) (q : List UInt8) :
    word (p ++ q) = word p := by
  simp only [word, List.getD_append _ _ _ _ (show 0 < p.length by omega),
    List.getD_append _ _ _ _ (show 1 < p.length by omega),
    List.getD_append _ _ _ _ (show 2 < p.length by omega),
    List.getD_append _ _ _ _ (show 3 < p.length by omega)]

/-- A shifted number and one below the shift occupy different bits. -/
theorem shift_or {a b i : ℕ} (h : b < 2 ^ i) : a <<< i ||| b = a * 2 ^ i + b := by
  rw [← Nat.shiftLeft_add_eq_or_of_lt h, Nat.shiftLeft_eq]

theorem word_toNat (p : List UInt8) : (word p).toNat =
    (p.getD 0 0).toNat * 2 ^ 24 + (p.getD 1 0).toNat * 2 ^ 16 + (p.getD 2 0).toNat * 2 ^ 8 +
      (p.getD 3 0).toNat := by
  have ha := (p.getD 0 0).toNat_lt
  have hb := (p.getD 1 0).toNat_lt
  have hc := (p.getD 2 0).toNat_lt
  have hd := (p.getD 3 0).toNat_lt
  have h₁ : (p.getD 0 0).toNat <<< 24 ||| (p.getD 1 0).toNat <<< 16 =
      ((p.getD 0 0).toNat * 2 ^ 8 + (p.getD 1 0).toNat) <<< 16 := by
    rw [shift_or (by rw [Nat.shiftLeft_eq]; omega), Nat.shiftLeft_eq, Nat.shiftLeft_eq]
    omega
  have h₂ : ((p.getD 0 0).toNat * 2 ^ 8 + (p.getD 1 0).toNat) <<< 16 |||
      (p.getD 2 0).toNat <<< 8 =
      ((p.getD 0 0).toNat * 2 ^ 16 + (p.getD 1 0).toNat * 2 ^ 8 + (p.getD 2 0).toNat) <<< 8 := by
    rw [shift_or (by rw [Nat.shiftLeft_eq]; omega), Nat.shiftLeft_eq, Nat.shiftLeft_eq]
    omega
  have hs {n i : ℕ} (h : n * 2 ^ i < 2 ^ 32) : n <<< i % 2 ^ 32 = n <<< i := by
    rw [Nat.shiftLeft_eq, Nat.mod_eq_of_lt h]
  simp only [word, UInt32.toNat_or, UInt32.toNat_shiftLeft, UInt8.toNat_toUInt32,
    UInt32.reduceToNat, Nat.reduceMod]
  rw [hs (by omega), hs (by omega), hs (by omega), h₁, h₂, shift_or (by omega)]
  omega

theorem octets_toNat (v : UInt32) : (octets v).map UInt8.toNat =
    [v.toNat / 2 ^ 24,v.toNat / 2 ^ 16 % 256,v.toNat / 2 ^ 8 % 256,v.toNat % 256] := by
  have hv := v.toNat_lt
  have hm (n : ℕ) : n &&& 255 = n % 256 := Nat.and_two_pow_sub_one_eq_mod n 8
  simp only [octets, List.map_cons, List.map_nil, UInt32.toNat_toUInt8, UInt32.toNat_and,
    UInt32.toNat_shiftRight, UInt32.reduceToNat, Nat.reduceMod, Nat.shiftRight_eq_div_pow, hm]
  simp only [List.cons.injEq, and_true]
  omega

@[simp] theorem word_octets (v : UInt32) : word (octets v) = v := by
  apply UInt32.toNat_inj.mp
  have h := octets_toNat v
  rw [word_toNat]
  simp only [octets, List.map_cons, List.map_nil, List.cons.injEq, and_true] at h
  simp only [octets, List.getD_cons_zero, List.getD_cons_succ, h]
  omega

theorem octets_word {p : List UInt8} (h : 4 ≤ p.length) : octets (word p) = p.take 4 := by
  rcases p with _ | ⟨a,_ | ⟨b,_ | ⟨c,_ | ⟨d,p⟩⟩⟩⟩
  case cons.cons.cons.cons =>
    apply (List.map_inj_right fun _ _ => UInt8.toNat_inj.mp).mp
    have ha := a.toNat_lt
    have hb := b.toNat_lt
    have hc := c.toNat_lt
    have hd := d.toNat_lt
    rw [octets_toNat, word_toNat]
    simp only [List.getD_cons_zero, List.getD_cons_succ, List.take_succ_cons, List.take_zero,
      List.map_cons, List.map_nil, List.cons.injEq, and_true]
    omega
  all_goals simp at h

end BigEndian
