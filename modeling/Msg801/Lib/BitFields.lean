import Mathlib.Data.Nat.Digits.Defs

/-! # Words with forced bits, and numbers in hexadecimal fields

Some bits of a word are forced by a mask and a pattern, and the rest of it is kept. A number
is printed in a field of hexadecimal digits, which is filled up with zeros.
-/
namespace BitFields

section Force
variable {w : ℕ}

/-- The bits of the mask are cleared and those of the pattern set. -/
def force (mask pattern a : BitVec w) : BitVec w := (a &&& ~~~mask) ||| pattern

theorem force_and (mask pattern a : BitVec w) : force mask pattern a &&& mask = pattern &&& mask := by
  ext i hi
  cases hm : mask[i] <;> simp [force, hm]

theorem force_and_not {mask pattern : BitVec w} (h : pattern &&& ~~~mask = 0) (a : BitVec w) :
    force mask pattern a &&& ~~~mask = a &&& ~~~mask := by
  ext i hi
  have hbit : (pattern &&& ~~~mask)[i] = (0 : BitVec w)[i] := by rw [h]
  cases hm : mask[i] <;> simp [hm] at hbit <;> simp [force, hm, hbit]

/-- What is kept is all that a forced word tells. -/
theorem force_inj {mask pattern : BitVec w} (h : pattern &&& ~~~mask = 0) (a b : BitVec w) :
    force mask pattern a = force mask pattern b ↔ a &&& ~~~mask = b &&& ~~~mask := by
  constructor
  · intro he
    rw [← force_and_not h a, he, force_and_not h b]
  · intro he
    rw [force, he, force]

end Force

/-- The bits a mask selects, as a number. -/
theorem bits_of_and {n k j p : ℕ} (h : n &&& (2 ^ j - 1) <<< k = p <<< k) : n / 2 ^ k % 2 ^ j = p := by
  have hs : (n &&& (2 ^ j - 1) <<< k) >>> k = (p <<< k) >>> k := by rw [h]
  rw [Nat.shiftRight_and_distrib, Nat.shiftLeft_shiftRight, Nat.shiftLeft_shiftRight,
    Nat.and_two_pow_sub_one_eq_mod, Nat.shiftRight_eq_div_pow] at hs
  exact hs

/-- The digit of a number below sixteen. -/
def digit (d : ℕ) : UInt8 := if d < 10 then UInt8.ofNat (48 + d) else UInt8.ofNat (87 + d)

def IsDigit (c : UInt8) : Prop := 48 ≤ c ∧ c ≤ 57 ∨ 97 ≤ c ∧ c ≤ 102

instance (c : UInt8) : Decidable (IsDigit c) := inferInstanceAs (Decidable (_ ∨ _))

/-- The digits of a number, with zeros in front up to the width. -/
def field (width n : ℕ) : List UInt8 :=
  let ds := ((Nat.digits 16 n).map digit).reverse
  List.replicate (width - ds.length) 48 ++ ds

theorem digit_isDigit {d : ℕ} (h : d < 16) : IsDigit (digit d) := by
  revert d
  decide

theorem digit_injective {d e : ℕ} (hd : d < 16) (he : e < 16) (h : digit d = digit e) : d = e := by
  have hall : ∀ d < 16, ∀ e < 16, digit d = digit e → d = e := by decide
  exact hall d hd e he h

theorem field_zero : field 0 0 = [] := by simp [field]

/-- The last digit stands behind the field of what is left. -/
theorem field_succ (width n : ℕ) : field (width + 1) n = field width (n / 16) ++ [digit (n % 16)] := by
  rcases Nat.eq_zero_or_pos n with rfl | hn
  · simp [field, digit, List.replicate_succ']
  · simp only [field, Nat.digits_def' (by decide : 1 < 16) hn, List.map_cons, List.reverse_cons, List.length_append,
      List.length_singleton, Nat.add_sub_add_right, List.append_assoc]

theorem field_length {width n : ℕ} (h : n < 16 ^ width) : (field width n).length = width := by
  induction width generalizing n with
  | zero =>
    obtain rfl : n = 0 := by simpa using h
    rw [field_zero]
    rfl
  | succ width ih =>
    have hdiv : n / 16 < 16 ^ width := by
      rw [Nat.pow_succ] at h
      omega
    rw [field_succ, List.length_append, ih hdiv, List.length_singleton]

theorem isDigit_of_mem {width n : ℕ} (h : n < 16 ^ width) {c : UInt8} (hc : c ∈ field width n) : IsDigit c := by
  induction width generalizing n with
  | zero =>
    obtain rfl : n = 0 := by simpa using h
    rw [field_zero] at hc
    cases hc
  | succ width ih =>
    have hdiv : n / 16 < 16 ^ width := by
      rw [Nat.pow_succ] at h
      omega
    rw [field_succ, List.mem_append, List.mem_singleton] at hc
    rcases hc with hc | rfl
    · exact ih hdiv hc
    · exact digit_isDigit (Nat.mod_lt n (by decide))

theorem field_injective {width n m : ℕ} (hn : n < 16 ^ width) (hm : m < 16 ^ width)
    (h : field width n = field width m) : n = m := by
  induction width generalizing n m with
  | zero =>
    rw [Nat.pow_zero] at hn hm
    omega
  | succ width ih =>
    rw [Nat.pow_succ] at hn hm
    rw [field_succ, field_succ] at h
    obtain ⟨hfront,hlast⟩ := List.append_inj' h rfl
    have hdiv : n / 16 = m / 16 := ih (by omega) (by omega) hfront
    have hmod : n % 16 = m % 16 :=
      digit_injective (Nat.mod_lt n (by decide)) (Nat.mod_lt m (by decide)) (List.singleton_inj.mp hlast)
    omega

/-- The first digit is that of the uppermost four bits. -/
theorem field_head {width n : ℕ} (h : n < 16 ^ (width + 1)) :
    (field (width + 1) n).head? = some (digit (n / 16 ^ width)) := by
  induction width generalizing n with
  | zero =>
    have hn : n < 16 := by simpa using h
    rw [field_succ, Nat.div_eq_of_lt hn, field_zero, Nat.pow_zero, Nat.div_one, Nat.mod_eq_of_lt hn]
    rfl
  | succ width ih =>
    have hdiv : n / 16 < 16 ^ (width + 1) := by
      rw [Nat.pow_succ] at h
      omega
    rw [field_succ, List.head?_append, ih hdiv, Nat.div_div_eq_div_mul, ← Nat.pow_succ']
    rfl

end BitFields
