import Mathlib.Data.List.TakeWhile
import Msg801.Tunnel.Build

/-! # What `std::stoull` takes for a number

A complete decimal numeral is read as what it denotes. Other texts are read as well: blanks
and a sign may stand before the digits and anything behind them.
-/
namespace Msg801.Tunnel

/-- A complete decimal numeral and the number it denotes. -/
inductive Numeral : ByteSpan → ℕ → Prop where
  | one {c : Byte} (h : isDigit c = true) : Numeral [c] (c.toNat - 48)
  | more {s : ByteSpan} {n : ℕ} {c : Byte} (hs : Numeral s n) (h : isDigit c = true) :
      Numeral (s ++ [c]) (10 * n + (c.toNat - 48))

/-- The texts that `std::stoull` reads, and what it makes of them. -/
inductive Scans : ByteSpan → UInt64 → Prop where
  | intro {blanks sign digits rest : ByteSpan} {value : ℕ} (hb : ∀ c ∈ blanks, isSpace c = true)
      (hs : sign = [] ∨ sign = [43] ∨ sign = [45]) (hd : Numeral digits value)
      (hr : ∀ c ∈ rest.head?, isDigit c = false) (hv : value < 2 ^ 64) :
      Scans (blanks ++ (sign ++ (digits ++ rest)))
        (if sign = [45] then -UInt64.ofNat value else UInt64.ofNat value)

/-- The value of the digits in front of everything else. -/
def decimal (digits : ByteSpan) : ℕ := digits.foldl (fun n d => 10 * n + (d.toNat - 48)) 0

theorem decimal_append (s : ByteSpan) (c : Byte) : decimal (s ++ [c]) = 10 * decimal s + (c.toNat - 48) := by
  simp [decimal]

theorem numeral_iff {s : ByteSpan} {n : ℕ} :
    Numeral s n ↔ s ≠ [] ∧ (∀ c ∈ s, isDigit c = true) ∧ decimal s = n := by
  constructor
  · intro h
    induction h with
    | one h => simp [h, decimal]
    | more _ h ih =>
      obtain ⟨-,hs,rfl⟩ := ih
      refine ⟨by simp,?_,decimal_append _ _⟩
      intro d hd
      rcases List.mem_append.mp hd with hd | hd
      · exact hs d hd
      · rwa [List.mem_singleton.mp hd]
  · rintro ⟨hne,hs,rfl⟩
    induction s using List.reverseRecOn with
    | nil => exact absurd rfl hne
    | append_singleton s c ih =>
      have hc := hs c (by simp)
      rw [decimal_append]
      by_cases hnil : s = []
      · subst s
        simpa [decimal] using Numeral.one hc
      · exact .more (ih hnil fun d hd => hs d (List.mem_append_left _ hd)) hc

/-- A numeral denotes one number. -/
theorem Numeral.unique {s : ByteSpan} {n m : ℕ} (hn : Numeral s n) (hm : Numeral s m) : n = m :=
  (numeral_iff.mp hn).2.2.symm.trans (numeral_iff.mp hm).2.2

theorem not_isSpace_of_isDigit {c : Byte} (h : isDigit c = true) : isSpace c = false := by
  simp only [isDigit, isSpace, decide_eq_true_eq, decide_eq_false_iff_not, UInt8.le_iff_toNat_le,
    UInt8.ext_iff] at h ⊢
  simp at h ⊢
  omega

theorem takeWhile_append {p : Byte → Bool} {body rest : ByteSpan} (hb : ∀ c ∈ body, p c = true)
    (hr : ∀ c ∈ rest.head?, p c = false) :
    (body ++ rest).takeWhile p = body ∧ (body ++ rest).dropWhile p = rest := by
  rw [List.takeWhile_append_of_pos hb, List.dropWhile_append_of_pos hb]
  cases rest with
  | nil => simp
  | cons c rest => simp [hr c rfl]

/-- The sign is the first character behind the blanks, if it is one. -/
def Signed (sign tail : ByteSpan) : Prop :=
  sign = [] ∧ tail.head? ≠ some 43 ∧ tail.head? ≠ some 45 ∨ sign = [43] ∨ sign = [45]

theorem exists_signed (body : ByteSpan) : ∃ sign tail, Signed sign tail ∧ body = sign ++ tail := by
  by_cases hplus : body.head? = some 43
  · obtain ⟨tail,rfl⟩ := List.head?_eq_some_iff.mp hplus
    exact ⟨[43],tail,.inr (.inl rfl),rfl⟩
  by_cases hminus : body.head? = some 45
  · obtain ⟨tail,rfl⟩ := List.head?_eq_some_iff.mp hminus
    exact ⟨[45],tail,.inr (.inr rfl),rfl⟩
  · exact ⟨[],body,.inl ⟨rfl,hplus,hminus⟩,rfl⟩

theorem stoull_eq {s sign tail : ByteSpan} (hbody : s.dropWhile isSpace = sign ++ tail)
    (hs : Signed sign tail) : stoull s =
      if tail.takeWhile isDigit = [] then .error (.invalidArgument "stoull")
      else if decimal (tail.takeWhile isDigit) ≥ 2 ^ 64 then .error (.outOfRange "stoull")
      else .ok (if sign = [45] then -UInt64.ofNat (decimal (tail.takeWhile isDigit))
        else UInt64.ofNat (decimal (tail.takeWhile isDigit))) := by
  unfold stoull
  dsimp only
  rw [hbody]
  obtain ⟨rfl,hplus,hminus⟩ | rfl | rfl := hs
  · simp only [List.nil_append, hplus, hminus, or_self, if_false]
    rfl
  · rfl
  · rfl

/-- What is read is a text of this form, and every text of this form is read. -/
theorem stoull_eq_ok {s : ByteSpan} {n : UInt64} : stoull s = .ok n ↔ Scans s n := by
  constructor
  · intro h
    obtain ⟨sign,tail,hs,hbody⟩ := exists_signed (s.dropWhile isSpace)
    have hsplit : s.takeWhile isSpace ++ (sign ++ (tail.takeWhile isDigit ++ tail.dropWhile isDigit)) = s := by
      rw [List.takeWhile_append_dropWhile, ← hbody, List.takeWhile_append_dropWhile]
    rw [stoull_eq hbody hs] at h
    split_ifs at h with hne hv hminus
    all_goals
      have hsign : sign = [] ∨ sign = [43] ∨ sign = [45] := hs.imp_left And.left
      have hd : Numeral (tail.takeWhile isDigit) (decimal (tail.takeWhile isDigit)) :=
        numeral_iff.mpr ⟨hne,fun c => List.mem_takeWhile_imp,rfl⟩
      have hr : ∀ c ∈ (tail.dropWhile isDigit).head?, isDigit c = false := by
        intro c hc
        have hstop := List.head?_dropWhile_not isDigit tail
        rw [Option.mem_def.mp hc] at hstop
        simpa using hstop
      have hb : ∀ c ∈ s.takeWhile isSpace, isSpace c = true := fun c => List.mem_takeWhile_imp
      have hscan := Scans.intro hb hsign hd hr (Nat.not_le.mp hv)
      rw [hsplit] at hscan
      obtain rfl := Except.ok.inj h
      simpa [hminus] using hscan
  · intro h
    obtain @⟨blanks,sign,digits,rest,value,hb,hs,hd,hr,hv⟩ := h
    obtain ⟨hne,hall,rfl⟩ := numeral_iff.mp hd
    have htake := (takeWhile_append hall hr).1
    obtain ⟨d,ds,rfl⟩ := List.exists_cons_of_ne_nil hne
    have hdig : isDigit d = true := hall d (by simp)
    have hbody : (blanks ++ (sign ++ (d :: ds ++ rest))).dropWhile isSpace = sign ++ (d :: ds ++ rest) := by
      refine (takeWhile_append hb ?_).2
      obtain rfl | rfl | rfl := hs
      · simpa using not_isSpace_of_isDigit hdig
      · simp [isSpace]
      · simp [isSpace]
    have hsigned : Signed sign (d :: ds ++ rest) := by
      refine hs.imp_left fun h => ⟨h,?_,?_⟩
      · rintro ⟨rfl⟩
        cases hdig
      · rintro ⟨rfl⟩
        cases hdig
    rw [stoull_eq hbody hsigned, htake, if_neg hne, if_neg (Nat.not_le.mpr hv)]

/-- A text is either read or refused with an exception. -/
theorem stoull_error {s : ByteSpan} : (∃ e, stoull s = .error e) ↔ ∀ n, ¬Scans s n := by
  cases h : stoull s with
  | error e => simp [← stoull_eq_ok, h]
  | ok n => simp [← stoull_eq_ok, h]

/-- A complete numeral is read as what it denotes. -/
theorem Numeral.scans {s : ByteSpan} {n : ℕ} (h : Numeral s n) (hn : n < 2 ^ 64) : Scans s (UInt64.ofNat n) := by
  have hscan := @Scans.intro [] [] s [] n (by simp) (.inl rfl) h (by simp) hn
  simpa using hscan

end Msg801.Tunnel
