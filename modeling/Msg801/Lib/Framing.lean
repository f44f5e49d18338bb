import Mathlib.Data.List.Infix

/-! # Streams cut into self-delimiting frames

A grammar looks at the beginning of a buffer and says that it is too short to tell, that
a frame lies there, or that it is malformed; more bytes behind it never change an answer
already given. Draining a buffer takes frames off until it is short or malformed. What
has been taken does not depend on how the stream was cut into buffers.
-/
namespace Framing
variable {α β : Type*}

/-- The verdict on the beginning of a buffer. -/
inductive Head (β : Type*) where
  | short
  | frame (value : β) (size : ℕ)
  | malformed

/-- A verdict that later bytes do not change, and frames that take something. -/
structure Grammar (α β : Type*) where
  head : List α → Head β
  frame_size : ∀ {l v n}, head l = .frame v n → 0 < n ∧ n ≤ l.length
  frame_append : ∀ {l v n}, head l = .frame v n → ∀ m, head (l ++ m) = .frame v n
  malformed_append : ∀ {l}, head l = .malformed → ∀ m, head (l ++ m) = .malformed

/-- The values taken off a buffer, what is left of it, and whether that is malformed. -/
@[ext] structure Drained (α β : Type*) where
  values : List β
  rest : List α
  broken : Bool

namespace Grammar
variable (g : Grammar α β)

def drain (l : List α) : Drained α β :=
  match _h : g.head l with
  | .short => ⟨[],l,false⟩
  | .malformed => ⟨[],l,true⟩
  | .frame v n => ⟨v :: (drain (l.drop n)).values,(drain (l.drop n)).rest,
      (drain (l.drop n)).broken⟩
termination_by l.length
decreasing_by
  all_goals
    have := g.frame_size _h
    simp only [List.length_drop]
    omega

variable {g} {l m : List α}

theorem drain_short (h : g.head l = .short) : g.drain l = ⟨[],l,false⟩ := by
  rw [drain]
  split <;> simp_all

theorem drain_malformed (h : g.head l = .malformed) : g.drain l = ⟨[],l,true⟩ := by
  rw [drain]
  split <;> simp_all

theorem drain_frame {v : β} {n : ℕ} (h : g.head l = .frame v n) :
    g.drain l = ⟨v :: (g.drain (l.drop n)).values,(g.drain (l.drop n)).rest,
      (g.drain (l.drop n)).broken⟩ := by
  conv_lhs => rw [drain]
  split <;> simp_all

/-- Every buffer is drained from its end backwards: the induction follows the frames. -/
theorem drain_induction {p : List α → Prop} (short : ∀ l, g.head l = .short → p l)
    (malformed : ∀ l, g.head l = .malformed → p l)
    (frame : ∀ l v n, g.head l = .frame v n → p (l.drop n) → p l) (l : List α) : p l := by
  induction hk : l.length using Nat.strong_induction_on generalizing l with
  | _ k ih =>
    cases h : g.head l with
    | short => exact short l h
    | malformed => exact malformed l h
    | frame v n =>
      have hn := g.frame_size h
      exact frame l v n h (ih (l.drop n).length (by simp only [List.length_drop]; omega) _ rfl)

theorem drain_append (h : (g.drain l).broken = false) (m : List α) :
    g.drain (l ++ m) = ⟨(g.drain l).values ++ (g.drain ((g.drain l).rest ++ m)).values,
      (g.drain ((g.drain l).rest ++ m)).rest,(g.drain ((g.drain l).rest ++ m)).broken⟩ := by
  induction l using g.drain_induction with
  | short l hl => simp [drain_short hl]
  | malformed l hl => simp [drain_malformed hl] at h
  | frame l v n hl ih =>
    have hd : (l ++ m).drop n = l.drop n ++ m := List.drop_append_of_le_length (g.frame_size hl).2
    rw [drain_frame hl] at h ⊢
    rw [drain_frame (g.frame_append hl m), hd, ih h]
    rfl

/-- A malformed buffer stays malformed, and gives the same values. -/
theorem drain_append_broken (h : (g.drain l).broken = true) (m : List α) :
    g.drain (l ++ m) = ⟨(g.drain l).values,(g.drain l).rest ++ m,true⟩ := by
  induction l using g.drain_induction with
  | short l hl => simp [drain_short hl] at h
  | malformed l hl => rw [drain_malformed hl, drain_malformed (g.malformed_append hl m)]
  | frame l v n hl ih =>
    have hd : (l ++ m).drop n = l.drop n ++ m := List.drop_append_of_le_length (g.frame_size hl).2
    rw [drain_frame hl] at h ⊢
    rw [drain_frame (g.frame_append hl m), hd, ih h]

theorem drain_prefix (h : l <+: m) (hm : (g.drain m).broken = false) :
    (g.drain l).broken = false ∧ (g.drain l).values <+: (g.drain m).values := by
  obtain ⟨r,rfl⟩ := h
  cases hl : (g.drain l).broken with
  | true => simp [drain_append_broken hl] at hm
  | false =>
    rw [drain_append hl]
    exact ⟨rfl,List.prefix_append _ _⟩

theorem drain_flatMap {γ : Type*} (encode : γ → List α) (value : γ → β) (fs : List γ)
    (hf : ∀ f ∈ fs, g.head (encode f) = .frame (value f) (encode f).length) (m : List α) :
    g.drain (fs.flatMap encode ++ m) =
      ⟨fs.map value ++ (g.drain m).values,(g.drain m).rest,(g.drain m).broken⟩ := by
  induction fs with
  | nil => rfl
  | cons f fs ih =>
    have h := g.frame_append (hf f (by simp)) (fs.flatMap encode ++ m)
    rw [List.flatMap_cons, List.append_assoc, drain_frame h, List.drop_left,
      ih fun f' hf' => hf f' (by simp [hf'])]
    rfl

/-- What is left is never a frame: it is short, or malformed and the draining broke off. -/
theorem head_rest (l : List α) : g.head (g.drain l).rest =
    if (g.drain l).broken then .malformed else .short := by
  induction l using g.drain_induction with
  | short l hl => simpa [drain_short hl] using hl
  | malformed l hl => simpa [drain_malformed hl] using hl
  | frame l v n hl ih => simpa [drain_frame hl] using ih

section Encodings
variable {γ : Type*} {encode : γ → List α} {value : γ → β}

/-- The frames of a grammar are exactly the words of an encoding. -/
structure Encodes (g : Grammar α β) (encode : γ → List α) (value : γ → β) : Prop where
  head_encode : ∀ f, g.head (encode f) = .frame (value f) (encode f).length
  of_frame : ∀ {l v n}, g.head l = .frame v n → ∃ f, encode f = l.take n ∧ value f = v
  injective : Function.Injective encode

/-- A stream as words followed by something that no word begins. -/
def Splits (encode : γ → List α) (l : List α) (fs : List γ) (r : List α) : Prop :=
  l = fs.flatMap encode ++ r ∧ ∀ f, ¬encode f <+: r

/-- No word begins another one. -/
theorem Encodes.cancel (h : g.Encodes encode value) {f f' : γ} {m m' : List α}
    (he : encode f ++ m = encode f' ++ m') : f = f' ∧ m = m' := by
  have hf := g.frame_append (h.head_encode f) m
  have hf' := g.frame_append (h.head_encode f') m'
  rw [he, hf'] at hf
  injection hf with _ hlen
  obtain ⟨hw,hm⟩ := List.append_inj he hlen.symm
  exact ⟨h.injective hw,hm⟩

theorem Encodes.splits_unique (h : g.Encodes encode value) {fs fs' : List γ} {r r' : List α}
    (hs : Splits encode l fs r) (hs' : Splits encode l fs' r') : fs' = fs ∧ r' = r := by
  obtain ⟨rfl,hr⟩ := hs
  obtain ⟨he,hr'⟩ := hs'
  induction fs generalizing fs' with
  | nil =>
    cases fs' with
    | nil => exact ⟨rfl,he.symm⟩
    | cons f' fs' =>
      rw [List.flatMap_nil, List.nil_append, List.flatMap_cons, List.append_assoc] at he
      exact absurd (he ▸ List.prefix_append _ _) (hr f')
  | cons f fs ih =>
    rw [List.flatMap_cons, List.append_assoc] at he
    cases fs' with
    | nil => exact absurd (⟨_,he⟩ : encode f <+: r') (hr' f)
    | cons f' fs' =>
      rw [List.flatMap_cons, List.append_assoc] at he
      obtain ⟨rfl,hm⟩ := h.cancel he
      obtain ⟨rfl,hrest⟩ := ih hm
      exact ⟨rfl,hrest⟩

/-- Draining takes off the words there are. -/
theorem Encodes.splits_drain (h : g.Encodes encode value) (l : List α) : ∃ fs,
    Splits encode l fs (g.drain l).rest ∧ (g.drain l).values = fs.map value := by
  have hrest : ∀ f, ¬encode f <+: (g.drain l).rest := by
    rintro f ⟨m,hm⟩
    have hf := g.frame_append (h.head_encode f) m
    rw [hm, head_rest] at hf
    split at hf <;> cases hf
  suffices ∃ fs : List γ, l = fs.flatMap encode ++ (g.drain l).rest ∧
      (g.drain l).values = fs.map value by
    obtain ⟨fs,hl,hv⟩ := this
    exact ⟨fs,⟨hl,hrest⟩,hv⟩
  clear hrest
  induction l using g.drain_induction with
  | short l hl => exact ⟨[],by simp [drain_short hl],by simp [drain_short hl]⟩
  | malformed l hl => exact ⟨[],by simp [drain_malformed hl],by simp [drain_malformed hl]⟩
  | frame l v n hl ih =>
    obtain ⟨f,hf,rfl⟩ := h.of_frame hl
    obtain ⟨fs,hfs,hv⟩ := ih
    rw [drain_frame hl]
    refine ⟨f :: fs,?_,by simp [hv]⟩
    rw [List.flatMap_cons, hf, List.append_assoc, ← hfs, List.take_append_drop]

end Encodings

end Grammar

end Framing
