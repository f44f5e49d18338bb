import Mathlib.Data.List.Forall2
import Msg801.Lib.Stage

/-! # What stages put by

A stage that holds bytes back pays for what it emits with what it takes and with what it
has put by. Along a chain of such stages the output of a call is bounded by its input.
-/
namespace Stage
variable {σ P α ε : Type*}

/-- What the calls emit and hold back is at most `grow` for every symbol they take, over what
was held back before. -/
def Pays (call : σ → List α → Outcome σ α ε) (Q : σ → Prop) (held : σ → ℕ) (grow : ℕ) : Prop :=
  ∀ s x, Q s → (call s x).error = none →
    Q (call s x).state ∧ (call s x).bytes.length + held (call s x).state ≤ held s + grow * x.length

theorem Pays.feed {call : σ → List α → Outcome σ α ε} {Q : σ → Prop} {held : σ → ℕ} {grow : ℕ} (h : Pays call Q held grow)
    {s : σ} (hs : Q s) (xs : List (List α)) (he : (Stage.feed call s xs).error = none) :
    Q (Stage.feed call s xs).state ∧
    (Stage.feed call s xs).bytes.length + held (Stage.feed call s xs).state ≤ held s + grow * xs.flatten.length := by
  induction xs generalizing s with
  | nil => exact ⟨hs,by simp [Outcome.bytes]⟩
  | cons x xs ih =>
    obtain ⟨hx,hxs⟩ := feed_cons_error.mp he
    obtain ⟨hnext,hfirst⟩ := h s x hs hx
    obtain ⟨hlast,hrest⟩ := ih hnext hxs
    rw [feed_cons hx]
    refine ⟨hlast,?_⟩
    simp only [Outcome.bytes, List.flatten_append, List.length_append, List.flatten_cons, Nat.mul_add]
      at hfirst hrest ⊢
    omega

/-- Calls none of which ends with an exception do not end with it one after another. -/
theorem feed_error_ne {call : σ → List α → Outcome σ α ε} {Q : σ → Prop} {e : ε}
    (hQ : ∀ s x, Q s → (call s x).error = none → Q (call s x).state) (hne : ∀ s x, Q s → (call s x).error ≠ some e)
    {s : σ} (hs : Q s) (xs : List (List α)) : (feed call s xs).error ≠ some e := by
  induction xs generalizing s with
  | nil => simp
  | cons x xs ih =>
    cases hx : (call s x).error with
    | none =>
      rw [feed_cons hx]
      exact ih (hQ s x hs hx)
    | some d =>
      have hd := hne s x hs
      rw [hx] at hd
      simpa [feed, hx] using hd

theorem through_error_ne {call : P → List α → Outcome P α ε} {e : ε} {ps : List P}
    (hne : ∀ p ∈ ps, ∀ xs, (feed call p xs).error ≠ some e) (xs : List (List α)) :
    (through call ps xs).error ≠ some e := by
  induction ps generalizing xs with
  | nil => simp
  | cons p ps ih =>
    have hp := hne p (List.mem_cons_self ..) xs
    cases hx : (feed call p xs).error with
    | none =>
      rw [through_cons ps hx]
      exact ih (fun q hq => hne q (List.mem_cons_of_mem _ hq)) _
    | some d =>
      rw [hx] at hp
      simpa [through, hx] using hp

/-- What a stage may hold back, and how many symbols it may emit for one. -/
structure Budget where
  hold : ℕ
  grow : ℕ

namespace Budget

/-- The most that comes out of a stage into which `n` symbols go. -/
def limit (b : Budget) (n : ℕ) : ℕ := b.hold + b.grow * n

theorem limit_mono (b : Budget) {m n : ℕ} (h : m ≤ n) : b.limit m ≤ b.limit n :=
  Nat.add_le_add_left (Nat.mul_le_mul_left _ h) _

/-- The most that comes out of a chain. -/
def total (bs : List Budget) (n : ℕ) : ℕ := bs.foldl (fun n b => b.limit n) n

theorem total_mono (bs : List Budget) {m n : ℕ} (h : m ≤ n) : total bs m ≤ total bs n := by
  induction bs generalizing m n with
  | nil => exact h
  | cons b bs ih => exact ih (b.limit_mono h)

end Budget

/-- Stages that stay within their budgets keep the chain within its own. -/
theorem through_within {call : P → List α → Outcome P α ε} {J : Budget → P → Prop}
    (hcall : ∀ b p xs, J b p → (feed call p xs).error = none →
      J b (feed call p xs).state ∧ (feed call p xs).bytes.length ≤ b.limit xs.flatten.length)
    {bs : List Budget} {ps : List P} (h : List.Forall₂ J bs ps) (xs : List (List α))
    (he : (through call ps xs).error = none) :
    List.Forall₂ J bs (through call ps xs).state ∧
    (through call ps xs).bytes.length ≤ Budget.total bs xs.flatten.length := by
  induction h generalizing xs with
  | nil => exact ⟨.nil,le_rfl⟩
  | cons hp hps ih =>
    obtain ⟨hfirst,hrest⟩ := through_cons_error.mp he
    obtain ⟨hstate,hlen⟩ := hcall _ _ xs hp hfirst
    obtain ⟨hstates,hall⟩ := ih _ hrest
    rw [through_cons _ hfirst]
    exact ⟨.cons hstate hstates,hall.trans (Budget.total_mono _ hlen)⟩

end Stage
