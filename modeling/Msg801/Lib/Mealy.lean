import Mathlib.Data.List.Infix

/-! # Machines that answer every symbol with one symbol

Running such a machine over a string does not depend on how the string is cut, and
a machine that undoes another symbol by symbol, in the same states, undoes it on
strings and stays in the same state.
-/
namespace Mealy
variable {σ α β : Type*}

/-- The final state and the output string. -/
def run (step : σ → α → σ × β) : σ → List α → σ × List β
  | s, [] => (s,[])
  | s, a :: as => ((run step (step s a).1 as).1,(step s a).2 :: (run step (step s a).1 as).2)

variable (step : σ → α → σ × β)

@[simp] theorem run_nil (s : σ) : run step s [] = (s,[]) := rfl

theorem run_cons (s : σ) (a : α) (as : List α) : run step s (a :: as) =
    ((run step (step s a).1 as).1,(step s a).2 :: (run step (step s a).1 as).2) := rfl

theorem run_append (s : σ) (as bs : List α) : run step s (as ++ bs) =
    ((run step (run step s as).1 bs).1,(run step s as).2 ++ (run step (run step s as).1 bs).2) := by
  induction as generalizing s with
  | nil => rfl
  | cons a as ih => simp only [List.cons_append, run_cons, ih]

@[simp] theorem run_length (s : σ) (as : List α) : (run step s as).2.length = as.length := by
  induction as generalizing s with
  | nil => rfl
  | cons a as ih => simp [run_cons, ih]

theorem run_take (s : σ) (as : List α) (n : ℕ) :
    (run step s (as.take n)).2 = (run step s as).2.take n := by
  induction as generalizing s n with
  | nil => simp
  | cons a as ih => cases n <;> simp [run_cons, ih]

/-- What no symbol changes of the state, no string changes. -/
theorem run_keeps {γ : Type*} {step : σ → α → σ × β} (view : σ → γ)
    (h : ∀ s a, view (step s a).1 = view s) (s : σ) (as : List α) :
    view (run step s as).1 = view s := by
  induction as generalizing s with
  | nil => rfl
  | cons a as ih =>
    rw [run_cons]
    exact (ih _).trans (h s a)

theorem run_prefix {s : σ} {as bs : List α} (h : as <+: bs) :
    (run step s as).2 <+: (run step s bs).2 := by
  obtain ⟨cs,rfl⟩ := h
  rw [run_append]
  exact List.prefix_append _ _

variable {step}

/-- One step of `inv`, from the same state, gives back the symbol and moves alike. -/
def Undoes (inv : σ → β → σ × α) (step : σ → α → σ × β) : Prop :=
  ∀ s a, inv s (step s a).2 = ((step s a).1,a)

theorem Undoes.run {inv : σ → β → σ × α} (h : Undoes inv step) (s : σ) (as : List α) :
    Mealy.run inv s (Mealy.run step s as).2 = ((Mealy.run step s as).1,as) := by
  induction as generalizing s with
  | nil => rfl
  | cons a as ih => simp [run_cons, h s a, ih]

/-- On a piece of the ciphertext the inverse machine gives the same piece of the plaintext. -/
theorem Undoes.run_prefix {inv : σ → β → σ × α} (h : Undoes inv step) {s : σ} {as : List α}
    {bs : List β} (hb : bs <+: (Mealy.run step s as).2) :
    (Mealy.run inv s bs).2 = as.take bs.length := by
  rw [List.prefix_iff_eq_take.mp hb, ← run_take, h.run]
  simp

end Mealy
