import Mathlib.Data.List.Perm.Subperm

/-! # Interleavings of two lists

What two writers put into one place, each in its own order.
-/
namespace Interleaving
variable {α : Type*} {as bs cs as' bs' cs' : List α}

/-- `cs` has the elements of `as` and of `bs`, those of either list in their order. -/
inductive Interleaves : List α → List α → List α → Prop
  | nil : Interleaves [] [] []
  | left (a : α) {as bs cs : List α} (h : Interleaves as bs cs) : Interleaves (a :: as) bs (a :: cs)
  | right (b : α) {as bs cs : List α} (h : Interleaves as bs cs) : Interleaves as (b :: bs) (b :: cs)

namespace Interleaves

theorem only_left (as : List α) : Interleaves as [] as := by
  induction as with
  | nil => exact .nil
  | cons a as ih => exact ih.left a

theorem only_right (bs : List α) : Interleaves [] bs bs := by
  induction bs with
  | nil => exact .nil
  | cons b bs ih => exact ih.right b

theorem append (h : Interleaves as bs cs) (h' : Interleaves as' bs' cs') :
    Interleaves (as ++ as') (bs ++ bs') (cs ++ cs') := by
  induction h with
  | nil => exact h'
  | left a _ ih => exact ih.left a
  | right b _ ih => exact ih.right b

/-- The first writer goes on. -/
theorem append_left (h : Interleaves as bs cs) (ds : List α) : Interleaves (as ++ ds) bs (cs ++ ds) := by
  simpa using h.append (only_left ds)

theorem append_right (h : Interleaves as bs cs) (ds : List α) : Interleaves as (bs ++ ds) (cs ++ ds) := by
  simpa using h.append (only_right ds)

/-- Nothing is lost and nothing is added. -/
theorem perm (h : Interleaves as bs cs) : cs.Perm (as ++ bs) := by
  induction h with
  | nil => exact .refl _
  | left a _ ih => exact ih.cons a
  | right b _ ih => exact (ih.cons b).trans List.perm_middle.symm

end Interleaves

end Interleaving
