import Mathlib.Algebra.BigOperators.Group.Finset.Basic
import Mathlib.Data.Nat.Notation
import Mathlib.Logic.Function.Basic

/-! # Maps to shared cells

A map from keys to cells that outlive their entries: whoever holds the number of a cell
reaches it after its key has been erased or given to another cell. The key a cell was
inserted under never changes.
-/

/-- The cells inserted so far, each with its key, and the entries that are left. -/
structure SharedMap (κ σ : Type*) where
  count : ℕ
  key : ℕ → κ
  cell : ℕ → σ
  entry : κ → Option ℕ
  entry_spec : ∀ k i, entry k = some i → i < count ∧ key i = k

namespace SharedMap
variable {κ σ : Type*}

def empty (k : κ) (x : σ) : SharedMap κ σ where
  count := 0
  key _ := k
  cell _ := x
  entry _ := none
  entry_spec := by simp

/-- The map still leads to the cell. -/
def Entered (m : SharedMap κ σ) (i : ℕ) : Prop := m.entry (m.key i) = some i

instance (m : SharedMap κ σ) (i : ℕ) : Decidable (m.Entered i) := inferInstanceAs (Decidable (_ = _))

/-- No cell was ever inserted under the key. -/
def Fresh (m : SharedMap κ σ) (k : κ) : Prop := ∀ i < m.count, m.key i ≠ k

instance [DecidableEq κ] (m : SharedMap κ σ) (k : κ) : Decidable (m.Fresh k) :=
  inferInstanceAs (Decidable (∀ i < m.count, m.key i ≠ k))

/-- Every cell was inserted under a key of its own. -/
def Distinct (m : SharedMap κ σ) : Prop :=
  ∀ i j, i < m.count → j < m.count → m.key i = m.key j → i = j

def set (m : SharedMap κ σ) (i : ℕ) (x : σ) : SharedMap κ σ where
  count := m.count
  key := m.key
  cell := Function.update m.cell i x
  entry := m.entry
  entry_spec := m.entry_spec

/-- All entries go, and every cell they led to is changed. -/
def clear (m : SharedMap κ σ) (f : σ → σ) : SharedMap κ σ where
  count := m.count
  key := m.key
  cell i := if m.Entered i then f (m.cell i) else m.cell i
  entry _ := none
  entry_spec := by simp

section Cells
variable (m : SharedMap κ σ) (k : κ) (x : σ) (i j : ℕ) (f : σ → σ)

theorem entry_eq_some : m.entry k = some i ↔ m.Entered i ∧ m.key i = k :=
  ⟨fun h => ⟨by rw [Entered, (m.entry_spec k i h).2, h],(m.entry_spec k i h).2⟩,
    fun ⟨h,hk⟩ => hk ▸ h⟩

variable {m i j k} in
theorem Entered.lt (h : m.Entered i) : i < m.count := (m.entry_spec _ i h).1

variable {m i j} in
theorem Entered.unique (hi : m.Entered i) (hj : m.Entered j) (h : m.key i = m.key j) : i = j := by
  rw [Entered, h, hj] at hi
  exact (Option.some.inj hi).symm

@[simp] theorem set_count : (m.set i x).count = m.count := rfl
@[simp] theorem set_key : (m.set i x).key = m.key := rfl
@[simp] theorem set_entry : (m.set i x).entry = m.entry := rfl
@[simp] theorem set_cell_self : (m.set i x).cell i = x := by simp [set]
@[simp] theorem set_entered : (m.set i x).Entered j ↔ m.Entered j := Iff.rfl
@[simp] theorem set_fresh : (m.set i x).Fresh k ↔ m.Fresh k := Iff.rfl
@[simp] theorem set_distinct : (m.set i x).Distinct ↔ m.Distinct := Iff.rfl

variable {i j} in
theorem set_cell_of_ne (h : j ≠ i) : (m.set i x).cell j = m.cell j := by simp [set, h]

@[simp] theorem clear_count : (m.clear f).count = m.count := rfl
@[simp] theorem clear_key : (m.clear f).key = m.key := rfl
@[simp] theorem clear_entry : (m.clear f).entry k = none := rfl
@[simp] theorem not_clear_entered : ¬(m.clear f).Entered i := by simp [Entered]
@[simp] theorem clear_distinct : (m.clear f).Distinct ↔ m.Distinct := Iff.rfl
theorem clear_cell : (m.clear f).cell i = if m.Entered i then f (m.cell i) else m.cell i := rfl

end Cells

section Total

/-- What the cells add up to. -/
def total (m : SharedMap κ σ) (w : σ → ℕ) : ℕ := ∑ i ∈ Finset.range m.count, w (m.cell i)

theorem total_of_update {m n : SharedMap κ σ} {w : σ → ℕ} {i : ℕ} (hi : i < m.count) (hc : n.count = m.count)
    (hcell : ∀ j, j ≠ i → n.cell j = m.cell j) : n.total w + w (m.cell i) = m.total w + w (n.cell i) := by
  have hmem : i ∈ Finset.range m.count := Finset.mem_range.mpr hi
  have hrest : ∑ j ∈ (Finset.range m.count).erase i, w (n.cell j) = ∑ j ∈ (Finset.range m.count).erase i, w (m.cell j) :=
    Finset.sum_congr rfl fun j hj => congrArg w (hcell j (Finset.ne_of_mem_erase hj))
  rw [total, total, hc, ← Finset.add_sum_erase _ _ hmem, ← Finset.add_sum_erase _ (fun j => w (m.cell j)) hmem, hrest]
  omega

variable (m : SharedMap κ σ) (w : σ → ℕ) (x : σ) {i : ℕ}

theorem total_set (hi : i < m.count) : (m.set i x).total w + w (m.cell i) = m.total w + w x := by
  have h := total_of_update (w := w) hi (m.set_count x i) fun j hj => m.set_cell_of_ne x hj
  rwa [set_cell_self] at h

end Total

section Keys
variable [DecidableEq κ]

def insert (m : SharedMap κ σ) (k : κ) (x : σ) : SharedMap κ σ where
  count := m.count + 1
  key := Function.update m.key m.count k
  cell := Function.update m.cell m.count x
  entry := Function.update m.entry k (some m.count)
  entry_spec k' i h := by
    by_cases hk : k' = k
    · subst hk
      obtain rfl : m.count = i := by simpa using h
      simp
    · rw [Function.update_of_ne hk] at h
      obtain ⟨hi,hkey⟩ := m.entry_spec k' i h
      exact ⟨by omega,by rwa [Function.update_of_ne (by omega)]⟩

def erase (m : SharedMap κ σ) (k : κ) : SharedMap κ σ where
  count := m.count
  key := m.key
  cell := m.cell
  entry := Function.update m.entry k none
  entry_spec k' i h := by
    by_cases hk : k' = k
    · subst hk
      simp at h
    · rw [Function.update_of_ne hk] at h
      exact m.entry_spec k' i h

/-- A cell is changed, and its key erased where asked. -/
def put (m : SharedMap κ σ) (i : ℕ) (x : σ) (erased : Bool) : SharedMap κ σ :=
  if erased then (m.set i x).erase (m.key i) else m.set i x

variable (m : SharedMap κ σ) (k : κ) (x : σ) (i j : ℕ) (b : Bool)

@[simp] theorem erase_count : (m.erase k).count = m.count := rfl
@[simp] theorem erase_key : (m.erase k).key = m.key := rfl
@[simp] theorem erase_cell : (m.erase k).cell = m.cell := rfl
@[simp] theorem erase_distinct : (m.erase k).Distinct ↔ m.Distinct := Iff.rfl

@[simp] theorem put_count : (m.put i x b).count = m.count := by cases b <;> rfl
@[simp] theorem put_key : (m.put i x b).key = m.key := by cases b <;> rfl
@[simp] theorem put_cell_self : (m.put i x b).cell i = x := by cases b <;> simp [put]
@[simp] theorem put_distinct : (m.put i x b).Distinct ↔ m.Distinct := by cases b <;> exact Iff.rfl

@[simp] theorem insert_count : (m.insert k x).count = m.count + 1 := rfl
@[simp] theorem insert_key_self : (m.insert k x).key m.count = k := by simp [insert]
@[simp] theorem insert_cell_self : (m.insert k x).cell m.count = x := by simp [insert]
@[simp] theorem insert_entered_self : (m.insert k x).Entered m.count := by
  rw [Entered, insert_key_self]
  simp [insert]

theorem erase_entered : (m.erase k).Entered i ↔ m.Entered i ∧ m.key i ≠ k := by
  by_cases hk : m.key i = k <;> simp [Entered, erase, hk]

variable {i j}

theorem put_cell_of_ne (h : j ≠ i) : (m.put i x b).cell j = m.cell j := by
  cases b <;> simp [put, set_cell_of_ne m x h]
theorem insert_key_of_lt (h : i < m.count) : (m.insert k x).key i = m.key i := by
  simp [insert, Nat.ne_of_lt h]
theorem insert_cell_of_lt (h : i < m.count) : (m.insert k x).cell i = m.cell i := by
  simp [insert, Nat.ne_of_lt h]

theorem total_put (w : σ → ℕ) (hi : i < m.count) : (m.put i x b).total w + w (m.cell i) = m.total w + w x := by
  have h := total_of_update (w := w) hi (m.put_count x i b) fun j hj => m.put_cell_of_ne x b hj
  rwa [put_cell_self] at h

theorem total_insert (w : σ → ℕ) : (m.insert k x).total w = m.total w + w x := by
  rw [total, insert_count, Finset.sum_range_succ, insert_cell_self, total]
  congr 1
  exact Finset.sum_congr rfl fun j hj => congrArg w (insert_cell_of_lt m k x (Finset.mem_range.mp hj))

variable {m k x b}

theorem entered_of_put (h : (m.put i x b).Entered j) : m.Entered j := by
  cases b
  · exact h
  · exact ((m.set i x).erase_entered (m.key i) j |>.mp h).1

theorem entered_of_insert (hi : i < m.count) (h : (m.insert k x).Entered i) : m.Entered i := by
  rw [Entered, insert_key_of_lt m k x hi] at h
  by_cases hk : m.key i = k
  · subst hk
    have hcount : m.count = i := by simpa [insert] using h
    omega
  · simpa [insert, hk, Entered] using h

variable (x b)

theorem insert_entered_of_ne (hk : m.key i ≠ k) (h : i < m.count) :
    (m.insert k x).Entered i ↔ m.Entered i := by
  rw [Entered, insert_key_of_lt m k x h]
  simp [insert, hk, Entered]

theorem insert_entered_of_lt (hk : m.Fresh k) (h : i < m.count) :
    (m.insert k x).Entered i ↔ m.Entered i :=
  insert_entered_of_ne x (hk i h) h

theorem Distinct.insert (h : m.Distinct) (hk : m.Fresh k) : (m.insert k x).Distinct := by
  intro i j hi hj hkey
  rw [insert_count] at hi hj
  rcases Nat.lt_succ_iff_lt_or_eq.mp hi with hi | rfl <;>
    rcases Nat.lt_succ_iff_lt_or_eq.mp hj with hj | rfl
  · rw [insert_key_of_lt m k x hi, insert_key_of_lt m k x hj] at hkey
    exact h i j hi hj hkey
  · rw [insert_key_of_lt m k x hi, insert_key_self] at hkey
    exact absurd hkey (hk i hi)
  · rw [insert_key_of_lt m k x hj, insert_key_self] at hkey
    exact absurd hkey.symm (hk j hj)
  · rfl

/-- Erasing the key of one cell takes the entry of that cell alone. -/
theorem Distinct.erase_entered (h : m.Distinct) (hi : i < m.count) :
    (m.erase (m.key i)).Entered j ↔ m.Entered j ∧ j ≠ i := by
  rw [SharedMap.erase_entered]
  refine and_congr_right fun hj => not_congr ⟨fun hkey => h j i hj.lt hi hkey,?_⟩
  rintro rfl
  rfl

theorem put_entered : (m.put i x b).Entered j ↔ m.Entered j ∧ (b = true → m.key j ≠ m.key i) := by
  cases b <;> simp [put, SharedMap.erase_entered]

theorem put_entered_self : (m.put i x b).Entered i ↔ m.Entered i ∧ b = false := by
  simp [put_entered]

theorem Distinct.put_entered_of_ne (h : m.Distinct) (hi : b = true → i < m.count) (hj : j ≠ i) :
    (m.put i x b).Entered j ↔ m.Entered j := by
  cases b
  · exact Iff.rfl
  · have hset : (m.set i x).Distinct := h
    exact (hset.erase_entered (hi rfl)).trans (and_iff_left hj)

end Keys

end SharedMap
