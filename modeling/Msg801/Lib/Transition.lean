import Mathlib.Data.List.Induction

/-! # Labelled partial steps and the runs they make

A system is an executable partial function from a state and a label to the next
state. A run is a list of labels; a guarded run is one all of whose steps meet a
condition on the state before them. Invariants are proved once, on one step.
-/
namespace Transition
variable {σ α : Type*}

/-- Take the labels one after another; a label the state does not allow ends the run. -/
def run (step : σ → α → Option σ) : σ → List α → Option σ
  | s, [] => some s
  | s, a :: as => (step s a).bind fun t => run step t as

variable {step : σ → α → Option σ}

@[simp] theorem run_nil (s : σ) : run step s [] = some s := rfl

@[simp] theorem run_cons (s : σ) (a : α) (as : List α) :
    run step s (a :: as) = (step s a).bind fun t => run step t as := rfl

theorem run_append (s : σ) (as bs : List α) :
    run step s (as ++ bs) = (run step s as).bind fun t => run step t bs := by
  induction as generalizing s with
  | nil => rfl
  | cons a as ih => cases h : step s a <;> simp [h, ih]

theorem run_append_some {s u : σ} {as bs : List α} :
    run step s (as ++ bs) = some u ↔ ∃ t, run step s as = some t ∧ run step t bs = some u := by
  rw [run_append, Option.bind_eq_some_iff]

/-- The states of runs from `s` whose every step meets `ok` in the state before it. -/
inductive Reach (step : σ → α → Option σ) (ok : σ → α → Prop) (s : σ) : σ → Prop
  | refl : Reach step ok s s
  | tail {t u : σ} {a : α} : Reach step ok s t → ok t a → step t a = some u → Reach step ok s u

variable {ok : σ → α → Prop}

/-- The invariant rule: what holds at the start and is kept by every allowed step
holds in every state reached. -/
theorem Reach.invariant {P : σ → Prop} {s t : σ} (hr : Reach step ok s t) (h0 : P s)
    (hs : ∀ {t u : σ} {a : α}, P t → ok t a → step t a = some u → P u) : P t := by
  induction hr with
  | refl => exact h0
  | tail _ ha he ih => exact hs ih ha he

theorem Reach.trans {s t u : σ} (h : Reach step ok s t) (h' : Reach step ok t u) :
    Reach step ok s u := by
  induction h' with
  | refl => exact h
  | tail _ ha he ih => exact ih.tail ha he

theorem Reach.mono {ok' : σ → α → Prop} {s t : σ} (hr : Reach step ok s t)
    (h : ∀ t a, ok t a → ok' t a) : Reach step ok' s t := by
  induction hr with
  | refl => exact .refl
  | tail _ ha he ih => exact ih.tail (h _ _ ha) he

/-- Every step of the run meets `ok` in the state it is taken from. -/
def Meets (step : σ → α → Option σ) (ok : σ → α → Prop) (s : σ) (as : List α) : Prop :=
  ∀ pre a post, as = pre ++ a :: post → ∀ t, run step s pre = some t → ok t a

theorem Meets.of_append {s : σ} {as bs : List α} (h : Meets step ok s (as ++ bs)) :
    Meets step ok s as :=
  fun pre a post he t ht => h pre a (post ++ bs) (by simp [he]) t ht

theorem Meets.of_append_right {s t : σ} {as bs : List α} (h : Meets step ok s (as ++ bs))
    (hr : run step s as = some t) : Meets step ok t bs := by
  rintro pre a post rfl u hu
  exact h (as ++ pre) a post (by simp) u (run_append_some.mpr ⟨t,hr,hu⟩)

theorem Meets.reach {s t : σ} {as : List α} (h : Meets step ok s as)
    (hr : run step s as = some t) : Reach step ok s t := by
  induction as using List.reverseRecOn generalizing t with
  | nil => cases hr; exact .refl
  | append_singleton as a ih =>
    obtain ⟨u, hu, ha⟩ := run_append_some.mp hr
    exact (ih h.of_append hu).tail (h as a [] rfl u hu) (by simpa using ha)

/-- The last step of a longer run is either the marked one or comes after it. -/
theorem append_singleton_eq_append_cons {as pre post : List α} {a b : α}
    (h : as ++ [a] = pre ++ b :: post) : (pre = as ∧ b = a ∧ post = []) ∨
      ∃ post', post = post' ++ [a] ∧ as = pre ++ b :: post' := by
  rcases List.eq_nil_or_concat post with rfl | ⟨post', c, rfl⟩
  · obtain ⟨hpre,hb⟩ := List.append_inj' h rfl
    exact .inl ⟨hpre.symm,(List.singleton_inj.mp hb).symm,rfl⟩
  · have h' : as ++ [a] = (pre ++ b :: post') ++ [c] := by simpa using h
    obtain ⟨has,hc⟩ := List.append_inj' h' rfl
    obtain rfl := List.singleton_inj.mp hc
    exact .inr ⟨post',by simp,has⟩

theorem run_invariant {P : σ → Prop} {s t : σ} {as : List α} (hr : run step s as = some t)
    (h0 : P s) (hs : ∀ {t u : σ} {a : α}, P t → step t a = some u → P u) : P t := by
  have hm : Meets step (fun _ _ => True) s as := fun _ _ _ _ _ _ => trivial
  exact (hm.reach hr).invariant h0 fun h _ he => hs h he

/-- The bound rule: where an allowed step keeps the invariant and lowers the rank, a run has
no more steps than the rank it starts with allows. -/
theorem Meets.length_add_le {P : σ → Prop} {s t : σ} {as : List α} (rank : σ → ℕ) (hm : Meets step ok s as)
    (hr : run step s as = some t) (h0 : P s)
    (hstep : ∀ {t u : σ} {a : α}, P t → ok t a → step t a = some u → P u ∧ rank u < rank t) :
    P t ∧ as.length + rank t ≤ rank s := by
  induction as using List.reverseRecOn generalizing t with
  | nil =>
    obtain rfl := Option.some.inj hr
    exact ⟨h0,by simp⟩
  | append_singleton as a ih =>
    obtain ⟨u,hu,ha⟩ := run_append_some.mp hr
    obtain ⟨hP,hle⟩ := ih hm.of_append hu
    obtain ⟨hP',hlt⟩ := hstep hP (hm as a [] rfl u hu) (by simpa using ha)
    refine ⟨hP',?_⟩
    rw [List.length_append, List.length_singleton]
    omega

/-- Conditions that agree on the steps an invariant allows are met by the same runs. -/
theorem Meets.congr {P : σ → Prop} {ok' : σ → α → Prop} {s t : σ} {as : List α}
    (hr : run step s as = some t) (h0 : P s)
    (hs : ∀ {t u : σ} {a : α}, P t → step t a = some u → P u)
    (h : ∀ {t u : σ} {a : α}, P t → step t a = some u → (ok t a ↔ ok' t a)) :
    Meets step ok s as ↔ Meets step ok' s as := by
  have hstep : ∀ pre a post, as = pre ++ a :: post → ∀ u, run step s pre = some u →
      (ok u a ↔ ok' u a) := by
    rintro pre a post rfl u hu
    obtain ⟨v,hv,hrest⟩ := run_append_some.mp hr
    obtain rfl := Option.some.inj (hu.symm.trans hv)
    obtain ⟨w,hw,-⟩ := Option.bind_eq_some_iff.mp hrest
    exact h (run_invariant hu h0 hs) hw
  exact ⟨fun hm pre a post hp u hu => (hstep pre a post hp u hu).mp (hm pre a post hp u hu),
    fun hm pre a post hp u hu => (hstep pre a post hp u hu).mpr (hm pre a post hp u hu)⟩

theorem Meets.nil (s : σ) : Meets step ok s [] := fun pre a post he => by simp at he

theorem Meets.cons {s t : σ} {a : α} {as : List α} (ha : ok s a) (hs : step s a = some t)
    (h : Meets step ok t as) : Meets step ok s (a :: as) := by
  intro pre b post hp u hu
  cases pre with
  | nil =>
    obtain ⟨rfl,rfl⟩ := List.cons.inj hp
    cases hu
    exact ha
  | cons c pre =>
    obtain ⟨rfl,htail⟩ := List.cons.inj hp
    rw [run_cons, hs] at hu
    exact h pre b post htail u hu

/-- No allowed step is possible. -/
def Halted (step : σ → α → Option σ) (ok : σ → α → Prop) (s : σ) : Prop := ∀ a, ok s a → step s a = none

/-- Where an allowed step keeps the invariant and lowers the rank, a run comes to a halt. -/
theorem exists_halted {P : σ → Prop} {s : σ} (rank : σ → ℕ) (h0 : P s)
    (hstep : ∀ {t u : σ} {a : α}, P t → ok t a → step t a = some u → P u ∧ rank u < rank t) :
    ∃ as t, run step s as = some t ∧ Meets step ok s as ∧ Halted step ok t := by
  induction hn : rank s using Nat.strongRecOn generalizing s with
  | _ n ih =>
    by_cases hs : Halted step ok s
    · exact ⟨[],s,rfl,Meets.nil s,hs⟩
    · obtain ⟨a,ha,hne⟩ : ∃ a, ok s a ∧ step s a ≠ none := by simpa [Halted] using hs
      obtain ⟨u,hu⟩ := Option.ne_none_iff_exists'.mp hne
      obtain ⟨hP,hlt⟩ := hstep h0 ha hu
      obtain ⟨as,t,hr,hm,ht⟩ := ih (rank u) (hn ▸ hlt) hP rfl
      have hrun : run step s (a :: as) = some t := by rw [run_cons, hu, Option.bind_some, hr]
      exact ⟨a :: as,t,hrun,.cons ha hu hm,ht⟩

theorem Meets.concat {s : σ} {as : List α} {a : α} (h : Meets step ok s as)
    (ha : ∀ t, run step s as = some t → ok t a) : Meets step ok s (as ++ [a]) := by
  intro pre b post hp t ht
  rcases append_singleton_eq_append_cons hp with ⟨rfl,rfl,rfl⟩ | ⟨post',rfl,has⟩
  · exact ha t ht
  · exact h pre b post' has t ht

theorem Meets.concat_iff {s t : σ} {as : List α} {a : α} (hr : run step s as = some t) :
    Meets step ok s (as ++ [a]) ↔ Meets step ok s as ∧ ok t a := by
  constructor
  · exact fun h => ⟨h.of_append,h as a [] rfl t hr⟩
  · rintro ⟨h,ha⟩
    apply h.concat
    intro u hu
    exact Option.some.inj (hr.symm.trans hu) ▸ ha

/-- Run the labels and test the condition at each step. -/
def follows (step : σ → α → Option σ) (ok : σ → α → Prop) [∀ s a, Decidable (ok s a)] : σ → List α → Bool
  | _, [] => true
  | s, a :: as => decide (ok s a) && ((step s a).map fun t => follows step ok t as).getD true

theorem Meets.of_follows [∀ s a, Decidable (ok s a)] {s : σ} {as : List α} (h : follows step ok s as = true) :
    Meets step ok s as := by
  induction as generalizing s with
  | nil => exact Meets.nil s
  | cons a as ih =>
    rw [follows, Bool.and_eq_true, decide_eq_true_eq] at h
    cases ha : step s a with
    | some t => exact Meets.cons h.1 ha (ih (by simpa [ha] using h.2))
    | none =>
      intro pre b post hp t ht
      cases pre with
      | nil =>
        obtain ⟨rfl,rfl⟩ := List.cons.inj hp
        cases ht
        exact h.1
      | cons c pre =>
        obtain ⟨rfl,rfl⟩ := List.cons.inj hp
        simp [ha] at ht

/-- The exactness rule: where an invariant gives `P` and is kept by the steps that meet `ok`,
and no other step leads to `P`, a run has `P` all along exactly when all its steps meet `ok`. -/
theorem forall_prefix_iff_meets {I P : σ → Prop} {g : σ → α → Prop} {s u : σ} {as : List α}
    (hr : run step s as = some u) (hg : Meets step g s as) (h0 : I s) (hP : ∀ {t : σ}, I t → P t)
    (hkeep : ∀ {t v : σ} {a : α}, I t → g t a → ok t a → step t a = some v → I v)
    (hback : ∀ {t v : σ} {a : α}, I t → g t a → step t a = some v → P v → ok t a) :
    (∀ pre t, pre <+: as → run step s pre = some t → P t) ↔ Meets step ok s as := by
  have hI : ∀ {pre t}, pre <+: as → run step s pre = some t → Meets step ok s pre → I t := by
    rintro pre t ⟨post,rfl⟩ ht hm
    have hboth : Meets step (fun t a => g t a ∧ ok t a) s pre :=
      fun l a r he v hv => ⟨hg.of_append l a r he v hv,hm l a r he v hv⟩
    exact (hboth.reach ht).invariant h0 fun h ha hs => hkeep h ha.1 ha.2 hs
  constructor
  · intro hall
    clear hP
    induction as using List.reverseRecOn generalizing u with
    | nil => exact Meets.nil s
    | append_singleton as a ih =>
      obtain ⟨t,ht,ha⟩ := run_append_some.mp hr
      have hpre : as <+: as ++ [a] := List.prefix_append as [a]
      have hm := ih ht hg.of_append (fun hp => hI (hp.trans hpre)) fun pre v hp => hall pre v (hp.trans hpre)
      apply hm.concat
      intro v hv
      obtain rfl := Option.some.inj (hv.symm.trans ht)
      exact hback (hI hpre ht hm) (hg as a [] rfl v ht) (by simpa using ha) (hall _ u List.prefix_rfl hr)
  · intro hm pre t hp ht
    obtain ⟨post,rfl⟩ := id hp
    exact hP (hI hp ht hm.of_append)

section Outputs
variable {β : Type*}

/-- What the steps of a run put out, in their order. -/
def outputs (step : σ → α → Option σ) (o : σ → α → List β) : σ → List α → List β
  | _, [] => []
  | s, a :: as => o s a ++ ((step s a).map fun t => outputs step o t as).getD []

variable {o : σ → α → List β}

theorem outputs_append {s t : σ} {as : List α} (hr : run step s as = some t) (bs : List α) :
    outputs step o s (as ++ bs) = outputs step o s as ++ outputs step o t bs := by
  induction as generalizing s with
  | nil =>
    obtain rfl := Option.some.inj hr
    rfl
  | cons a as ih =>
    rw [run_cons, Option.bind_eq_some_iff] at hr
    obtain ⟨u,hu,hr⟩ := hr
    simp [outputs, hu, ih hr]

@[simp] theorem outputs_singleton (s : σ) (a : α) : outputs step o s [a] = o s a := by
  cases h : step s a <;> simp [outputs, h]

theorem outputs_eq_flatMap {s t : σ} {as : List α} (hr : run step s as = some t) (g : α → List β) :
    outputs step (fun _ a => g a) s as = as.flatMap g := by
  induction as generalizing s with
  | nil => rfl
  | cons a as ih =>
    rw [run_cons, Option.bind_eq_some_iff] at hr
    obtain ⟨u,hu,hr⟩ := hr
    simp [outputs, hu, ih hr]

/-- The invariant rule for the states of a run together with what was put out before them. -/
theorem outputs_invariant {P : List β → σ → Prop} {s t : σ} {as : List α} (hr : run step s as = some t)
    (hm : Meets step ok s as) (h0 : P [] s)
    (hs : ∀ {h : List β} {t u : σ} {a : α}, P h t → ok t a → step t a = some u → P (h ++ o t a) u) :
    P (outputs step o s as) t := by
  induction as using List.reverseRecOn generalizing t with
  | nil =>
    obtain rfl := Option.some.inj hr
    exact h0
  | append_singleton as a ih =>
    obtain ⟨u,hu,ha⟩ := run_append_some.mp hr
    rw [outputs_append hu, outputs_singleton]
    exact hs (ih hu hm.of_append) (hm as a [] rfl u hu) (by simpa using ha)

end Outputs

end Transition
