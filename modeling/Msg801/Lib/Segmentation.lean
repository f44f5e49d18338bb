import Msg801.Lib.Stage

/-! # One stream cut in two ways

A stage that is told by its stream alone throws at a stream or not, and emits one stream
for it, however the calls cut it. Chains of such stages are such stages again.
-/
namespace Stage
variable {P Q α ε : Type*}

/-- Two ways to cut one stream into buffers; no buffers are cut in no other way. -/
structure Recut (xs ys : List (List α)) : Prop where
  flatten : xs.flatten = ys.flatten
  empty : xs = [] ↔ ys = []

theorem Recut.symm {xs ys : List (List α)} (h : Recut xs ys) : Recut ys xs :=
  ⟨h.flatten.symm,h.empty.symm⟩

/-- Buffers that hold something. -/
def Pieces (xs : List (List α)) : Prop := ∀ x ∈ xs, x ≠ []

instance [DecidableEq α] (xs : List (List α)) : Decidable (Pieces xs) :=
  inferInstanceAs (Decidable (∀ x ∈ xs, x ≠ []))

theorem Pieces.nil_iff {xs : List (List α)} (h : Pieces xs) : xs = [] ↔ xs.flatten = [] := by
  constructor
  · rintro rfl
    rfl
  · intro hx
    cases xs with
    | nil => rfl
    | cons x xs => exact absurd (List.append_eq_nil_iff.mp hx).1 (h x (by simp))

theorem Pieces.recut {xs ys : List (List α)} (hx : Pieces xs) (hy : Pieces ys)
    (h : xs.flatten = ys.flatten) : Recut xs ys :=
  ⟨h,by rw [hx.nil_iff, hy.nil_iff, h]⟩

/-- Whether successive calls throw, and the stream they emit, is told by the stream they get. -/
def Uncut (call : P → List α → Outcome P α ε) (p : P) : Prop :=
  ∀ ⦃xs ys⦄, Recut xs ys → (feed call p xs).error = none →
    (feed call p ys).error = none ∧ Recut (feed call p xs).output (feed call p ys).output

section Stages
variable {call : P → List α → Outcome P α ε} {p : P}

/-- A stage is told by its stream when a predicate says where it throws, a function what it
emits and a predicate when that is no buffer at all. -/
theorem Uncut.of_stream (ok quiet : List α → Prop) (g : List α → List α)
    (herror : ∀ xs, xs ≠ [] → ((feed call p xs).error = none ↔ ok xs.flatten))
    (hbytes : ∀ xs, xs ≠ [] → ok xs.flatten → (feed call p xs).bytes = g xs.flatten)
    (hquiet : ∀ xs, xs ≠ [] → ok xs.flatten → ((feed call p xs).output = [] ↔ quiet xs.flatten)) :
    Uncut call p := by
  intro xs ys h he
  by_cases hx : xs = []
  · obtain rfl := hx
    obtain rfl := h.empty.mp rfl
    exact ⟨rfl,⟨rfl,Iff.rfl⟩⟩
  have hy : ys ≠ [] := fun hy => hx (h.empty.mpr hy)
  have hxok := (herror xs hx).mp he
  have hyok : ok ys.flatten := h.flatten ▸ hxok
  refine ⟨(herror ys hy).mpr hyok,?_,?_⟩
  · have hg : g xs.flatten = g ys.flatten := congrArg g h.flatten
    exact ((hbytes xs hx hxok).trans hg).trans (hbytes ys hy hyok).symm
  · rw [hquiet xs hx hxok, hquiet ys hy hyok, h.flatten]

/-- A machine that is run over each piece, with one buffer a call. -/
theorem uncut_ofMealy {S : Type*} {read : P → S} {write : P → S → P} (h : Register read write)
    (step : S → α → S × α) (p : P) : Uncut (ofMealy (ε := ε) read write step) p := by
  refine Uncut.of_stream (fun _ => True) (fun _ => False) (fun stream => (Mealy.run step (read p) stream).2) ?_ ?_ ?_
  · exact fun xs _ => iff_of_true (feed_ofMealy h step p xs).1 trivial
  · exact fun xs _ _ => (feed_ofMealy h step p xs).2.1
  · intro xs hx _
    cases xs with
    | nil => exact absurd rfl hx
    | cons x xs =>
      rw [feed_cons rfl]
      exact iff_of_false (List.cons_ne_nil _ _) not_false

/-- Only what the successive calls do matters. -/
theorem Uncut.congr {call' : P → List α → Outcome P α ε} (h : Uncut call p)
    (hc : ∀ xs, feed call' p xs = feed call p xs) : Uncut call' p := by
  intro xs ys hr he
  rw [hc] at he
  rw [hc, hc]
  exact h hr he

theorem Uncut.mapped {call' : Q → List α → Outcome Q α ε} {f : P → Q} (h : Uncut call p)
    (hm : Mapped f call call') : Uncut call' (f p) := by
  intro xs ys hr he
  rw [hm.feed] at he
  rw [hm.feed, hm.feed]
  exact h hr he

/-- A beginning of a stream that is taken is taken, and the stream emitted for it is a
beginning of what is emitted for the whole. -/
theorem Uncut.beginning (h : Uncut call p) {xs ys : List (List α)} (hx : Pieces xs) (hy : Pieces ys)
    (hpre : xs.flatten <+: ys.flatten) (he : (feed call p ys).error = none) :
    (feed call p xs).error = none ∧ (feed call p xs).bytes <+: (feed call p ys).bytes := by
  obtain ⟨rest,hrest⟩ := hpre
  by_cases hnil : rest = []
  · rw [hnil, List.append_nil] at hrest
    obtain ⟨hxe,hout⟩ := h (hy.recut hx hrest.symm) he
    have hsame : (feed call p xs).bytes = (feed call p ys).bytes := hout.flatten.symm
    exact ⟨hxe,hsame ▸ List.prefix_rfl⟩
  -- the rest of the stream as one more call
  · have hpieces : Pieces (xs ++ [rest]) := by
      intro x hmem
      rcases List.mem_append.mp hmem with hmem | hmem
      · exact hx x hmem
      · exact List.mem_singleton.mp hmem ▸ hnil
    have hflat : ys.flatten = (xs ++ [rest]).flatten := by
      rw [List.flatten_append, List.flatten_singleton, hrest]
    obtain ⟨hwe,hout⟩ := h (hy.recut hpieces hflat) he
    have hxe := (feed_append_error.mp hwe).1
    refine ⟨hxe,?_⟩
    have hbytes : (feed call p ys).bytes = (feed call p (xs ++ [rest])).bytes := hout.flatten
    rw [hbytes, feed_append _ hxe, Outcome.bytes, Outcome.bytes, List.flatten_append]
    exact List.prefix_append _ _

end Stages

section Chains
variable {call : P → List α → Outcome P α ε} {ps : List P}

/-- Every stage of a chain answers for its stream alone, so the chain does. -/
theorem through_uncut (h : ∀ p ∈ ps, Uncut call p) {xs ys : List (List α)} (hr : Recut xs ys)
    (he : (through call ps xs).error = none) : (through call ps ys).error = none ∧
      Recut (through call ps xs).output (through call ps ys).output := by
  induction ps generalizing xs ys with
  | nil => exact ⟨rfl,hr⟩
  | cons p ps ih =>
    obtain ⟨hx,hxs⟩ := through_cons_error.mp he
    obtain ⟨hy,hout⟩ := h p (by simp) hr hx
    obtain ⟨hys,hrest⟩ := ih (fun q hq => h q (List.mem_cons_of_mem p hq)) hout hxs
    rw [through_cons ps hx, through_cons ps hy]
    exact ⟨hys,hrest⟩

theorem through_append_error {xs ys : List (List α)} (hx : (through call ps xs).error = none)
    (hy : (through call (through call ps xs).state ys).error = none) :
    (through call ps (xs ++ ys)).error = none := by
  induction ps generalizing xs ys with
  | nil => rfl
  | cons p ps ih =>
    obtain ⟨hpx,hpsx⟩ := through_cons_error.mp hx
    rw [through_cons ps hpx] at hy
    obtain ⟨hpy,hpsy⟩ := through_cons_error.mp hy
    refine through_cons_error.mpr ⟨feed_append_error.mpr ⟨hpx,hpy⟩,?_⟩
    rw [feed_append ys hpx]
    exact ih hpsx hpsy

/-- A chain throws at the calls one after another when it throws at their buffers at once. -/
theorem feed_through_error {xs : List (List α)} :
    (feed (fun ps x => through call ps [x]) ps xs).error = none ↔ (through call ps xs).error = none := by
  constructor
  · intro h
    induction xs generalizing ps with
    | nil => simp
    | cons x xs ih =>
      obtain ⟨hx,hxs⟩ := feed_cons_error.mp h
      have happ := through_append_error hx (ih hxs)
      rwa [List.singleton_append] at happ
  · intro h
    rw [feed_through h, h]

theorem Uncut.chain (h : ∀ p ∈ ps, Uncut call p) : Uncut (fun ps x => through call ps [x]) ps := by
  intro xs ys hr he
  have hx := feed_through_error.mp he
  obtain ⟨hy,hout⟩ := through_uncut h hr hx
  rw [feed_through hx, feed_through hy]
  exact ⟨hy,hout⟩

theorem feed_through_singleton {p : P} {xs : List (List α)} (h : (feed call p xs).error = none) :
    feed (fun ps x => through call ps [x]) [p] xs = ⟨[(feed call p xs).state],(feed call p xs).output,none⟩ := by
  have hone := through_singleton h
  rw [feed_through (congrArg Outcome.error hone), hone]

end Chains

end Stage
