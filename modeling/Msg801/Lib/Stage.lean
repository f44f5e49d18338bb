import Msg801.Lib.Mealy

/-! # Buffering stream stages and chains of them

A stage is an object with one method: a call takes a piece of a stream, changes the
object, emits some buffers and may end with an exception. A chain hands every buffer
one stage emits to the next stage. The rules here say how calls compose, when one
stage decodes another for every way the stream is cut into calls, and when the two
methods of one object do not disturb each other.
-/
namespace Stage
variable {σ τ P Q α ε : Type*}

/-- What a call leaves: the object, the buffers it emitted, the exception it ended with. -/
@[ext] structure Outcome (σ α ε : Type*) where
  state : σ
  output : List (List α)
  error : Option ε

/-- The joined bytes a call emitted. -/
def Outcome.bytes (r : Outcome σ α ε) : List α := r.output.flatten

/-- Successive calls on the same object; an exception skips the rest. -/
def feed (call : σ → List α → Outcome σ α ε) : σ → List (List α) → Outcome σ α ε
  | s, [] => ⟨s,[],none⟩
  | s, x :: xs =>
    match (call s x).error with
    | some e => ⟨(call s x).state,(call s x).output,some e⟩
    | none => ⟨(feed call (call s x).state xs).state,
        (call s x).output ++ (feed call (call s x).state xs).output,
        (feed call (call s x).state xs).error⟩

/-- The object after successive calls, the exceptions among them notwithstanding. -/
def after (call : σ → List α → Outcome σ α ε) (s : σ) (xs : List (List α)) : σ :=
  xs.foldl (fun s x => (call s x).state) s

/-- All that successive calls emitted, the exceptions among them notwithstanding. -/
def emitted (call : σ → List α → Outcome σ α ε) : σ → List (List α) → List α
  | _, [] => []
  | s, x :: xs => (call s x).bytes ++ emitted call (call s x).state xs

section Feed
variable {call : σ → List α → Outcome σ α ε}

@[simp] theorem feed_nil (s : σ) : feed call s [] = ⟨s,[],none⟩ := rfl

theorem feed_cons {s : σ} {x : List α} {xs : List (List α)} (h : (call s x).error = none) :
    feed call s (x :: xs) = ⟨(feed call (call s x).state xs).state,
      (call s x).output ++ (feed call (call s x).state xs).output,
      (feed call (call s x).state xs).error⟩ := by
  simp only [feed, h]

theorem feed_cons_error {s : σ} {x : List α} {xs : List (List α)} :
    (feed call s (x :: xs)).error = none ↔
      (call s x).error = none ∧ (feed call (call s x).state xs).error = none := by
  cases h : (call s x).error <;> simp [feed, h]

theorem feed_append_error {s : σ} {xs ys : List (List α)} :
    (feed call s (xs ++ ys)).error = none ↔
      (feed call s xs).error = none ∧ (feed call (feed call s xs).state ys).error = none := by
  induction xs generalizing s with
  | nil => simp
  | cons x xs ih =>
    rw [List.cons_append, feed_cons_error, feed_cons_error, ih, and_assoc]
    refine and_congr_right fun h => and_congr_right fun _ => ?_
    rw [feed_cons h]

theorem feed_append {s : σ} {xs : List (List α)} (ys : List (List α)) (h : (feed call s xs).error = none) :
    feed call s (xs ++ ys) = ⟨(feed call (feed call s xs).state ys).state,
      (feed call s xs).output ++ (feed call (feed call s xs).state ys).output,
      (feed call (feed call s xs).state ys).error⟩ := by
  induction xs generalizing s with
  | nil => rfl
  | cons x xs ih =>
    obtain ⟨hx,hxs⟩ := feed_cons_error.mp h
    rw [List.cons_append, feed_cons hx, feed_cons hx, ih hxs]
    simp

@[simp] theorem feed_singleton (s : σ) (x : List α) : feed call s [x] = call s x := by
  ext1
  all_goals cases h : (call s x).error <;> simp [feed, h]

theorem after_append (s : σ) (xs ys : List (List α)) :
    after call s (xs ++ ys) = after call (after call s xs) ys := List.foldl_append

theorem emitted_append (s : σ) (xs ys : List (List α)) :
    emitted call s (xs ++ ys) = emitted call s xs ++ emitted call (after call s xs) ys := by
  induction xs generalizing s with
  | nil => rfl
  | cons x xs ih => simp only [List.cons_append, emitted, ih, List.append_assoc]; rfl

end Feed

section Chain
variable {call : P → List α → Outcome P α ε}

/-- Hand every buffer of one stage to the next; an exception drops what was emitted. -/
def through (call : P → List α → Outcome P α ε) : List P → List (List α) → Outcome (List P) α ε
  | [], cur => ⟨[],cur,none⟩
  | p :: ps, cur =>
    match (feed call p cur).error with
    | some e => ⟨(feed call p cur).state :: ps,[],some e⟩
    | none => ⟨(feed call p cur).state :: (through call ps (feed call p cur).output).state,
        (through call ps (feed call p cur).output).output,
        (through call ps (feed call p cur).output).error⟩

@[simp] theorem through_nil (cur : List (List α)) : through call [] cur = ⟨[],cur,none⟩ := rfl

theorem through_cons {p : P} (ps : List P) {cur : List (List α)}
    (h : (feed call p cur).error = none) : through call (p :: ps) cur =
      ⟨(feed call p cur).state :: (through call ps (feed call p cur).output).state,
        (through call ps (feed call p cur).output).output,
        (through call ps (feed call p cur).output).error⟩ := by
  simp only [through, h]

theorem through_cons_error {p : P} {ps : List P} {cur : List (List α)} :
    (through call (p :: ps) cur).error = none ↔ (feed call p cur).error = none ∧
      (through call ps (feed call p cur).output).error = none := by
  cases h : (feed call p cur).error <;> simp [through, h]

/-- Two groups of buffers, one after the other, pass through a chain as one group does. -/
theorem through_append {ps : List P} (xs ys : List (List α))
    (h : (through call ps (xs ++ ys)).error = none) :
    (through call ps xs).error = none ∧
    (through call (through call ps xs).state ys).error = none ∧
    through call ps (xs ++ ys) = ⟨(through call (through call ps xs).state ys).state,
      (through call ps xs).output ++ (through call (through call ps xs).state ys).output,none⟩ := by
  induction ps generalizing xs ys with
  | nil => simp
  | cons p ps ih =>
    obtain ⟨hp,hps⟩ := through_cons_error.mp h
    obtain ⟨hx,hy⟩ := feed_append_error.mp hp
    rw [feed_append ys hx] at hps
    obtain ⟨h₁,h₂,h₃⟩ := ih _ _ hps
    have hc := through_cons ps hx
    refine ⟨by rw [hc]; exact h₁,?_,?_⟩
    · rw [hc]
      exact through_cons_error.mpr ⟨hy,h₂⟩
    · rw [through_cons ps hp, hc, through_cons (through call ps (feed call p xs).output).state hy,
        feed_append ys hx, h₃]

@[simp] theorem through_no_input (ps : List P) : through call ps [] = ⟨ps,[],none⟩ := by
  induction ps with
  | nil => rfl
  | cons p ps ih => rw [through_cons ps (by simp)]; simp [ih]

/-- Feeding a chain call by call is handing all the calls' buffers through it at once. -/
theorem feed_through {ps : List P} {xs : List (List α)} (h : (through call ps xs).error = none) :
    feed (fun ps x => through call ps [x]) ps xs = through call ps xs := by
  induction xs generalizing ps with
  | nil => simp
  | cons x xs ih =>
    obtain ⟨hx,hxs,he⟩ := through_append [x] xs h
    rw [feed_cons hx, ih hxs, hxs]
    exact he.symm

/-- A longer chain is its first part followed by its second. -/
theorem through_append_chain {ps : List P} (qs : List P) {cur : List (List α)}
    (hp : (through call ps cur).error = none)
    (hq : (through call qs (through call ps cur).output).error = none) :
    through call (ps ++ qs) cur =
      ⟨(through call ps cur).state ++ (through call qs (through call ps cur).output).state,
        (through call qs (through call ps cur).output).output,none⟩ := by
  induction ps generalizing cur with
  | nil =>
    simp only [through_nil] at hq
    exact Outcome.ext rfl rfl hq
  | cons p ps ih =>
    obtain ⟨hf,ht⟩ := through_cons_error.mp hp
    rw [through_cons _ hf] at hq ⊢
    rw [List.cons_append, through_cons _ hf, ih ht hq]
    rfl

theorem through_singleton {p : P} {cur : List (List α)} (h : (feed call p cur).error = none) :
    through call [p] cur = ⟨[(feed call p cur).state],(feed call p cur).output,none⟩ := by
  rw [through_cons [] h, through_nil]

end Chain

section Keeping
variable {call : P → List α → Outcome P α ε} {Q : P → Prop}

theorem feed_keeps (h : ∀ p x, Q p → Q (call p x).state) {p : P} (hp : Q p) (xs : List (List α)) :
    Q (feed call p xs).state := by
  induction xs generalizing p with
  | nil => exact hp
  | cons x xs ih => cases he : (call p x).error <;> simp [feed, he, ih, h p x hp]

/-- What every call keeps of a stage, the chain keeps of its stages. -/
theorem through_keeps (h : ∀ p x, Q p → Q (call p x).state) {ps : List P} (hps : ∀ p ∈ ps, Q p)
    (xs : List (List α)) : ∀ p ∈ (through call ps xs).state, Q p := by
  induction ps generalizing xs with
  | nil => simp
  | cons p ps ih =>
    have hp := feed_keeps h (hps p (by simp)) xs
    have hrest := fun q hq => hps q (List.mem_cons_of_mem p hq)
    cases he : (feed call p xs).error with
    | none => simpa [through, he] using ⟨hp,ih hrest _⟩
    | some e => simpa [through, he] using ⟨hp,hrest⟩

end Keeping

section Decoding
variable {enc : P → List α → Outcome P α ε} {dec : Q → List α → Outcome Q α ε}

/-- The second stage decodes the first: whatever is fed to the encoder, and however a
beginning of what it emitted is cut into calls of the decoder, neither ends with an
exception, the decoder has emitted a beginning of the input, and all of it at the end. -/
structure Decodes (enc : P → List α → Outcome P α ε) (p : P)
    (dec : Q → List α → Outcome Q α ε) (q : Q) : Prop where
  encodes : ∀ xs, (feed enc p xs).error = none
  accepts : ∀ xs ys, ys.flatten <+: (feed enc p xs).bytes → (feed dec q ys).error = none
  beginning : ∀ xs ys, ys.flatten <+: (feed enc p xs).bytes →
    (feed dec q ys).bytes <+: xs.flatten
  whole : ∀ xs ys, ys.flatten = (feed enc p xs).bytes → (feed dec q ys).bytes = xs.flatten

/-- Only what the successive calls do matters. -/
theorem Decodes.congr {enc' : P → List α → Outcome P α ε} {dec' : Q → List α → Outcome Q α ε}
    {p : P} {q : Q} (h : Decodes enc p dec q) (he : ∀ xs, feed enc' p xs = feed enc p xs)
    (hd : ∀ ys, feed dec' q ys = feed dec q ys) : Decodes enc' p dec' q where
  encodes xs := by rw [he]; exact h.encodes xs
  accepts xs ys hy := by rw [he] at hy; rw [hd]; exact h.accepts xs ys hy
  beginning xs ys hy := by rw [he] at hy; rw [hd]; exact h.beginning xs ys hy
  whole xs ys hy := by rw [he] at hy; rw [hd]; exact h.whole xs ys hy

theorem through_encodes {ps : List P} {qs : List Q}
    (h : List.Forall₂ (fun p q => Decodes enc p dec q) ps qs) (xs : List (List α)) :
    (through enc ps xs).error = none := by
  induction h generalizing xs with
  | nil => rfl
  | cons hpq _ ih => exact through_cons_error.mpr ⟨hpq.encodes xs,ih _⟩

/-- The decoders in the opposite order decode the chain of encoders. -/
theorem through_decodes {ps : List P} {qs : List Q}
    (h : List.Forall₂ (fun p q => Decodes enc p dec q) ps qs) (xs ys : List (List α))
    (hy : ys.flatten <+: (through enc ps xs).bytes) :
    (through dec qs.reverse ys).error = none ∧
    (through dec qs.reverse ys).bytes <+: xs.flatten ∧
    (ys.flatten = (through enc ps xs).bytes → (through dec qs.reverse ys).bytes = xs.flatten) := by
  induction h generalizing xs with
  | nil => exact ⟨rfl,by simpa [Outcome.bytes] using hy,fun he => by simpa [Outcome.bytes] using he⟩
  | @cons p q ps qs hpq hrest ih =>
    rw [through_cons _ (hpq.encodes xs)] at hy ⊢
    obtain ⟨hclean,hpre,heq⟩ := ih (feed enc p xs).output hy
    have hlast := hpq.accepts xs (through dec qs.reverse ys).output hpre
    have happ := through_append_chain [q] hclean
      (by rw [through_singleton hlast])
    rw [through_singleton hlast] at happ
    rw [List.reverse_cons, happ]
    exact ⟨rfl,hpq.beginning _ _ hpre,fun he => hpq.whole _ _ (heq he)⟩

/-- A chain of stages is decoded, call by call, by the chain of their decoders reversed. -/
theorem Decodes.chain {ps : List P} {qs : List Q}
    (h : List.Forall₂ (fun p q => Decodes enc p dec q) ps qs) :
    Decodes (fun ps x => through enc ps [x]) ps (fun qs x => through dec qs [x]) qs.reverse where
  encodes xs := by rw [feed_through (through_encodes h xs), through_encodes h xs]
  accepts xs ys hy := by
    rw [feed_through (through_encodes h xs)] at hy
    have hd := through_decodes h xs ys hy
    rw [feed_through hd.1, hd.1]
  beginning xs ys hy := by
    rw [feed_through (through_encodes h xs)] at hy
    have hd := through_decodes h xs ys hy
    rw [feed_through hd.1]
    exact hd.2.1
  whole xs ys hy := by
    rw [feed_through (through_encodes h xs)] at hy
    have hd := through_decodes h xs ys (hy ▸ List.prefix_rfl)
    rw [feed_through hd.1]
    exact hd.2.2 hy

end Decoding

section SymbolBySymbol
variable {β S : Type*} {read : P → S} {write : P → S → P} {step : S → α → S × α}

/-- The stage that runs a machine over each piece and emits one buffer a call. -/
def ofMealy (read : P → S) (write : P → S → P) (step : S → α → S × α) (p : P) (x : List α) :
    Outcome P α ε :=
  ⟨write p (Mealy.run step (read p) x).1,[(Mealy.run step (read p) x).2],none⟩

/-- A part of the object that is read as it was last written. -/
structure Register (read : P → S) (write : P → S → P) : Prop where
  read_write : ∀ p s, read (write p s) = s
  write_write : ∀ p s t, write (write p s) t = write p t
  write_read : ∀ p, write p (read p) = p

/-- Calls on pieces leave what one call on the whole leaves. -/
theorem feed_ofMealy (h : Register read write) (step : S → α → S × α) (p : P) (xs : List (List α)) :
    (feed (ofMealy (ε := ε) read write step) p xs).error = none ∧
    (feed (ofMealy (ε := ε) read write step) p xs).bytes =
      (Mealy.run step (read p) xs.flatten).2 ∧
    (feed (ofMealy (ε := ε) read write step) p xs).state =
      write p (Mealy.run step (read p) xs.flatten).1 := by
  induction xs generalizing p with
  | nil => exact ⟨rfl,rfl,(h.write_read p).symm⟩
  | cons x xs ih =>
    obtain ⟨he,hb,hs⟩ := ih (write p (Mealy.run step (read p) x).1)
    rw [h.read_write] at hb hs
    rw [h.write_write] at hs
    rw [feed_cons rfl]
    refine ⟨he,?_,?_⟩
    · simp only [Outcome.bytes] at hb
      simp only [Outcome.bytes, ofMealy, List.flatten_append, List.flatten_cons, List.flatten_nil,
        List.append_nil, Mealy.run_append]
      rw [← hb]
    · simp only [ofMealy, List.flatten_cons, Mealy.run_append]
      exact hs

end SymbolBySymbol

section Separation
variable {call : P → List α → Outcome P α ε} {call' : Q → List α → Outcome Q α ε} {f : P → Q}

/-- The second object is an image of the first, and so is what a call makes of it. -/
def Mapped (f : P → Q) (call : P → List α → Outcome P α ε) (call' : Q → List α → Outcome Q α ε) :
    Prop :=
  ∀ p x, call' (f p) x = ⟨f (call p x).state,(call p x).output,(call p x).error⟩

theorem Mapped.feed (h : Mapped f call call') (p : P) (xs : List (List α)) :
    Stage.feed call' (f p) xs =
      ⟨f (Stage.feed call p xs).state,(Stage.feed call p xs).output,(Stage.feed call p xs).error⟩ := by
  induction xs generalizing p with
  | nil => rfl
  | cons x xs ih => cases he : (call p x).error <;> simp [Stage.feed, h p x, he, ih]

theorem Mapped.through (h : Mapped f call call') (ps : List P) (xs : List (List α)) :
    Stage.through call' (ps.map f) xs = ⟨(Stage.through call ps xs).state.map f,
      (Stage.through call ps xs).output,(Stage.through call ps xs).error⟩ := by
  induction ps generalizing xs with
  | nil => rfl
  | cons p ps ih =>
    cases he : (Stage.feed call p xs).error <;> simp [Stage.through, h.feed, he, ih]

/-- Images decode each other as the objects they are images of do. -/
theorem Decodes.mapped {σ' τ' : Type*} {enc : P → List α → Outcome P α ε}
    {dec : Q → List α → Outcome Q α ε} {enc' : σ' → List α → Outcome σ' α ε}
    {dec' : τ' → List α → Outcome τ' α ε} {f : P → σ'} {g : Q → τ'} {p : P} {q : Q}
    (h : Decodes enc p dec q) (hf : Mapped f enc enc') (hg : Mapped g dec dec') :
    Decodes enc' (f p) dec' (g q) where
  encodes xs := by rw [hf.feed]; exact h.encodes xs
  accepts xs ys hy := by rw [hf.feed] at hy; rw [hg.feed]; exact h.accepts xs ys hy
  beginning xs ys hy := by rw [hf.feed] at hy; rw [hg.feed]; exact h.beginning xs ys hy
  whole xs ys hy := by rw [hf.feed] at hy; rw [hg.feed]; exact h.whole xs ys hy

/-- The call reads and writes only what the view keeps. -/
def Within (half : P → P) (call : P → List α → Outcome P α ε) : Prop := Mapped half call call

/-- The call changes nothing of what the view keeps. -/
def Unseen (half : P → P) (call : P → List α → Outcome P α ε) : Prop :=
  ∀ p x, half (call p x).state = half p

variable {half : P → P}

theorem Within.through (h : Within half call) (ps : List P) (xs : List (List α)) :
    Stage.through call (ps.map half) xs = ⟨(Stage.through call ps xs).state.map half,
      (Stage.through call ps xs).output,(Stage.through call ps xs).error⟩ :=
  Mapped.through h ps xs

theorem Unseen.feed (h : Unseen half call) (p : P) (xs : List (List α)) :
    half (Stage.feed call p xs).state = half p := by
  induction xs generalizing p with
  | nil => rfl
  | cons x xs ih => cases he : (call p x).error <;> simp [Stage.feed, he, ih, h p x]

theorem Unseen.through (h : Unseen half call) (ps : List P) (xs : List (List α)) :
    (Stage.through call ps xs).state.map half = ps.map half := by
  induction ps generalizing xs with
  | nil => rfl
  | cons p ps ih =>
    cases he : (Stage.feed call p xs).error <;> simp [Stage.through, h.feed, he, ih]

end Separation

section Interleaving
variable {f g : P → List α → Outcome P α ε}

/-- What calls of the two methods of one object leave: the object, what each method
emitted, the exception that broke them off. -/
structure Exchange (P α ε : Type*) where
  state : P
  left : List α
  right : List α
  error : Option ε

/-- Calls of two methods of one object in the order they are made. -/
def exchange (f g : P → List α → Outcome P α ε) : P → List (List α ⊕ List α) → Exchange P α ε
  | p, [] => ⟨p,[],[],none⟩
  | p, .inl x :: calls =>
    match (f p x).error with
    | some e => ⟨(f p x).state,(f p x).bytes,[],some e⟩
    | none =>
      let r := exchange f g (f p x).state calls
      ⟨r.state,(f p x).bytes ++ r.left,r.right,r.error⟩
  | p, .inr y :: calls =>
    match (g p y).error with
    | some e => ⟨(g p y).state,[],(g p y).bytes,some e⟩
    | none =>
      let r := exchange f g (g p y).state calls
      ⟨r.state,r.left,(g p y).bytes ++ r.right,r.error⟩

theorem exchange_keeps {Q : P → Prop} (hf : ∀ p x, Q p → Q (f p x).state)
    (hg : ∀ p x, Q p → Q (g p x).state) {p : P} (hp : Q p) (calls : List (List α ⊕ List α)) :
    Q (exchange f g p calls).state := by
  induction calls generalizing p with
  | nil => exact hp
  | cons call calls ih =>
    rcases call with x | y
    · cases he : (f p x).error <;> simp [exchange, he, ih (hf p x hp), hf p x hp]
    · cases he : (g p y).error <;> simp [exchange, he, ih (hg p y hp), hg p y hp]

theorem Within.feed_congr {half : P → P} (h : Within half f) {p q : P} (hpq : half p = half q)
    (xs : List (List α)) : (feed f p xs).error = (feed f q xs).error ∧
      (feed f p xs).output = (feed f q xs).output := by
  have hp := Mapped.feed h p xs
  rw [hpq, Mapped.feed h q xs] at hp
  injection hp with _ ho he
  exact ⟨he.symm,ho.symm⟩

/-- Methods that do not disturb each other answer as if each had been called alone. -/
theorem exchange_separate {hf hg : P → P} (hfw : Within hf f) (hfu : Unseen hg f)
    (hgw : Within hg g) (hgu : Unseen hf g) {p : P} {calls : List (List α ⊕ List α)}
    (hl : (feed f p (calls.filterMap Sum.getLeft?)).error = none)
    (hr : (feed g p (calls.filterMap Sum.getRight?)).error = none) :
    (exchange f g p calls).error = none ∧
    (exchange f g p calls).left = (feed f p (calls.filterMap Sum.getLeft?)).bytes ∧
    (exchange f g p calls).right = (feed g p (calls.filterMap Sum.getRight?)).bytes := by
  induction calls generalizing p with
  | nil => exact ⟨rfl,rfl,rfl⟩
  | cons call calls ih =>
    rcases call with x | y
    · simp only [List.filterMap_cons, Sum.getLeft?_inl, Sum.getRight?_inl] at hl hr ⊢
      obtain ⟨hx,hxs⟩ := feed_cons_error.mp hl
      obtain ⟨he,ho⟩ := hgw.feed_congr (hfu p x) (calls.filterMap Sum.getRight?)
      obtain ⟨h₁,h₂,h₃⟩ := ih hxs (he.trans hr)
      rw [feed_cons hx]
      simp only [exchange, hx, h₁, h₂, h₃, Outcome.bytes, ho, List.flatten_append, and_self]
    · simp only [List.filterMap_cons, Sum.getLeft?_inr, Sum.getRight?_inr] at hl hr ⊢
      obtain ⟨hy,hys⟩ := feed_cons_error.mp hr
      obtain ⟨he,ho⟩ := hfw.feed_congr (hgu p y) (calls.filterMap Sum.getLeft?)
      obtain ⟨h₁,h₂,h₃⟩ := ih (he.trans hl) hys
      rw [feed_cons hy]
      simp only [exchange, hy, h₁, h₂, h₃, Outcome.bytes, ho, List.flatten_append, and_self]

/-- What the caller of a method is told. -/
abbrev Reply (α ε : Type*) := List (List α) × Option ε

def Outcome.reply (r : Outcome P α ε) : Reply α ε := (r.output,r.error)

/-- The replies to successive calls of one method, which go on behind an exception. -/
def answers (call : P → List α → Outcome P α ε) : P → List (List α) → List (Reply α ε)
  | _, [] => []
  | p, x :: xs => (call p x).reply :: answers call (call p x).state xs

/-- The replies to calls of two methods in any order, each for the method that was called. -/
def replies (f g : P → List α → Outcome P α ε) : P → List (List α ⊕ List α) → List (Reply α ε ⊕ Reply α ε)
  | _, [] => []
  | p, .inl x :: calls => .inl (f p x).reply :: replies f g (f p x).state calls
  | p, .inr y :: calls => .inr (g p y).reply :: replies f g (g p y).state calls

theorem Within.answers_congr {half : P → P} (h : Within half f) {p q : P} (hpq : half p = half q)
    (xs : List (List α)) : answers f p xs = answers f q xs := by
  induction xs generalizing p q with
  | nil => rfl
  | cons x xs ih =>
    have hp := h p x
    rw [hpq, h q x] at hp
    injection hp with hs ho he
    rw [answers, answers, Outcome.reply, Outcome.reply, ← ho, ← he, ih hs.symm]

/-- What a method answers is told by its own calls, where no other call is seen by it. -/
theorem replies_left {half : P → P} (hf : Within half f) (hg : Unseen half g) (p : P)
    (calls : List (List α ⊕ List α)) :
    (replies f g p calls).filterMap Sum.getLeft? = answers f p (calls.filterMap Sum.getLeft?) := by
  induction calls generalizing p with
  | nil => rfl
  | cons call calls ih =>
    rcases call with x | y
    · simp [replies, answers, ih]
    · simp only [replies, List.filterMap_cons, Sum.getLeft?_inr, ih]
      exact hf.answers_congr (hg p y) _

theorem replies_right {half : P → P} (hg : Within half g) (hf : Unseen half f) (p : P)
    (calls : List (List α ⊕ List α)) :
    (replies f g p calls).filterMap Sum.getRight? = answers g p (calls.filterMap Sum.getRight?) := by
  induction calls generalizing p with
  | nil => rfl
  | cons call calls ih =>
    rcases call with x | y
    · simp only [replies, List.filterMap_cons, Sum.getRight?_inl, ih]
      exact hg.answers_congr (hf p x) _
    · simp [replies, answers, ih]

end Interleaving

end Stage
