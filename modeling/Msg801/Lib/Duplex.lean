import Msg801.Lib.Stage

/-! # Two objects joined by a pair of byte pipes

Each end has a method that emits into one pipe and a method that is called on pieces
taken from the other. Inputs, deliveries of any size and the two directions interleave
freely. If in each direction the receiving method decodes the sending one, and the two
methods of an end do not disturb each other, no call ever fails and what comes out is a
beginning of what went in, all of it when the pipe is empty.
-/
namespace Duplex
open Stage
variable {σ τ P Q α ε : Type*}

section Direction
variable {enc : P → List α → Outcome P α ε} {dec : Q → List α → Outcome Q α ε}
variable {hp : P → P} {hq : Q → Q} {p₀ p : P} {q₀ q : Q} {wire sent got : List α}

/-- One direction, seen through the halves of the two ends that it uses: the calls made
so far account for both halves, for the pipe and for what went in and came out. -/
def Flows (enc : P → List α → Outcome P α ε) (dec : Q → List α → Outcome Q α ε)
    (hp : P → P) (hq : Q → Q) (p₀ : P) (q₀ : Q) (p : P) (q : Q) (wire sent got : List α) : Prop :=
  ∃ xs ys, hp p = hp (feed enc p₀ xs).state ∧ hq q = hq (feed dec q₀ ys).state ∧
    sent = xs.flatten ∧ got = (feed dec q₀ ys).bytes ∧
    (feed enc p₀ xs).bytes = ys.flatten ++ wire

theorem Flows.initial : Flows enc dec hp hq p₀ q₀ p₀ q₀ [] [] [] :=
  ⟨[],[],rfl,rfl,rfl,rfl,rfl⟩

/-- A direction does not notice changes outside its halves. -/
theorem Flows.congr {p' : P} {q' : Q} (h : Flows enc dec hp hq p₀ q₀ p q wire sent got)
    (hp' : hp p' = hp p) (hq' : hq q' = hq q) :
    Flows enc dec hp hq p₀ q₀ p' q' wire sent got := by
  obtain ⟨xs,ys,h₁,h₂,h₃⟩ := h
  exact ⟨xs,ys,hp'.trans h₁,hq'.trans h₂,h₃⟩

theorem call_eq_of_half_eq {call : P → List α → Outcome P α ε} (h : Within hp call) {p p' : P}
    (he : hp p = hp p') (x : List α) : hp (call p x).state = hp (call p' x).state ∧
      (call p x).output = (call p' x).output ∧ (call p x).error = (call p' x).error := by
  have h₁ := h p x
  rw [he, h p' x] at h₁
  exact ⟨(congrArg Outcome.state h₁).symm,(congrArg Outcome.output h₁).symm,
    (congrArg Outcome.error h₁).symm⟩

theorem Flows.send (hd : Decodes enc p₀ dec q₀) (hw : Within hp enc)
    (h : Flows enc dec hp hq p₀ q₀ p q wire sent got) (x : List α) :
    (enc p x).error = none ∧
    Flows enc dec hp hq p₀ q₀ (enc p x).state q (wire ++ (enc p x).bytes) (sent ++ x) got := by
  obtain ⟨xs,ys,h₁,h₂,rfl,rfl,h₅⟩ := h
  obtain ⟨hs,ho,he⟩ := call_eq_of_half_eq hw h₁ x
  have hx := (feed_append_error.mp (hd.encodes (xs ++ [x]))).2
  have ha := feed_append [x] (hd.encodes xs)
  rw [feed_singleton] at hx ha
  refine ⟨he.trans hx,xs ++ [x],ys,?_,h₂,by simp,rfl,?_⟩
  · rw [ha]
    exact hs
  · simp only [Outcome.bytes] at h₅
    simp [Outcome.bytes, ha, ho, h₅]

theorem Flows.receive (hd : Decodes enc p₀ dec q₀) (hw : Within hq dec)
    (h : Flows enc dec hp hq p₀ q₀ p q wire sent got) (n : ℕ) :
    (dec q (wire.take n)).error = none ∧
    Flows enc dec hp hq p₀ q₀ p (dec q (wire.take n)).state (wire.drop n) sent
      (got ++ (dec q (wire.take n)).bytes) := by
  obtain ⟨xs,ys,h₁,h₂,rfl,rfl,h₅⟩ := h
  obtain ⟨hs,ho,he⟩ := call_eq_of_half_eq hw h₂ (wire.take n)
  have hwire : (feed enc p₀ xs).bytes = (ys ++ [wire.take n]).flatten ++ wire.drop n := by
    simp [h₅]
  have hall := hd.accepts xs (ys ++ [wire.take n]) (hwire ▸ List.prefix_append _ _)
  obtain ⟨hys,hn⟩ := feed_append_error.mp hall
  have ha := feed_append [wire.take n] hys
  rw [feed_singleton] at hn ha
  refine ⟨he.trans hn,xs,ys ++ [wire.take n],h₁,?_,rfl,?_,hwire⟩
  · rw [ha]
    exact hs
  · simp [Outcome.bytes, ha, ho]

theorem Flows.delivered (hd : Decodes enc p₀ dec q₀)
    (h : Flows enc dec hp hq p₀ q₀ p q wire sent got) :
    got <+: sent ∧ (wire = [] → got = sent) := by
  obtain ⟨xs,ys,_,_,rfl,rfl,h₅⟩ := h
  refine ⟨hd.beginning _ _ (h₅ ▸ List.prefix_append _ _),?_⟩
  rintro rfl
  exact hd.whole _ _ (by simp [h₅])

end Direction

/-- The methods of the two ends: `near` emits upwards and takes what comes down. -/
structure Methods (σ τ α ε : Type*) where
  sendUp : σ → List α → Outcome σ α ε
  receiveUp : τ → List α → Outcome τ α ε
  sendDown : τ → List α → Outcome τ α ε
  receiveDown : σ → List α → Outcome σ α ε

/-- The two ends, the bytes in the two pipes, and the record of inputs and outputs. -/
structure Link (σ τ α : Type*) where
  near : σ
  far : τ
  up : List α
  down : List α
  upSent : List α
  upGot : List α
  downSent : List α
  downGot : List α

/-- Both pipes empty and nothing sent. -/
def Link.fresh (near : σ) (far : τ) : Link σ τ α := ⟨near,far,[],[],[],[],[],[]⟩

/-- One call: a new input at either end, or the next `n` bytes of either pipe. -/
inductive Event (α : Type*) where
  | sendUp (input : List α)
  | deliverUp (n : ℕ)
  | sendDown (input : List α)
  | deliverDown (n : ℕ)

/-- The link after a call, or the exception the call ended with. -/
def step (m : Methods σ τ α ε) (l : Link σ τ α) : Event α → Except ε (Link σ τ α)
  | .sendUp x =>
    let r := m.sendUp l.near x
    match r.error with
    | some e => .error e
    | none => .ok { l with near := r.state, up := l.up ++ r.bytes, upSent := l.upSent ++ x }
  | .deliverUp n =>
    let r := m.receiveUp l.far (l.up.take n)
    match r.error with
    | some e => .error e
    | none => .ok { l with far := r.state, up := l.up.drop n, upGot := l.upGot ++ r.bytes }
  | .sendDown x =>
    let r := m.sendDown l.far x
    match r.error with
    | some e => .error e
    | none => .ok { l with far := r.state, down := l.down ++ r.bytes, downSent := l.downSent ++ x }
  | .deliverDown n =>
    let r := m.receiveDown l.near (l.down.take n)
    match r.error with
    | some e => .error e
    | none => .ok { l with near := r.state, down := l.down.drop n, downGot := l.downGot ++ r.bytes }

/-- The halves each direction uses, and that each method keeps to its own. -/
structure Separated (m : Methods σ τ α ε) (nearUp nearDown : σ → σ) (farUp farDown : τ → τ) :
    Prop where
  sendUp : Within nearUp m.sendUp
  sendUp_unseen : Unseen nearDown m.sendUp
  receiveUp : Within farUp m.receiveUp
  receiveUp_unseen : Unseen farDown m.receiveUp
  sendDown : Within farDown m.sendDown
  sendDown_unseen : Unseen farUp m.sendDown
  receiveDown : Within nearDown m.receiveDown
  receiveDown_unseen : Unseen nearUp m.receiveDown

section Transparent
variable {m : Methods σ τ α ε} {nearUp nearDown : σ → σ} {farUp farDown : τ → τ}
variable {near : σ} {far : τ}

/-- Both directions flow. -/
def Carries (m : Methods σ τ α ε) (nearUp nearDown : σ → σ) (farUp farDown : τ → τ)
    (near : σ) (far : τ) (l : Link σ τ α) : Prop :=
  Flows m.sendUp m.receiveUp nearUp farUp near far l.near l.far l.up l.upSent l.upGot ∧
  Flows m.sendDown m.receiveDown farDown nearDown far near l.far l.near l.down l.downSent l.downGot

theorem step_carries (hs : Separated m nearUp nearDown farUp farDown)
    (hu : Decodes m.sendUp near m.receiveUp far) (hd : Decodes m.sendDown far m.receiveDown near)
    {l : Link σ τ α} (h : Carries m nearUp nearDown farUp farDown near far l) (e : Event α) :
    ∃ l', step m l e = .ok l' ∧ Carries m nearUp nearDown farUp farDown near far l' := by
  obtain ⟨hup,hdown⟩ := h
  cases e with
  | sendUp x =>
    obtain ⟨he,hf⟩ := hup.send hu hs.sendUp x
    have hstep : step m l (.sendUp x) = .ok { l with
        near := (m.sendUp l.near x).state
        up := l.up ++ (m.sendUp l.near x).bytes
        upSent := l.upSent ++ x } := by simp only [step, he]
    exact ⟨_,hstep,hf,hdown.congr rfl (hs.sendUp_unseen _ x)⟩
  | deliverUp n =>
    obtain ⟨he,hf⟩ := hup.receive hu hs.receiveUp n
    have hstep : step m l (.deliverUp n) = .ok { l with
        far := (m.receiveUp l.far (l.up.take n)).state
        up := l.up.drop n
        upGot := l.upGot ++ (m.receiveUp l.far (l.up.take n)).bytes } := by simp only [step, he]
    exact ⟨_,hstep,hf,hdown.congr (hs.receiveUp_unseen _ _) rfl⟩
  | sendDown x =>
    obtain ⟨he,hf⟩ := hdown.send hd hs.sendDown x
    have hstep : step m l (.sendDown x) = .ok { l with
        far := (m.sendDown l.far x).state
        down := l.down ++ (m.sendDown l.far x).bytes
        downSent := l.downSent ++ x } := by simp only [step, he]
    exact ⟨_,hstep,hup.congr rfl (hs.sendDown_unseen _ x),hf⟩
  | deliverDown n =>
    obtain ⟨he,hf⟩ := hdown.receive hd hs.receiveDown n
    have hstep : step m l (.deliverDown n) = .ok { l with
        near := (m.receiveDown l.near (l.down.take n)).state
        down := l.down.drop n
        downGot := l.downGot ++ (m.receiveDown l.near (l.down.take n)).bytes } := by
      simp only [step, he]
    exact ⟨_,hstep,hup.congr (hs.receiveDown_unseen _ _) rfl,hf⟩

/-- Every sequence of calls succeeds, and each direction delivers what was sent. -/
theorem transparent (hs : Separated m nearUp nearDown farUp farDown)
    (hu : Decodes m.sendUp near m.receiveUp far) (hd : Decodes m.sendDown far m.receiveDown near)
    (events : List (Event α)) : ∃ l, events.foldlM (step m) (Link.fresh near far) = .ok l ∧
      l.upGot <+: l.upSent ∧ (l.up = [] → l.upGot = l.upSent) ∧
      l.downGot <+: l.downSent ∧ (l.down = [] → l.downGot = l.downSent) := by
  have hc : ∀ l : Link σ τ α, Carries m nearUp nearDown farUp farDown near far l →
      ∃ l', events.foldlM (step m) l = .ok l' ∧
        Carries m nearUp nearDown farUp farDown near far l' := by
    induction events with
    | nil => exact fun l h => ⟨l,rfl,h⟩
    | cons e es ih =>
      intro l h
      obtain ⟨l₁,he,h₁⟩ := step_carries hs hu hd h e
      obtain ⟨l₂,hes,h₂⟩ := ih l₁ h₁
      refine ⟨l₂,?_,h₂⟩
      rw [List.foldlM_cons, he]
      exact hes
  obtain ⟨l,hl,hup,hdown⟩ := hc (Link.fresh near far) ⟨Flows.initial,Flows.initial⟩
  exact ⟨l,hl,(hup.delivered hu).1,(hup.delivered hu).2,(hdown.delivered hd).1,(hdown.delivered hd).2⟩

end Transparent

end Duplex
