import Mathlib.Logic.Function.Basic
import Msg801.Lib.Transition
import Msg801.Relay.Frame

/-! # The two pumps of a pair at the matcher

A pair is two peers and two pumps, each of which reads frames from one peer and writes
them to the other. The pump that first finds the pair at its end tears it down. The pumps
interleave at their reads and writes, and a peer can disconnect at any moment.
-/
namespace Msg801.Relay
open Transition

inductive Role where
  | b
  | c
  deriving DecidableEq, Repr

namespace Role

def opposite : Role → Role
  | b => c
  | c => b

@[simp] theorem opposite_opposite (r : Role) : r.opposite.opposite = r := by cases r <;> rfl

@[simp] theorem opposite_ne (r : Role) : r.opposite ≠ r := by cases r <;> decide

@[simp] theorem ne_opposite (r : Role) : r ≠ r.opposite := by cases r <;> decide

theorem eq_or_eq_opposite (t r : Role) : t = r ∨ t = r.opposite := by
  cases t <;> cases r <;> decide

theorem forall_iff (r : Role) {P : Role → Prop} : (∀ t, P t) ↔ P r ∧ P r.opposite :=
  ⟨fun h => ⟨h _,h _⟩,fun h t => (t.eq_or_eq_opposite r).elim (· ▸ h.1) (· ▸ h.2)⟩

end Role

/-- A peer: its socket, whether the other end of it has gone, and the frames written to it. -/
structure Peer where
  isOpen : Bool := true
  gone : Bool := false
  received : List Frame := []

/-- Where a pump is suspended, with whether the socket was open when the operation began. -/
inductive PumpPc where
  | idle
  | reading (live : Bool)
  | forwarding (f : Frame) (live : Bool)
  | passingEof (live : Bool)
  | tearingDown (live : Bool)
  | ended
  deriving DecidableEq

/-- The pair, and a record of what its pumps have met: which peers sent an `EOF_` frame,
whose was passed on, which pump found the pair alive at its end, and whether the `EOF_`
that pump then wrote went out. -/
structure Pair where
  peer : Role → Peer := fun _ => {}
  pump : Role → PumpPc := fun _ => .idle
  dead : Bool := false
  sentEof : Role → Bool := fun _ => false
  passedEof : Role → Bool := fun _ => false
  first : Option Role := none
  torn : Bool := false

/-- The ends of the awaits of a pump. A read is given what arrives until it is over. -/
inductive PumpEvent where
  | read (input : ByteVector)
  | writeOk
  | writeFail
  deriving DecidableEq

inductive PairEvent where
  | pump (r : Role) (e : PumpEvent)
  | disconnect (r : Role)
  deriving DecidableEq

def eofFrame : Frame := ⟨.eof,[]⟩

/-- The frame that goes out for one that came in. -/
def translate (r : Role) (f : Frame) : Frame :=
  if f.method = .newSession ∧ r = .b then ⟨.forwardSession,f.body⟩ else f

theorem translate_ne_eofFrame {r : Role} {f : Frame} (h : f.method ≠ .eof) :
    translate r f ≠ eofFrame := by
  rw [translate]
  split
  · simp [eofFrame]
  · rintro rfl
    exact h rfl

/-- A read that only the end of the stream can have cut off. -/
def CutOff (input : ByteSpan) : Prop := input.length < 4 ∨ (readFrame input).1 = .thrown

instance (input : ByteSpan) : Decidable (CutOff input) := inferInstanceAs (Decidable (_ ∨ _))

namespace Pair

def setPump (p : Pair) (r : Role) (pc : PumpPc) : Pair :=
  { p with pump := Function.update p.pump r pc }

def setPeer (p : Pair) (r : Role) (q : Peer) : Pair :=
  { p with peer := Function.update p.peer r q }

def deliver (p : Pair) (r : Role) (f : Frame) : Pair :=
  p.setPeer r { p.peer r with received := (p.peer r).received ++ [f] }

/-- The `EOF_` frame of `r` written to the other peer, and the socket of that one closed. -/
def passOn (p : Pair) (r : Role) : Pair :=
  let q := p.peer r.opposite
  { p with
    peer := Function.update p.peer r.opposite
      { q with isOpen := false, received := q.received ++ [eofFrame] }
    passedEof := Function.update p.passedEof r true }

/-- An `EOF_` frame written to the peer other than `r`, and both sockets closed. -/
def tearDown (p : Pair) (r : Role) : Pair :=
  let q := p.peer r.opposite
  { p with
    peer := Function.update (Function.update p.peer r.opposite
      { q with isOpen := false, received := q.received ++ [eofFrame] })
      r { p.peer r with isOpen := false }
    torn := true }

/-- The next read of the loop. -/
def nextRead (p : Pair) (r : Role) : Pair := p.setPump r (.reading (p.peer r).isOpen)

/-- Behind the loop: the pump that finds the pair alive tears it down. -/
def leaveLoop (p : Pair) (r : Role) : Pair :=
  if p.dead then p.setPump r .ended
  else { p with dead := true, first := some r }.setPump r (.tearingDown (p.peer r.opposite).isOpen)

/-- A frame of the peer `r`, on its way to the other. -/
def onFrame (p : Pair) (r : Role) (f : Frame) : Pair :=
  if f.method = .eof then
    { p with sentEof := Function.update p.sentEof r true }.setPump r
      (.passingEof (p.peer r.opposite).isOpen)
  else p.setPump r (.forwarding (translate r f) (p.peer r.opposite).isOpen)

/-- The pump that reads from the peer `r`, from one suspension to the next. -/
def pumpOneWay (p : Pair) (r : Role) (e : PumpEvent) : Option Pair :=
  match p.pump r, e with
  | .reading live, .read input =>
    if CutOff input then
      if (p.peer r).gone ∨ (p.peer r).isOpen = false then some (p.leaveLoop r) else none
    else if live then
      match (readFrame input).1 with
      | .frame f => some (p.onFrame r f)
      | _ => some (p.leaveLoop r)
    else none
  | .forwarding f true, .writeOk => some ((p.deliver r.opposite f).nextRead r)
  | .forwarding _ _, .writeFail => some (p.leaveLoop r)
  | .passingEof true, .writeOk => some ((p.passOn r).leaveLoop r)
  | .passingEof _, .writeFail => some (p.leaveLoop r)
  | .tearingDown true, .writeOk => some ((p.tearDown r).setPump r .ended)
  -- nothing catches a failure of this write, and the sockets are not closed
  | .tearingDown _, .writeFail => some (p.setPump r .ended)
  | _, _ => none

def step (p : Pair) : PairEvent → Option Pair
  | .pump r e => p.pumpOneWay r e
  | .disconnect r =>
    if (p.peer r).isOpen then some (p.setPeer r { p.peer r with gone := true }) else none

/-- Both pumps spawned on two open sockets, after `READY`. -/
def spawned (gone : Role → Bool) : Pair where
  peer r := { gone := gone r, received := [⟨.ready,[]⟩] }
  pump _ := .reading true

/-- The sockets of both peers are closed, and a peer that neither disconnected nor sent an
`EOF_` frame has been sent one. -/
def TornDown (p : Pair) : Prop :=
  ∀ r, (p.peer r).isOpen = false ∧
    ((p.peer r).gone = true ∨ p.sentEof r = true ∨ eofFrame ∈ (p.peer r).received)

/-- Each peer's `EOF_` frame was passed on; or the `EOF_` of the pump that first left its
loop went out, and the peer it read from had disconnected, had sent an `EOF_` frame, or had
been passed the other peer's. -/
def Orderly (p : Pair) : Prop :=
  (∀ r, p.passedEof r = true) ∨ p.torn = true ∧ ∀ r, p.first = some r →
    (p.peer r).gone = true ∨ p.sentEof r = true ∨ p.passedEof r.opposite = true

section Updates
variable (p : Pair) (r : Role) (pc : PumpPc) (q : Peer) (f : Frame)

@[simp] theorem setPump_self : (p.setPump r pc).pump r = pc := by simp [setPump]
@[simp] theorem setPump_opposite : (p.setPump r pc).pump r.opposite = p.pump r.opposite := by
  simp [setPump]
@[simp] theorem setPeer_self : (p.setPeer r q).peer r = q := by simp [setPeer]
@[simp] theorem setPeer_opposite : (p.setPeer r q).peer r.opposite = p.peer r.opposite := by
  simp [setPeer]
@[simp] theorem setPeer_of_opposite : (p.setPeer r.opposite q).peer r = p.peer r := by simp [setPeer]

end Updates

/-- What the pumps have done to the sockets is in the record. -/
structure Inv (p : Pair) : Prop where
  first : p.dead = p.first.isSome
  torn : p.torn = true → p.dead = true
  ended : ∀ r, p.pump r = .ended → p.dead = true
  tearing : ∀ r live, p.pump r = .tearingDown live → p.first = some r
  forwarding : ∀ r f live, p.pump r = .forwarding f live → f ≠ eofFrame
  isOpen : ∀ r, (p.peer r).isOpen = !(p.passedEof r.opposite || p.torn)
  received : ∀ r, eofFrame ∈ (p.peer r).received ↔
    p.passedEof r.opposite = true ∨ p.torn = true ∧ p.first = some r.opposite

theorem Inv.setPump {p : Pair} (h : p.Inv) {r : Role} {pc : PumpPc} (he : pc = .ended → p.dead = true)
    (ht : ∀ live, pc = .tearingDown live → p.first = some r)
    (hf : ∀ f live, pc = .forwarding f live → f ≠ eofFrame) : (p.setPump r pc).Inv := by
  refine ⟨h.first,h.torn,(r.forall_iff).mpr ⟨?_,?_⟩,(r.forall_iff).mpr ⟨?_,?_⟩,
    (r.forall_iff).mpr ⟨?_,?_⟩,h.isOpen,h.received⟩
  · rw [setPump_self]
    exact he
  · rw [setPump_opposite]
    exact h.ended _
  · rw [setPump_self]
    exact ht
  · rw [setPump_opposite]
    exact h.tearing _
  · rw [setPump_self]
    exact hf
  · rw [setPump_opposite]
    exact h.forwarding _

theorem Inv.leaveLoop {p : Pair} (h : p.Inv) (r : Role) : (p.leaveLoop r).Inv := by
  rw [Pair.leaveLoop]
  split
  case isTrue hd => exact h.setPump (fun _ => hd) (by simp) (by simp)
  case isFalse hd =>
    have halive : p.first = none := by
      have := h.first
      cases hf : p.first <;> simp_all
    have htorn : p.torn = false := by
      cases ht : p.torn
      · rfl
      · exact absurd (h.torn ht) hd
    have hinv : Inv { p with dead := true, first := some r } := by
      refine ⟨rfl,fun _ => rfl,fun _ _ => rfl,fun t live ht => ?_,h.forwarding,h.isOpen,fun t => ?_⟩
      · have := h.tearing t live ht
        rw [halive] at this
        cases this
      · rw [h.received t]
        simp [htorn]
    exact hinv.setPump (by simp) (fun _ _ => rfl) (by simp)

theorem Inv.setPeer {p : Pair} (h : p.Inv) (r : Role) {q : Peer} (ho : q.isOpen = (p.peer r).isOpen)
    (hq : eofFrame ∈ q.received ↔ eofFrame ∈ (p.peer r).received) : (p.setPeer r q).Inv := by
  refine ⟨h.first,h.torn,h.ended,h.tearing,h.forwarding,?_,?_⟩
  · refine (r.forall_iff).mpr ⟨?_,?_⟩
    · rw [setPeer_self, ho]
      exact h.isOpen r
    · rw [setPeer_opposite]
      exact h.isOpen _
  · refine (r.forall_iff).mpr ⟨?_,?_⟩
    · rw [setPeer_self, hq]
      exact h.received r
    · rw [setPeer_opposite]
      exact h.received _

theorem Inv.passOn {p : Pair} (h : p.Inv) (r : Role) : (p.passOn r).Inv := by
  refine ⟨h.first,h.torn,h.ended,h.tearing,h.forwarding,?_,?_⟩
  · refine (r.forall_iff).mpr ⟨?_,?_⟩
    · simpa [Pair.passOn] using h.isOpen r
    · simp [Pair.passOn]
  · refine (r.forall_iff).mpr ⟨?_,?_⟩
    · simpa [Pair.passOn] using h.received r
    · simp [Pair.passOn]

theorem Inv.tearDown {p : Pair} (h : p.Inv) {r : Role} (hr : p.first = some r) :
    (p.tearDown r).Inv := by
  have hdead : p.dead = true := by rw [h.first, hr]; rfl
  refine ⟨h.first,fun _ => hdead,h.ended,h.tearing,h.forwarding,?_,?_⟩
  · refine (r.forall_iff).mpr ⟨?_,?_⟩ <;> simp [Pair.tearDown]
  · refine (r.forall_iff).mpr ⟨?_,?_⟩
    · have := h.received r
      simp only [hr, Option.some.injEq, Role.ne_opposite, and_false, or_false] at this
      simpa [Pair.tearDown, hr] using this
    · simp [Pair.tearDown, hr]

/-- What a pump can do between two suspensions. -/
inductive Turn (p : Pair) (r : Role) : PumpEvent → Pair → Prop
  | frame (input : ByteVector) (f : Frame) (hpc : p.pump r = .reading true)
      (hf : (readFrame input).1 = .frame f) : Turn p r (.read input) (p.onFrame r f)
  | leave (e : PumpEvent) (hpc : ∀ live, p.pump r ≠ .tearingDown live ∧ p.pump r ≠ .ended) :
      Turn p r e (p.leaveLoop r)
  | forwarded (f : Frame) (hpc : p.pump r = .forwarding f true) :
      Turn p r .writeOk ((p.deliver r.opposite f).nextRead r)
  | passed (hpc : p.pump r = .passingEof true) : Turn p r .writeOk ((p.passOn r).leaveLoop r)
  | torn (hpc : p.pump r = .tearingDown true) :
      Turn p r .writeOk ((p.tearDown r).setPump r .ended)
  | lost (live : Bool) (hpc : p.pump r = .tearingDown live) : Turn p r .writeFail (p.setPump r .ended)

theorem pump_turn {p p' : Pair} {r : Role} {e : PumpEvent} (hs : p.pumpOneWay r e = some p') :
    p.Turn r e p' := by
  cases hpc : p.pump r with
  | idle => cases e <;> simp [pumpOneWay, hpc] at hs
  | reading live =>
    cases e <;> simp only [pumpOneWay, hpc] at hs
    case read input =>
      have hleave := Turn.leave (p := p) (r := r) (.read input) (by simp [hpc])
      split_ifs at hs
      · obtain rfl := Option.some.inj hs
        exact hleave
      · subst live
        cases hf : (readFrame input).1 <;> simp only [hf] at hs <;> obtain rfl := Option.some.inj hs
        · exact .frame input _ hpc hf
        · exact hleave
        · exact hleave
    all_goals cases hs
  | forwarding f live =>
    cases e <;> cases live <;> simp only [pumpOneWay, hpc] at hs
    case writeOk.true =>
      obtain rfl := Option.some.inj hs
      exact .forwarded f hpc
    case writeFail.true | writeFail.false =>
      obtain rfl := Option.some.inj hs
      exact .leave _ (by simp [hpc])
    all_goals cases hs
  | passingEof live =>
    cases e <;> cases live <;> simp only [pumpOneWay, hpc] at hs
    case writeOk.true =>
      obtain rfl := Option.some.inj hs
      exact .passed hpc
    case writeFail.true | writeFail.false =>
      obtain rfl := Option.some.inj hs
      exact .leave _ (by simp [hpc])
    all_goals cases hs
  | tearingDown live =>
    cases e <;> cases live <;> simp only [pumpOneWay, hpc] at hs
    case writeOk.true =>
      obtain rfl := Option.some.inj hs
      exact .torn hpc
    case writeFail.true | writeFail.false =>
      obtain rfl := Option.some.inj hs
      exact .lost _ hpc
    all_goals cases hs
  | ended => cases e <;> simp [pumpOneWay, hpc] at hs

/-- What pumps never undo: frames written, peers gone, pumps spawned. -/
structure Grows (p p' : Pair) : Prop where
  received : ∀ r, (p.peer r).received <+: (p'.peer r).received
  gone : ∀ r, (p.peer r).gone = true → (p'.peer r).gone = true
  pump : ∀ r, p.pump r ≠ .idle → p'.pump r ≠ .idle

theorem Grows.refl (p : Pair) : p.Grows p := ⟨fun _ => List.prefix_rfl,fun _ => id,fun _ => id⟩

theorem Grows.trans {p q s : Pair} (h : p.Grows q) (h' : q.Grows s) : p.Grows s :=
  ⟨fun r => (h.received r).trans (h'.received r),fun r hr => h'.gone r (h.gone r hr),
    fun r hr => h'.pump r (h.pump r hr)⟩

theorem grows_setPump (p : Pair) (r : Role) {pc : PumpPc} (h : pc ≠ .idle) :
    p.Grows (p.setPump r pc) := by
  refine ⟨fun _ => List.prefix_rfl,fun _ => id,(r.forall_iff).mpr ⟨?_,?_⟩⟩
  · rw [setPump_self]
    intro _
    exact h
  · rw [setPump_opposite]
    exact id

theorem grows_setPeer (p : Pair) (r : Role) {q : Peer} (hq : (p.peer r).received <+: q.received)
    (hg : (p.peer r).gone = true → q.gone = true) : p.Grows (p.setPeer r q) := by
  refine ⟨(r.forall_iff).mpr ⟨?_,?_⟩,(r.forall_iff).mpr ⟨?_,?_⟩,fun _ => id⟩
  · rwa [setPeer_self]
  · simp only [setPeer_opposite, List.prefix_rfl]
  · rwa [setPeer_self]
  · rw [setPeer_opposite]
    exact id

theorem grows_leaveLoop (p : Pair) (r : Role) : p.Grows (p.leaveLoop r) := by
  rw [leaveLoop]
  split
  · exact p.grows_setPump r (by simp)
  · have h : p.Grows { p with dead := true, first := some r } :=
      ⟨fun _ => List.prefix_rfl,fun _ => id,fun _ => id⟩
    exact h.trans (grows_setPump _ r (by simp))

theorem Turn.grows {p p' : Pair} {r : Role} {e : PumpEvent} (ht : p.Turn r e p') : p.Grows p' := by
  cases ht with
  | frame input f hpc hf =>
    rw [onFrame]
    split
    · have h : p.Grows { p with sentEof := Function.update p.sentEof r true } :=
        ⟨fun _ => List.prefix_rfl,fun _ => id,fun _ => id⟩
      exact h.trans (grows_setPump _ r (by simp))
    · exact p.grows_setPump r (by simp)
  | leave e hpc => exact p.grows_leaveLoop r
  | forwarded f hpc =>
    have h := p.grows_setPeer r.opposite (q := { p.peer r.opposite with
      received := (p.peer r.opposite).received ++ [f] }) (List.prefix_append _ _) id
    exact h.trans (grows_setPump _ r (by simp))
  | passed hpc =>
    have h : p.Grows (p.passOn r) := by
      refine ⟨(r.forall_iff).mpr ?_,(r.forall_iff).mpr ?_,fun _ => id⟩ <;> simp [passOn]
    exact h.trans (grows_leaveLoop _ r)
  | torn hpc =>
    have h : p.Grows (p.tearDown r) := by
      refine ⟨(r.forall_iff).mpr ?_,(r.forall_iff).mpr ?_,fun _ => id⟩ <;> simp [tearDown]
    exact h.trans (grows_setPump _ r (by simp))
  | lost live hpc => exact p.grows_setPump r (by simp)

theorem step_grows {p p' : Pair} {e : PairEvent} (hs : p.step e = some p') : p.Grows p' := by
  cases e with
  | disconnect r =>
    rw [step] at hs
    split_ifs at hs
    obtain rfl := Option.some.inj hs
    exact p.grows_setPeer r List.prefix_rfl fun _ => rfl
  | pump r e => exact (pump_turn hs).grows

theorem Turn.inv {p p' : Pair} {r : Role} {e : PumpEvent} (ht : p.Turn r e p') (h : p.Inv) :
    p'.Inv := by
  cases ht with
  | frame input f hpc hf =>
    rw [onFrame]
    split
    case isTrue =>
      have hsent : Inv { p with sentEof := Function.update p.sentEof r true } :=
        ⟨h.first,h.torn,h.ended,h.tearing,h.forwarding,h.isOpen,h.received⟩
      exact hsent.setPump (by simp) (by simp) (by simp)
    case isFalse hne =>
      apply h.setPump (by simp) (by simp)
      intro g live hg
      obtain ⟨rfl,-⟩ := PumpPc.forwarding.inj hg
      exact translate_ne_eofFrame hne
  | leave e hpc => exact h.leaveLoop r
  | forwarded f hpc =>
    have hd := h.setPeer r.opposite (q := { p.peer r.opposite with
      received := (p.peer r.opposite).received ++ [f] }) rfl (by
        simp [(h.forwarding r f true hpc).symm])
    exact hd.setPump (by simp) (by simp) (by simp)
  | passed hpc => exact (h.passOn r).leaveLoop r
  | torn hpc =>
    have hr := h.tearing r true hpc
    have hdead : p.dead = true := by rw [h.first, hr]; rfl
    exact (h.tearDown hr).setPump (fun _ => hdead) (by simp) (by simp)
  | lost live hpc =>
    have hdead : p.dead = true := by rw [h.first, h.tearing r live hpc]; rfl
    exact h.setPump (fun _ => hdead) (by simp) (by simp)

theorem step_inv {p p' : Pair} {e : PairEvent} (h : p.Inv) (hs : p.step e = some p') : p'.Inv := by
  cases e with
  | disconnect r =>
    rw [step] at hs
    split_ifs at hs
    obtain rfl := Option.some.inj hs
    exact h.setPeer r rfl Iff.rfl
  | pump r e => exact (pump_turn hs).inv h

theorem spawned_inv (gone : Role → Bool) : (spawned gone).Inv := by
  refine ⟨rfl,?_,?_,?_,?_,fun _ => rfl,?_⟩ <;> simp [spawned, eofFrame]

/-- Once both pumps have ended, the pair is torn down as it should be exactly when its end
was orderly. -/
theorem tornDown_iff_orderly {gone : Role → Bool} {events : List PairEvent} {p : Pair}
    (hrun : run step (spawned gone) events = some p) (hended : ∀ r, p.pump r = .ended) :
    p.TornDown ↔ p.Orderly := by
  have h : p.Inv := run_invariant hrun (spawned_inv gone) step_inv
  have hdead := h.ended .b (hended .b)
  obtain ⟨q,hq⟩ := Option.isSome_iff_exists.mp (h.first.symm.trans hdead)
  have hclosed : ∀ r, (p.peer r).isOpen = false ↔ p.passedEof r.opposite = true ∨ p.torn = true := by
    intro r
    rw [h.isOpen r]
    cases p.passedEof r.opposite <;> cases p.torn <;> simp
  constructor
  · intro ht
    by_cases htorn : p.torn = true
    · refine .inr ⟨htorn,fun r hr => ?_⟩
      obtain hgone | hsent | hgot := (ht r).2
      · exact .inl hgone
      · exact .inr (.inl hsent)
      · obtain hpassed | ⟨-,hother⟩ := (h.received r).mp hgot
        · exact .inr (.inr hpassed)
        · simp [hr] at hother
    · refine .inl fun r => ?_
      have := ((hclosed r.opposite).mp (ht r.opposite).1).resolve_right htorn
      rwa [Role.opposite_opposite] at this
  · rintro (hall | ⟨htorn,hfirst⟩) r
    · exact ⟨(hclosed r).mpr (.inl (hall _)),.inr (.inr ((h.received r).mpr (.inl (hall _))))⟩
    · refine ⟨(hclosed r).mpr (.inr htorn),?_⟩
      obtain rfl | rfl := r.eq_or_eq_opposite q
      · obtain hgone | hsent | hpassed := hfirst r hq
        · exact .inl hgone
        · exact .inr (.inl hsent)
        · exact .inr (.inr ((h.received r).mpr (.inl hpassed)))
      · exact .inr (.inr ((h.received _).mpr (.inr ⟨htorn,by simpa using hq⟩)))

/-- The peer `c` disconnects and `b` is told. -/
def cGone : List PairEvent :=
  [.disconnect .c, .pump .c (.read []), .pump .c .writeOk, .pump .b (.read [])]

theorem tornDown_iff_orderly_cGone : ∃ p, run step (spawned fun _ => false) cGone = some p ∧
    p.TornDown := by
  obtain ⟨p,hrun,hended,htorn,hfirst,hgone⟩ : ∃ p, run step (spawned fun _ => false) cGone = some p ∧
      (∀ r, p.pump r = .ended) ∧ p.torn = true ∧ p.first = some .c ∧ (p.peer .c).gone = true :=
    ⟨_,rfl,fun r => by cases r <;> rfl,rfl,rfl,rfl⟩
  have horderly : p.Orderly := by
    refine .inr ⟨htorn,fun r hr => ?_⟩
    obtain rfl := Option.some.inj (hfirst.symm.trans hr)
    exact .inl hgone
  exact ⟨p,hrun,(tornDown_iff_orderly hrun hended).mpr horderly⟩

/-- An `EOF_` frame of `b` is passed on and the socket of `c` closed; the write of the
teardown then throws, and the socket of `b` stays open. -/
def bSaysEof : List PairEvent :=
  [.pump .b (.read (buildFrameBytes .eof [])), .pump .b .writeOk, .pump .b .writeFail,
    .pump .c (.read [])]

theorem bSaysEof_not_tornDown : ∃ p, run step (spawned fun _ => false) bSaysEof = some p ∧
    (∀ r, p.pump r = .ended) ∧ ¬p.TornDown :=
  ⟨_,rfl,fun r => by cases r <;> rfl,fun h => absurd (h .b).1 (by decide)⟩

end Pair

end Msg801.Relay
