import Msg801.Tunnel.Segmentation
import Msg801.Tunnel.TwoHop

/-! # Two tunnels in a row

The remote socket of a session of the first tunnel and the local socket of a session of the
second are the two ends of one connection. The four read loops interleave as they like, and
what is written at one end of the connection is read at the other in pieces of any size.
-/
namespace Msg801.Tunnel
open Stage Transition SessionState

/-- The tunnel at the client, and the one at the server. -/
inductive Hop where
  | entry
  | exit
  deriving DecidableEq

namespace Side

/-- The tunnel whose loop reads this side from outside, and the one whose loop reads it from
the connection between the two. -/
def sender : Side → Hop
  | localSide => .entry
  | remoteSide => .exit

def receiver : Side → Hop
  | localSide => .exit
  | remoteSide => .entry

theorem receiver_ne_sender (side : Side) : side.receiver ≠ side.sender := by cases side <;> decide

theorem eq_sender_or_receiver (side : Side) (hop : Hop) : hop = side.sender ∨ hop = side.receiver := by
  cases side <;> cases hop <;> decide

end Side

/-- The bytes an event reads. -/
def LoopEvent.input : LoopEvent → ByteVector
  | .read (.data x) => x
  | _ => []

theorem LoopEvent.input_of_ne {e : LoopEvent} (h : ∀ x, e ≠ .read (.data x)) : e.input = [] := by
  unfold LoopEvent.input
  split
  · exact absurd rfl (h _)
  · rfl

/-- A session of each tunnel, with what their loops have read. -/
structure SessionPair where
  session : Hop → SessionState
  read : Hop → Side → ByteVector := fun _ _ => []

namespace SessionPair

abbrev Event := Hop × Side × LoopEvent

def step (p : SessionPair) : Event → Option SessionPair
  | (hop,side,e) => ((p.session hop).step (side,e)).map fun s => {
      session := Function.update p.session hop s
      read := Function.update p.read hop
        (Function.update (p.read hop) side (p.read hop side ++ e.input)) }

/-- What a session has written in the direction of a side. -/
def written (p : SessionPair) (hop : Hop) (side : Side) : ByteVector := ((p.session hop).sock side.opposite).written

/-- The connection between the tunnels: its bytes arrive in their order, and its end comes
behind all of them, when the far end has been shut or closed. -/
def Delivers (p : SessionPair) : Event → Prop
  | (hop,side,.read (.data x)) => hop = side.receiver → p.read hop side ++ x <+: p.written side.sender side
  | (hop,side,.read .eof) => hop = side.receiver → p.read hop side = p.written side.sender side ∧
      (((p.session side.sender).sock side.opposite).sendShut = true ∨ (p.session side.sender).closed = true)
  | _ => True

instance (p : SessionPair) (a : Event) : Decidable (p.Delivers a) :=
  match a with
  | (_,_,.read (.data _)) => inferInstanceAs (Decidable (_ → _))
  | (_,_,.read .eof) => inferInstanceAs (Decidable (_ → _ ∧ (_ ∨ _)))
  | (_,_,.read .error) | (_,_,.read .operationAborted) | (_,_,.start) | (_,_,.transfer _) | (_,_,.writeOk)
  | (_,_,.writeFail) => inferInstanceAs (Decidable True)

/-- The chain does not throw at what is read. -/
def Taken (p : SessionPair) : Event → Prop
  | (hop,side,.read (.data x)) => (onData side (p.session hop).chain x).error = none
  | _ => True

def start (idE idX : UInt64) (E X : ProcessorChain ProcessorPtr) : SessionPair where
  session
    | .entry => startSession idE E
    | .exit => startSession idX X

end SessionPair

namespace SessionState
variable {s t : SessionState} {side : Side} {e : LoopEvent}

theorem Carried.whole (h : s.Carried side) (he : (s.loop side).eof = true) :
    (s.loop side).produced = (s.sock side.opposite).written := by
  cases h with
  | early heof => simp [heof] at he
  | late _ _ hp => exact hp

/-- A send side is shut by the loop that writes to it, at the end of its input. -/
def Shut (s : SessionState) : Prop := ∀ u, (s.sock u).sendShut = (s.loop u.opposite).eof

theorem Shut.own (h : s.Shut) (side : Side) : (s.sock side.opposite).sendShut = (s.loop side).eof := by
  simpa using h side.opposite

theorem Shut.congr (h : s.Shut) (hk : ∀ u, (t.sock u).sendShut = (s.sock u).sendShut)
    (hl : ∀ u, (t.loop u).eof = (s.loop u).eof) : t.Shut := by
  intro u
  rw [hk, hl, h u]

theorem setLoop_eof {l : ReadLoop} (hl : l.eof = (s.loop side).eof) (u : Side) :
    ((s.setLoop side l).loop u).eof = (s.loop u).eof := by
  obtain rfl | rfl := u.eq_or_eq_opposite side
  · simpa using hl
  · simp

theorem finish_shut (h : s.Shut) : (s.finish side).Shut := by
  refine h.congr (fun u => by rw [finish_sock]) fun u => ?_
  rw [finish_loop]
  exact setLoop_eof (l := { s.loop side with pc := .ended }) rfl u

theorem writeNext_shut (h : s.Shut) (outs : DataBufferList) : (s.writeNext side outs).Shut := by
  cases outs with
  | nil =>
    rw [writeNext, next]
    split
    · exact finish_shut h
    · exact h.congr (fun _ => rfl) (setLoop_eof rfl)
  | cons out more => exact h.congr (fun _ => rfl) (setLoop_eof rfl)

theorem seeEof_shut (h : s.Shut) : (s.seeEof side).Shut := by
  intro u
  obtain rfl | rfl := u.eq_or_eq_opposite side
  · simpa [seeEof] using h u
  · simp [seeEof]

theorem Turn.shut (ht : s.Turn side e t) (h : s.Shut) : t.Shut := by
  have habsorb : ∀ r, (s.absorb side r).Shut := fun r => h.congr (fun _ => rfl) (setLoop_eof rfl)
  have hcount : ∀ n, (s.count side n).Shut := fun n => h.congr (fun _ => rfl) (setLoop_eof rfl)
  cases ht with
  | start => exact writeNext_shut h []
  | data input => exact writeNext_shut (habsorb _) _
  | eof =>
    split
    · exact finish_shut (seeEof_shut h)
    · exact finish_shut (seeEof_shut h)
  | aborted => exact finish_shut h
  | transfer =>
    refine h.congr (fun u => ?_) (setLoop_eof rfl)
    obtain rfl | rfl := u.eq_or_eq_opposite side <;> simp [setPc]
  | writeOk => exact writeNext_shut (hcount _) _
  | fault e chain =>
    apply finish_shut
    rw [closeOnce]
    split <;> exact h

theorem writeNext_record (s : SessionState) (side : Side) (outs : DataBufferList) :
    ((s.writeNext side outs).loop side).produced = (s.loop side).produced ∧
    ((s.writeNext side outs).loop side).eof = (s.loop side).eof := by
  cases outs with
  | nil =>
    rw [writeNext, next]
    split
    · rw [finish_loop]
      simp [setPc]
    · simp [setPc]
  | cons out more => simp [writeNext, setPc]

/-- A step of a loop leaves what its chain has produced but for what it takes. -/
theorem Turn.produced (ht : s.Turn side e t) (hd : ∀ x, e ≠ .read (.data x)) :
    (t.loop side).produced = (s.loop side).produced := by
  cases ht with
  | start => exact (writeNext_record s side []).1
  | data input => exact absurd rfl (hd input)
  | eof =>
    rw [finish_loop]
    split <;> simp [setPc, closeAll, seeEof]
  | aborted =>
    rw [finish_loop]
    simp [setPc]
  | transfer => simp [setPc]
  | writeOk sent more =>
    rw [(writeNext_record _ side more).1]
    simp [count]
  | fault e chain =>
    rw [finish_loop]
    simp [setPc]

/-- What a loop has written is a beginning of what its chain has produced, all of it as long
as the loop goes on and once it has seen the end of its input. -/
structure Posts (s : SessionState) (side : Side) : Prop where
  carried : s.Carried side
  begins : (s.sock side.opposite).written <+: (s.loop side).produced

theorem Turn.begins (ht : s.Turn side e t) (h : s.Posts side) :
    (t.sock side.opposite).written <+: (t.loop side).produced := by
  have hkept : (t.sock side.opposite).written = (s.sock side.opposite).written →
      (s.loop side).produced <+: (t.loop side).produced →
      (t.sock side.opposite).written <+: (t.loop side).produced := fun hw hp => hw ▸ h.begins.trans hp
  have hsame : (t.sock side.opposite).written = (s.sock side.opposite).written →
      (∀ x, e ≠ .read (.data x)) → (t.sock side.opposite).written <+: (t.loop side).produced :=
    fun hw hd => hkept hw (ht.produced hd ▸ List.prefix_rfl)
  cases ht with
  | start => exact hsame (congrArg (fun k => (k side.opposite).written) (writeNext_keeps s side []).1) (by simp)
  | data input hpc he =>
    refine hkept (congrArg (fun k => (k side.opposite).written) (writeNext_keeps _ side _).1) ?_
    rw [(writeNext_record _ side _).1, absorb, setLoop_loop]
    exact List.prefix_append _ _
  | eof =>
    apply hsame _ (by simp)
    rw [finish_sock]
    split <;> simp [closeAll, seeEof]
  | aborted => exact hsame (by rw [finish_sock]) (by simp)
  | transfer sent now rest more n hpc =>
    cases h.carried with
    | late _ hl => simp [hpc] at hl
    | early _ _ hp =>
      have hall := hp (by simp [hpc])
      rw [hpc, pending] at hall
      simp [setPc, hall]
  | writeOk sent more => exact hsame (congrArg (fun k => (k side.opposite).written) (writeNext_keeps _ side _).1) (by simp)
  | fault e chain hchain hpc hfault =>
    rw [finish_sock, closeOnce_written, finish_loop]
    simpa [setPc] using h.begins

theorem step_posts (hi : s.Inv) (h : s.Posts side) (hs : s.step (side,e) = some t) : t.Posts side := by
  have ha := readLoop_advance ((step_eq s side e).symm.trans hs)
  refine ⟨ha.carried h.carried fun _ _ => ?_,(step_turn hi hs).begins h⟩
  rw [flush_silent hi.silent side]
  rfl

theorem step_posts_other (h : s.Posts side) (hs : s.step (side.opposite,e) = some t) : t.Posts side := by
  obtain ⟨hl,hw⟩ := (readLoop_advance ((step_eq s side.opposite e).symm.trans hs)).apart
  rw [Side.opposite_opposite] at hl
  refine ⟨?_,?_⟩
  · rw [Carried, hl, hw]
    exact h.carried
  · rw [hl, hw]
    exact h.begins

/-- What a loop takes, the chain has made something of. -/
theorem step_took (hi : s.Inv) {x : ByteSpan} (hs : s.step (side,.read (.data x)) = some t)
    (he : (onData side s.chain x).error = none) : t.chain = (onData side s.chain x).state ∧
      (t.loop side).produced = (s.loop side).produced ++ (onData side s.chain x).bytes := by
  cases step_turn hi hs with
  | data =>
    refine ⟨writeNext_chain _ side _,?_⟩
    rw [(writeNext_record _ side _).1, absorb, setLoop_loop]
  | fault _ _ _ _ hfault => exact absurd he hfault

/-- Bytes are only added to what is written, and none once the session is closed. -/
theorem step_written (hi : s.Inv) (hs : s.step (side,e) = some t) :
    (s.sock side.opposite).written <+: (t.sock side.opposite).written ∧
    (s.closed = true → (t.sock side.opposite).written = (s.sock side.opposite).written) := by
  have hsame : t.sock = s.sock → (s.sock side.opposite).written <+: (t.sock side.opposite).written ∧
      (s.closed = true → (t.sock side.opposite).written = (s.sock side.opposite).written) :=
    fun h => ⟨h ▸ List.prefix_rfl,fun _ => congrArg (fun k => (k side.opposite).written) h⟩
  have hopen : ∀ n, e = .transfer n → s.closed = true → False := by
    rintro n rfl hc
    rw [step_eq] at hs
    simp only [readLoop] at hs
    split at hs <;> simp_all [transfer, hi.isOpen]
  cases step_turn hi hs with
  | start => exact hsame (writeNext_keeps s side []).1
  | data => exact hsame (writeNext_keeps _ side _).1
  | writeOk => exact hsame (writeNext_keeps _ side _).1
  | aborted => exact hsame (finish_sock s side)
  | eof =>
    rw [finish_sock]
    split <;> simp [closeAll, seeEof]
  | transfer sent now rest more n hpc =>
    refine ⟨?_,fun hc => (hopen n rfl hc).elim⟩
    simp [setPc]
  | fault =>
    rw [finish_sock, closeOnce_written]
    exact ⟨List.prefix_rfl,fun _ => rfl⟩

theorem step_eof (hi : s.Inv) (hs : s.step (side,e) = some t) (he : (t.loop side).eof = true) : e = .read .eof := by
  have hnone := hi.eof_false (step_alive hs)
  by_contra hne
  have hsame : (t.loop side).eof = (s.loop side).eof := by
    cases step_turn hi hs with
    | start => exact (writeNext_record s side []).2
    | data => exact (writeNext_record _ side _).2.trans (by simp [absorb])
    | eof => exact absurd rfl hne
    | aborted | fault =>
      rw [finish_loop]
      simp [setPc]
    | transfer => simp [setPc]
    | writeOk => exact (writeNext_record _ side _).2.trans (by simp [count])
  exact absurd (hsame.symm.trans he) (by simp [hnone])

end SessionState

namespace SessionPair

/-- One direction from the first session of a pair to the second: what the two chains have
been given, what is between them, and what has arrived of what was written. -/
structure Conveys (p₀ q₀ : ProcessorChain ProcessorPtr) (side : Side) (s r : SessionState)
    (sent arrived : ByteVector) : Prop where
  flows : ∃ wire, Duplex.Flows (onData side) (onData side) (List.map (half side)) (List.map (half side)) p₀ q₀
      s.chain r.chain wire sent (r.loop side).produced ∧ (s.loop side).produced = arrived ++ wire
  sender : s.Posts side
  receiver : r.Posts side
  inOrder : arrived <+: (s.sock side.opposite).written
  ended : (r.loop side).eof = true → arrived = (s.sock side.opposite).written ∧
    ((s.loop side).eof = true ∨ s.closed = true)

section Direction
variable {p₀ q₀ : ProcessorChain ProcessorPtr} {side : Side} {s r t : SessionState} {sent arrived : ByteVector}
  {e : LoopEvent}

theorem Conveys.sender_other (h : Conveys p₀ q₀ side s r sent arrived) (hi : s.Inv)
    (hs : s.step (side.opposite,e) = some t) : Conveys p₀ q₀ side t r sent arrived := by
  obtain ⟨hl,hw⟩ := (readLoop_advance ((step_eq s side.opposite e).symm.trans hs)).apart
  rw [Side.opposite_opposite] at hl
  obtain ⟨wire,hf,hp⟩ := h.flows
  refine ⟨⟨wire,hf.congr (step_half hi hs) rfl,hl ▸ hp⟩,step_posts_other h.sender hs,h.receiver,?_,fun he => ?_⟩
  · rw [hw]
    exact h.inOrder
  · rw [hw, hl]
    exact (h.ended he).imp_right (Or.imp_right (step_closed hi hs))

theorem Conveys.receiver_other (h : Conveys p₀ q₀ side s r sent arrived) (hi : r.Inv)
    (hs : r.step (side.opposite,e) = some t) : Conveys p₀ q₀ side s t sent arrived := by
  obtain ⟨hl,-⟩ := (readLoop_advance ((step_eq r side.opposite e).symm.trans hs)).apart
  rw [Side.opposite_opposite] at hl
  obtain ⟨wire,hf,hp⟩ := h.flows
  refine ⟨⟨wire,?_,hp⟩,h.sender,step_posts_other h.receiver hs,h.inOrder,?_⟩
  · rw [hl]
    exact hf.congr rfl (step_half hi hs)
  · rw [hl]
    exact h.ended

theorem Conveys.taken_sender (hd : Decodes (onData side) p₀ (onData side) q₀)
    (h : Conveys p₀ q₀ side s r sent arrived) (x : ByteSpan) : (onData side s.chain x).error = none := by
  obtain ⟨wire,hf,-⟩ := h.flows
  exact (hf.send hd (onData_within side) x).1

/-- What arrives is the next part of what is between the two chains. -/
theorem Conveys.arrives (h : Conveys p₀ q₀ side s r sent arrived) {x wire : ByteVector}
    (hx : arrived ++ x <+: (s.sock side.opposite).written) (hp : (s.loop side).produced = arrived ++ wire) :
    wire.take x.length = x :=
  (List.prefix_iff_eq_take.mp ((List.prefix_append_right_inj arrived).mp (hp ▸ hx.trans h.sender.begins))).symm

theorem Conveys.taken_receiver (hd : Decodes (onData side) p₀ (onData side) q₀)
    (h : Conveys p₀ q₀ side s r sent arrived) {x : ByteSpan} (hx : arrived ++ x <+: (s.sock side.opposite).written) :
    (onData side r.chain x).error = none := by
  obtain ⟨wire,hf,hp⟩ := h.flows
  have hnone := (hf.receive hd (onData_within side) x.length).1
  rwa [h.arrives hx hp] at hnone

/-- What the sending loop does: it reads from outside, and writes to the connection. -/
theorem Conveys.send (hd : Decodes (onData side) p₀ (onData side) q₀) (h : Conveys p₀ q₀ side s r sent arrived)
    (hi : s.Inv) (hs : s.step (side,e) = some t) : Conveys p₀ q₀ side t r (sent ++ e.input) arrived := by
  have hposts := step_posts hi h.sender hs
  obtain ⟨hgrows,hstays⟩ := step_written hi hs
  have hended : (r.loop side).eof = true → arrived = (t.sock side.opposite).written ∧
      ((t.loop side).eof = true ∨ t.closed = true) := by
    intro he
    obtain ⟨hall,heof | hclosed⟩ := h.ended he
    · exact absurd ((hi.settled side).eof heof) (step_alive hs)
    · exact ⟨hall.trans (hstays hclosed).symm,.inr (step_closed hi hs hclosed)⟩
  obtain ⟨wire,hf,hp⟩ := h.flows
  by_cases hdata : ∃ x, e = .read (.data x)
  · obtain ⟨x,rfl⟩ := hdata
    have hsent := (hf.send hd (onData_within side) x).2
    obtain ⟨hchain,hprod⟩ := step_took hi hs (h.taken_sender hd x)
    refine ⟨⟨_,hchain ▸ hsent,?_⟩,hposts,h.receiver,h.inOrder.trans hgrows,hended⟩
    rw [hprod, hp, List.append_assoc]
  · have hno : ∀ x, e ≠ .read (.data x) := fun x hx => hdata ⟨x,hx⟩
    rw [LoopEvent.input_of_ne hno, List.append_nil]
    refine ⟨⟨wire,?_,?_⟩,hposts,h.receiver,h.inOrder.trans hgrows,hended⟩
    · rw [step_chain_eq hi hs hno]
      exact hf
    · rw [(step_turn hi hs).produced hno]
      exact hp

/-- What the receiving loop does: it reads what has arrived, and writes outside. -/
theorem Conveys.receive (hd : Decodes (onData side) p₀ (onData side) q₀) (h : Conveys p₀ q₀ side s r sent arrived)
    (hi : r.Inv) (hx : arrived ++ e.input <+: (s.sock side.opposite).written)
    (heof : e = .read .eof → arrived = (s.sock side.opposite).written ∧
      ((s.loop side).eof = true ∨ s.closed = true))
    (hs : r.step (side,e) = some t) : Conveys p₀ q₀ side s t sent (arrived ++ e.input) := by
  have hposts := step_posts hi h.receiver hs
  have hended : (t.loop side).eof = true → arrived ++ e.input = (s.sock side.opposite).written ∧
      ((s.loop side).eof = true ∨ s.closed = true) := by
    intro he
    obtain rfl := step_eof hi hs he
    exact (List.append_nil arrived).symm ▸ heof rfl
  obtain ⟨wire,hf,hp⟩ := h.flows
  refine ⟨?_,h.sender,hposts,hx,hended⟩
  by_cases hdata : ∃ x, e = .read (.data x)
  · obtain ⟨x,rfl⟩ := hdata
    have htake : wire.take x.length = x := h.arrives hx hp
    have hgot := (hf.receive hd (onData_within side) x.length).2
    rw [htake] at hgot
    obtain ⟨hchain,hprod⟩ := step_took hi hs (h.taken_receiver hd hx)
    refine ⟨wire.drop x.length,hchain ▸ hprod ▸ hgot,?_⟩
    rw [hp, List.append_assoc]
    change _ = arrived ++ (x ++ _)
    exact congrArg (arrived ++ ·) (by rw [← List.take_append_drop x.length wire, htake]; simp)
  · have hno : ∀ x, e ≠ .read (.data x) := fun x hx => hdata ⟨x,hx⟩
    rw [LoopEvent.input_of_ne hno, List.append_nil, (step_turn hi hs).produced hno, step_chain_eq hi hs hno]
    exact ⟨wire,hf,hp⟩

end Direction

/-- Both directions, between the two sessions of a pair. -/
structure Joined (origin : Hop → ProcessorChain ProcessorPtr) (p : SessionPair) : Prop where
  inv : ∀ hop, (p.session hop).Inv
  shut : ∀ hop, (p.session hop).Shut
  conveys : ∀ side, Conveys (origin side.sender) (origin side.receiver) side (p.session side.sender)
    (p.session side.receiver) (p.read side.sender side) (p.read side.receiver side)

variable {origin : Hop → ProcessorChain ProcessorPtr} {p q : SessionPair} {a : Event}

theorem step_joined (hd : ∀ side, Decodes (onData side) (origin side.sender) (onData side) (origin side.receiver))
    (h : p.Joined origin) (ha : p.Delivers a) (hs : p.step a = some q) : q.Joined origin := by
  obtain ⟨hop,u,e⟩ := a
  obtain ⟨t,ht,rfl⟩ := Option.map_eq_some_iff.mp hs
  have hmove : ∀ {P : SessionState → Prop}, (∀ hop, P (p.session hop)) → P t →
      ∀ hop', P (Function.update p.session hop t hop') := by
    intro P hall hnew hop'
    by_cases he : hop' = hop
    · subst he
      simpa using hnew
    · simpa [he] using hall hop'
  refine ⟨hmove h.inv (step_inv (h.inv hop) ht),hmove h.shut ((step_turn (h.inv hop) ht).shut (h.shut hop)),
    fun side => ?_⟩
  have hc := h.conveys side
  have hne := side.receiver_ne_sender
  obtain rfl | rfl := u.eq_or_eq_opposite side
  · obtain rfl | rfl := u.eq_sender_or_receiver hop
    · simpa [hne] using hc.send (hd u) (h.inv _) ht
    · have hx : p.read u.receiver u ++ e.input <+: ((p.session u.sender).sock u.opposite).written := by
        by_cases hdata : ∃ x, e = .read (.data x)
        · obtain ⟨x,rfl⟩ := hdata
          exact ha rfl
        · rw [LoopEvent.input_of_ne fun x hx => hdata ⟨x,hx⟩, List.append_nil]
          exact hc.inOrder
      have heof : e = .read .eof → p.read u.receiver u = ((p.session u.sender).sock u.opposite).written ∧
          (((p.session u.sender).loop u).eof = true ∨ (p.session u.sender).closed = true) := by
        rintro rfl
        rw [← (h.shut u.sender).own u]
        exact ha rfl
      simpa [hne.symm] using hc.receive (hd u) (h.inv _) hx heof ht
  · have hu : side ≠ side.opposite := side.opposite_ne.symm
    obtain rfl | rfl := side.eq_sender_or_receiver hop
    · simpa [hne, hu] using hc.sender_other (h.inv _) ht
    · simpa [hne.symm, hu] using hc.receiver_other (h.inv _) ht

theorem Joined.taken (hd : ∀ side, Decodes (onData side) (origin side.sender) (onData side) (origin side.receiver))
    (h : p.Joined origin) (ha : p.Delivers a) : p.Taken a := by
  obtain ⟨hop,side,e⟩ := a
  cases e with
  | read outcome =>
    cases outcome with
    | data x =>
      obtain rfl | rfl := side.eq_sender_or_receiver hop
      · exact (h.conveys side).taken_sender (hd side) x
      · exact (h.conveys side).taken_receiver (hd side) (ha rfl)
    | _ => trivial
  | _ => trivial

/-- With nothing left between the two chains, all of a direction has come out at its end. -/
theorem Joined.produced (hd : ∀ side, Decodes (onData side) (origin side.sender) (onData side) (origin side.receiver))
    (h : p.Joined origin) (side : Side) :
    ((p.session side.receiver).loop side).produced <+: p.read side.sender side ∧
    (((p.session side.sender).loop side).produced = p.read side.receiver side →
      ((p.session side.receiver).loop side).produced = p.read side.sender side) := by
  obtain ⟨wire,hf,hp⟩ := (h.conveys side).flows
  obtain ⟨hbegins,hall⟩ := hf.delivered (hd side)
  exact ⟨hbegins,fun hread => hall (List.append_right_eq_self.mp (hp.symm.trans hread))⟩

/-- Behind the end of a direction all of it has come through. -/
theorem Joined.whole (hd : ∀ side, Decodes (onData side) (origin side.sender) (onData side) (origin side.receiver))
    (h : p.Joined origin) (side : Side) : p.written side.receiver side <+: p.read side.sender side ∧
    (((p.session side.receiver).loop side).eof = true → ((p.session side.sender).loop side).eof = true →
      p.written side.receiver side = p.read side.sender side) := by
  have hc := h.conveys side
  obtain ⟨hbegins,hall⟩ := h.produced hd side
  refine ⟨hc.receiver.begins.trans hbegins,fun hr hs => ?_⟩
  have hread := (hc.sender.carried.whole hs).trans (hc.ended hr).1.symm
  exact (hc.receiver.carried.whole hr).symm.trans (hall hread)

/-- The chains the sessions of a pair start with. -/
def origins (E X : ProcessorChain ProcessorPtr) : Hop → ProcessorChain ProcessorPtr
  | .entry => E
  | .exit => X

theorem start_joined (idE idX : UInt64) {E X : ProcessorChain ProcessorPtr} (hE : E.Silent) (hX : X.Silent) :
    (start idE idX E X).Joined (origins E X) := by
  have hposts : ∀ id chain side, (startSession id chain).Posts side := fun id chain side =>
    ⟨.early rfl (by rintro _ _ _ ⟨⟩) fun _ => rfl,List.nil_prefix⟩
  refine ⟨fun hop => ?_,fun hop => ?_,fun side => ?_⟩
  · cases hop
    · exact startSession_inv idE hE
    · exact startSession_inv idX hX
  · cases hop <;> exact fun _ => rfl
  · cases side
    · exact ⟨⟨[],Duplex.Flows.initial,rfl⟩,hposts idE E _,hposts idX X _,List.nil_prefix,by rintro ⟨⟩⟩
    · exact ⟨⟨[],Duplex.Flows.initial,rfl⟩,hposts idX X _,hposts idE E _,List.nil_prefix,by rintro ⟨⟩⟩

theorem run_joined {idE idX : UInt64} {E X : ProcessorChain ProcessorPtr}
    (hd : ∀ side : Side, Decodes (onData side) (origins E X side.sender) (onData side) (origins E X side.receiver))
    (hE : E.Silent) (hX : X.Silent) {events : List Event} (hrun : run step (start idE idX E X) events = some p)
    (hm : Meets step Delivers (start idE idX E X) events) : p.Joined (origins E X) :=
  (hm.reach hrun).invariant (start_joined idE idX hE hX) fun h ha hs => step_joined hd h ha hs

/-- The chains built on the two ends decode each other, in both directions. -/
theorem origins_decode (C : Crypto) (RE RX : RandomEngine) (hostE hostX : Host) {specs : List ByteSpan}
    {E X : ProcessorChain ProcessorPtr} (hplain : ∀ spec ∈ specs, Plain spec)
    (hE : ∀ i k, hostE.randBytes i k ≠ none) (hX : ∀ i k, hostX.randBytes i k ≠ none)
    (hentry : buildProcessorChain C RE hostE false specs = .ok (some E))
    (hexit : buildProcessorChain C RX hostX true specs = .ok (some X)) (side : Side) :
    Decodes (onData side) (origins E X side.sender) (onData side) (origins E X side.receiver) := by
  obtain ⟨X',hexit',hpairs⟩ := buildProcessorChain_paired RX hplain hE hX hentry
  obtain rfl : X' = X := Option.some.inj (Except.ok.inj (hexit'.symm.trans hexit))
  obtain ⟨hlocal,hremote⟩ := chains_decode hpairs
  cases side
  · exact hlocal
  · exact hremote

/-- No read or write of the two sessions fails, and no chain throws. -/
abbrev FaultFree (p : SessionPair) (events : List Event) : Prop :=
  Meets step (fun p a => ¬(p.session a.1).Fault a.2) p events

theorem run_clean {idE idX : UInt64} {E X : ProcessorChain ProcessorPtr} (hE : E.Silent) (hX : X.Silent)
    {events : List Event} (hrun : run step (start idE idX E X) events = some p)
    (hf : FaultFree (start idE idX E X) events) (hop : Hop) : (p.session hop).Clean := by
  have hall : ∀ hop, (p.session hop).Inv ∧ (p.session hop).Clean := by
    refine (hf.reach hrun).invariant (P := fun p => ∀ hop, (p.session hop).Inv ∧ (p.session hop).Clean) ?_ ?_
    · intro hop
      cases hop
      · exact ⟨startSession_inv idE hE,startSession_clean idE E⟩
      · exact ⟨startSession_inv idX hX,startSession_clean idX X⟩
    · rintro p q ⟨hop',u,e⟩ h hfault hs hop
      obtain ⟨t,ht,rfl⟩ := Option.map_eq_some_iff.mp hs
      by_cases he : hop = hop'
      · subst he
        have hturn := step_turn (h hop).1 ht
        simpa using And.intro (hturn.inv (h hop).1) (hturn.clean (h hop).1 (h hop).2 hfault)
      · simpa [he] using h hop
  exact (hall hop).2

/-- Two tunnels with the same specifications, the second one in reverse. In every run of a
session of each, however the loops interleave and the bytes between them are cut, no chain
throws; what a side is written is a beginning of what the opposite side has sent, and all of
it where both tunnels have seen the end of it. Where no socket fails, a side is shut down
only then. -/
theorem sessions_transparent (C : Crypto) (RE RX : RandomEngine) (hostE hostX : Host) {specs : List ByteSpan}
    {E X : ProcessorChain ProcessorPtr} (hplain : ∀ spec ∈ specs, Plain spec)
    (hE : ∀ i k, hostE.randBytes i k ≠ none) (hX : ∀ i k, hostX.randBytes i k ≠ none)
    (hentry : buildProcessorChain C RE hostE false specs = .ok (some E))
    (hexit : buildProcessorChain C RX hostX true specs = .ok (some X)) {idE idX : UInt64} {events : List Event}
    (hrun : run step (start idE idX E X) events = some p) (hm : Meets step Delivers (start idE idX E X) events) :
    Meets step Taken (start idE idX E X) events ∧ ∀ side,
      p.written side.receiver side <+: p.read side.sender side ∧
      (((p.session side.receiver).loop side).eof = true → ((p.session side.sender).loop side).eof = true →
        p.written side.receiver side = p.read side.sender side) ∧
      (FaultFree (start idE idX E X) events →
        ((p.session side.receiver).sock side.opposite).sendShut = true →
        ((p.session side.sender).loop side).eof = true ∧
          p.written side.receiver side = p.read side.sender side) := by
  have hd := origins_decode C RE RX hostE hostX hplain hE hX hentry hexit
  have hsilent := buildProcessorChain_silent hentry
  have hsilent' := buildProcessorChain_silent hexit
  have h := run_joined hd hsilent hsilent' hrun hm
  refine ⟨?_,fun side => ⟨(h.whole hd side).1,(h.whole hd side).2,fun hf hshut => ?_⟩⟩
  · rintro pre a post rfl q hq
    exact (run_joined hd hsilent hsilent' hq hm.of_append).taken hd (hm pre a post rfl q hq)
  · rw [(h.shut side.receiver).own side] at hshut
    have heof : ((p.session side.sender).loop side).eof = true :=
      ((h.conveys side).ended hshut).2.elim id fun hc =>
        (run_clean hsilent hsilent' hrun hf side.sender).closed hc side
    exact ⟨heof,(h.whole hd side).2 hshut heof⟩

/-- Two ciphers, one upon the other. -/
def cipherSpecs : List ByteSpan := [text "cfb:key=k", text "cfb:key=second"]

def inner (reverse : Bool) : ProcessorPtr := ⟨CfbProcessor.new (text "k") reverse⟩
def outer (reverse : Bool) : ProcessorPtr := ⟨CfbProcessor.new (text "second") reverse⟩

/-- The client sends four bytes and ends; they arrive in two pieces. -/
def fourBytes : List Event :=
  [(.entry,.localSide,.start), (.exit,.localSide,.start), (.entry,.localSide,.read (.data (text "ping"))),
    (.entry,.localSide,.transfer 3), (.exit,.localSide,.read (.data [104,126])), (.entry,.localSide,.transfer 1),
    (.exit,.localSide,.transfer 2), (.entry,.localSide,.writeOk), (.exit,.localSide,.writeOk),
    (.entry,.localSide,.read .eof), (.exit,.localSide,.read (.data [2,22])), (.exit,.localSide,.transfer 2),
    (.exit,.localSide,.writeOk), (.exit,.localSide,.read .eof)]

theorem sessions_transparent_fourBytes : ∃ E X p,
    buildProcessorChain CfbNonceProcessor.knownCrypto zeroEngine zeroHost false cipherSpecs = .ok (some E) ∧
    buildProcessorChain CfbNonceProcessor.knownCrypto zeroEngine zeroHost true cipherSpecs = .ok (some X) ∧
    run step (start 0 0 E X) fourBytes = some p ∧
    ((p.session .exit).sock .remoteSide).written = p.read .entry .localSide := by
  have hplain : ∀ spec ∈ cipherSpecs, Plain spec := by decide +kernel
  have hE : buildProcessorChain CfbNonceProcessor.knownCrypto zeroEngine zeroHost false cipherSpecs =
    .ok (some [inner false,outer false]) := rfl
  have hX : buildProcessorChain CfbNonceProcessor.knownCrypto zeroEngine zeroHost true cipherSpecs =
    .ok (some [outer true,inner true]) := rfl
  obtain ⟨p,hrun,hclient,hserver⟩ : ∃ p, run step (start 0 0 [inner false,outer false] [outer true,inner true])
      fourBytes = some p ∧ ((p.session .entry).loop .localSide).eof = true ∧
      ((p.session .exit).loop .localSide).eof = true := ⟨_,rfl,rfl,rfl⟩
  have hm : Meets step Delivers (start 0 0 [inner false,outer false] [outer true,inner true]) fourBytes :=
    .of_follows (by decide +kernel)
  obtain ⟨-,hsides⟩ := sessions_transparent CfbNonceProcessor.knownCrypto zeroEngine zeroEngine zeroHost zeroHost
    hplain (fun _ _ => Option.some_ne_none _) (fun _ _ => Option.some_ne_none _) hE hX hrun hm
  exact ⟨_,_,p,hE,hX,hrun,(hsides .localSide).2.1 hserver hclient⟩

end SessionPair

end Msg801.Tunnel
