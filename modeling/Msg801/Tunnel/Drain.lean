import Msg801.Tunnel.SessionPair

/-! # Nothing stays in the two tunnels

Whatever state a pair of sessions has come to without a fault, its loops can go on by
themselves until all that has been read at one end has been written at the other.
-/
namespace Msg801.Tunnel
open Stage Transition SessionState

namespace SessionState
variable {s : SessionState} {side : Side}

/-- A pending write can be transferred at once. -/
theorem step_transferAll {sent rest : ByteVector} {more : DataBufferList}
    (hpc : (s.loop side).pc = .writing sent rest more) (hrest : rest ≠ [])
    (ho : (s.sock side.opposite).isOpen = true) : ∃ t, s.step (side,.transfer rest.length) = some t ∧
      (t.loop side).pc = .writing (sent ++ rest) [] more := by
  have hlen : 0 < rest.length := List.length_pos_iff.mpr hrest
  rw [step_eq]
  refine ⟨(s.setPc side (.writing (sent ++ rest) [] more)).setSock side.opposite
    { s.sock side.opposite with written := (s.sock side.opposite).written ++ rest },?_,by simp [setPc]⟩
  simp [readLoop, hpc, transfer, hlen, ho]

/-- A loop at its next read has written all that its chain has produced. -/
theorem Carried.of_reading (h : s.Carried side) (hpc : (s.loop side).pc = .reading) :
    (s.loop side).produced = (s.sock side.opposite).written := by
  cases h with
  | early _ _ hp => simpa [hpc, pending] using hp
  | late _ hl => simp [hpc] at hl

theorem step_written_next {sent : ByteVector} {more : DataBufferList}
    (hpc : (s.loop side).pc = .writing sent [] more) :
    s.step (side,.writeOk) = some ((s.count side sent.length).writeNext side more) := by
  rw [step_eq]
  simp [readLoop, hpc]

end SessionState

namespace SessionPair
variable {origin : Hop → ProcessorChain ProcessorPtr} {p q r : SessionPair} {a : Event} {hop : Hop} {side : Side}
  {e : LoopEvent}

/-- A step that is no fault and takes nothing in from outside. -/
def Onward (p : SessionPair) (a : Event) : Prop :=
  p.Delivers a ∧ ¬(p.session a.1).Fault a.2 ∧ (a.1 = a.2.1.sender → ∀ outcome, a.2.2 ≠ .read outcome)

/-- What holds of a pair in runs without a fault. -/
structure Sound (origin : Hop → ProcessorChain ProcessorPtr) (p : SessionPair) : Prop where
  joined : p.Joined origin
  clean : ∀ hop, (p.session hop).Clean

theorem step_clean (h : p.Sound origin) (hf : ¬(p.session a.1).Fault a.2) (hs : p.step a = some q) :
    ∀ hop, (q.session hop).Clean := by
  obtain ⟨hop',u,e⟩ := a
  obtain ⟨t,ht,rfl⟩ := Option.map_eq_some_iff.mp hs
  intro hop
  by_cases he : hop = hop'
  · subst he
    simpa using (step_turn (h.joined.inv hop) ht).clean (h.joined.inv hop) (h.clean hop) hf
  · simpa [he] using h.clean hop

theorem Sound.closed_false (h : p.Sound origin) (hpc : ((p.session hop).loop side).pc ≠ .ended) :
    (p.session hop).closed = false :=
  (h.clean hop).closed_false (h.joined.inv hop) side hpc

/-- A loop that is over has seen the end of its input. -/
theorem Sound.eof_of_ended (h : p.Sound origin) (hpc : ((p.session hop).loop side).pc = .ended) :
    ((p.session hop).loop side).eof = true :=
  (((h.joined.inv hop).settled side).ended hpc).elim (fun hc => (h.clean hop).closed hc side) id

theorem step_grows (hi : ∀ hop, (p.session hop).Inv) (hs : p.step a = some q) (hop : Hop) (side : Side) :
    p.written hop side <+: q.written hop side := by
  obtain ⟨hop',u,e⟩ := a
  obtain ⟨t,ht,rfl⟩ := Option.map_eq_some_iff.mp hs
  by_cases he : hop = hop'
  · subst he
    change _ <+: ((Function.update p.session hop t hop).sock side.opposite).written
    rw [Function.update_self]
    obtain rfl | rfl := u.eq_or_eq_opposite side
    · exact (step_written (hi hop) ht).1
    · exact (readLoop_advance ((step_eq _ side.opposite e).symm.trans ht)).apart.2 ▸ List.prefix_rfl
  · simp [written, he]

/-- Nothing more is read from outside. -/
theorem step_reads (ha : p.Onward a) (hs : p.step a = some q) (side : Side) :
    q.read side.sender side = p.read side.sender side := by
  obtain ⟨hop,u,e⟩ := a
  obtain ⟨t,ht,rfl⟩ := Option.map_eq_some_iff.mp hs
  by_cases he : side.sender = hop
  · subst he
    by_cases hu : side = u
    · subst hu
      simp [LoopEvent.input_of_ne fun x => ha.2.2 rfl (.data x)]
    · simp [hu]
  · simp [he]

section Decoding
variable (hd : ∀ side : Side, Decodes (onData side) (origin side.sender) (onData side) (origin side.receiver))
include hd

theorem Sound.step (h : p.Sound origin) (ha : p.Onward a) (hs : p.step a = some q) : q.Sound origin :=
  ⟨step_joined hd h.joined ha.1 hs,step_clean h ha.2.1 hs⟩

theorem Sound.reach (h : p.Sound origin) (hr : Reach SessionPair.step Onward p q) : q.Sound origin :=
  hr.invariant h fun h ha hs => h.step hd ha hs

/-- What is written on the way stays. -/
theorem Sound.keeps (h : p.Sound origin) (hr : Reach SessionPair.step Onward p q) :
    (∀ side : Side, q.read side.sender side = p.read side.sender side) ∧
    ∀ hop side, p.written hop side <+: q.written hop side := by
  induction hr with
  | refl => exact ⟨fun _ => rfl,fun _ _ => List.prefix_rfl⟩
  | tail hr ha hs ih =>
    have hi := (h.reach hd hr).joined.inv
    exact ⟨fun side => (step_reads ha hs side).trans (ih.1 side),
      fun hop side => (ih.2 hop side).trans (step_grows hi hs hop side)⟩

end Decoding

/-- Steps of one session, at which no byte is read anywhere. -/
structure Settles (hop : Hop) (p q : SessionPair) : Prop where
  reach : Reach step Onward p q
  session : ∀ hop' ≠ hop, q.session hop' = p.session hop'
  read : q.read = p.read

theorem Settles.refl (hop : Hop) (p : SessionPair) : Settles hop p p := ⟨.refl,fun _ _ => rfl,rfl⟩

theorem Settles.trans (h : Settles hop p q) (h' : Settles hop q r) : Settles hop p r :=
  ⟨h.reach.trans h'.reach,fun hop' hne => (h'.session hop' hne).trans (h.session hop' hne),h'.read.trans h.read⟩

/-- A step of a session as a step of the pair. -/
theorem step_of_session {t : SessionState} (hs : (p.session hop).step (side,e) = some t) :
    ∃ q, p.step (hop,side,e) = some q ∧ q.session hop = t ∧ (∀ hop' ≠ hop, q.session hop' = p.session hop') ∧
      q.read hop side = p.read hop side ++ e.input ∧ (e.input = [] → q.read = p.read) := by
  refine ⟨_,congrArg (Option.map _) hs,?_,fun hop' hne => ?_,?_,fun he => ?_⟩
  · simp
  · simp [hne]
  · simp
  · simp [he]

/-- A step that is no read, and whose write does not fail. -/
theorem settles_step (hr : ∀ outcome, e ≠ .read outcome) (hw : e ≠ .writeFail) {t : SessionState}
    (hs : (p.session hop).step (side,e) = some t) : ∃ q, Settles hop p q ∧ q.session hop = t := by
  obtain ⟨q,hq,hsession,hother,-,hread⟩ := step_of_session hs
  have honward : p.Onward (hop,side,e) := by
    refine ⟨?_,?_,fun _ => hr⟩ <;> cases e <;> simp_all [Delivers, Fault]
  exact ⟨q,⟨.tail .refl honward hq,hother,hread (LoopEvent.input_of_ne fun x => hr (.data x))⟩,hsession⟩

/-- The write a loop waits for is transferred. -/
theorem Sound.finishWrite (h : p.Sound origin) {sent rest : ByteVector} {more : DataBufferList}
    (hpc : ((p.session hop).loop side).pc = .writing sent rest more) :
    ∃ q, Settles hop p q ∧ ((q.session hop).loop side).pc = .writing (sent ++ rest) [] more := by
  by_cases hrest : rest = []
  · subst hrest
    exact ⟨p,.refl hop p,by simpa using hpc⟩
  · have halive : ((p.session hop).loop side).pc ≠ .ended := by simp [hpc]
    have ho : ((p.session hop).sock side.opposite).isOpen = true := by
      rw [(h.joined.inv hop).isOpen, h.closed_false halive]
      rfl
    obtain ⟨t,ht,hpc'⟩ := step_transferAll hpc hrest ho
    obtain ⟨q,hq,rfl⟩ := settles_step (by simp) (by simp) ht
    exact ⟨q,hq,hpc'⟩

theorem next_reading {s : SessionState} (hc : s.closed = false) (side : Side) :
    ((s.next side).loop side).pc = .reading := by
  rw [next, if_neg (by simp [hc]), setPc, setLoop_loop]

theorem writeNext_alive {s : SessionState} (hc : s.closed = false) (side : Side) (outs : DataBufferList) :
    ((s.writeNext side outs).loop side).pc ≠ .ended := by
  cases outs with
  | nil => exact fun h => LoopPc.noConfusion ((next_reading hc side).symm.trans h)
  | cons out more => simp [writeNext, setPc]

section Decoding
variable (hd : ∀ side : Side, Decodes (onData side) (origin side.sender) (onData side) (origin side.receiver))
include hd

/-- A loop with writes before it gets through them, and comes to its next read. -/
theorem Sound.finishWrites (h : p.Sound origin) {sent rest : ByteVector} {more : DataBufferList}
    (hpc : ((p.session hop).loop side).pc = .writing sent rest more) :
    ∃ q, Settles hop p q ∧ ((q.session hop).loop side).pc = .reading := by
  induction more generalizing p sent rest with
  | nil =>
    obtain ⟨q,hq,hpc'⟩ := h.finishWrite hpc
    have hc := (h.reach hd hq.reach).closed_false (show ((q.session hop).loop side).pc ≠ .ended by simp [hpc'])
    obtain ⟨r,hr,hsession⟩ := settles_step (by simp) (by simp) (step_written_next hpc')
    refine ⟨r,hq.trans hr,?_⟩
    rw [hsession]
    exact next_reading (s := (q.session hop).count side (sent ++ rest).length) hc side
  | cons out more ih =>
    obtain ⟨q,hq,hpc'⟩ := h.finishWrite hpc
    obtain ⟨r,hr,hsession⟩ := settles_step (by simp) (by simp) (step_written_next hpc')
    have hnext : ((r.session hop).loop side).pc = .writing [] out more := by
      rw [hsession]
      simp [writeNext, setPc]
    obtain ⟨u,hu,hreading⟩ := ih (h.reach hd (hq.trans hr).reach) hnext
    exact ⟨u,(hq.trans hr).trans hu,hreading⟩

/-- A loop that is not over comes to its next read. -/
theorem Sound.settle (h : p.Sound origin) (halive : ((p.session hop).loop side).pc ≠ .ended) :
    ∃ q, Settles hop p q ∧ ((q.session hop).loop side).pc = .reading := by
  cases hpc : ((p.session hop).loop side).pc with
  | spawned =>
    have hstep : (p.session hop).step (side,.start) = some ((p.session hop).next side) := by
      rw [step_eq]
      simp [readLoop, hpc]
    obtain ⟨q,hq,hsession⟩ := settles_step (by simp) (by simp) hstep
    exact ⟨q,hq,hsession ▸ next_reading (h.closed_false halive) side⟩
  | reading => exact ⟨p,.refl hop p,hpc⟩
  | writing => exact h.finishWrites hd hpc
  | flushing => exact absurd hpc (((h.joined.inv hop).settled side).noFlush _ _ _)
  | ended => exact absurd hpc halive

/-- One piece of what has arrived is read, and what comes of it written. -/
theorem Sound.receiveSome (h : p.Sound origin)
    (hpc : ((p.session side.receiver).loop side).pc = .reading) {x : ByteVector} (hlen : x.length ≤ READ_SIZE)
    (hx : p.read side.receiver side ++ x <+: p.written side.sender side) :
    ∃ q, Reach SessionPair.step Onward p q ∧ q.session side.sender = p.session side.sender ∧
      ((q.session side.receiver).loop side).pc = .reading ∧
      q.read side.receiver side = p.read side.receiver side ++ x := by
  have hnone := (h.joined.conveys side).taken_receiver (hd side) hx
  have hne := side.receiver_ne_sender
  have hc := h.closed_false (show ((p.session side.receiver).loop side).pc ≠ .ended by simp [hpc])
  obtain ⟨q,hq,hsession,hother,hread,-⟩ := step_of_session (step_data hpc hlen hnone)
  have honward : p.Onward (side.receiver,side,.read (.data x)) :=
    ⟨fun _ => hx,not_not.mpr hnone,fun he => absurd he hne⟩
  have hreach := Reach.tail .refl honward hq
  have halive : ((q.session side.receiver).loop side).pc ≠ .ended := by
    rw [hsession]
    exact writeNext_alive (s := (p.session side.receiver).absorb side _) hc side _
  obtain ⟨r,hr,hreading⟩ := (h.reach hd hreach).settle hd halive
  refine ⟨r,hreach.trans hr.reach,?_,hreading,?_⟩
  · rw [hr.session _ hne.symm, hother _ hne.symm]
  · rw [hr.read]
    exact hread

/-- All that has been written at the far end of the connection is read. -/
theorem Sound.receiveAll (h : p.Sound origin) (hpc : ((p.session side.receiver).loop side).pc = .reading)
    {rest : ByteVector} (hrest : p.read side.receiver side ++ rest = p.written side.sender side) :
    ∃ q, Reach SessionPair.step Onward p q ∧ q.session side.sender = p.session side.sender ∧
      ((q.session side.receiver).loop side).pc = .reading ∧
      q.read side.receiver side = p.written side.sender side := by
  induction hn : rest.length using Nat.strong_induction_on generalizing p rest with
  | _ n ih =>
    by_cases hempty : rest = []
    · subst hempty
      exact ⟨p,.refl,rfl,hpc,by simpa using hrest⟩
    have hsplit : p.read side.receiver side ++ rest.take READ_SIZE ++ rest.drop READ_SIZE =
        p.written side.sender side := by
      rw [List.append_assoc, List.take_append_drop, hrest]
    obtain ⟨q,hq,hsender,hreading,hread⟩ := h.receiveSome hd hpc (List.length_take_le READ_SIZE rest)
      ⟨rest.drop READ_SIZE,hsplit⟩
    have hsame : q.written side.sender side = p.written side.sender side := by rw [written, hsender, written]
    have hless : (rest.drop READ_SIZE).length < n := by
      have hpos := List.length_pos_iff.mpr hempty
      have hsize : 0 < READ_SIZE := by decide
      rw [List.length_drop]
      omega
    obtain ⟨r,hr,hsender',hreading',hread'⟩ := ih _ hless (h.reach hd hq) hreading
      (by rw [hread, hsame]; exact hsplit) rfl
    exact ⟨r,hq.trans hr,hsender'.trans hsender,hreading',hread'.trans hsame⟩

/-- One direction can go on until all that was read at its beginning is written at its end. -/
theorem Sound.drainSide (h : p.Sound origin) (side : Side) : ∃ q, Reach SessionPair.step Onward p q ∧
    q.written side.receiver side = p.read side.sender side := by
  by_cases hover : ((p.session side.receiver).loop side).pc = .ended
  · have heof := h.eof_of_ended hover
    have hsender : ((p.session side.sender).loop side).eof = true :=
      ((h.joined.conveys side).ended heof).2.elim id fun hc => (h.clean side.sender).closed hc side
    exact ⟨p,.refl,(h.joined.whole hd side).2 heof hsender⟩
  have hne := side.receiver_ne_sender
  -- the loop that reads from outside writes what it has
  obtain ⟨q,hq,hpost⟩ : ∃ q, Settles side.sender p q ∧
      ((q.session side.sender).loop side).produced = q.written side.sender side := by
    by_cases hend : ((p.session side.sender).loop side).pc = .ended
    · exact ⟨p,.refl _ p,(h.joined.conveys side).sender.carried.whole (h.eof_of_ended hend)⟩
    · obtain ⟨q,hq,hreading⟩ := h.settle hd hend
      exact ⟨q,hq,((h.reach hd hq.reach).joined.conveys side).sender.carried.of_reading hreading⟩
  have hsq := h.reach hd hq.reach
  have halive : ((q.session side.receiver).loop side).pc ≠ .ended := by rwa [hq.session _ hne]
  obtain ⟨r,hr,hreading⟩ := hsq.settle hd halive
  have hsr := hsq.reach hd hr.reach
  obtain ⟨rest,hrest⟩ := (hsr.joined.conveys side).inOrder
  obtain ⟨u,hu,hsender,hreading',hread⟩ := hsr.receiveAll hd hreading hrest
  have hwhole := (hq.reach.trans hr.reach).trans hu
  have hjoined := (hsr.reach hd hu).joined
  have hkept : u.session side.sender = q.session side.sender := hsender.trans (hr.session _ hne.symm)
  have hproduced : ((u.session side.sender).loop side).produced = u.read side.receiver side := by
    rw [hread, hkept, hpost, written, written, hr.session _ hne.symm]
  refine ⟨u,hwhole,?_⟩
  rw [written, ← (hjoined.conveys side).receiver.carried.of_reading hreading',
    (hjoined.produced hd side).2 hproduced]
  exact (h.keeps hd hwhole).1 side

end Decoding

/-- Take any run without a fault of a session of each of two tunnels. From where it has come
to, steps that read nothing more from outside and meet no fault lead to a state in which each
side has been written all that has been read from the opposite one. -/
theorem sessions_drain (C : Crypto) (RE RX : RandomEngine) (hostE hostX : Host) {specs : List ByteSpan}
    {E X : ProcessorChain ProcessorPtr} (hplain : ∀ spec ∈ specs, Plain spec)
    (hE : ∀ i k, hostE.randBytes i k ≠ none) (hX : ∀ i k, hostX.randBytes i k ≠ none)
    (hentry : buildProcessorChain C RE hostE false specs = .ok (some E))
    (hexit : buildProcessorChain C RX hostX true specs = .ok (some X)) {idE idX : UInt64} {events : List Event}
    (hrun : run step (start idE idX E X) events = some p) (hm : Meets step Delivers (start idE idX E X) events)
    (hf : FaultFree (start idE idX E X) events) : ∃ q, Reach step Onward p q ∧ ∀ side : Side,
      q.read side.sender side = p.read side.sender side ∧
      q.written side.receiver side = p.read side.sender side := by
  have hd := origins_decode C RE RX hostE hostX hplain hE hX hentry hexit
  have hsilent := buildProcessorChain_silent hentry
  have hsilent' := buildProcessorChain_silent hexit
  have h : p.Sound (origins E X) := ⟨run_joined hd hsilent hsilent' hrun hm,run_clean hsilent hsilent' hrun hf⟩
  obtain ⟨q,hq,hlocal⟩ := h.drainSide hd .localSide
  have hsq := h.reach hd hq
  obtain ⟨r,hr,hremote⟩ := hsq.drainSide hd .remoteSide
  have hkept := (h.keeps hd (hq.trans hr)).1
  refine ⟨r,hq.trans hr,fun side => ⟨hkept side,?_⟩⟩
  cases side with
  | localSide =>
    -- what had been written by then stays, and is all there is
    have hbegins := ((hsq.reach hd hr).joined.whole hd .localSide).1
    rw [hkept] at hbegins
    have hgrown := (hsq.keeps hd hr).2 (Side.receiver .localSide) .localSide
    rw [hlocal] at hgrown
    exact List.IsPrefix.eq_of_length_le hbegins hgrown.length_le
  | remoteSide => exact hremote.trans ((h.keeps hd hq).1 .remoteSide)

/-- Padding to blocks of four, and a cipher upon it. -/
def paddedSpecs : List ByteSpan := [text "padding:chunk=4,max=0", text "cfb:key=k"]

def padding (reverse : Bool) : ProcessorPtr := ⟨(PaddingProcessor.new 4 0 0 reverse : PaddingProcessor zeroEngine)⟩

/-- Four bytes have been read, and nine of the twelve they have become are on the connection. -/
def underWay : List Event :=
  [(.entry,.localSide,.start), (.entry,.localSide,.read (.data (text "ping"))), (.entry,.localSide,.transfer 9)]

theorem sessions_drain_underWay : ∃ E X p q,
    buildProcessorChain CfbNonceProcessor.knownCrypto zeroEngine zeroHost false paddedSpecs = .ok (some E) ∧
    buildProcessorChain CfbNonceProcessor.knownCrypto zeroEngine zeroHost true paddedSpecs = .ok (some X) ∧
    run step (start 0 0 E X) underWay = some p ∧ p.written .exit .localSide = [] ∧ Reach step Onward p q ∧
    q.written .exit .localSide = text "ping" := by
  have hplain : ∀ spec ∈ paddedSpecs, Plain spec := by decide +kernel
  have hE : buildProcessorChain CfbNonceProcessor.knownCrypto zeroEngine zeroHost false paddedSpecs =
    .ok (some [padding false,inner false]) := rfl
  have hX : buildProcessorChain CfbNonceProcessor.knownCrypto zeroEngine zeroHost true paddedSpecs =
    .ok (some [inner true,padding true]) := rfl
  obtain ⟨p,hrun,hread,hnone⟩ : ∃ p, run step (start 0 0 [padding false,inner false] [inner true,padding true])
      underWay = some p ∧ p.read .entry .localSide = text "ping" ∧ p.written .exit .localSide = [] := ⟨_,rfl,rfl,rfl⟩
  have hm : Meets step Delivers (start 0 0 [padding false,inner false] [inner true,padding true]) underWay :=
    .of_follows (by decide +kernel)
  have hf : FaultFree (start 0 0 [padding false,inner false] [inner true,padding true]) underWay :=
    .cons not_false rfl (.cons (fun h => h rfl) rfl (.cons not_false rfl (.nil _)))
  obtain ⟨q,hq,hsides⟩ := sessions_drain CfbNonceProcessor.knownCrypto zeroEngine zeroEngine zeroHost zeroHost
    hplain (fun _ _ => Option.some_ne_none _) (fun _ _ => Option.some_ne_none _) hE hX hrun hm hf
  exact ⟨_,_,p,q,hE,hX,hrun,hnone,hq,(hsides .localSide).2.trans hread⟩

end SessionPair

end Msg801.Tunnel
