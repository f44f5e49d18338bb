import Msg801.Tunnel.Directions
import Msg801.Tunnel.FlushOrder
import Msg801.Tunnel.Uncut

/-! # One stream, read in two ways

Two sessions read one stream in different pieces. Where no padding processor packs it, both
close the session for it or neither does. The call that throws hands nothing on, so what has
been written by then is what the calls before it gave.
-/
namespace Msg801.Tunnel
open Stage Transition TwoWayProcessor

namespace SessionState

/-- The part of a processor that the calls of a side use. -/
def half : Side → ProcessorPtr → ProcessorPtr
  | .localSide => localHalf
  | .remoteSide => remoteHalf

theorem onData_within (side : Side) : Within (List.map (half side)) (onData side) := by
  cases side
  · exact ProcessorChain.onLocalData_within
  · exact ProcessorChain.onRemoteData_within

theorem onData_unseen (side : Side) : Unseen (List.map (half side)) (onData side.opposite) := by
  cases side
  · exact ProcessorChain.onRemoteData_unseen
  · exact ProcessorChain.onLocalData_unseen

/-- The piece of the stream of a side that an event reads. -/
def readOf (side : Side) : Side × LoopEvent → List ByteSpan
  | (t,.read (.data input)) => if t = side then [input] else []
  | _ => []

def readsOf (side : Side) (events : List (Side × LoopEvent)) : List ByteSpan := events.flatMap (readOf side)

/-- The chain throws at what has been read on a side. -/
def ThrownAt (side : Side) (s : SessionState) : Side × LoopEvent → Prop
  | (t,.read (.data input)) => t = side ∧ (onData side s.chain input).error ≠ none
  | _ => False

/-- The pieces of a side that the chain has taken without throwing. -/
def taken (side : Side) (s : SessionState) : Side × LoopEvent → List ByteSpan
  | (t,.read (.data input)) => if t = side ∧ (onData side s.chain input).error = none then [input] else []
  | _ => []

/-- The run meets data of a side that the chain throws at. -/
def ClosesInvalid (side : Side) (s : SessionState) (events : List (Side × LoopEvent)) : Prop :=
  ¬Meets step (fun s a => ¬ThrownAt side s a) s events

def takenOf (side : Side) (s : SessionState) (events : List (Side × LoopEvent)) : List ByteSpan :=
  outputs step (taken side) s events

/-- A session reads a stream on a side, in pieces that are not empty, and every write of what
comes of it succeeds: it reads all of it and has written all that came, or throws before. -/
structure Segments (chain : ProcessorChain ProcessorPtr) (side : Side) (stream : ByteVector) (id : UInt64)
    (events : List (Side × LoopEvent)) (s : SessionState) : Prop where
  run : run step (startSession id chain) events = some s
  writes : (side,.writeFail) ∉ events
  pieces : Pieces (readsOf side events)
  reads : (readsOf side events).flatten <+: stream
  whole : ¬ClosesInvalid side (startSession id chain) events →
    (readsOf side events).flatten = stream ∧ pending (s.loop side).pc = []

section Step
variable {s t : SessionState} {side : Side} {e : LoopEvent}

theorem step_chain (hs : s.step (side,e) = some t) :
    t.chain = (TunnelSession.ofSession s).chainAfter side e := by
  have h := TunnelSession.readLoop_ofSession s side e
  rw [hs, Option.map_some, TunnelSession.readLoop, Option.map_eq_some_iff] at h
  obtain ⟨loops,-,heq⟩ := h
  exact (congrArg TunnelSession.chain heq).symm

/-- Only data changes the chain. -/
theorem step_chain_eq (h : s.Inv) (hs : s.step (side,e) = some t) (he : ∀ x, e ≠ .read (.data x)) :
    t.chain = s.chain := by
  rw [step_chain hs]
  cases e with
  | read outcome =>
    cases outcome with
    | data x => exact absurd rfl (he x)
    | eof =>
      rw [TunnelSession.chainAfter, ← TunnelSession.flush_eq]
      exact congrArg Outcome.state (flush_silent h.silent side)
    | _ => rfl
  | _ => rfl

/-- A step of the opposite loop leaves the half of the chain that a side uses. -/
theorem step_half (h : s.Inv) (hs : s.step (side.opposite,e) = some t) :
    t.chain.map (half side) = s.chain.map (half side) := by
  by_cases he : ∃ x, e = .read (.data x)
  · obtain ⟨x,rfl⟩ := he
    rw [step_chain hs, TunnelSession.chainAfter, ← TunnelSession.onData_eq]
    exact onData_unseen side s.chain x
  · rw [step_chain_eq h hs fun x hx => he ⟨x,hx⟩]

theorem step_alive (hs : s.step (side,e) = some t) : (s.loop side).pc ≠ .ended := by
  rw [step_eq] at hs
  exact (readLoop_step hs).alive

theorem step_reading {outcome : ReadOutcome} (hs : s.step (side,.read outcome) = some t) :
    (s.loop side).pc = .reading := by
  rw [step_eq] at hs
  exact (readLoop_step hs).reading

/-- What the next writes of a loop leave of its direction. -/
theorem writeNext_keeps (s : SessionState) (side : Side) (outs : DataBufferList) :
    (s.writeNext side outs).sock = s.sock ∧ (s.writeNext side outs).closed = s.closed ∧
    pending ((s.writeNext side outs).loop side).pc = outs.flatten := by
  cases outs with
  | nil =>
    rw [writeNext, next]
    split
    · exact ⟨finish_sock s side,finish_closed s side,by simp [setPc, pending]⟩
    · exact ⟨rfl,rfl,by simp [setPc, pending]⟩
  | cons out more => exact ⟨rfl,rfl,by simp [writeNext, setPc, pending]⟩

/-- A step that is not one of data writes what is pending and adds nothing to it. -/
theorem Turn.written (ht : s.Turn side e t) (hs : s.step (side,e) = some t) (hw : e ≠ .writeFail)
    (hd : ∀ x, e ≠ .read (.data x)) : (t.sock side.opposite).written ++ pending (t.loop side).pc =
      (s.sock side.opposite).written ++ pending (s.loop side).pc := by
  cases ht with
  | start hpc =>
    obtain ⟨hsock,-,hpend⟩ := writeNext_keeps s side []
    rw [show s.next side = s.writeNext side [] from rfl, hsock, hpend, hpc]
    rfl
  | data input => exact absurd rfl (hd input)
  | eof hpc =>
    rw [finish_sock, finish_loop, hpc]
    split <;> simp [setPc, closeAll, seeEof, pending]
  | aborted hpc =>
    rw [finish_sock, finish_loop, hpc]
    simp [setPc, pending]
  | transfer sent now rest more n hpc =>
    rw [hpc]
    simp [setPc, pending]
  | writeOk sent more hpc =>
    obtain ⟨hsock,-,hpend⟩ := writeNext_keeps (s.count side sent.length) side more
    rw [hsock, hpend, hpc]
    rfl
  | fault e chain _ _ hfault =>
    cases e with
    | read outcome =>
      rw [finish_sock, finish_loop, closeOnce_written, step_reading hs]
      simp [setPc, pending]
    | writeFail => exact absurd rfl hw
    | _ => exact hfault.elim

theorem step_closed (h : s.Inv) (hs : s.step (side,e) = some t) (hc : s.closed = true) : t.closed = true := by
  cases step_turn h hs with
  | start => exact (writeNext_keeps s side []).2.1.trans hc
  | data input => exact (writeNext_keeps (s.absorb side (onData side s.chain input)) side _).2.1.trans hc
  | eof =>
    rw [finish_closed]
    split
    · rfl
    · exact hc
  | aborted => exact (finish_closed s side).trans hc
  | transfer => exact hc
  | writeOk sent => exact (writeNext_keeps (s.count side sent.length) side _).2.1.trans hc
  | fault => rw [finish_closed, closeOnce_closed]

end Step

section Runs
variable {chain : ProcessorChain ProcessorPtr} {side : Side} {s t : SessionState} {reads got : List ByteSpan}

/-- Where a session stands that has read some pieces on a side: it takes them as the chain
alone would, or it has ended at the last one. -/
structure Follows (chain : ProcessorChain ProcessorPtr) (side : Side) (got : List ByteSpan) (s : SessionState) :
    Prop where
  inv : s.Inv
  error : (feed (onData side) chain got).error = none
  written : (s.sock side.opposite).written ++ pending (s.loop side).pc = (feed (onData side) chain got).bytes
  alive : (s.loop side).pc ≠ .ended →
    s.chain.map (half side) = (feed (onData side) chain got).state.map (half side)

/-- The chain answers the session as it would answer alone. -/
theorem Follows.answers (h : Follows chain side got s) (hpc : (s.loop side).pc ≠ .ended) (x : ByteSpan) :
    (onData side s.chain x).error = (feed (onData side) chain (got ++ [x])).error ∧
    (onData side s.chain x).output = (onData side (feed (onData side) chain got).state x).output ∧
    (onData side s.chain x).state.map (half side) =
      (feed (onData side) chain (got ++ [x])).state.map (half side) := by
  have hs := onData_within side s.chain x
  have hf := onData_within side (feed (onData side) chain got).state x
  rw [h.alive hpc, hf] at hs
  injection hs with hstate hout herror
  rw [feed_append _ h.error, feed_singleton]
  exact ⟨herror.symm,hout.symm,hstate.symm⟩

theorem Follows.other (h : Follows chain side got s) {e : LoopEvent} (hs : s.step (side.opposite,e) = some t) :
    Follows chain side got t := by
  have ha := readLoop_advance ((step_eq s side.opposite e).symm.trans hs)
  obtain ⟨hloop,hwritten⟩ := ha.apart
  rw [Side.opposite_opposite] at hloop
  refine ⟨step_inv h.inv hs,h.error,?_,?_⟩
  · rw [hloop, hwritten]
    exact h.written
  · rw [hloop, step_half h.inv hs]
    exact h.alive

theorem Follows.own (h : Follows chain side got s) {e : LoopEvent} (hs : s.step (side,e) = some t)
    (hw : e ≠ .writeFail) (hd : ∀ x, e ≠ .read (.data x)) : Follows chain side got t := by
  refine ⟨step_inv h.inv hs,h.error,?_,fun _ => ?_⟩
  · rw [(step_turn h.inv hs).written hs hw hd]
    exact h.written
  · rw [step_chain_eq h.inv hs hd]
    exact h.alive (step_alive hs)

/-- Data that is taken. -/
theorem Follows.data (h : Follows chain side got s) {x : ByteSpan}
    (hs : s.step (side,.read (.data x)) = some t) (he : (onData side s.chain x).error = none) :
    Follows chain side (got ++ [x]) t := by
  have halive := step_alive hs
  obtain ⟨herror,hout,hstate⟩ := h.answers halive x
  have hreading := step_reading hs
  refine ⟨step_inv h.inv hs,herror ▸ he,?_,fun _ => ?_⟩
  · have hbytes := h.written
    rw [hreading, show pending .reading = [] from rfl, List.append_nil] at hbytes
    rw [feed_append _ h.error, feed_singleton, Outcome.bytes, List.flatten_append, ← hout]
    rw [Outcome.bytes] at hbytes
    rw [← hbytes]
    cases step_turn h.inv hs with
    | data _ _ _ =>
      obtain ⟨hsock,-,hpend⟩ := writeNext_keeps (s.absorb side (onData side s.chain x)) side
        (onData side s.chain x).output
      rw [hsock, hpend]
      rfl
    | fault _ _ _ _ hfault => exact absurd he hfault
  · rw [step_chain hs, TunnelSession.chainAfter, ← TunnelSession.onData_eq]
    exact hstate

/-- Data that the chain throws at ends the loop and closes the session. -/
theorem Follows.thrown (h : Follows chain side got s) {x : ByteSpan}
    (hs : s.step (side,.read (.data x)) = some t) (he : (onData side s.chain x).error ≠ none) :
    Follows chain side got t ∧ (t.loop side).pc = .ended ∧ t.closed = true ∧
      (feed (onData side) chain (got ++ [x])).error ≠ none := by
  have hreading := step_reading hs
  obtain ⟨herror,-⟩ := h.answers (step_alive hs) x
  have hinv := step_inv h.inv hs
  cases step_turn h.inv hs with
  | data _ _ hnone => exact absurd hnone he
  | fault _ c =>
    have hended : (({ s with chain := c }.closeOnce.finish side).loop side).pc = .ended := by simp [setPc]
    refine ⟨⟨hinv,h.error,?_,fun hpc => absurd hended hpc⟩,hended,by simp,herror ▸ he⟩
    rw [finish_sock, closeOnce_written, hended, ← h.written, hreading]
    rfl

theorem startSession_follows (hchain : chain.Silent) (side : Side) (id : UInt64) :
    Follows chain side [] (startSession id chain) :=
  ⟨startSession_inv id hchain,rfl,rfl,fun _ => rfl⟩

/-- An event that reads no data of a side adds nothing to what it has read. -/
theorem quiet_event {a : Side × LoopEvent} (ha : ∀ x, a ≠ (side,.read (.data x))) (s : SessionState) :
    readOf side a = [] ∧ taken side s a = [] ∧ ¬ThrownAt side s a := by
  obtain ⟨u,e⟩ := a
  cases e with
  | read outcome =>
    cases outcome with
    | data x =>
      have hu : u ≠ side := by
        rintro rfl
        exact ha x rfl
      simp [readOf, taken, ThrownAt, hu]
    | _ => exact ⟨rfl,rfl,not_false⟩
  | _ => exact ⟨rfl,rfl,not_false⟩

/-- What a run whose writes succeed has read on a side, and what the chain has made of it. -/
theorem run_follows {id : UInt64} {events : List (Side × LoopEvent)} (hchain : chain.Silent)
    (hrun : run step (startSession id chain) events = some s) (hw : (side,.writeFail) ∉ events) :
    Follows chain side (takenOf side (startSession id chain) events) s ∧
    (¬ClosesInvalid side (startSession id chain) events →
      readsOf side events = takenOf side (startSession id chain) events) ∧
    (ClosesInvalid side (startSession id chain) events → (s.loop side).pc = .ended ∧ s.closed = true ∧
      ∃ x, readsOf side events = takenOf side (startSession id chain) events ++ [x] ∧
        (feed (onData side) chain (readsOf side events)).error ≠ none) := by
  induction events using List.reverseRecOn generalizing s with
  | nil =>
    obtain rfl := Option.some.inj hrun
    refine ⟨startSession_follows hchain side id,fun _ => rfl,fun h => ?_⟩
    exact absurd (Meets.nil _) h
  | append_singleton events a ih =>
    obtain ⟨t,ht,hstep⟩ := run_append_some.mp hrun
    rw [run_cons, Option.bind_eq_some_iff] at hstep
    obtain ⟨_,hstep,hlast⟩ := hstep
    obtain rfl := Option.some.inj hlast
    obtain ⟨hfollows,hgoing,hthrown⟩ := ih ht fun hmem => hw (List.mem_append_left _ hmem)
    have hreads : readsOf side (events ++ [a]) = readsOf side events ++ readOf side a := by
      rw [readsOf, List.flatMap_append, List.flatMap_singleton]
      rfl
    have hcloses : ClosesInvalid side (startSession id chain) (events ++ [a]) ↔
        ClosesInvalid side (startSession id chain) events ∨ ThrownAt side t a := by
      rw [ClosesInvalid, Meets.concat_iff ht, not_and_or, not_not]
      rfl
    have htakes : takenOf side (startSession id chain) (events ++ [a]) =
        takenOf side (startSession id chain) events ++ taken side t a := by
      rw [takenOf, outputs_append ht, outputs_singleton]
      rfl
    rw [htakes, hcloses, hreads]
    by_cases hquiet : ∀ x, a ≠ (side,.read (.data x))
    · obtain ⟨hread,htaken,hnot⟩ := quiet_event hquiet t
      rw [hread, htaken, List.append_nil, List.append_nil, or_iff_left hnot]
      obtain ⟨u,e⟩ := a
      obtain rfl | rfl := u.eq_or_eq_opposite side
      · have hfail : e ≠ .writeFail := by
          rintro rfl
          exact hw (List.mem_append_right _ (List.mem_singleton.mpr rfl))
        refine ⟨hfollows.own hstep hfail fun x hx => hquiet x (by rw [hx]),hgoing,fun h => ?_⟩
        exact absurd (hthrown h).1 (step_alive hstep)
      · have ha := (readLoop_advance ((step_eq t side.opposite e).symm.trans hstep)).apart.1
        rw [Side.opposite_opposite] at ha
        refine ⟨hfollows.other hstep,hgoing,fun h => ?_⟩
        obtain ⟨hended,hclosed,hlast⟩ := hthrown h
        exact ⟨ha ▸ hended,step_closed hfollows.inv hstep hclosed,hlast⟩
    · push Not at hquiet
      obtain ⟨x,rfl⟩ := hquiet
      have hopen : ¬ClosesInvalid side (startSession id chain) events := fun h =>
        absurd (hthrown h).1 (step_alive hstep)
      have hread : readOf side (side,.read (.data x)) = [x] := if_pos rfl
      rw [or_iff_right hopen, hread, hgoing hopen]
      by_cases he : (onData side t.chain x).error = none
      · have htaken : taken side t (side,.read (.data x)) = [x] := if_pos ⟨rfl,he⟩
        rw [htaken]
        exact ⟨hfollows.data hstep he,fun _ => rfl,fun h => absurd he h.2⟩
      · have htaken : taken side t (side,.read (.data x)) = [] := if_neg fun h => he h.2
        obtain ⟨hf,hended,hclosed,herror⟩ := hfollows.thrown hstep he
        rw [htaken, List.append_nil]
        exact ⟨hf,fun h => absurd ⟨rfl,he⟩ h,fun _ => ⟨hended,hclosed,x,rfl,herror⟩⟩

end Runs

/-- The padding processor of a specification packs what is read on a side. -/
def Packs (reverse : Bool) : Side → ByteSpan → Prop
  | .localSide, spec => specName spec = text "padding" ∧ resolveProcessorReverse (specKv spec) reverse = false
  | .remoteSide, spec => specName spec = text "padding" ∧ resolveProcessorReverse (specKv spec) reverse = true

section Built
variable {C : Crypto} {R : RandomEngine} {host : Host} {reverse : Bool} {specs : List ByteSpan}
  {chain : ProcessorChain ProcessorPtr} {side : Side}

theorem built_uncut (hbuild : buildProcessorChain C R host reverse specs = .ok (some chain))
    (hpack : ∀ spec ∈ specs, ¬Packs reverse side spec) : Uncut (onData side) chain := by
  cases side with
  | localSide =>
    refine ProcessorChain.onLocalData_uncut fun p hp => ?_
    obtain rfl | ⟨spec,hspec,i,hi⟩ := buildProcessorChain_from hbuild hp
    · exact onLocalData_uncut (fun _ => IdentityProcessor.pack_uncut _) fun _ => IdentityProcessor.pack_uncut _
    · refine buildProcessor_local_uncut hi fun hn => ?_
      exact Bool.eq_true_of_not_eq_false fun hr => hpack spec hspec ⟨hn,hr⟩
  | remoteSide =>
    refine ProcessorChain.onRemoteData_uncut fun p hp => ?_
    obtain rfl | ⟨spec,hspec,i,hi⟩ := buildProcessorChain_from hbuild hp
    · exact onRemoteData_uncut (fun _ => IdentityProcessor.pack_uncut _) fun _ => IdentityProcessor.pack_uncut _
    · refine buildProcessor_remote_uncut hi fun hn => ?_
      exact Bool.eq_false_of_not_eq_true fun hr => hpack spec hspec ⟨hn,hr⟩

/-- A single padding processor that unpacks what is read gives the payloads of whole frames. -/
theorem feed_frames {spec : ByteSpan} {a : PaddingArgs} (hn : specName spec = text "padding")
    (ha : paddingArgs host (specKv spec) 0 = .ok (some a))
    (hbuild : buildProcessorChain C R host reverse [spec] = .ok (some chain)) (hpack : ¬Packs reverse side spec)
    (fs : List (PaddingProcessor.PadFrame a.chunk.toNat a.max.toNat)) :
    (feed (onData side) chain (fs.map PaddingProcessor.PadFrame.bytes)).bytes =
      fs.flatMap PaddingProcessor.PadFrame.payload := by
  obtain ⟨-,-,-,-,-,-,hbound,-⟩ := paddingArgs_some ha
  rw [U32_MAX_AS_SIZE_T] at hbound
  have hunpack (role : Bool) := PaddingProcessor.unpack_frames
    (q := (PaddingProcessor.new a.chunk.toNat a.max.toNat a.seed role : PaddingProcessor R)) rfl
    (show a.chunk.toNat < 2 ^ 32 by omega) (show a.max.toNat < 2 ^ 32 by omega) fs
  have hbuilt : chain = [⟨(PaddingProcessor.new a.chunk.toNat a.max.toNat a.seed
      (resolveProcessorReverse (specKv spec) reverse) : PaddingProcessor R)⟩] := by
    have hone : buildProcessor C R host reverse 0 spec = .ok (some ⟨(PaddingProcessor.new a.chunk.toNat a.max.toNat
        a.seed (resolveProcessorReverse (specKv spec) reverse) : PaddingProcessor R)⟩) := by
      rw [buildProcessor, hn, if_neg (by decide), if_neg (by decide), if_neg (by decide), if_pos rfl, buildPadding, ha]
    rw [buildProcessorChain, if_neg (by simp)] at hbuild
    cases reverse <;> simpa [addProcessors, hone, eq_comm] using hbuild
  rw [hbuilt]
  cases side with
  | localSide =>
    have hrole : resolveProcessorReverse (specKv spec) reverse = true :=
      Bool.eq_true_of_not_eq_false fun hr => hpack ⟨hn,hr⟩
    rw [hrole]
    exact (ProcessorChain.feed_onLocalData_unpack rfl (hunpack true).1).trans (hunpack true).2
  | remoteSide =>
    have hrole : resolveProcessorReverse (specKv spec) reverse = false :=
      Bool.eq_false_of_not_eq_true fun hr => hpack ⟨hn,hr⟩
    rw [hrole]
    exact (ProcessorChain.feed_onRemoteData_unpack rfl (hunpack false).1).trans (hunpack false).2

variable {stream : ByteVector} {id₁ id₂ : UInt64} {events₁ events₂ : List (Side × LoopEvent)} {s₁ s₂ : SessionState}

/-- What a session has written is what the chain makes of the pieces it has taken. -/
theorem Segments.delivered (h : Segments chain side stream id₁ events₁ s₁) (hsilent : chain.Silent) :
    (feed (onData side) chain (takenOf side (startSession id₁ chain) events₁)).error = none ∧
    (feed (onData side) chain (takenOf side (startSession id₁ chain) events₁)).bytes =
      (s₁.sock side.opposite).written ∧
    Pieces (takenOf side (startSession id₁ chain) events₁) := by
  obtain ⟨hf,hgoing,hthrown⟩ := run_follows hsilent h.run h.writes
  by_cases hc : ClosesInvalid side (startSession id₁ chain) events₁
  · obtain ⟨hended,-,x,hreads,-⟩ := hthrown hc
    have hwritten := hf.written
    rw [hended, show pending .ended = [] from rfl, List.append_nil] at hwritten
    exact ⟨hf.error,hwritten.symm,fun y hy => h.pieces y (hreads ▸ List.mem_append_left [x] hy)⟩
  · have hwritten := hf.written
    rw [(h.whole hc).2, List.append_nil] at hwritten
    exact ⟨hf.error,hwritten.symm,hgoing hc ▸ h.pieces⟩

/-- A stream that one session closes for is taken to its end by no other. -/
theorem Segments.closes_of (h₁ : Segments chain side stream id₁ events₁ s₁)
    (h₂ : Segments chain side stream id₂ events₂ s₂) (hsilent : chain.Silent) (hchain : Uncut (onData side) chain)
    (hc : ClosesInvalid side (startSession id₁ chain) events₁) :
    ClosesInvalid side (startSession id₂ chain) events₂ := by
  by_contra hnot
  obtain ⟨-,-,-,-,hthrows⟩ := (run_follows hsilent h₁.run h₁.writes).2.2 hc
  obtain ⟨hf,hgoing,-⟩ := run_follows hsilent h₂.run h₂.writes
  have hclean := hf.error
  rw [← hgoing hnot] at hclean
  have hpre : (readsOf side events₁).flatten <+: (readsOf side events₂).flatten := by
    rw [(h₂.whole hnot).1]
    exact h₁.reads
  exact hthrows (hchain.beginning h₁.pieces h₂.pieces hpre hclean).1

/-- Two sessions on a chain that was built read one stream, on a side where no padding
processor packs. Both close for invalid data or neither does, and if neither does they have
written the same. A session that closes has taken the pieces before the one that was thrown
at, and has written just what the chain makes of their bytes however these are cut: the
payloads of the whole frames among them, when the chain is a padding processor. -/
theorem segmentation_independent (hbuild : buildProcessorChain C R host reverse specs = .ok (some chain))
    (hpack : ∀ spec ∈ specs, ¬Packs reverse side spec) (h₁ : Segments chain side stream id₁ events₁ s₁)
    (h₂ : Segments chain side stream id₂ events₂ s₂) :
    (ClosesInvalid side (startSession id₁ chain) events₁ ↔ ClosesInvalid side (startSession id₂ chain) events₂) ∧
    (¬ClosesInvalid side (startSession id₁ chain) events₁ →
      (s₁.sock side.opposite).written = (s₂.sock side.opposite).written) ∧
    (ClosesInvalid side (startSession id₁ chain) events₁ → s₁.closed = true ∧
      ∃ x, readsOf side events₁ = takenOf side (startSession id₁ chain) events₁ ++ [x]) ∧
    ((takenOf side (startSession id₁ chain) events₁).flatten <+:
        (takenOf side (startSession id₂ chain) events₂).flatten →
      (s₁.sock side.opposite).written <+: (s₂.sock side.opposite).written) ∧
    (∀ xs, Pieces xs → xs.flatten = (takenOf side (startSession id₁ chain) events₁).flatten →
      (feed (onData side) chain xs).error = none ∧
      (feed (onData side) chain xs).bytes = (s₁.sock side.opposite).written) ∧
    ∀ spec a, specs = [spec] → specName spec = text "padding" →
      paddingArgs host (specKv spec) 0 = .ok (some a) →
      ∀ fs : List (PaddingProcessor.PadFrame a.chunk.toNat a.max.toNat),
        fs.flatMap PaddingProcessor.PadFrame.bytes <+: (takenOf side (startSession id₁ chain) events₁).flatten →
        fs.flatMap PaddingProcessor.PadFrame.payload <+: (s₁.sock side.opposite).written := by
  have hsilent := buildProcessorChain_silent hbuild
  have hchain := built_uncut hbuild hpack
  obtain ⟨herror₁,hbytes₁,hpieces₁⟩ := h₁.delivered hsilent
  obtain ⟨herror₂,hbytes₂,hpieces₂⟩ := h₂.delivered hsilent
  obtain ⟨-,hgoing₁,hthrown₁⟩ := run_follows hsilent h₁.run h₁.writes
  obtain ⟨-,hgoing₂,-⟩ := run_follows hsilent h₂.run h₂.writes
  have hiff : ClosesInvalid side (startSession id₁ chain) events₁ ↔
      ClosesInvalid side (startSession id₂ chain) events₂ :=
    ⟨h₁.closes_of h₂ hsilent hchain,h₂.closes_of h₁ hsilent hchain⟩
  refine ⟨hiff,fun hc => ?_,fun hc => ?_,fun hpre => ?_,fun xs hx hflat => ?_,?_⟩
  · have hc₂ : ¬ClosesInvalid side (startSession id₂ chain) events₂ := fun h => hc (hiff.mpr h)
    have hsame : (takenOf side (startSession id₁ chain) events₁).flatten =
        (takenOf side (startSession id₂ chain) events₂).flatten := by
      rw [← hgoing₁ hc, ← hgoing₂ hc₂, (h₁.whole hc).1, (h₂.whole hc₂).1]
    have hout := (hchain (hpieces₁.recut hpieces₂ hsame) herror₁).2.flatten
    exact hbytes₁.symm.trans (hout.trans hbytes₂)
  · obtain ⟨-,hclosed,x,hreads,-⟩ := hthrown₁ hc
    exact ⟨hclosed,x,hreads⟩
  · rw [← hbytes₁, ← hbytes₂]
    exact (hchain.beginning hpieces₁ hpieces₂ hpre herror₂).2
  · obtain ⟨he,hout⟩ := hchain (hpieces₁.recut hx hflat.symm) herror₁
    exact ⟨he,hout.flatten.symm.trans hbytes₁⟩
  · rintro spec a rfl hn ha fs hfs
    have hpieces : Pieces (fs.map PaddingProcessor.PadFrame.bytes) := by
      intro x hx
      obtain ⟨f,-,rfl⟩ := List.mem_map.mp hx
      rw [← List.length_pos_iff, f.length_bytes]
      omega
    rw [List.flatMap_def] at hfs
    have hpre := (hchain.beginning hpieces hpieces₁ hfs herror₁).2
    rwa [feed_frames hn ha hbuild (hpack spec (List.mem_singleton.mpr rfl)) fs, hbytes₁] at hpre

end Built

section Steps
variable {s : SessionState} {side : Side} {x : ByteSpan}

/-- What a loop does with data that the chain takes, and with data that it refuses. -/
theorem step_data (hpc : (s.loop side).pc = .reading) (hlen : x.length ≤ READ_SIZE)
    (he : (onData side s.chain x).error = none) : s.step (side,.read (.data x)) =
      some ((s.absorb side (onData side s.chain x)).writeNext side (onData side s.chain x).output) := by
  rw [step_eq]
  simp [readLoop, hpc, Nat.not_lt.mpr hlen, he]

theorem step_refused {what : String} (hpc : (s.loop side).pc = .reading) (hlen : x.length ≤ READ_SIZE)
    (he : (onData side s.chain x).error = some (.runtimeError what)) : s.step (side,.read (.data x)) =
      some ({ s with chain := (onData side s.chain x).state }.closeOnce.finish side) := by
  rw [step_eq]
  simp [readLoop, hpc, Nat.not_lt.mpr hlen, he]

end Steps

/-- A frame of `ab`, and a header that says more than the bounds allow. -/
def frame : ByteVector := [0,0,0,2,0,0,0,0,0x61,0x62]
def badHeader : ByteVector := [0xff,0,0,0,0,0,0,0]

def padder : PaddingProcessor zeroEngine := PaddingProcessor.new 4 0 0 false

theorem drain_frame (rest : ByteVector) : (PaddingProcessor.padGrammar 4 0).drain (frame ++ rest) =
    ⟨text "ab" :: ((PaddingProcessor.padGrammar 4 0).drain rest).values,
      ((PaddingProcessor.padGrammar 4 0).drain rest).rest,((PaddingProcessor.padGrammar 4 0).drain rest).broken⟩ := by
  have hhead : (PaddingProcessor.padGrammar 4 0).head (frame ++ rest) = .frame (text "ab") 10 :=
    (PaddingProcessor.padGrammar 4 0).frame_append rfl rest
  exact Framing.Grammar.drain_frame hhead

theorem drain_badHeader : ((PaddingProcessor.padGrammar 4 0).drain badHeader).broken = true := by
  rw [Framing.Grammar.drain_malformed rfl]

theorem onData_frame : onData .remoteSide [(⟨padder⟩ : ProcessorPtr)] frame = ⟨[⟨padder⟩],[text "ab"],none⟩ := by
  have hdrain := drain_frame []
  rw [List.append_nil, Framing.Grammar.drain_short (l := []) rfl] at hdrain
  have hunpack : PaddingProcessor.unpack padder frame = ⟨padder,[text "ab"],none⟩ := by
    have h := PaddingProcessor.unpack_feed (q := padder) rfl [frame] (congrArg Framing.Drained.broken hdrain)
    rw [feed_singleton] at h
    rw [h]
    exact congrArg (fun d : Framing.Drained Byte ByteVector =>
      (⟨{ padder with unpackBuffer := d.rest },d.values,none⟩ : Outcome (PaddingProcessor zeroEngine))) hdrain
  have hcall : Processor.onRemoteData (⟨padder⟩ : ProcessorPtr) frame = ⟨⟨padder⟩,[text "ab"],none⟩ := by
    rw [ProcessorPtr.onRemoteData_mapped padder frame,
      show Processor.onRemoteData padder frame = PaddingProcessor.unpack padder frame from rfl, hunpack]
  refine (ProcessorChain.onRemoteData_eq_through _ _).trans ?_
  rw [List.reverse_singleton, through_singleton (by rw [feed_singleton, hcall]), feed_singleton, hcall]
  rfl

/-- Whatever whole frames come before it, the chain throws at the header. -/
theorem onData_badHeader {input : ByteSpan} (h : ((PaddingProcessor.padGrammar 4 0).drain input).broken = true) :
    (onData .remoteSide [(⟨padder⟩ : ProcessorPtr)] input).error =
      some (.runtimeError "invalid padding frame header") := by
  have hthrows : (PaddingProcessor.unpack padder input).error =
      if ((PaddingProcessor.padGrammar 4 0).drain input).broken then
        some (.runtimeError "invalid padding frame header") else none :=
    PaddingProcessor.unpack_throws padder input
  rw [h, if_pos rfl] at hthrows
  exact (onRemoteData_padding rfl input).trans hthrows

/-- The frame and the header come in one read. -/
def atOnce : List (Side × LoopEvent) := [(.remoteSide,.start), (.remoteSide,.read (.data (frame ++ badHeader)))]

/-- The header comes when the payload has been written. -/
def inTwo : List (Side × LoopEvent) :=
  [(.remoteSide,.start), (.remoteSide,.read (.data frame)), (.remoteSide,.transfer 2), (.remoteSide,.writeOk),
    (.remoteSide,.read (.data badHeader))]

theorem atOnce_segments : ∃ s, Segments [⟨padder⟩] .remoteSide (frame ++ badHeader) 0 atOnce s ∧
    ClosesInvalid .remoteSide (startSession 0 [⟨padder⟩]) atOnce ∧ (s.sock .localSide).written = [] := by
  obtain ⟨t,hstart,hpc,hchain,hwritten⟩ : ∃ t, run step (startSession 0 [(⟨padder⟩ : ProcessorPtr)])
      [(.remoteSide,.start)] = some t ∧ (t.loop .remoteSide).pc = .reading ∧ t.chain = [⟨padder⟩] ∧
      (t.sock .localSide).written = [] :=
    ⟨_,rfl,rfl,rfl,rfl⟩
  have hbroken : ((PaddingProcessor.padGrammar 4 0).drain (frame ++ badHeader)).broken = true := by
    rw [drain_frame, drain_badHeader]
  have herror := onData_badHeader hbroken
  rw [← hchain] at herror
  have hstep := step_refused hpc (show (frame ++ badHeader).length ≤ READ_SIZE by decide) herror
  have hcloses : ClosesInvalid .remoteSide (startSession 0 [⟨padder⟩]) atOnce := fun hm =>
    hm [(.remoteSide,.start)] _ [] rfl t hstart ⟨rfl,by rw [herror]; exact Option.some_ne_none _⟩
  have hrun : run step (startSession 0 [⟨padder⟩]) atOnce = some
      ({ t with chain := (onData .remoteSide t.chain (frame ++ badHeader)).state }.closeOnce.finish .remoteSide) :=
    run_append_some.mpr ⟨t,hstart,by rw [run_cons, hstep]; rfl⟩
  refine ⟨_,⟨hrun,by decide,by decide,by decide,fun h => absurd hcloses h⟩,hcloses,?_⟩
  rw [finish_sock, closeOnce_written]
  exact hwritten

theorem inTwo_segments : ∃ s, Segments [⟨padder⟩] .remoteSide (frame ++ badHeader) 0 inTwo s ∧
    ClosesInvalid .remoteSide (startSession 0 [⟨padder⟩]) inTwo ∧ (s.sock .localSide).written = text "ab" := by
  obtain ⟨t,hstart,hpc,hchain,hnext⟩ : ∃ t, run step (startSession 0 [(⟨padder⟩ : ProcessorPtr)])
      [(.remoteSide,.start)] = some t ∧ (t.loop .remoteSide).pc = .reading ∧ t.chain = [⟨padder⟩] ∧
      ∃ u, run step ((t.absorb .remoteSide ⟨[⟨padder⟩],[text "ab"],none⟩).writeNext .remoteSide [text "ab"])
        [(.remoteSide,.transfer 2), (.remoteSide,.writeOk)] = some u ∧ (u.loop .remoteSide).pc = .reading ∧
        u.chain = [⟨padder⟩] ∧ (u.sock .localSide).written = text "ab" :=
    ⟨_,rfl,rfl,rfl,_,rfl,rfl,rfl,rfl⟩
  obtain ⟨u,hwrite,hpc',hchain',hwritten⟩ := hnext
  have hframe := onData_frame
  rw [← hchain] at hframe
  have hread := step_data hpc (show frame.length ≤ READ_SIZE by decide) (congrArg Outcome.error hframe)
  rw [hframe, hchain] at hread
  have herror := onData_badHeader drain_badHeader
  rw [← hchain'] at herror
  have hstep := step_refused hpc' (show badHeader.length ≤ READ_SIZE by decide) herror
  have hbefore : run step (startSession 0 [⟨padder⟩]) [(.remoteSide,.start), (.remoteSide,.read (.data frame)),
      (.remoteSide,.transfer 2), (.remoteSide,.writeOk)] = some u :=
    run_append_some.mpr ⟨t,hstart,by rw [run_cons, hread]; exact hwrite⟩
  have hcloses : ClosesInvalid .remoteSide (startSession 0 [⟨padder⟩]) inTwo := fun hm =>
    hm [(.remoteSide,.start), (.remoteSide,.read (.data frame)), (.remoteSide,.transfer 2), (.remoteSide,.writeOk)]
      _ [] rfl u hbefore ⟨rfl,by rw [herror]; exact Option.some_ne_none _⟩
  have hrun : run step (startSession 0 [⟨padder⟩]) inTwo = some
      ({ u with chain := (onData .remoteSide u.chain badHeader).state }.closeOnce.finish .remoteSide) :=
    run_append_some.mpr ⟨u,hbefore,by rw [run_cons, hstep]; rfl⟩
  refine ⟨_,⟨hrun,by decide,by decide,by decide,fun h => absurd hcloses h⟩,hcloses,?_⟩
  rw [finish_sock, closeOnce_written]
  exact hwritten

/-- Two bytes that are packed come in one read, or in two. -/
def packedAtOnce : List (Side × LoopEvent) :=
  [(.localSide,.start), (.localSide,.read (.data (text "ab"))), (.localSide,.transfer 10), (.localSide,.writeOk)]

def packedInTwo : List (Side × LoopEvent) :=
  [(.localSide,.start), (.localSide,.read (.data (text "a"))), (.localSide,.transfer 9), (.localSide,.writeOk),
    (.localSide,.read (.data (text "b"))), (.localSide,.transfer 9), (.localSide,.writeOk)]

theorem packed_segments : ∃ s₁ s₂, Segments [⟨padder⟩] .localSide (text "ab") 0 packedAtOnce s₁ ∧
    Segments [⟨padder⟩] .localSide (text "ab") 0 packedInTwo s₂ ∧
    ¬ClosesInvalid .localSide (startSession 0 [⟨padder⟩]) packedAtOnce ∧
    ¬ClosesInvalid .localSide (startSession 0 [⟨padder⟩]) packedInTwo ∧
    (s₁.sock .remoteSide).written.length = 10 ∧ (s₂.sock .remoteSide).written.length = 18 := by
  have hone : Meets step (fun s a => ¬ThrownAt .localSide s a) (startSession 0 [(⟨padder⟩ : ProcessorPtr)])
      packedAtOnce := by
    refine .cons not_false rfl (.cons (fun h => h.2 rfl) rfl (.cons not_false rfl (.cons not_false rfl (.nil _))))
  have htwo : Meets step (fun s a => ¬ThrownAt .localSide s a) (startSession 0 [(⟨padder⟩ : ProcessorPtr)])
      packedInTwo := by
    refine .cons not_false rfl (.cons (fun h => h.2 rfl) rfl (.cons not_false rfl (.cons not_false rfl ?_)))
    exact .cons (fun h => h.2 rfl) rfl (.cons not_false rfl (.cons not_false rfl (.nil _)))
  refine ⟨_,_,⟨rfl,by decide,by decide,by decide,fun _ => ⟨by decide,rfl⟩⟩,
    ⟨rfl,by decide,by decide,by decide,fun _ => ⟨by decide,rfl⟩⟩,not_not.mpr hone,not_not.mpr htwo,rfl,rfl⟩

/-- A payload in front of a bad header is delivered or not as the two are read together or
apart; and what is packed comes out in as many frames as it was read in pieces. -/
theorem segmentation_matters : ∃ chain,
    buildProcessorChain CfbNonceProcessor.knownCrypto zeroEngine zeroHost false
      [text "padding:chunk=4,max=0"] = .ok (some chain) ∧
    (∃ s₁ s₂, Segments chain .remoteSide (frame ++ badHeader) 0 atOnce s₁ ∧
      Segments chain .remoteSide (frame ++ badHeader) 0 inTwo s₂ ∧
      ClosesInvalid .remoteSide (startSession 0 chain) atOnce ∧ ClosesInvalid .remoteSide (startSession 0 chain) inTwo ∧
      (s₁.sock .localSide).written = [] ∧ (s₂.sock .localSide).written = text "ab") ∧
    ∃ s₁ s₂, Segments chain .localSide (text "ab") 0 packedAtOnce s₁ ∧
      Segments chain .localSide (text "ab") 0 packedInTwo s₂ ∧
      ¬ClosesInvalid .localSide (startSession 0 chain) packedAtOnce ∧
      ¬ClosesInvalid .localSide (startSession 0 chain) packedInTwo ∧
      (s₁.sock .remoteSide).written ≠ (s₂.sock .remoteSide).written := by
  obtain ⟨s₁,hs₁,hc₁,hw₁⟩ := atOnce_segments
  obtain ⟨s₂,hs₂,hc₂,hw₂⟩ := inTwo_segments
  obtain ⟨t₁,t₂,ht₁,ht₂,hn₁,hn₂,hl₁,hl₂⟩ := packed_segments
  refine ⟨_,rfl,⟨s₁,s₂,hs₁,hs₂,hc₁,hc₂,hw₁,hw₂⟩,t₁,t₂,ht₁,ht₂,hn₁,hn₂,fun h => ?_⟩
  rw [h, hl₂] at hl₁
  exact absurd hl₁ (by decide)

theorem segmentation_independent_inTwo : ∃ chain s₁ s₂,
    buildProcessorChain CfbNonceProcessor.knownCrypto zeroEngine zeroHost false
      [text "padding:chunk=4,max=0"] = .ok (some chain) ∧
    Segments chain .remoteSide (frame ++ badHeader) 0 inTwo s₁ ∧
    Segments chain .remoteSide (frame ++ badHeader) 0 atOnce s₂ ∧
    s₁.closed = true ∧ text "ab" <+: (s₁.sock .localSide).written := by
  obtain ⟨s₁,hs₁,hc₁,-⟩ := inTwo_segments
  obtain ⟨s₂,hs₂,-,-⟩ := atOnce_segments
  have hpack : ∀ spec ∈ [text "padding:chunk=4,max=0"], ¬Packs false .remoteSide spec := by
    intro spec hspec h
    obtain rfl := List.mem_singleton.mp hspec
    exact absurd h.2 (by decide)
  have hbuild : buildProcessorChain CfbNonceProcessor.knownCrypto zeroEngine zeroHost false
      [text "padding:chunk=4,max=0"] = .ok (some [⟨padder⟩]) := rfl
  obtain ⟨-,-,hcloses,-,-,hframes⟩ := segmentation_independent hbuild hpack hs₁ hs₂
  obtain ⟨hclosed,x,hreads⟩ := hcloses hc₁
  have htaken : takenOf .remoteSide (startSession 0 [⟨padder⟩]) inTwo = [frame] :=
    (List.append_inj' (show [frame] ++ [badHeader] = _ from hreads) rfl).1.symm
  have hab := hframes _ ⟨4,0,0⟩ rfl (by decide) rfl [⟨text "ab",[],by decide,by decide⟩]
  rw [htaken] at hab
  exact ⟨_,s₁,s₂,hbuild,hs₁,hs₂,hclosed,hab (by decide)⟩

end SessionState

end Msg801.Tunnel
