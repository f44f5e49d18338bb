import Msg801.Tunnel.Session

/-! # What a flush emits, and when the send side is shut

The session over a chain of any processors, whose flushes may emit anything. At the end of
its input a loop shuts the opposite send side first and writes what the flush gave after.
-/
namespace Msg801.Tunnel
open Transition SessionState

/-- A session over a chain of processors of any class; its loops keep no chain themselves. -/
structure TunnelSession (P : Type*) where
  chain : ProcessorChain P
  loops : SessionState

namespace TunnelSession
variable {P : Type*} [Processor P]

def onData : Side → ProcessorChain P → ByteSpan → Outcome (ProcessorChain P)
  | .localSide => ProcessorChain.onLocalData
  | .remoteSide => ProcessorChain.onRemoteData

def flush : Side → ProcessorChain P → Outcome (ProcessorChain P)
  | .localSide => ProcessorChain.flushLocal
  | .remoteSide => ProcessorChain.flushRemote

/-- What a loop sees of a call: the buffers and the exception. -/
def seen (r : Outcome (ProcessorChain P)) (c : ProcessorChain ProcessorPtr) : Outcome (ProcessorChain ProcessorPtr) :=
  ⟨c,r.output,r.error⟩

/-- The chain after an event of a loop. -/
def chainAfter (s : TunnelSession P) (side : Side) : LoopEvent → ProcessorChain P
  | .read (.data input) => (onData side s.chain input).state
  | .read .eof => (flush side s.chain).state
  | _ => s.chain

/-- The read loop of a side, with the calls on this chain. -/
def readLoop (s : TunnelSession P) (side : Side) (e : LoopEvent) : Option (TunnelSession P) :=
  (s.loops.readLoop side (fun c x => seen (onData side s.chain x) c) (fun c => seen (flush side s.chain) c) e).map
    fun loops => ⟨s.chainAfter side e,loops⟩

/-- A step of either loop. Nothing is transferred on a send side that is shut. -/
def step (s : TunnelSession P) : Side × LoopEvent → Option (TunnelSession P)
  | (side,.transfer n) =>
    if (s.loops.sock side.opposite).sendShut then none else s.readLoop side (.transfer n)
  | (side,e) => s.readLoop side e

/-- A write to a send side that is open does not fail. -/
def WriteSucceeds (s : TunnelSession P) : Side × LoopEvent → Prop
  | (side,.writeFail) =>
    ¬((s.loops.sock side.opposite).isOpen = true ∧ (s.loops.sock side.opposite).sendShut = false)
  | _ => True

/-- A direction that has seen the end of its input has written all that the chain emitted in
it before its send side was shut or the session closed. -/
def FlushedFirst (s : TunnelSession P) : Prop :=
  ∀ side, (s.loops.loop side).eof = true →
    (s.loops.sock side.opposite).sendShut = true ∨ s.loops.closed = true →
    (s.loops.sock side.opposite).written = (s.loops.loop side).produced

/-- At the end of the input of a direction no byte comes out of a flush of its chain. -/
def FlushEmpty (s : TunnelSession P) : Side × LoopEvent → Prop
  | (side,.read .eof) => (flush side s.chain).error = none → (flush side s.chain).bytes = []
  | _ => True

end TunnelSession

namespace SessionState

/-- The session with another chain. -/
def withChain (s : SessionState) (chain : ProcessorChain ProcessorPtr) : SessionState := { s with chain := chain }

section WithChain
variable (s : SessionState) (chain : ProcessorChain ProcessorPtr) (side : Side)

@[simp] theorem withChain_loop : (s.withChain chain).loop = s.loop := rfl
@[simp] theorem withChain_sock : (s.withChain chain).sock = s.sock := rfl
@[simp] theorem withChain_closed : (s.withChain chain).closed = s.closed := rfl

@[simp] theorem finish_withChain : (s.withChain chain).finish side = (s.finish side).withChain chain := by
  simp only [finish]
  split <;> simp_all [withChain, setPc, setLoop, logConnClose]

@[simp] theorem closeOnce_withChain : (s.withChain chain).closeOnce = s.closeOnce.withChain chain := by
  rw [closeOnce, closeOnce]
  split <;> simp_all [withChain, closeAll]

@[simp] theorem next_withChain : (s.withChain chain).next side = (s.next side).withChain chain := by
  simp only [next, withChain_closed, finish_withChain]
  split <;> rfl

@[simp] theorem writeNext_withChain (outs : DataBufferList) :
    (s.withChain chain).writeNext side outs = (s.writeNext side outs).withChain chain := by
  cases outs with
  | nil => exact next_withChain s chain side
  | cons out more => rfl

@[simp] theorem flushNext_withChain (outs : DataBufferList) :
    (s.withChain chain).flushNext side outs = (s.flushNext side outs).withChain chain := by
  cases outs with
  | nil =>
    by_cases h : (s.loop side.opposite).eof = true
    · rw [flushNext, flushNext, withChain_loop, if_pos h, if_pos h]
      exact finish_withChain s.closeAll chain side
    · rw [flushNext, flushNext, withChain_loop, if_neg h, if_neg h]
      exact finish_withChain s chain side
  | cons out more => rfl

theorem transfer_withChain (n : ℕ) (rest : ByteVector) (pc : ByteVector → ByteVector → LoopPc) :
    (s.withChain chain).transfer side n rest pc = (s.transfer side n rest pc).map (withChain · chain) := by
  by_cases h : 0 < n ∧ n ≤ rest.length ∧ (s.sock side.opposite).isOpen = true
  · have h' : 0 < n ∧ n ≤ rest.length ∧ ((s.withChain chain).sock side.opposite).isOpen = true := h
    rw [transfer, transfer, if_pos h, if_pos h']
    rfl
  · have h' : ¬(0 < n ∧ n ≤ rest.length ∧ ((s.withChain chain).sock side.opposite).isOpen = true) := h
    rw [transfer, transfer, if_neg h, if_neg h']
    rfl

theorem transfer_chain {n : ℕ} {rest : ByteVector} {pc : ByteVector → ByteVector → LoopPc} {t : SessionState}
    (h : s.transfer side n rest pc = some t) : t.chain = s.chain := by
  obtain ⟨_,_,-,-,rfl⟩ := transfer_eq_some h
  rfl

@[simp] theorem next_chain : (s.next side).chain = s.chain := by
  rw [next]
  split
  · exact finish_chain s side
  · rfl

@[simp] theorem writeNext_chain (outs : DataBufferList) : (s.writeNext side outs).chain = s.chain := by
  cases outs with
  | nil => exact next_chain s side
  | cons out more => rfl

@[simp] theorem flushNext_chain (outs : DataBufferList) : (s.flushNext side outs).chain = s.chain := by
  cases outs with
  | nil =>
    rw [flushNext, finish_chain]
    split <;> rfl
  | cons out more => rfl

end WithChain

/-- What a loop has produced against what it has written: a loop that has seen the end of
its socket has nothing left to write. -/
inductive Carries (l : ReadLoop) (written : ByteVector) : Prop where
  | early (he : l.eof = false) (hf : ∀ sent rest more, l.pc ≠ .flushing sent rest more)
      (hp : l.pc ≠ .ended → l.produced = written ++ pending l.pc)
  | late (he : l.eof = true) (hpc : l.pc = .ended ∨ ∃ sent more, l.pc = .flushing sent [] more ∧ more.flatten = [])
      (hp : l.produced = written)

/-- What a step of a loop can be, whatever the chain answers. -/
inductive Advance (onData : ProcessorChain ProcessorPtr → ByteSpan → Outcome (ProcessorChain ProcessorPtr))
    (flush : ProcessorChain ProcessorPtr → Outcome (ProcessorChain ProcessorPtr)) (s : SessionState) (side : Side) :
    LoopEvent → SessionState → Prop where
  | start (hpc : (s.loop side).pc = .spawned) : Advance onData flush s side .start (s.next side)
  | data (input : ByteVector) (hpc : (s.loop side).pc = .reading) (he : (onData s.chain input).error = none) :
      Advance onData flush s side (.read (.data input))
        ((s.absorb side (onData s.chain input)).writeNext side (onData s.chain input).output)
  | eof (hpc : (s.loop side).pc = .reading) (he : (flush s.chain).error = none) :
      Advance onData flush s side (.read .eof)
        (((s.seeEof side).absorb side (flush s.chain)).flushNext side (flush s.chain).output)
  | thrown (hpc : (s.loop side).pc = .reading) (he : (flush s.chain).error ≠ none) :
      Advance onData flush s side (.read .eof) ({ s.seeEof side with chain := (flush s.chain).state }.finish side)
  | gaveUp (e : LoopEvent) (t : SessionState) (hpc : (s.loop side).pc ≠ .ended) (he : e ≠ .read .eof)
      (hl : t.loop = s.loop) (hw : ∀ u, (t.sock u).written = (s.sock u).written) :
      Advance onData flush s side e (t.finish side)
  | transfer (sent now rest : ByteVector) (more : DataBufferList) (n : ℕ)
      (hpc : (s.loop side).pc = .writing sent (now ++ rest) more) :
      Advance onData flush s side (.transfer n) ((s.setPc side (.writing (sent ++ now) rest more)).setSock side.opposite
        { s.sock side.opposite with written := (s.sock side.opposite).written ++ now })
  | writeOk (sent : ByteVector) (more : DataBufferList) (hpc : (s.loop side).pc = .writing sent [] more) :
      Advance onData flush s side .writeOk ((s.count side sent.length).writeNext side more)
  | flushTransfer (sent now rest : ByteVector) (more : DataBufferList) (n : ℕ) (hn : now ≠ [])
      (hpc : (s.loop side).pc = .flushing sent (now ++ rest) more) :
      Advance onData flush s side (.transfer n) ((s.setPc side (.flushing (sent ++ now) rest more)).setSock side.opposite
        { s.sock side.opposite with written := (s.sock side.opposite).written ++ now })
  | flushOk (sent : ByteVector) (more : DataBufferList) (hpc : (s.loop side).pc = .flushing sent [] more) :
      Advance onData flush s side .writeOk ((s.count side sent.length).flushNext side more)

variable {onData : ProcessorChain ProcessorPtr → ByteSpan → Outcome (ProcessorChain ProcessorPtr)}
  {flush : ProcessorChain ProcessorPtr → Outcome (ProcessorChain ProcessorPtr)} {s t : SessionState} {side : Side}
  {e : LoopEvent}

@[simp] theorem closeOnce_written (s : SessionState) (u : Side) : (s.closeOnce.sock u).written = (s.sock u).written := by
  rw [closeOnce]
  split <;> rfl

theorem readLoop_advance (hs : s.readLoop side onData flush e = some t) : Advance onData flush s side e t := by
  have hstep := readLoop_step hs
  have halive := hstep.alive
  cases hstep with
  | start hpc => exact .start hpc
  | data input hpc he => exact .data input hpc he
  | eof hpc he => exact .eof hpc he
  | thrown hpc he => exact .thrown hpc he
  | refused | readError | writeFail => exact .gaveUp _ _ halive (by simp) (closeOnce_loop _) (closeOnce_written _)
  | aborted | flushFail => exact .gaveUp _ _ halive (by simp) rfl fun _ => rfl
  | transfer sent now rest more n hn hpc => exact .transfer sent now rest more n hpc
  | writeOk sent more hpc => exact .writeOk sent more hpc
  | flushTransfer sent now rest more n hn hpc => exact .flushTransfer sent now rest more n hn hpc
  | flushOk sent more hpc => exact .flushOk sent more hpc

/-- A step of one loop leaves the other loop, and what is written in its direction. -/
def Apart (s t : SessionState) (side : Side) : Prop :=
  t.loop side.opposite = s.loop side.opposite ∧ (t.sock side).written = (s.sock side).written

theorem Apart.trans {s t u : SessionState} {side : Side} (h : Apart s t side) (h' : Apart t u side) :
    Apart s u side :=
  ⟨h'.1.trans h.1,h'.2.trans h.2⟩

theorem apart_setLoop (s : SessionState) (side : Side) (l : ReadLoop) : Apart s (s.setLoop side l) side := by
  simp [Apart]

theorem apart_setSock (s : SessionState) (side : Side) (k : Socket) : Apart s (s.setSock side.opposite k) side := by
  simp [Apart]

theorem apart_finish (s : SessionState) (side : Side) : Apart s (s.finish side) side := by
  simp [Apart, setPc]

theorem apart_writeNext (s : SessionState) (side : Side) (outs : DataBufferList) :
    Apart s (s.writeNext side outs) side := by
  cases outs with
  | nil =>
    rw [writeNext, next]
    split
    · exact apart_finish s side
    · exact apart_setLoop s side _
  | cons out more => exact apart_setLoop s side _

theorem apart_flushNext (s : SessionState) (side : Side) (outs : DataBufferList) :
    Apart s (s.flushNext side outs) side := by
  cases outs with
  | nil =>
    rw [flushNext]
    split
    · exact apart_finish s.closeAll side
    · exact apart_finish s side
  | cons out more => exact apart_setLoop s side _

theorem apart_seeEof (s : SessionState) (side : Side) : Apart s (s.seeEof side) side :=
  (apart_setLoop s side _).trans (apart_setSock _ side _)

theorem Advance.apart (h : Advance onData flush s side e t) : Apart s t side := by
  cases h with
  | start => exact apart_writeNext s side []
  | data => exact (apart_setLoop _ side _).trans (apart_writeNext _ side _)
  | eof => exact ((apart_seeEof s side).trans (apart_setLoop _ side _)).trans (apart_flushNext _ side _)
  | thrown => exact (apart_seeEof s side).trans (apart_finish _ side)
  | gaveUp _ v _ _ hl hw => exact (show Apart s v side from ⟨by rw [hl],hw side⟩).trans (apart_finish v side)
  | transfer | flushTransfer => exact (apart_setLoop s side _).trans (apart_setSock _ side _)
  | writeOk => exact (apart_setLoop s side _).trans (apart_writeNext _ side _)
  | flushOk => exact (apart_setLoop s side _).trans (apart_flushNext _ side _)

/-- What the loop of a side carries. -/
def Carried (s : SessionState) (side : Side) : Prop := Carries (s.loop side) (s.sock side.opposite).written

theorem Carried.finish (h : s.Carried side) : (s.finish side).Carried side := by
  rw [Carried, finish_sock, finish_loop, setPc, setLoop_loop]
  cases h with
  | early he hf hp => exact .early he (by simp) (by simp)
  | late he hpc hp => exact .late he (.inl rfl) hp

theorem carried_writeNext {outs : DataBufferList} (he : (s.loop side).eof = false)
    (hp : (s.loop side).produced = (s.sock side.opposite).written ++ outs.flatten) :
    (s.writeNext side outs).Carried side := by
  cases outs with
  | nil =>
    rw [writeNext, next]
    split
    · rw [Carried, finish_sock, finish_loop, setPc, setLoop_loop]
      exact .early he (by simp) (by simp)
    · rw [Carried, setPc, setLoop_loop]
      exact .early he (by simp) fun _ => hp
  | cons out more =>
    rw [writeNext, Carried, setPc, setLoop_loop]
    exact .early he (by simp) fun _ => hp

theorem carried_flushNext {outs : DataBufferList} (he : (s.loop side).eof = true)
    (hp : (s.loop side).produced = (s.sock side.opposite).written) (ho : outs.flatten = []) :
    (s.flushNext side outs).Carried side := by
  cases outs with
  | nil =>
    rw [flushNext]
    split
    all_goals
      rw [Carried, finish_sock, finish_loop, setPc, setLoop_loop]
      exact .late he (.inl rfl) hp
  | cons out more =>
    obtain ⟨rfl,hmore⟩ := List.append_eq_nil_iff.mp ho
    rw [flushNext, Carried, setPc, setLoop_loop]
    exact .late he (.inr ⟨[],more,rfl,hmore⟩) hp

/-- A loop carries what it has produced through every step, but for an end of its input at
which the flush emits something. -/
theorem Advance.carried (h : Advance onData flush s side e t) (hc : s.Carried side)
    (hflush : e = .read .eof → (flush s.chain).error = none → (flush s.chain).bytes = []) : t.Carried side := by
  cases h with
  | start hpc =>
    cases hc with
    | early he hf hp =>
      rw [hpc] at hp
      exact @carried_writeNext s side [] he (hp (by simp))
    | late he hl hp => simp [hpc] at hl
  | data input hpc he =>
    cases hc with
    | early heof hf hp =>
      rw [hpc] at hp
      refine carried_writeNext (by simpa [absorb] using heof) ?_
      simpa [absorb, pending, Stage.Outcome.bytes] using hp
    | late _ hl => simp [hpc] at hl
  | eof hpc he =>
    cases hc with
    | early heof hf hp =>
      rw [hpc] at hp
      have hbytes := hflush rfl he
      refine carried_flushNext (by simp [absorb, seeEof]) ?_ hbytes
      simpa [absorb, seeEof, pending, hbytes] using hp
    | late _ hl => simp [hpc] at hl
  | thrown hpc he =>
    cases hc with
    | early heof hf hp =>
      rw [hpc] at hp
      rw [Carried, finish_sock, finish_loop, setPc, setLoop_loop]
      refine .late (by simp [seeEof]) (.inl rfl) ?_
      simpa [seeEof, pending] using hp
    | late _ hl => simp [hpc] at hl
  | gaveUp _ v _ _ hl hw =>
    have hv : v.Carried side := by
      rw [Carried, hl, hw]
      exact hc
    exact hv.finish
  | transfer sent now rest more n hpc =>
    cases hc with
    | early heof hf hp =>
      rw [hpc] at hp
      rw [Carried]
      refine .early (by simpa [setPc] using heof) (by simp [setPc]) fun _ => ?_
      simpa [setPc, pending] using hp
    | late _ hl => simp [hpc] at hl
  | writeOk sent more hpc =>
    cases hc with
    | early heof hf hp =>
      rw [hpc] at hp
      refine carried_writeNext (by simpa [count] using heof) ?_
      simpa [count, pending] using hp
    | late _ hl => simp [hpc] at hl
  | flushTransfer sent now rest more n hn hpc =>
    cases hc with
    | early _ hf => exact absurd hpc (hf _ _ _)
    | late _ hl => simp [hpc, hn] at hl
  | flushOk sent more hpc =>
    cases hc with
    | early _ hf => exact absurd hpc (hf _ _ _)
    | late heof hl hp =>
      have hmore : more.flatten = [] := by simpa [hpc] using hl
      exact carried_flushNext (by simpa [count] using heof) (by simpa [count] using hp) hmore

/-- What a loop that goes on with its flush keeps of its direction. -/
theorem flushNext_keeps (s : SessionState) (side : Side) (outs : DataBufferList) :
    ((s.flushNext side outs).loop side).eof = (s.loop side).eof ∧
    ((s.flushNext side outs).loop side).produced = (s.loop side).produced ∧
    ((s.flushNext side outs).sock side.opposite).written = (s.sock side.opposite).written ∧
    ((s.flushNext side outs).sock side.opposite).sendShut = (s.sock side.opposite).sendShut := by
  cases outs with
  | nil =>
    rw [flushNext, finish_loop, finish_sock]
    split <;> simp [setPc, closeAll]
  | cons out more => simp [flushNext, setPc]

end SessionState

namespace TunnelSession
variable {P : Type*} [Processor P] {s t : TunnelSession P} {side : Side} {e : LoopEvent}

theorem step_readLoop (hs : s.step (side,e) = some t) : s.readLoop side e = some t := by
  cases e with
  | transfer n =>
    rw [step] at hs
    split_ifs at hs
    exact hs
  | _ => exact hs

theorem step_advance (hs : s.step (side,e) = some t) :
    Advance (fun c x => seen (onData side s.chain x) c) (fun c => seen (flush side s.chain) c) s.loops side e
      t.loops := by
  obtain ⟨loops,hloops,rfl⟩ := Option.map_eq_some_iff.mp (step_readLoop hs)
  exact readLoop_advance hloops

/-- The invariant of the runs in which no flush emits anything. -/
def Carries (s : TunnelSession P) : Prop := ∀ side, s.loops.Carried side

omit [Processor P] in
theorem Carries.flushedFirst (h : s.Carries) : s.FlushedFirst := by
  intro side heof _
  cases h side with
  | early he => exact absurd heof (by simp [he])
  | late _ _ hp => exact hp.symm

theorem Carries.step (h : s.Carries) (hf : s.FlushEmpty (side,e)) (hs : s.step (side,e) = some t) : t.Carries := by
  have ha := step_advance hs
  have hside : t.loops.Carried side := ha.carried (h side) fun he => by
    subst he
    exact hf
  intro u
  obtain rfl | rfl := u.eq_or_eq_opposite side
  · exact hside
  · obtain ⟨hl,hw⟩ := ha.apart
    have hother := h side.opposite
    rw [Carried, Side.opposite_opposite] at hother ⊢
    rwa [hl, hw]

/-- Behind an end of input at which the flush emitted something, the send side is shut and
this has not been written. -/
theorem Carries.flushEmpty (h : s.Carries) (hs : s.step (side,e) = some t) (ht : t.FlushedFirst) :
    s.FlushEmpty (side,e) := by
  have hside := ht side
  have ha := step_advance hs
  generalize t.loops = loops at hside ha
  cases ha with
  | eof hpc he =>
    intro _
    have hc := h side
    obtain ⟨heof,hprod,hwritten,hshut⟩ := flushNext_keeps ((s.loops.seeEof side).absorb side
      (seen (flush side s.chain) s.loops.chain)) side (seen (flush side s.chain) s.loops.chain).output
    have hwp := hside (by rw [heof]; simp [absorb, seeEof]) (.inl (by rw [hshut]; simp [absorb, seeEof]))
    rw [hwritten, hprod] at hwp
    cases hc with
    | late _ hl => simp [hpc] at hl
    | early _ _ hp =>
      rw [hpc] at hp
      have hold : (s.loops.loop side).produced = (s.loops.sock side.opposite).written := by
        simpa [pending] using hp
      simpa [absorb, seeEof, hold, seen, Stage.Outcome.bytes] using hwp
  | thrown hpc he => exact fun hn => absurd hn he
  | gaveUp e v hpc he =>
    cases e with
    | read outcome =>
      cases outcome with
      | eof => exact absurd rfl he
      | _ => trivial
    | _ => trivial
  | _ => trivial

/-- A session as it starts. -/
def start (id : UInt64) (chain : ProcessorChain P) : TunnelSession P := ⟨chain,startSession id []⟩

omit [Processor P] in
theorem start_carries (id : UInt64) (chain : ProcessorChain P) : (start id chain).Carries :=
  fun _ => .early rfl (by simp [start, startSession]) fun _ => rfl

/-- In a run everything emitted is written before the send side is shut or the session closed
exactly when no end of input is met at which a byte comes out of the flush. -/
theorem flushed_first_iff {id : UInt64} {chain : ProcessorChain P} {events : List (Side × LoopEvent)}
    {s : TunnelSession P} (hrun : run step (start id chain) events = some s) :
    (∀ pre t, pre <+: events → run step (start id chain) pre = some t → t.FlushedFirst) ↔
      Meets step FlushEmpty (start id chain) events := by
  refine forall_prefix_iff_meets (g := fun _ _ => True) hrun (fun _ _ _ _ _ _ => trivial)
    (start_carries id chain) Carries.flushedFirst ?_ ?_
  · rintro t v ⟨side,e⟩ h _ hf hs
    exact h.step hf hs
  · rintro t v ⟨side,e⟩ h _ hs hv
    exact h.flushEmpty hs hv

/-- The session of the read loops, its chain taken out of the state of its loops. -/
def ofSession (s : SessionState) : TunnelSession ProcessorPtr := ⟨s.chain,s.withChain []⟩

theorem onData_eq (side : Side) (chain : ProcessorChain ProcessorPtr) (input : ByteSpan) :
    SessionState.onData side chain input = onData side chain input := by
  cases side <;> rfl

theorem flush_eq (side : Side) (chain : ProcessorChain ProcessorPtr) :
    SessionState.flush side chain = flush side chain := by
  cases side <;> rfl

/-- Over a chain of built processors this is the session of the read loops. -/
theorem readLoop_ofSession (s : SessionState) (side : Side) (e : LoopEvent) :
    (ofSession s).readLoop side e = (s.step (side,e)).map ofSession := by
  have hgone (chain : ProcessorChain ProcessorPtr) :
      (s.withChain chain).closeOnce.finish side = (s.closeOnce.finish side).withChain chain := by simp
  have htransfer (n : ℕ) (rest : ByteVector) (pc : ByteVector → ByteVector → LoopPc) :
      ((s.transfer side n rest pc).map (withChain · [])).map (fun loops => TunnelSession.mk s.chain loops) =
        (s.transfer side n rest pc).map ofSession := by
    cases h : s.transfer side n rest pc with
    | none => rfl
    | some t =>
      rw [Option.map_some, Option.map_some, Option.map_some, ofSession, transfer_chain s side h]
  rw [step_eq]
  cases hpc : (s.loop side).pc with
  | spawned => cases e <;> simp [readLoop, SessionState.readLoop, ofSession, hpc, chainAfter]
  | reading =>
    cases e
    case read outcome =>
      cases outcome with
      | data input =>
        by_cases hlen : input.length > READ_SIZE
        · simp [readLoop, SessionState.readLoop, ofSession, hpc, hlen]
        rcases he : (onData side s.chain input).error with _ | err
        · simp only [readLoop, SessionState.readLoop, ofSession, withChain_loop, hpc, if_neg hlen, onData_eq, seen, he,
            Option.map_some, chainAfter, writeNext_chain]
          rw [Option.some.injEq, TunnelSession.mk.injEq]
          exact ⟨rfl,writeNext_withChain (s.absorb side (onData side s.chain input)) [] side _⟩
        · cases err
          case endless => simp [readLoop, SessionState.readLoop, ofSession, hpc, hlen, onData_eq, seen, he]
          all_goals
            simp only [readLoop, SessionState.readLoop, ofSession, withChain_loop, hpc, if_neg hlen, onData_eq, seen, he,
              Option.map_some, chainAfter, finish_chain, closeOnce_chain]
            rw [Option.some.injEq, TunnelSession.mk.injEq]
            have hthrown := congrArg (withChain · []) (hgone (onData side s.chain input).state)
            exact ⟨rfl,(hgone []).trans hthrown.symm⟩
      | eof =>
        have hchain : (s.seeEof side).chain = s.chain := rfl
        rcases he : (flush side s.chain).error with _ | err
        · simp only [readLoop, SessionState.readLoop, ofSession, withChain_loop, hpc, hchain, flush_eq, seen, he,
            Option.map_some, chainAfter, flushNext_chain]
          rw [Option.some.injEq, TunnelSession.mk.injEq]
          exact ⟨rfl,flushNext_withChain ((s.seeEof side).absorb side (flush side s.chain)) [] side _⟩
        · simp only [readLoop, SessionState.readLoop, ofSession, withChain_loop, hpc, hchain, flush_eq, seen, he,
            Option.map_some, chainAfter, finish_chain]
          rw [Option.some.injEq, TunnelSession.mk.injEq]
          have hthrown := congrArg (withChain · []) (finish_withChain (s.seeEof side) (flush side s.chain).state side)
          exact ⟨rfl,(finish_withChain (s.seeEof side) [] side).trans hthrown.symm⟩
      | error => simp [readLoop, SessionState.readLoop, ofSession, hpc, chainAfter]
      | operationAborted =>
        by_cases hc : s.closed = true <;>
          simp [readLoop, SessionState.readLoop, ofSession, hpc, hc, chainAfter]
    all_goals simp [readLoop, SessionState.readLoop, ofSession, hpc]
  | writing sent rest more =>
    cases e
    case transfer n =>
      simp only [readLoop, SessionState.readLoop, ofSession, withChain_loop, hpc, transfer_withChain]
      exact htransfer n rest _
    case writeOk =>
      cases rest with
      | nil =>
        simp only [readLoop, SessionState.readLoop, ofSession, withChain_loop, hpc, Option.map_some, chainAfter,
          writeNext_chain]
        rw [Option.some.injEq, TunnelSession.mk.injEq]
        exact ⟨rfl,writeNext_withChain (s.count side sent.length) [] side more⟩
      | cons => simp [readLoop, SessionState.readLoop, ofSession, hpc]
    case writeFail => simp [readLoop, SessionState.readLoop, ofSession, hpc, chainAfter]
    all_goals simp [readLoop, SessionState.readLoop, ofSession, hpc]
  | flushing sent rest more =>
    cases e
    case transfer n =>
      simp only [readLoop, SessionState.readLoop, ofSession, withChain_loop, hpc, transfer_withChain]
      exact htransfer n rest _
    case writeOk =>
      cases rest with
      | nil =>
        simp only [readLoop, SessionState.readLoop, ofSession, withChain_loop, hpc, Option.map_some, chainAfter,
          flushNext_chain]
        rw [Option.some.injEq, TunnelSession.mk.injEq]
        exact ⟨rfl,flushNext_withChain (s.count side sent.length) [] side more⟩
      | cons => simp [readLoop, SessionState.readLoop, ofSession, hpc]
    case writeFail =>
      simp only [readLoop, SessionState.readLoop, ofSession, withChain_loop, hpc, Option.map_some, chainAfter,
        finish_chain]
      rw [Option.some.injEq, TunnelSession.mk.injEq]
      exact ⟨rfl,finish_withChain s.closeAll [] side⟩
    all_goals simp [readLoop, SessionState.readLoop, ofSession, hpc]
  | ended => cases e <;> simp [readLoop, SessionState.readLoop, ofSession, hpc]

theorem chainAfter_silent {s : TunnelSession ProcessorPtr} (h : s.chain.Silent) (side : Side) (e : LoopEvent) :
    (s.chainAfter side e).Silent := by
  cases e with
  | read outcome =>
    cases outcome with
    | data input =>
      rw [chainAfter, ← onData_eq]
      exact onData_silent h side input
    | eof =>
      rw [chainAfter, ← flush_eq, flush_silent h side]
      exact h
    | _ => exact h
  | _ => exact h

/-- The chains that the tunnel builds flush nothing, so that nothing of theirs is lost. -/
theorem built_flushedFirst {C : Crypto} {R : RandomEngine} {host : Host} {reverse : Bool} {specs : List ByteSpan}
    {chain : ProcessorChain ProcessorPtr} (hbuild : buildProcessorChain C R host reverse specs = .ok (some chain))
    {id : UInt64} {events : List (Side × LoopEvent)} {s : TunnelSession ProcessorPtr}
    (hrun : run step (start id chain) events = some s) : s.FlushedFirst := by
  have hsilent : (start id chain).chain.Silent := buildProcessorChain_silent hbuild
  suffices h : s.chain.Silent ∧ s.Carries from h.2.flushedFirst
  refine run_invariant (P := fun s : TunnelSession ProcessorPtr => s.chain.Silent ∧ s.Carries) hrun
    ⟨hsilent,start_carries id chain⟩ ?_
  rintro t u ⟨side,e⟩ ⟨hchain,hc⟩ hs
  have hempty : t.FlushEmpty (side,e) := by
    cases e with
    | read outcome =>
      cases outcome with
      | eof =>
        intro _
        rw [← flush_eq, flush_silent hchain side]
        rfl
      | _ => trivial
    | _ => trivial
  obtain ⟨loops,-,rfl⟩ := Option.map_eq_some_iff.mp (step_readLoop hs)
  exact ⟨chainAfter_silent hchain side e,hc.step hempty hs⟩

/-- A processor that holds local data back until it is flushed. -/
structure Holding where
  held : ByteVector := []

instance : Processor Holding where
  reverse _ := false
  pack p x := ⟨⟨p.held ++ x⟩,[],none⟩
  unpack p x := ⟨p,[x],none⟩
  flushLocal p := ⟨⟨[]⟩,[p.held],none⟩

/-- A reply, which nothing holds back, and the end of the replies. -/
def repliedRun : List (Side × LoopEvent) :=
  [(.remoteSide,.start), (.remoteSide,.read (.data (text "b"))), (.remoteSide,.transfer 1), (.remoteSide,.writeOk),
    (.remoteSide,.read .eof)]

theorem flushed_first_replied : ∃ s, run step (start 0 [({} : Holding)]) repliedRun = some s ∧ s.FlushedFirst ∧
    (s.loops.sock .localSide).written = text "b" ∧ (s.loops.sock .localSide).sendShut = true := by
  obtain ⟨s,hrun,hw,hs⟩ : ∃ s, run step (start 0 [({} : Holding)]) repliedRun = some s ∧
      (s.loops.sock .localSide).written = text "b" ∧ (s.loops.sock .localSide).sendShut = true :=
    ⟨_,rfl,rfl,rfl⟩
  have hm : Meets step FlushEmpty (start 0 [({} : Holding)]) repliedRun := by
    refine .cons trivial rfl (.cons trivial rfl (.cons trivial rfl (.cons trivial rfl (.cons ?_ rfl (.nil _)))))
    exact fun _ => rfl
  exact ⟨s,hrun,(flushed_first_iff hrun).mpr hm repliedRun s List.prefix_rfl hrun,hw,hs⟩

/-- The local side sends a byte, which is held back, and ends its input. -/
def heldBack : List (Side × LoopEvent) :=
  [(.localSide,.start), (.localSide,.read (.data (text "a"))), (.localSide,.read .eof), (.localSide,.writeFail)]

/-- The byte comes out of the flush when the send side of the remote socket has been shut: its
write fails and the session is closed. -/
theorem heldBack_lost : ∃ s, run step (start 0 [({} : Holding)]) heldBack = some s ∧
    Meets step WriteSucceeds (start 0 [({} : Holding)]) heldBack ∧ s.loops.closed = true ∧
    (s.loops.loop .localSide).produced = text "a" ∧ (s.loops.sock .remoteSide).written = [] ∧ ¬s.FlushedFirst := by
  obtain ⟨s,hrun,hclosed,heof,hp,hw⟩ : ∃ s, run step (start 0 [({} : Holding)]) heldBack = some s ∧
      s.loops.closed = true ∧ (s.loops.loop .localSide).eof = true ∧
      (s.loops.loop .localSide).produced = text "a" ∧ (s.loops.sock .remoteSide).written = [] :=
    ⟨_,rfl,rfl,rfl,rfl,rfl⟩
  have hm : Meets step WriteSucceeds (start 0 [({} : Holding)]) heldBack := by
    refine .cons trivial rfl (.cons trivial rfl (.cons trivial rfl (.cons ?_ rfl (.nil _))))
    rintro ⟨-,hopen⟩
    cases hopen
  refine ⟨s,hrun,hm,hclosed,hp,hw,fun h => ?_⟩
  have hwp : (s.loops.sock .remoteSide).written = (s.loops.loop .localSide).produced :=
    h .localSide heof (.inr hclosed)
  rw [hw, hp] at hwp
  cases hwp

end TunnelSession

end Msg801.Tunnel
