import Msg801.Lib.Transition
import Msg801.Tunnel.Build

/-! # The two read loops of a tunnel session

A session joins a local and a remote socket. Each side has a loop that reads its socket,
runs the bytes through the chain and writes what comes out to the opposite socket. The
loops share the chain, the flags and both sockets, and meet at every suspension.
-/
namespace Msg801.Tunnel
open Transition

inductive Side where
  | localSide
  | remoteSide
  deriving DecidableEq, Repr

namespace Side

def opposite : Side → Side
  | localSide => remoteSide
  | remoteSide => localSide

@[simp] theorem opposite_opposite (t : Side) : t.opposite.opposite = t := by cases t <;> rfl

theorem opposite_ne (t : Side) : t.opposite ≠ t := by cases t <;> decide

theorem eq_or_eq_opposite (t side : Side) : t = side ∨ t = side.opposite := by
  cases t <;> cases side <;> decide

end Side

structure Socket where
  isOpen : Bool := true
  sendShut : Bool := false
  written : ByteVector := []

/-- Where a loop is suspended: before its start, in a read, or in a write of the buffer
`sent ++ rest`, with further buffers to come, of which `sent` has been transferred. -/
inductive LoopPc where
  | spawned
  | reading
  | writing (sent rest : ByteVector) (more : DataBufferList)
  | flushing (sent rest : ByteVector) (more : DataBufferList)
  | ended
  deriving DecidableEq

/-- One read loop, with the end of file flag and the byte counter that it alone sets, and
the record of what the chain has produced in it. -/
structure ReadLoop where
  pc : LoopPc := .spawned
  eof : Bool := false
  bytes : UInt64 := 0
  produced : ByteVector := []

structure ConnClose where
  id : UInt64
  rx : UInt64
  tx : UInt64
  deriving DecidableEq

/-- The loop of the local side keeps `local_eof` and `tx_bytes`, the other one `remote_eof`
and `rx_bytes`. -/
structure SessionState where
  id : UInt64
  chain : ProcessorChain ProcessorPtr
  loop : Side → ReadLoop := fun _ => {}
  sock : Side → Socket := fun _ => {}
  closed : Bool := false
  doneCount : ℕ := 0
  connClose : List ConnClose := []

inductive ReadOutcome where
  | data (input : ByteVector)
  | eof
  | error
  | operationAborted
  deriving DecidableEq

inductive LoopEvent where
  | start
  | read (outcome : ReadOutcome)
  | transfer (n : ℕ)
  | writeOk
  | writeFail
  deriving DecidableEq

/-- The size of the buffer of a read. -/
def READ_SIZE : ℕ := 65536

namespace SessionState

def setLoop (s : SessionState) (side : Side) (l : ReadLoop) : SessionState :=
  { s with loop := Function.update s.loop side l }

def setSock (s : SessionState) (side : Side) (k : Socket) : SessionState :=
  { s with sock := Function.update s.sock side k }

def setPc (s : SessionState) (side : Side) (pc : LoopPc) : SessionState :=
  s.setLoop side { s.loop side with pc := pc }

def closeAll (s : SessionState) : SessionState :=
  { s with sock := fun t => { s.sock t with isOpen := false }, closed := true }

/-- `if (!s->closed) s->close_all()`. -/
def closeOnce (s : SessionState) : SessionState := if s.closed then s else s.closeAll

/-- The record `log_conn_close` writes. -/
def logConnClose (s : SessionState) : ConnClose :=
  ⟨s.id,(s.loop .remoteSide).bytes,(s.loop .localSide).bytes⟩

/-- The end of a loop, and `on_done`. -/
def finish (s : SessionState) (side : Side) : SessionState :=
  let s := s.setPc side .ended
  let s := { s with doneCount := s.doneCount + 1 }
  if s.doneCount = 2 then { s with connClose := s.connClose ++ [s.logConnClose] } else s

/-- The condition of the loop. -/
def next (s : SessionState) (side : Side) : SessionState :=
  if s.closed then s.finish side else s.setPc side .reading

/-- The buffers the chain produced, one after another. -/
def writeNext (s : SessionState) (side : Side) : DataBufferList → SessionState
  | [] => s.next side
  | out :: more => s.setPc side (.writing [] out more)

/-- The buffers flushed, one after another, and the check of the other end of file. -/
def flushNext (s : SessionState) (side : Side) : DataBufferList → SessionState
  | [] => (if (s.loop side.opposite).eof then s.closeAll else s).finish side
  | out :: more => s.setPc side (.flushing [] out more)

/-- A transfer of the next `n` bytes of a pending write, by whichever write it is. -/
def transfer (s : SessionState) (side : Side) (n : ℕ) (rest : ByteVector)
    (pc : ByteVector → ByteVector → LoopPc) : Option SessionState :=
  if 0 < n ∧ n ≤ rest.length ∧ (s.sock side.opposite).isOpen then
    let target := s.sock side.opposite
    some ((s.setPc side (pc (rest.take n) (rest.drop n))).setSock side.opposite
      { target with written := target.written ++ rest.take n })
  else none

/-- The counter after a write of `n` bytes. -/
def count (s : SessionState) (side : Side) (n : ℕ) : SessionState :=
  s.setLoop side { s.loop side with bytes := (s.loop side).bytes + UInt64.ofNat n }

/-- The state in which the chain has returned what `r` says. -/
def absorb (s : SessionState) (side : Side) (r : Outcome (ProcessorChain ProcessorPtr)) :
    SessionState :=
  { s with chain := r.state }.setLoop side
    { s.loop side with produced := (s.loop side).produced ++ r.bytes }

/-- The state in which a loop has seen the end of its socket. -/
def seeEof (s : SessionState) (side : Side) : SessionState :=
  (s.setLoop side { s.loop side with eof := true }).setSock side.opposite
    { s.sock side.opposite with sendShut := true }

/-- A read loop from one suspension to the next. -/
def readLoop (side : Side)
    (onData : ProcessorChain ProcessorPtr → ByteSpan → Outcome (ProcessorChain ProcessorPtr))
    (flush : ProcessorChain ProcessorPtr → Outcome (ProcessorChain ProcessorPtr))
    (s : SessionState) (e : LoopEvent) : Option SessionState :=
  match (s.loop side).pc, e with
  | .spawned, .start => some (s.next side)
  | .reading, .read (.data input) =>
    if input.length > READ_SIZE then none
    else
      let r := onData s.chain input
      match r.error with
      | none => some ((s.absorb side r).writeNext side r.output)
      -- a call that does not return leaves the loop in it
      | some .endless => none
      | some _ => some ({ s with chain := r.state }.closeOnce.finish side)
  | .reading, .read .eof =>
    let s := s.seeEof side
    let r := flush s.chain
    match r.error with
    | none => some ((s.absorb side r).flushNext side r.output)
    -- nothing catches what a flush throws
    | some _ => some ({ s with chain := r.state }.finish side)
  | .reading, .read .error => some (s.closeOnce.finish side)
  | .reading, .read .operationAborted => if s.closed then some (s.finish side) else none
  | .writing sent rest more, .transfer n =>
    s.transfer side n rest fun now rest => .writing (sent ++ now) rest more
  | .writing sent [] more, .writeOk => some ((s.count side sent.length).writeNext side more)
  | .writing _ _ _, .writeFail => some (s.closeOnce.finish side)
  | .flushing sent rest more, .transfer n =>
    s.transfer side n rest fun now rest => .flushing (sent ++ now) rest more
  | .flushing sent [] more, .writeOk => some ((s.count side sent.length).flushNext side more)
  | .flushing _ _ _, .writeFail => some (s.closeAll.finish side)
  | _, _ => none

def readLocal (s : SessionState) (e : LoopEvent) : Option SessionState :=
  readLoop .localSide ProcessorChain.onLocalData ProcessorChain.flushLocal s e

def readRemote (s : SessionState) (e : LoopEvent) : Option SessionState :=
  readLoop .remoteSide ProcessorChain.onRemoteData ProcessorChain.flushRemote s e

def step (s : SessionState) : Side × LoopEvent → Option SessionState
  | (.localSide,e) => s.readLocal e
  | (.remoteSide,e) => s.readRemote e

/-- A fresh session, both loops spawned. -/
def startSession (id : UInt64) (chain : ProcessorChain ProcessorPtr) : SessionState :=
  { id := id, chain := chain }

/-- A step of either loop, with what the loops are parametrised by. -/
def onData : Side → ProcessorChain ProcessorPtr → ByteSpan → Outcome (ProcessorChain ProcessorPtr)
  | .localSide => ProcessorChain.onLocalData
  | .remoteSide => ProcessorChain.onRemoteData

def flush : Side → ProcessorChain ProcessorPtr → Outcome (ProcessorChain ProcessorPtr)
  | .localSide => ProcessorChain.flushLocal
  | .remoteSide => ProcessorChain.flushRemote

theorem step_eq (s : SessionState) (side : Side) (e : LoopEvent) :
    s.step (side,e) = readLoop side (onData side) (flush side) s e := by
  cases side <;> rfl

section Updates
variable (s : SessionState) (side : Side) (l : ReadLoop) (k : Socket) (pc : LoopPc)

@[simp] theorem setLoop_loop : (s.setLoop side l).loop side = l := by simp [setLoop]
@[simp] theorem setLoop_loop_opposite : (s.setLoop side l).loop side.opposite = s.loop side.opposite := by
  simp [setLoop, side.opposite_ne]
@[simp] theorem setLoop_sock : (s.setLoop side l).sock = s.sock := rfl
@[simp] theorem setLoop_closed : (s.setLoop side l).closed = s.closed := rfl
@[simp] theorem setLoop_chain : (s.setLoop side l).chain = s.chain := rfl
@[simp] theorem setLoop_doneCount : (s.setLoop side l).doneCount = s.doneCount := rfl
@[simp] theorem setLoop_connClose : (s.setLoop side l).connClose = s.connClose := rfl

@[simp] theorem setLoop_self : s.setLoop side (s.loop side) = s := by simp [setLoop]

@[simp] theorem absorb_nothing : s.absorb side ⟨s.chain,[],none⟩ = s := by
  simp [absorb, setLoop, Stage.Outcome.bytes]

@[simp] theorem setSock_sock : (s.setSock side k).sock side = k := by simp [setSock]
@[simp] theorem setSock_sock_opposite : (s.setSock side.opposite k).sock side = s.sock side := by
  simp [setSock, side.opposite_ne.symm]
@[simp] theorem setSock_loop : (s.setSock side k).loop = s.loop := rfl
@[simp] theorem setSock_closed : (s.setSock side k).closed = s.closed := rfl
@[simp] theorem setSock_chain : (s.setSock side k).chain = s.chain := rfl
@[simp] theorem setSock_doneCount : (s.setSock side k).doneCount = s.doneCount := rfl
@[simp] theorem setSock_connClose : (s.setSock side k).connClose = s.connClose := rfl

@[simp] theorem finish_loop : (s.finish side).loop = (s.setPc side .ended).loop := by
  simp only [finish]; split <;> rfl
@[simp] theorem finish_sock : (s.finish side).sock = s.sock := by simp only [finish]; split <;> rfl
@[simp] theorem finish_closed : (s.finish side).closed = s.closed := by
  simp only [finish]; split <;> rfl
@[simp] theorem finish_chain : (s.finish side).chain = s.chain := by simp only [finish]; split <;> rfl
@[simp] theorem finish_doneCount : (s.finish side).doneCount = s.doneCount + 1 := by
  simp only [finish]; split <;> rfl

theorem setPc_bytes (t : Side) : ((s.setPc side pc).loop t).bytes = (s.loop t).bytes := by
  obtain rfl | rfl := t.eq_or_eq_opposite side <;> simp [setPc]

theorem finish_connClose : (s.finish side).connClose =
    if s.doneCount + 1 = 2 then s.connClose ++ [(s.finish side).logConnClose] else s.connClose := by
  have hid : (s.finish side).id = s.id := by simp only [finish]; split <;> rfl
  have hrecord : (s.finish side).logConnClose = s.logConnClose := by
    simp only [logConnClose, hid, finish_loop, setPc_bytes]
  have hlog : ∀ n, logConnClose { s.setPc side .ended with doneCount := n } = s.logConnClose := by
    intro n
    simp only [logConnClose, setPc_bytes]
    rfl
  rw [hrecord]
  simp only [finish, hlog]
  split <;> simp_all [setPc]

@[simp] theorem closeOnce_loop : s.closeOnce.loop = s.loop := by rw [closeOnce]; split <;> rfl
@[simp] theorem closeOnce_chain : s.closeOnce.chain = s.chain := by rw [closeOnce]; split <;> rfl
@[simp] theorem closeOnce_closed : s.closeOnce.closed = true := by rw [closeOnce]; split <;> simp_all [closeAll]
@[simp] theorem closeOnce_doneCount : s.closeOnce.doneCount = s.doneCount := by
  rw [closeOnce]; split <;> rfl
@[simp] theorem closeOnce_connClose : s.closeOnce.connClose = s.connClose := by
  rw [closeOnce]; split <;> rfl

end Updates

section Steps
variable {onData : ProcessorChain ProcessorPtr → ByteSpan → Outcome (ProcessorChain ProcessorPtr)}
  {flush : ProcessorChain ProcessorPtr → Outcome (ProcessorChain ProcessorPtr)} {s t : SessionState} {side : Side}
  {e : LoopEvent}

/-- The branches of a read loop, whatever the chain answers. -/
inductive LoopStep (onData : ProcessorChain ProcessorPtr → ByteSpan → Outcome (ProcessorChain ProcessorPtr))
    (flush : ProcessorChain ProcessorPtr → Outcome (ProcessorChain ProcessorPtr)) (s : SessionState) (side : Side) :
    LoopEvent → SessionState → Prop
  | start (hpc : (s.loop side).pc = .spawned) : LoopStep onData flush s side .start (s.next side)
  | data (input : ByteVector) (hpc : (s.loop side).pc = .reading) (he : (onData s.chain input).error = none) :
      LoopStep onData flush s side (.read (.data input))
        ((s.absorb side (onData s.chain input)).writeNext side (onData s.chain input).output)
  | refused (input : ByteVector) (hpc : (s.loop side).pc = .reading) (he : (onData s.chain input).error ≠ none) :
      LoopStep onData flush s side (.read (.data input))
        ({ s with chain := (onData s.chain input).state }.closeOnce.finish side)
  | eof (hpc : (s.loop side).pc = .reading) (he : (flush s.chain).error = none) :
      LoopStep onData flush s side (.read .eof)
        (((s.seeEof side).absorb side (flush s.chain)).flushNext side (flush s.chain).output)
  | thrown (hpc : (s.loop side).pc = .reading) (he : (flush s.chain).error ≠ none) :
      LoopStep onData flush s side (.read .eof) ({ s.seeEof side with chain := (flush s.chain).state }.finish side)
  | readError (hpc : (s.loop side).pc = .reading) :
      LoopStep onData flush s side (.read .error) (s.closeOnce.finish side)
  | aborted (hpc : (s.loop side).pc = .reading) (hc : s.closed = true) :
      LoopStep onData flush s side (.read .operationAborted) (s.finish side)
  | transfer (sent now rest : ByteVector) (more : DataBufferList) (n : ℕ) (hn : now ≠ [])
      (hpc : (s.loop side).pc = .writing sent (now ++ rest) more) :
      LoopStep onData flush s side (.transfer n) ((s.setPc side (.writing (sent ++ now) rest more)).setSock side.opposite
        { s.sock side.opposite with written := (s.sock side.opposite).written ++ now })
  | writeOk (sent : ByteVector) (more : DataBufferList) (hpc : (s.loop side).pc = .writing sent [] more) :
      LoopStep onData flush s side .writeOk ((s.count side sent.length).writeNext side more)
  | writeFail (sent rest : ByteVector) (more : DataBufferList) (hpc : (s.loop side).pc = .writing sent rest more) :
      LoopStep onData flush s side .writeFail (s.closeOnce.finish side)
  | flushTransfer (sent now rest : ByteVector) (more : DataBufferList) (n : ℕ) (hn : now ≠ [])
      (hpc : (s.loop side).pc = .flushing sent (now ++ rest) more) :
      LoopStep onData flush s side (.transfer n) ((s.setPc side (.flushing (sent ++ now) rest more)).setSock side.opposite
        { s.sock side.opposite with written := (s.sock side.opposite).written ++ now })
  | flushOk (sent : ByteVector) (more : DataBufferList) (hpc : (s.loop side).pc = .flushing sent [] more) :
      LoopStep onData flush s side .writeOk ((s.count side sent.length).flushNext side more)
  | flushFail (sent rest : ByteVector) (more : DataBufferList) (hpc : (s.loop side).pc = .flushing sent rest more) :
      LoopStep onData flush s side .writeFail (s.closeAll.finish side)

/-- The bytes transferred are some of those pending. -/
theorem transfer_eq_some {n : ℕ} {rest : ByteVector} {pc : ByteVector → ByteVector → LoopPc}
    (h : s.transfer side n rest pc = some t) : ∃ now more, rest = now ++ more ∧ now ≠ [] ∧
      t = (s.setPc side (pc now more)).setSock side.opposite
        { s.sock side.opposite with written := (s.sock side.opposite).written ++ now } := by
  rw [transfer] at h
  split_ifs at h with hn
  obtain rfl := Option.some.inj h
  refine ⟨rest.take n,rest.drop n,(List.take_append_drop n rest).symm,?_,rfl⟩
  rw [← List.length_pos_iff, List.length_take]
  omega

theorem readLoop_step (hs : s.readLoop side onData flush e = some t) : LoopStep onData flush s side e t := by
  cases hpc : (s.loop side).pc with
  | spawned =>
    cases e <;> simp only [readLoop, hpc] at hs
    case start =>
      obtain rfl := Option.some.inj hs
      exact .start hpc
    all_goals cases hs
  | reading =>
    cases e <;> simp only [readLoop, hpc] at hs
    case read outcome =>
      cases outcome with
      | data input =>
        simp only at hs
        split_ifs at hs
        rcases he : (onData s.chain input).error with _ | err
        · simp only [he] at hs
          obtain rfl := Option.some.inj hs
          exact .data input hpc he
        · cases err
          case endless => simp [he] at hs
          all_goals
            simp only [he] at hs
            obtain rfl := Option.some.inj hs
            exact .refused input hpc (by simp [he])
      | eof =>
        have hchain : (s.seeEof side).chain = s.chain := rfl
        simp only [hchain] at hs
        cases he : (flush s.chain).error with
        | none =>
          simp only [he] at hs
          obtain rfl := Option.some.inj hs
          exact .eof hpc he
        | some err =>
          simp only [he] at hs
          obtain rfl := Option.some.inj hs
          exact .thrown hpc (by simp [he])
      | error =>
        obtain rfl := Option.some.inj hs
        exact .readError hpc
      | operationAborted =>
        simp only at hs
        split_ifs at hs with hc
        obtain rfl := Option.some.inj hs
        exact .aborted hpc hc
    all_goals cases hs
  | writing sent rest more =>
    cases e
    case transfer n =>
      simp only [readLoop, hpc] at hs
      obtain ⟨now,left,rfl,hn,rfl⟩ := transfer_eq_some hs
      exact .transfer sent now left more n hn hpc
    case writeOk =>
      cases rest with
      | nil =>
        simp only [readLoop, hpc] at hs
        obtain rfl := Option.some.inj hs
        exact .writeOk sent more hpc
      | cons => simp [readLoop, hpc] at hs
    case writeFail =>
      simp only [readLoop, hpc] at hs
      obtain rfl := Option.some.inj hs
      exact .writeFail sent rest more hpc
    all_goals simp [readLoop, hpc] at hs
  | flushing sent rest more =>
    cases e
    case transfer n =>
      simp only [readLoop, hpc] at hs
      obtain ⟨now,left,rfl,hn,rfl⟩ := transfer_eq_some hs
      exact .flushTransfer sent now left more n hn hpc
    case writeOk =>
      cases rest with
      | nil =>
        simp only [readLoop, hpc] at hs
        obtain rfl := Option.some.inj hs
        exact .flushOk sent more hpc
      | cons => simp [readLoop, hpc] at hs
    case writeFail =>
      simp only [readLoop, hpc] at hs
      obtain rfl := Option.some.inj hs
      exact .flushFail sent rest more hpc
    all_goals simp [readLoop, hpc] at hs
  | ended => cases e <;> simp [readLoop, hpc] at hs

theorem LoopStep.alive (h : LoopStep onData flush s side e t) : (s.loop side).pc ≠ .ended := by
  cases h <;> simp [*]

theorem LoopStep.reading {outcome : ReadOutcome} (h : LoopStep onData flush s side (.read outcome) t) :
    (s.loop side).pc = .reading := by
  cases h <;> assumption

end Steps

/-- What holds of a loop whenever it is suspended or over. -/
structure Settled (s : SessionState) (t : Side) : Prop where
  noFlush : ∀ sent rest more, (s.loop t).pc ≠ .flushing sent rest more
  ended : (s.loop t).pc = .ended → s.closed = true ∨ (s.loop t).eof = true
  eof : (s.loop t).eof = true → (s.loop t).pc = .ended

/-- The number of loops that are over. -/
def endedCount (s : SessionState) : ℕ :=
  (if (s.loop .localSide).pc = .ended then 1 else 0) + if (s.loop .remoteSide).pc = .ended then 1 else 0

theorem endedCount_eq (s : SessionState) (side : Side) : s.endedCount =
    (if (s.loop side).pc = .ended then 1 else 0) + if (s.loop side.opposite).pc = .ended then 1 else 0 := by
  cases side
  · rfl
  · exact Nat.add_comm _ _

theorem endedCount_eq_two (s : SessionState) :
    s.endedCount = 2 ↔ ∀ t, (s.loop t).pc = .ended := by
  rw [endedCount]
  constructor
  · intro h t
    cases t <;> split_ifs at h <;> simp_all
  · intro h
    rw [if_pos (h _), if_pos (h _)]

/-- The invariant of every run. -/
structure Inv (s : SessionState) : Prop where
  silent : s.chain.Silent
  isOpen : ∀ t, (s.sock t).isOpen = !s.closed
  settled : ∀ t, s.Settled t
  both : (∀ t, (s.loop t).eof = true) → s.closed = true
  done : s.doneCount = s.endedCount
  connClose : s.connClose = if s.endedCount = 2 then [s.logConnClose] else []

/-- The part of the invariant that holds while a loop is between two suspensions. -/
structure Running (s : SessionState) (side : Side) : Prop where
  silent : s.chain.Silent
  isOpen : ∀ t, (s.sock t).isOpen = !s.closed
  other : s.Settled side.opposite
  alive : (s.loop side).pc ≠ .ended
  done : s.doneCount = if (s.loop side.opposite).pc = .ended then 1 else 0
  connClose : s.connClose = []

theorem Inv.running {s : SessionState} (h : s.Inv) {side : Side} (hpc : (s.loop side).pc ≠ .ended) :
    s.Running side := by
  have hcount := s.endedCount_eq side
  rw [if_neg hpc, Nat.zero_add] at hcount
  refine ⟨h.silent,h.isOpen,h.settled _,hpc,h.done.trans hcount,?_⟩
  rw [h.connClose, if_neg]
  intro h2
  rw [endedCount_eq_two] at h2
  exact hpc (h2 side)

namespace Running
variable {s : SessionState} {side : Side}

theorem finish (h : s.Running side) (he : s.closed = true ∨ (s.loop side).eof = true)
    (hb : (∀ t, (s.loop t).eof = true) → s.closed = true) : (s.finish side).Inv := by
  have hpc : ((s.finish side).loop side).pc = .ended := by simp [setPc]
  have hother : (s.finish side).loop side.opposite = s.loop side.opposite := by simp [setPc]
  have heof : ∀ t, ((s.finish side).loop t).eof = (s.loop t).eof := by
    intro t
    obtain rfl | rfl := t.eq_or_eq_opposite side <;> simp [setPc]
  have hcount : (s.finish side).endedCount = s.doneCount + 1 := by
    rw [endedCount_eq _ side, if_pos hpc, hother, ← h.done, Nat.add_comm]
  constructor
  case silent => simpa using h.silent
  case isOpen => simpa using h.isOpen
  case settled =>
    intro t
    obtain rfl | rfl := t.eq_or_eq_opposite side
    · refine ⟨fun _ _ _ h => ?_,fun _ => ?_,fun _ => hpc⟩
      · rw [hpc] at h
        cases h
      · rwa [finish_closed, heof]
    · obtain ⟨h₁,h₂,h₃⟩ := h.other
      rw [← hother] at h₁ h₂ h₃
      exact ⟨h₁,by simpa using h₂,h₃⟩
  case both =>
    intro h
    rw [finish_closed]
    exact hb fun t => heof t ▸ h t
  case done => rw [finish_doneCount, hcount]
  case connClose => rw [finish_connClose, hcount, h.connClose, List.nil_append]

theorem setPc (h : s.Running side) (heof : (s.loop side).eof = false) (pc : LoopPc)
    (hpc : pc ≠ .ended) (hflush : ∀ sent rest more, pc ≠ .flushing sent rest more) :
    (s.setPc side pc).Inv := by
  have hside : (s.setPc side pc).loop side = { s.loop side with pc := pc } := by
    simp [SessionState.setPc]
  have hother : (s.setPc side pc).loop side.opposite = s.loop side.opposite := by
    simp [SessionState.setPc]
  have hcount : (s.setPc side pc).endedCount = s.doneCount := by
    rw [endedCount_eq _ side, hside, if_neg hpc, hother, h.done, Nat.zero_add]
  constructor
  case silent => exact h.silent
  case isOpen => exact h.isOpen
  case settled =>
    intro t
    obtain rfl | rfl := t.eq_or_eq_opposite side
    · refine ⟨?_,?_,?_⟩ <;> rw [hside]
      · exact hflush
      · intro h
        exact absurd h hpc
      · intro h
        simp [heof] at h
    · obtain ⟨h₁,h₂,h₃⟩ := h.other
      refine ⟨?_,?_,?_⟩ <;> rw [hother]
      exacts [h₁,h₂,h₃]
  case both =>
    intro hb
    have := hb side
    simp [hside, heof] at this
  case done => exact hcount.symm
  case connClose =>
    have hle : s.doneCount ≠ 2 := by
      rw [h.done]
      split <;> decide
    rw [hcount, if_neg hle]
    exact h.connClose

theorem next (h : s.Running side) (heof : (s.loop side).eof = false) : (s.next side).Inv := by
  rw [SessionState.next]
  split
  case isTrue hc => exact h.finish (.inl hc) fun _ => hc
  case isFalse => exact h.setPc heof _ (by simp) (by simp)

theorem writeNext (h : s.Running side) (heof : (s.loop side).eof = false) (outs : DataBufferList) :
    (s.writeNext side outs).Inv := by
  cases outs with
  | nil => exact h.next heof
  | cons out more => exact h.setPc heof _ (by simp) (by simp)

theorem setChain (h : s.Running side) {chain : ProcessorChain ProcessorPtr} (hc : chain.Silent) :
    Running { s with chain := chain } side :=
  ⟨hc,h.isOpen,⟨h.other.noFlush,h.other.ended,h.other.eof⟩,h.alive,h.done,h.connClose⟩

theorem setLoop (h : s.Running side) {l : ReadLoop} (hl : l.pc ≠ .ended) :
    (s.setLoop side l).Running side := by
  obtain ⟨h₁,h₂,h₃⟩ := h.other
  refine ⟨h.silent,h.isOpen,?_,by simpa using hl,by simpa using h.done,h.connClose⟩
  refine ⟨?_,?_,?_⟩ <;> rw [setLoop_loop_opposite]
  exacts [h₁,h₂,h₃]

theorem setSock (h : s.Running side) {k : Socket} {t : Side} (hk : k.isOpen = (s.sock t).isOpen) :
    (s.setSock t k).Running side := by
  refine ⟨h.silent,?_,⟨h.other.noFlush,h.other.ended,h.other.eof⟩,h.alive,h.done,h.connClose⟩
  intro u
  rw [SessionState.setSock]
  by_cases hu : u = t
  · subst hu
    simp [hk, h.isOpen]
  · simp [hu, h.isOpen]

theorem closeAll (h : s.Running side) : s.closeAll.Running side :=
  ⟨h.silent,fun _ => rfl,⟨h.other.noFlush,fun _ => .inl rfl,h.other.eof⟩,h.alive,h.done,h.connClose⟩

theorem closeOnce (h : s.Running side) : s.closeOnce.Running side := by
  rw [SessionState.closeOnce]
  split
  · exact h
  · exact h.closeAll

end Running

/-- The event is a failed read or write, or data the chain throws at. -/
def Fault (s : SessionState) : Side × LoopEvent → Prop
  | (side,.read (.data input)) => (onData side s.chain input).error ≠ none
  | (_,.read .error) => True
  | (_,.writeFail) => True
  | _ => False

/-- What a step of a loop can be when flushes emit nothing. -/
inductive Turn (s : SessionState) (side : Side) : LoopEvent → SessionState → Prop
  | start (hpc : (s.loop side).pc = .spawned) : Turn s side .start (s.next side)
  | data (input : ByteVector) (hpc : (s.loop side).pc = .reading)
      (he : (onData side s.chain input).error = none) :
      Turn s side (.read (.data input))
        ((s.absorb side (onData side s.chain input)).writeNext side (onData side s.chain input).output)
  | eof (hpc : (s.loop side).pc = .reading) : Turn s side (.read .eof)
      ((if (s.loop side.opposite).eof then (s.seeEof side).closeAll else s.seeEof side).finish side)
  | aborted (hpc : (s.loop side).pc = .reading) (hc : s.closed = true) :
      Turn s side (.read .operationAborted) (s.finish side)
  | transfer (sent now rest : ByteVector) (more : DataBufferList) (n : ℕ)
      (hpc : (s.loop side).pc = .writing sent (now ++ rest) more) :
      Turn s side (.transfer n) ((s.setPc side (.writing (sent ++ now) rest more)).setSock side.opposite
        { s.sock side.opposite with written := (s.sock side.opposite).written ++ now })
  | writeOk (sent : ByteVector) (more : DataBufferList)
      (hpc : (s.loop side).pc = .writing sent [] more) :
      Turn s side .writeOk ((s.count side sent.length).writeNext side more)
  | fault (e : LoopEvent) (chain : ProcessorChain ProcessorPtr) (hc : chain.Silent)
      (hpc : (s.loop side).pc ≠ .ended) (hf : s.Fault (side,e)) :
      Turn s side e ({ s with chain := chain }.closeOnce.finish side)

theorem onData_silent {chain : ProcessorChain ProcessorPtr} (h : chain.Silent) (side : Side)
    (x : ByteSpan) : (onData side chain x).state.Silent := by
  cases side
  · exact h.onLocalData x
  · exact h.onRemoteData x

theorem flush_silent {chain : ProcessorChain ProcessorPtr} (h : chain.Silent) (side : Side) :
    flush side chain = ⟨chain,[],none⟩ := by
  cases side
  · exact h.flushLocal
  · exact h.flushRemote

theorem step_turn {s s' : SessionState} (h : s.Inv) {side : Side} {e : LoopEvent}
    (hs : s.step (side,e) = some s') : s.Turn side e s' := by
  have hnoFlush := (h.settled side).noFlush
  have hflush := flush_silent h.silent side
  rw [step_eq] at hs
  cases readLoop_step hs with
  | start hpc => exact .start hpc
  | data input hpc he => exact .data input hpc he
  | refused input hpc he => exact .fault _ _ (onData_silent h.silent side input) (by simp [hpc]) he
  | eof hpc =>
    have hnone := absorb_nothing (s.seeEof side) side
    rw [show (s.seeEof side).chain = s.chain from rfl] at hnone
    rw [hflush, hnone, flushNext, show (s.seeEof side).loop side.opposite = s.loop side.opposite by simp [seeEof]]
    exact .eof hpc
  | thrown hpc he => exact absurd (congrArg Stage.Outcome.error hflush) he
  | readError hpc => exact .fault _ s.chain h.silent (by simp [hpc]) trivial
  | aborted hpc hc => exact .aborted hpc hc
  | transfer sent now rest more n hn hpc => exact .transfer sent now rest more n hpc
  | writeOk sent more hpc => exact .writeOk sent more hpc
  | writeFail sent rest more hpc => exact .fault _ s.chain h.silent (by simp [hpc]) trivial
  | flushTransfer sent now rest more n hn hpc => exact absurd hpc (hnoFlush _ _ _)
  | flushOk sent more hpc => exact absurd hpc (hnoFlush _ _ _)
  | flushFail sent rest more hpc => exact absurd hpc (hnoFlush _ _ _)

/-- A suspended loop has not seen the end of its socket. -/
theorem Inv.eof_false {s : SessionState} (h : s.Inv) {side : Side} (hpc : (s.loop side).pc ≠ .ended) :
    (s.loop side).eof = false := by
  cases he : (s.loop side).eof with
  | false => rfl
  | true => exact absurd ((h.settled side).eof he) hpc

theorem Turn.inv {s s' : SessionState} {side : Side} {e : LoopEvent} (ht : s.Turn side e s')
    (h : s.Inv) : s'.Inv := by
  cases ht with
  | start hpc =>
    have halive : (s.loop side).pc ≠ .ended := by simp [hpc]
    exact (h.running halive).next (h.eof_false halive)
  | data input hpc he =>
    have halive : (s.loop side).pc ≠ .ended := by simp [hpc]
    have hr := ((h.running halive).setChain (onData_silent h.silent side input)).setLoop (l :=
      { s.loop side with produced := (s.loop side).produced ++ (onData side s.chain input).bytes }) halive
    exact hr.writeNext (by simpa using h.eof_false halive) _
  | eof hpc =>
    have halive : (s.loop side).pc ≠ .ended := by simp [hpc]
    have hr := ((h.running halive).setLoop (l := { s.loop side with eof := true }) halive).setSock
      (t := side.opposite) (k := { s.sock side.opposite with sendShut := true }) rfl
    have heof : ((s.seeEof side).loop side).eof = true := by simp [seeEof]
    have hother : (s.seeEof side).loop side.opposite = s.loop side.opposite := by simp [seeEof]
    split
    case isTrue => exact hr.closeAll.finish (.inl rfl) fun _ => rfl
    case isFalse hn =>
      apply hr.finish (.inr heof)
      intro hb
      have := hb side.opposite
      exact absurd (hother ▸ this) hn
  | aborted hpc hc =>
    have halive : (s.loop side).pc ≠ .ended := by simp [hpc]
    exact (h.running halive).finish (.inl hc) fun _ => hc
  | transfer sent now rest more n hpc =>
    have halive : (s.loop side).pc ≠ .ended := by simp [hpc]
    have hr := (h.running halive).setSock (t := side.opposite)
      (k := { s.sock side.opposite with written := (s.sock side.opposite).written ++ now }) rfl
    exact hr.setPc (h.eof_false halive) (.writing (sent ++ now) rest more) (by simp) (by simp)
  | writeOk sent more hpc =>
    have halive : (s.loop side).pc ≠ .ended := by simp [hpc]
    have hr : (s.count side sent.length).Running side := (h.running halive).setLoop halive
    exact hr.writeNext (by simpa [count] using h.eof_false halive) more
  | fault e chain hc halive =>
    have hr := ((h.running halive).setChain hc).closeOnce
    exact hr.finish (.inl (by simp)) fun _ => by simp

theorem step_inv {s s' : SessionState} {a : Side × LoopEvent} (h : s.Inv) (hs : s.step a = some s') :
    s'.Inv :=
  (step_turn h hs).inv h

/-- The bytes a loop still has to write. -/
def pending : LoopPc → ByteVector
  | .writing _ rest more => rest ++ more.flatten
  | .flushing _ rest more => rest ++ more.flatten
  | _ => []

/-- The bytes of the pending write that have been transferred but not yet counted. -/
def transferred : LoopPc → ByteVector
  | .writing sent _ _ => sent
  | .flushing sent _ _ => sent
  | _ => []

/-- Everything the chain produced in a loop is written or pending, and what is written is
counted or belongs to the pending write. -/
structure Accounted (s : SessionState) (t : Side) : Prop where
  produced : (s.loop t).produced = (s.sock t.opposite).written ++ pending (s.loop t).pc
  bytes : UInt64.ofNat (s.sock t.opposite).written.length =
    (s.loop t).bytes + UInt64.ofNat (transferred (s.loop t).pc).length

theorem Accounted.congr {s s' : SessionState} {t : Side} (h : s.Accounted t)
    (hl : s'.loop t = s.loop t) (hw : (s'.sock t.opposite).written = (s.sock t.opposite).written) :
    s'.Accounted t := by
  refine ⟨?_,?_⟩ <;> rw [hl, hw]
  exacts [h.produced,h.bytes]

/-- The invariant of the runs without faults. -/
structure Clean (s : SessionState) : Prop where
  closed : s.closed = true → ∀ t, (s.loop t).eof = true
  accounted : ∀ t, s.Accounted t

/-- While a loop is suspended in such a run the session is open. -/
theorem Clean.closed_false {s : SessionState} (hc : s.Clean) (h : s.Inv) (side : Side)
    (halive : (s.loop side).pc ≠ .ended) : s.closed = false := by
  cases hs : s.closed with
  | false => rfl
  | true => exact absurd (((h.settled side).eof (hc.closed hs side))) halive

theorem writeNext_open {s : SessionState} (hs : s.closed = false) (side : Side)
    (outs : DataBufferList) : ∃ pc, s.writeNext side outs = s.setPc side pc ∧
      pending pc = outs.flatten ∧ transferred pc = [] := by
  cases outs with
  | nil => exact ⟨.reading,by simp [writeNext, next, hs],rfl,rfl⟩
  | cons out more => exact ⟨.writing [] out more,rfl,rfl,rfl⟩

/-- A loop whose writes are done and counted goes on to the next ones. -/
theorem clean_writeNext {s : SessionState} {side : Side} {outs : DataBufferList}
    (hs : s.closed = false) (hother : s.Accounted side.opposite)
    (hp : (s.loop side).produced = (s.sock side.opposite).written ++ outs.flatten)
    (hb : UInt64.ofNat (s.sock side.opposite).written.length = (s.loop side).bytes) :
    (s.writeNext side outs).Clean := by
  obtain ⟨pc,hw,hpend,htrans⟩ := writeNext_open hs side outs
  rw [hw]
  refine ⟨fun h => absurd (hs.symm.trans h) (by simp),fun t => ?_⟩
  obtain rfl | rfl := t.eq_or_eq_opposite side
  · constructor
    case produced => simpa [setPc, hpend] using hp
    case bytes => simpa [setPc, htrans] using hb
  · exact hother.congr (by simp [setPc]) rfl

theorem finish_accounted {s : SessionState} {side : Side} (h : ∀ t, s.Accounted t)
    (hpc : (s.loop side).pc = .reading) (t : Side) : (s.finish side).Accounted t := by
  obtain rfl | rfl := t.eq_or_eq_opposite side
  · obtain ⟨hp,hb⟩ := h t
    rw [hpc] at hp hb
    exact ⟨by simpa [setPc, pending] using hp,by simpa [setPc, transferred] using hb⟩
  · exact (h _).congr (by simp [setPc]) (by simp)

theorem Turn.clean {s s' : SessionState} {side : Side} {e : LoopEvent} (ht : s.Turn side e s')
    (h : s.Inv) (hc : s.Clean) (hf : ¬s.Fault (side,e)) : s'.Clean := by
  cases ht with
  | start hpc =>
    have hs := hc.closed_false h side (by simp [hpc])
    obtain ⟨hp,hb⟩ := hc.accounted side
    rw [hpc] at hp hb
    have hp : (s.loop side).produced = (s.sock side.opposite).written ++ ([] : DataBufferList).flatten := hp
    exact clean_writeNext hs (hc.accounted _) hp (by simpa [transferred] using hb)
  | data input hpc he =>
    have hs := hc.closed_false h side (by simp [hpc])
    obtain ⟨hp,hb⟩ := hc.accounted side
    rw [hpc] at hp hb
    refine clean_writeNext hs ((hc.accounted _).congr (by simp [absorb]) rfl) ?_ ?_
    · simpa [absorb, pending, Stage.Outcome.bytes] using hp
    · simpa [absorb, transferred] using hb
  | eof hpc =>
    have hs := hc.closed_false h side (by simp [hpc])
    have hacc : ∀ t, (s.seeEof side).Accounted t := by
      intro t
      obtain rfl | rfl := t.eq_or_eq_opposite side
      · obtain ⟨hp,hb⟩ := hc.accounted t
        exact ⟨by simpa [seeEof] using hp,by simpa [seeEof] using hb⟩
      · exact (hc.accounted _).congr (by simp [seeEof]) (by simp [seeEof])
    have hpc' : ((s.seeEof side).loop side).pc = .reading := by simpa [seeEof] using hpc
    split
    case isTrue ho =>
      refine ⟨fun _ t => ?_,fun t => ?_⟩
      · obtain rfl | rfl := t.eq_or_eq_opposite side
        · simp [setPc, closeAll, seeEof]
        · simpa [setPc, closeAll, seeEof] using ho
      · exact finish_accounted (s := (s.seeEof side).closeAll) (fun t => (hacc t).congr rfl rfl) hpc' t
    case isFalse =>
      refine ⟨fun hclosed => ?_,fun t => ?_⟩
      · rw [finish_closed] at hclosed
        exact absurd (hs.symm.trans hclosed) (by simp)
      · exact finish_accounted hacc hpc' t
  | aborted hpc hclosed =>
    have hs := hc.closed_false h side (by simp [hpc])
    exact absurd (hs.symm.trans hclosed) (by simp)
  | transfer sent now rest more n hpc =>
    have hs := hc.closed_false h side (by simp [hpc])
    obtain ⟨hp,hb⟩ := hc.accounted side
    rw [hpc] at hp hb
    refine ⟨fun h => absurd (hs.symm.trans h) (by simp),fun t => ?_⟩
    obtain rfl | rfl := t.eq_or_eq_opposite side
    · constructor
      case produced => simpa [setPc, pending] using hp
      case bytes =>
        have hadd : UInt64.ofNat ((s.sock t.opposite).written ++ now).length =
            (s.loop t).bytes + UInt64.ofNat (sent ++ now).length := by
          rw [List.length_append, List.length_append, UInt64.ofNat_add, UInt64.ofNat_add, hb,
            UInt64.add_assoc]
          rfl
        simpa [setPc, transferred] using hadd
    · exact (hc.accounted _).congr (by simp [setPc]) (by simp [setPc])
  | writeOk sent more hpc =>
    have hs := hc.closed_false h side (by simp [hpc])
    obtain ⟨hp,hb⟩ := hc.accounted side
    rw [hpc] at hp hb
    refine clean_writeNext hs ((hc.accounted _).congr (by simp [count]) rfl) ?_ ?_
    · simpa [count, pending] using hp
    · simpa [count, transferred] using hb
  | fault e chain hchain halive hfault => exact absurd hfault hf

theorem startSession_inv (id : UInt64) {chain : ProcessorChain ProcessorPtr} (h : chain.Silent) :
    (startSession id chain).Inv where
  silent := h
  isOpen _ := rfl
  settled _ := ⟨nofun,nofun,nofun⟩
  both h := by simpa [startSession] using h .localSide
  done := rfl
  connClose := rfl

theorem startSession_clean (id : UInt64) (chain : ProcessorChain ProcessorPtr) :
    (startSession id chain).Clean where
  closed h := by simp [startSession] at h
  accounted t := ⟨rfl,rfl⟩

/-- No step of the run is a fault. -/
abbrev FaultFree (s : SessionState) (events : List (Side × LoopEvent)) : Prop :=
  Meets step (fun s a => ¬s.Fault a) s events

theorem reach_clean {s s' : SessionState} (h : s.Inv) (hc : s.Clean)
    (hr : Reach step (fun s a => ¬s.Fault a) s s') : s'.Inv ∧ s'.Clean := by
  refine hr.invariant (P := fun s => s.Inv ∧ s.Clean) ⟨h,hc⟩ ?_
  rintro s u a ⟨h,hc⟩ hf hs
  exact ⟨step_inv h hs,(step_turn h hs).clean h hc hf⟩

theorem run_inv {s s' : SessionState} (h : s.Inv) {events : List (Side × LoopEvent)}
    (hr : run step s events = some s') : s'.Inv := by
  have hm : Meets step (fun _ _ => True) s events := fun _ _ _ _ _ _ => trivial
  exact (hm.reach hr).invariant h fun h _ hs => step_inv h hs

/-- Shutdown. Take any run of the two loops of a session on a chain that was built. If it
closed the sockets, it met a fault or both loops have seen the end of their socket. If it
met no fault and closed the sockets, all that the chain produced is written, and counted.
When both loops are over the session is closed, and exactly then its record is there. -/
theorem session_shutdown {C : Crypto} {R : RandomEngine} {host : Host} {reverse : Bool}
    {specs : List ByteSpan} {chain : ProcessorChain ProcessorPtr}
    (hbuild : buildProcessorChain C R host reverse specs = .ok (some chain)) (id : UInt64)
    (events : List (Side × LoopEvent)) (s : SessionState)
    (hrun : run step (startSession id chain) events = some s) :
    (∀ t, (s.sock t).isOpen = !s.closed) ∧
    (s.closed = true → ¬FaultFree (startSession id chain) events ∨ ∀ t, (s.loop t).eof = true) ∧
    (FaultFree (startSession id chain) events → s.closed = true → ∀ t,
      (s.sock t.opposite).written = (s.loop t).produced ∧
      (s.loop t).bytes = UInt64.ofNat (s.sock t.opposite).written.length) ∧
    ((∀ t, (s.loop t).pc = .ended) → s.closed = true ∧ s.connClose = [s.logConnClose]) ∧
    ((∃ t, (s.loop t).pc ≠ .ended) → s.connClose = []) := by
  have hstart := startSession_inv id (buildProcessorChain_silent hbuild)
  have hinv := run_inv hstart hrun
  have hclean : FaultFree (startSession id chain) events → s.Clean := fun hf =>
    (reach_clean hstart (startSession_clean id chain) (hf.reach hrun)).2
  refine ⟨hinv.isOpen,fun hc => ?_,fun hf hc t => ?_,fun hall => ?_,fun ⟨t,ht⟩ => ?_⟩
  · by_cases hf : FaultFree (startSession id chain) events
    · exact .inr ((hclean hf).closed hc)
    · exact .inl hf
  · have hended := (hinv.settled t).eof ((hclean hf).closed hc t)
    obtain ⟨hp,hb⟩ := (hclean hf).accounted t
    rw [hended] at hp hb
    exact ⟨by simpa [pending] using hp.symm,by simpa [transferred] using hb.symm⟩
  · have hcount := (endedCount_eq_two s).mpr hall
    refine ⟨?_,by rw [hinv.connClose, if_pos hcount]⟩
    by_cases hb : ∀ t, (s.loop t).eof = true
    · exact hinv.both hb
    · obtain ⟨t,ht⟩ := not_forall.mp hb
      exact ((hinv.settled t).ended (hall t)).resolve_right ht
  · rw [hinv.connClose, if_neg]
    intro h2
    exact ht ((endedCount_eq_two s).mp h2 t)

/-- One byte goes from the local to the remote socket, then both sides reach their end. -/
def oneByteEvents : List (Side × LoopEvent) :=
  [(.localSide,.start), (.remoteSide,.start), (.localSide,.read (.data [0x61])),
    (.remoteSide,.read .eof), (.localSide,.transfer 1), (.localSide,.writeOk),
    (.localSide,.read .eof)]

theorem session_shutdown_one_byte : ∃ chain s,
    buildProcessorChain CfbNonceProcessor.knownCrypto zeroEngine zeroHost false [] = .ok (some chain) ∧
    run step (startSession 7 chain) oneByteEvents = some s ∧
    s.closed = true ∧ s.connClose = [⟨7,0,1⟩] := by
  have hbuild : buildProcessorChain CfbNonceProcessor.knownCrypto zeroEngine zeroHost false [] =
      .ok (some [⟨({} : IdentityProcessor)⟩]) := rfl
  obtain ⟨s,hs,hended,hlog⟩ : ∃ s, run step (startSession 7 [⟨({} : IdentityProcessor)⟩])
      oneByteEvents = some s ∧ (∀ t, (s.loop t).pc = .ended) ∧ s.logConnClose = ⟨7,0,1⟩ :=
    ⟨_,rfl,fun t => by cases t <;> rfl,rfl⟩
  obtain ⟨-,-,-,hdone,-⟩ := session_shutdown hbuild 7 oneByteEvents s hs
  exact ⟨_,s,hbuild,hs,(hdone hended).1,hlog ▸ (hdone hended).2⟩

end SessionState

end Msg801.Tunnel
