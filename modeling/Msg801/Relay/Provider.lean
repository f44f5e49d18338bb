import Mathlib.Order.Basic
import Msg801.Lib.Transition
import Msg801.Relay.Node

/-! # The node that connects to the target

One coroutine of the node C reads the frames from A and acts on them; every session has a
coroutine that connects to the target, writes what has arrived in the meantime, and pumps
what the remote sends. The coroutines interleave at their awaits, and meet in the table of
the sessions and in the sessions themselves.
-/
namespace Msg801.Relay
open Transition

/-- A session at C; the remote socket exists from `remoteConnected` on. -/
structure SessionState extends SessionEnd where
  arrivalBuffer : List ByteVector := []
  remoteConnected : Bool := false
  connecting : Bool := false

namespace SessionState

def onEnd (x : SessionState) (g : SessionEnd → SessionEnd) : SessionState :=
  { x with toSessionEnd := g x.toSessionEnd }

/-- A session that starts to connect. -/
def connect : SessionState where
  pc := .connecting
  connecting := true

/-- The remote socket becomes the session's. -/
def connectedTo (x : SessionState) : SessionState :=
  { x with
    remoteConnected := true
    connecting := false }

/-- The loop over the arrival buffer, and what follows it up to the next await. -/
def drain (x : SessionState) : List ByteVector → SessionState
  | b :: bs => x.onEnd (·.suspend (.draining b bs))
  | [] =>
    let x := { x with arrivalBuffer := [] }
    let x := if x.halfCloseRecv then x.onEnd .shutdown else x
    x.onEnd .loop

section Drained
variable (x : SessionState)

@[simp] theorem drain_nil_pc :
    (x.drain []).pc = if x.closed then SessionPc.ended else SessionPc.reading := by
  cases h : x.halfCloseRecv <;> simp [drain, h, onEnd, SessionEnd.loop, SessionEnd.suspend, SessionEnd.shutdown]

@[simp] theorem drain_nil_arrivalBuffer : (x.drain []).arrivalBuffer = [] := by
  cases h : x.halfCloseRecv <;> simp [drain, h, onEnd]

@[simp] theorem drain_nil_shutdownSend :
    (x.drain []).socket.shutdownSend = (x.socket.shutdownSend || x.halfCloseRecv) := by
  cases h : x.halfCloseRecv <;> simp [drain, h, onEnd, SessionEnd.loop, SessionEnd.suspend, SessionEnd.shutdown]

@[simp] theorem drain_isOpen (bs : List ByteVector) :
    (x.drain bs).socket.isOpen = x.socket.isOpen := by
  cases bs with
  | cons b bs => rfl
  | nil => cases h : x.halfCloseRecv <;>
      simp [drain, h, onEnd, SessionEnd.loop, SessionEnd.suspend, SessionEnd.shutdown]

theorem drain_failed (bs : List ByteVector) :
    (x.drain bs).socket.readFailed = x.socket.readFailed ∧
      (x.drain bs).socket.writeFailed = x.socket.writeFailed := by
  cases bs with
  | cons b bs => exact ⟨rfl,rfl⟩
  | nil => cases h : x.halfCloseRecv <;>
      simp [drain, h, onEnd, SessionEnd.loop, SessionEnd.suspend, SessionEnd.shutdown]

theorem drain_submitted (bs : List ByteVector) : (x.drain bs).submitted = x.submitted := by
  cases bs with
  | cons b bs => rfl
  | nil => cases h : x.halfCloseRecv <;>
      simp [drain, h, onEnd, SessionEnd.loop, SessionEnd.suspend, SessionEnd.shutdown]

/-- Nothing else changes in the loop over the arrival buffer. -/
theorem drain_frame (bs : List ByteVector) : (x.drain bs).remoteConnected = x.remoteConnected ∧
    (x.drain bs).closed = x.closed ∧ (x.drain bs).halfCloseRecv = x.halfCloseRecv ∧
    (x.drain bs).socket.written = x.socket.written := by
  cases bs with
  | cons b bs => exact ⟨rfl,rfl,rfl,rfl⟩
  | nil => cases h : x.halfCloseRecv <;>
      simp [drain, h, onEnd, SessionEnd.loop, SessionEnd.suspend, SessionEnd.shutdown]

end Drained

/-- The coroutine of a session from one await to the next. A write that fails leaves it by
an exception. -/
def resume (uuid : Uuid) (x : SessionState) : SessionEvent → Option SessionState
  | .connected ok =>
    if x.pc = .connecting then
      if ok then
        some (x.connectedTo.onEnd (·.submit ⟨.sessionOk,buildUuidBody uuid⟩))
      else some (x.onEnd (·.submit ⟨.sessionErr,buildUuidBody uuid⟩))
    else none
  | .sent =>
    match x.pc with
    | .sending f _ =>
      match f.method with
      | .sessionOk => some (x.drain x.arrivalBuffer)
      | .sessionErr => some (x.onEnd .giveUp)
      | _ => some (x.onEnd (·.onSent f))
    | _ => none
  | .readSome r =>
    if x.pc = .reading ∧ x.CanRead r then some (x.onEnd fun y => (y.receive r).onRead uuid r) else none
  | .transferred n =>
    match x.pc with
    | .draining rest left =>
      if CanTransfer True x.toSessionEnd rest n then
        let x := x.onEnd (·.write (rest.take n))
        some (if n = rest.length then x.drain left
          else x.onEnd (·.suspend (.draining (rest.drop n) left)))
      else none
    | _ => none
  | .writeFailed =>
    match x.pc with
    | .draining _ _ => some (x.onEnd (·.fail.suspend .ended))
    | _ => none

def buffer (x : SessionState) (data : ByteVector) : SessionState :=
  { x with arrivalBuffer := x.arrivalBuffer ++ [data] }

@[simp] theorem buffer_toSessionEnd (x : SessionState) (data : ByteVector) :
    (x.buffer data).toSessionEnd = x.toSessionEnd := rfl

/-- The remote, if there is one, is told that nothing more comes. -/
def recvEof (x : SessionState) : SessionState :=
  if x.remoteConnected then x.onEnd (·.recvEof.shutdown) else x.onEnd .recvEof

/-- The remote, if there is one, is closed. -/
def cutOff (x : SessionState) : SessionState := if x.remoteConnected then x.onEnd .close else x

/-- The cases of the reader's switch that look a session up. -/
def onFrame (x : SessionState) (f : Frame) : Reaction SessionState :=
  match f.method with
  | .data =>
    let data := f.body.drop UUID_BYTES
    if x.closed then { session := x }
    else if x.remoteConnected then
      { session := x
        write := some data }
    else if x.connecting then { session := x.buffer data }
    else { session := x }
  | .dataEof =>
    let x := x.recvEof
    if x.halfCloseSend then
      { session := x.onEnd .markClosed
        erase := true }
    else { session := x }
  | .sessionClose =>
    { session := (x.onEnd .markClosed).cutOff
      erase := true }
  | _ => { session := x }

theorem cutOff_steady (x : SessionState) : x.cutOff.Steady x.toSessionEnd := by
  rw [cutOff]
  split_ifs <;> exact ⟨rfl,rfl,rfl,rfl⟩

theorem recvEof_steady (x : SessionState) : x.recvEof.Steady x.toSessionEnd := by
  rw [recvEof]
  split_ifs <;> exact ⟨rfl,rfl,rfl,rfl⟩

theorem onFrame_steady (x : SessionState) (f : Frame) : (x.onFrame f).session.Steady x.toSessionEnd := by
  rw [onFrame]
  split
  · split_ifs <;> exact ⟨rfl,rfl,rfl,rfl⟩
  · dsimp only
    split_ifs <;> exact recvEof_steady x
  · exact cutOff_steady (x.onEnd .markClosed)
  · exact ⟨rfl,rfl,rfl,rfl⟩

theorem cutOff_remote (x : SessionState) : x.cutOff.remoteConnected = x.remoteConnected ∧
    (x.remoteConnected = false → x.cutOff.socket.isOpen = x.socket.isOpen) := by
  rw [cutOff]
  split_ifs with h
  · exact ⟨rfl,fun hc => absurd h (by simp [hc])⟩
  · exact ⟨rfl,fun _ => rfl⟩

/-- The reader neither gives a session a remote nor takes it away. -/
theorem onFrame_remote (x : SessionState) (f : Frame) :
    (x.onFrame f).session.remoteConnected = x.remoteConnected ∧
    (x.remoteConnected = false → (x.onFrame f).session.socket.isOpen = x.socket.isOpen) := by
  have hrecv : x.recvEof.remoteConnected = x.remoteConnected ∧ x.recvEof.socket.isOpen = x.socket.isOpen := by
    rw [recvEof]
    split_ifs <;> exact ⟨rfl,rfl⟩
  rw [onFrame]
  split
  · split_ifs <;> exact ⟨rfl,fun _ => rfl⟩
  · dsimp only
    split_ifs <;> exact ⟨hrecv.1,fun _ => hrecv.2⟩
  · exact cutOff_remote (x.onEnd .markClosed)
  · exact ⟨rfl,fun _ => rfl⟩

theorem cutOff_failed (x : SessionState) : x.cutOff.socket.readFailed = x.socket.readFailed ∧
    x.cutOff.socket.writeFailed = x.socket.writeFailed := by
  rw [cutOff]
  split_ifs <;> exact ⟨rfl,rfl⟩

/-- What the reader does on a frame is no failure of the socket. -/
theorem onFrame_failed (x : SessionState) (f : Frame) :
    (x.onFrame f).session.socket.readFailed = x.socket.readFailed ∧
      (x.onFrame f).session.socket.writeFailed = x.socket.writeFailed := by
  have hrecv : x.recvEof.socket.readFailed = x.socket.readFailed ∧
      x.recvEof.socket.writeFailed = x.socket.writeFailed := by
    rw [recvEof]
    split_ifs <;> exact ⟨rfl,rfl⟩
  rw [onFrame]
  split
  · split_ifs <;> exact ⟨rfl,rfl⟩
  · dsimp only
    split_ifs <;> exact hrecv
  · exact cutOff_failed (x.onEnd .markClosed)
  · exact ⟨rfl,rfl⟩

/-- Without a remote nothing is written. -/
theorem onFrame_unconnected {x : SessionState} (f : Frame) (hc : x.remoteConnected = false) :
    (x.onFrame f).write = none ∧ (x.onFrame f).session.socket.written = x.socket.written := by
  have hrecv : x.recvEof = x.onEnd .recvEof := by simp [recvEof, hc]
  have hcut : (x.onEnd .markClosed).cutOff = x.onEnd .markClosed := by simp [cutOff, onEnd, hc]
  rw [onFrame]
  split
  · dsimp only
    split_ifs with hcl hconn
    · exact ⟨rfl,rfl⟩
    · cases hc.symm.trans hconn
    · exact ⟨rfl,rfl⟩
    · exact ⟨rfl,rfl⟩
  · rw [hrecv]
    dsimp only
    split_ifs <;> exact ⟨rfl,rfl⟩
  · rw [hcut]
    exact ⟨rfl,rfl⟩
  · exact ⟨rfl,rfl⟩

/-- What the coroutine of a session can do between two awaits. -/
inductive Resumes (uuid : Uuid) (x : SessionState) : SessionEvent → SessionState → Prop
  | connected (hpc : x.pc = .connecting) : Resumes uuid x (.connected true)
      (x.connectedTo.onEnd (·.submit ⟨.sessionOk,buildUuidBody uuid⟩))
  | refused (hpc : x.pc = .connecting) : Resumes uuid x (.connected false)
      (x.onEnd (·.submit ⟨.sessionErr,buildUuidBody uuid⟩))
  | answered (f : Frame) (w : Bool) (hpc : x.pc = .sending f w) (hm : f.method = .sessionOk) :
      Resumes uuid x .sent (x.drain x.arrivalBuffer)
  | givenUp (f : Frame) (w : Bool) (hpc : x.pc = .sending f w) (hm : f.method = .sessionErr) :
      Resumes uuid x .sent (x.onEnd .giveUp)
  | pumped (f : Frame) (w : Bool) (hpc : x.pc = .sending f w) (hok : f.method ≠ .sessionOk)
      (herr : f.method ≠ .sessionErr) : Resumes uuid x .sent (x.onEnd (·.onSent f))
  | read (r : ReadSome) (hpc : x.pc = .reading) (hr : x.CanRead r) :
      Resumes uuid x (.readSome r) (x.onEnd fun y => (y.receive r).onRead uuid r)
  | drained (rest : ByteVector) (left : List ByteVector) (hpc : x.pc = .draining rest left) :
      Resumes uuid x (.transferred rest.length) ((x.onEnd (·.write rest)).drain left)
  | draining (n : ℕ) (rest : ByteVector) (left : List ByteVector) (hpc : x.pc = .draining rest left)
      (hn : n < rest.length) : Resumes uuid x (.transferred n)
        ((x.onEnd (·.write (rest.take n))).onEnd (·.suspend (.draining (rest.drop n) left)))
  | failed (rest : ByteVector) (left : List ByteVector) (hpc : x.pc = .draining rest left) :
      Resumes uuid x .writeFailed (x.onEnd (·.fail.suspend .ended))

theorem resume_resumes {uuid : Uuid} {x y : SessionState} {e : SessionEvent}
    (h : x.resume uuid e = some y) : Resumes uuid x e y := by
  cases e with
  | connected ok =>
    rw [resume] at h
    split_ifs at h with hpc hok <;> obtain rfl := Option.some.inj h
    · subst hok
      exact .connected hpc
    · obtain rfl : ok = false := by simpa using hok
      exact .refused hpc
  | sent =>
    cases hpc : x.pc <;> simp only [resume, hpc] at h
    case sending f w =>
      split at h <;> obtain rfl := Option.some.inj h
      · exact .answered f w hpc ‹_›
      · exact .givenUp f w hpc ‹_›
      · exact .pumped f w hpc ‹_› ‹_›
    all_goals cases h
  | readSome r =>
    rw [resume] at h
    split_ifs at h with hr
    obtain rfl := Option.some.inj h
    exact .read r hr.1 hr.2
  | transferred n =>
    cases hpc : x.pc <;> simp only [resume, hpc] at h
    case draining rest left =>
      by_cases hn : CanTransfer True x.toSessionEnd rest n
      case neg => simp [hn] at h
      rw [if_pos hn] at h
      obtain rfl := Option.some.inj h
      by_cases hlen : n = rest.length
      · subst hlen
        simpa using Resumes.drained rest left hpc
      · rw [if_neg hlen]
        refine .draining n rest left hpc (lt_of_le_of_ne ?_ hlen)
        obtain ⟨rfl,rfl⟩ | ⟨-,hle,-⟩ := hn
        · exact le_rfl
        · exact hle
    all_goals cases h
  | writeFailed =>
    cases hpc : x.pc <;> simp only [resume, hpc] at h
    case draining rest left =>
      obtain rfl := Option.some.inj h
      exact .failed rest left hpc
    all_goals cases h

end SessionState

/-- The node C. -/
structure Provider extends Node SessionState where
  sessions := .empty [] { pc := .ended }

inductive ProviderEvent where
  | read (r : ReadFrame)
  | transferred (n : ℕ)
  | writeFailed
  | session (i : ℕ) (e : SessionEvent)
  | transmit (i : ℕ)
  deriving DecidableEq

/-- The session a frame is for, where C looks one up. -/
def providerKey (f : Frame) : Option Uuid :=
  match f.method with
  | .data => if f.body.length < UUID_BYTES then none else some (f.body.take UUID_BYTES)
  | .dataEof => some f.body
  | .sessionClose => some f.body
  | _ => none

namespace Provider

/-- The connection to A is gone: all remotes are closed. -/
def endLoop (s : Provider) : Provider :=
  { s with
    sessions := s.sessions.clear .cutOff
    reader := .ended }

def forwardSession (s : Provider) (uuid : Uuid) : Provider :=
  { s with sessions := s.sessions.insert uuid .connect }

/-- The reader on a frame. -/
def onFrame (s : Provider) (f : Frame) : Provider :=
  let s := { s with frames := s.frames ++ [f] }
  if f.method = .eof then { s with lost := true }.endLoop
  else if f.method = .forwardSession then s.forwardSession f.body
  else
    match (providerKey f).bind s.sessions.entry with
    | some i => { s with toNode := s.dispatch i ((s.sessions.cell i).onFrame f) }
    | none => s

/-- The remote socket of a session is held by the session, and that by the table or by its
own coroutine. -/
def Live (s : Provider) (i : ℕ) : Prop := s.sessions.Entered i ∨ (s.sessions.cell i).pc ≠ .ended

instance (s : Provider) (i : ℕ) : Decidable (s.Live i) := inferInstanceAs (Decidable (_ ∨ _))

/-- The coroutine of a session has come to its next await, or to its end; its `aconn_write`
is over with nothing written only if the connection failed. -/
def onResumed (s : Provider) (i : ℕ) (e : SessionEvent) (x : SessionState) : Provider :=
  { s with
    sessions := s.sessions.put i x (x.pc = .ended ∧ e ≠ .writeFailed)
    broken := s.broken || (e == .sent && (s.sessions.cell i).unwritten) }

def step (s : Provider) : ProviderEvent → Option Provider
  | .read r =>
    if s.reader = .reading then
      match r with
      | .frame f => some (s.onFrame f)
      | _ => some { s with lost := true }.endLoop
    else none
  | .transferred n =>
    match s.reader with
    | .writing i rest =>
      let x := s.sessions.cell i
      if CanTransfer (s.Live i) x.toSessionEnd rest n then
        some { s with
          sessions := s.sessions.set i (x.onEnd (·.write (rest.take n)))
          reader := .next i (if n = rest.length then none else some (rest.drop n)) }
      else none
    | _ => none
  | .writeFailed =>
    match s.reader with
    | .writing i _ =>
      let x := s.sessions.cell i
      some { s with sessions := s.sessions.set i (x.onEnd .fail) }.endLoop
    | _ => none
  | .session i e =>
    if i < s.sessions.count then
      ((s.sessions.cell i).resume (s.sessions.key i) e).map (s.onResumed i e)
    else none
  | .transmit i =>
    let x := s.sessions.cell i
    match x.pc with
    | .sending f false =>
      if i < s.sessions.count ∧ s.broken = false then
        some { s with
          sessions := s.sessions.set i (x.onEnd (·.transmit f))
          wire := s.wire ++ [f] }
      else none
    | _ => none

/-- What a step can do. -/
inductive Turn (s : Provider) : ProviderEvent → Provider → Prop
  | eof (f : Frame) (hr : s.reader = .reading) (hm : f.method = .eof) :
      Turn s (.read (.frame f)) { s with
        frames := s.frames ++ [f]
        lost := true }.endLoop
  | lost (r : ReadFrame) (hr : s.reader = .reading) (hn : ∀ f, r ≠ .frame f) :
      Turn s (.read r) { s with lost := true }.endLoop
  | forwarded (f : Frame) (hr : s.reader = .reading) (hm : f.method = .forwardSession) :
      Turn s (.read (.frame f)) ({ s with frames := s.frames ++ [f] }.forwardSession f.body)
  | taken (f : Frame) (i : ℕ) (hr : s.reader = .reading) (hm : f.method ≠ .eof) (he : s.sessions.Entered i)
      (hk : providerKey f = some (s.sessions.key i)) : Turn s (.read (.frame f)) { s with
        toNode := { s.toNode with frames := s.frames ++ [f] }.dispatch i ((s.sessions.cell i).onFrame f) }
  | passed (f : Frame) (hr : s.reader = .reading) (hm : f.method ≠ .eof) (hm' : f.method ≠ .forwardSession)
      (hk : ∀ i, s.sessions.Entered i → providerKey f ≠ some (s.sessions.key i)) :
      Turn s (.read (.frame f)) { s with frames := s.frames ++ [f] }
  | written (n i : ℕ) (rest : ByteVector) (hr : s.reader = .writing i rest)
      (hn : CanTransfer (s.Live i) (s.sessions.cell i).toSessionEnd rest n) : Turn s (.transferred n) { s with
        sessions := s.sessions.set i ((s.sessions.cell i).onEnd (·.write (rest.take n)))
        reader := .next i (if n = rest.length then none else some (rest.drop n)) }
  | thrown (i : ℕ) (rest : ByteVector) (hr : s.reader = .writing i rest) : Turn s .writeFailed
      { s with sessions := s.sessions.set i ((s.sessions.cell i).onEnd .fail) }.endLoop
  | resumed (i : ℕ) (e : SessionEvent) (x : SessionState) (hi : i < s.sessions.count)
      (hx : (s.sessions.cell i).resume (s.sessions.key i) e = some x) :
      Turn s (.session i e) (s.onResumed i e x)
  | transmitted (i : ℕ) (f : Frame) (hi : i < s.sessions.count) (hb : s.broken = false)
      (hpc : (s.sessions.cell i).pc = .sending f false) : Turn s (.transmit i) { s with
        sessions := s.sessions.set i ((s.sessions.cell i).onEnd (·.transmit f))
        wire := s.wire ++ [f] }

theorem onFrame_turn {s : Provider} (hr : s.reader = .reading) (f : Frame) : s.Turn (.read (.frame f)) (s.onFrame f) := by
  rw [onFrame]
  split_ifs with hm hfwd
  case pos => exact .eof f hr hm
  case pos => exact .forwarded f hr hfwd
  case neg =>
    cases hl : (providerKey f).bind s.sessions.entry with
    | some i =>
      obtain ⟨u,hu,hi⟩ := Option.bind_eq_some_iff.mp hl
      obtain ⟨he,rfl⟩ := (s.sessions.entry_eq_some u i).mp hi
      exact .taken f i hr hm he hu
    | none =>
      refine .passed f hr hm hfwd fun i he hk => ?_
      rw [hk, Option.bind_some] at hl
      exact absurd (he.symm.trans hl) (by simp)

theorem step_turn {s t : Provider} {e : ProviderEvent} (hs : s.step e = some t) : s.Turn e t := by
  cases e with
  | read r =>
    by_cases hr : s.reader = .reading
    case neg => simp [step, hr] at hs
    cases r <;> simp only [step, if_pos hr, Option.some.injEq] at hs <;> subst hs
    case frame f => exact onFrame_turn hr f
    case nullopt => exact .lost .nullopt hr (by simp)
    case thrown => exact .lost .thrown hr (by simp)
  | transferred n =>
    cases hr : s.reader <;> simp only [step, hr] at hs
    case writing i rest =>
      by_cases hn : CanTransfer (s.Live i) (s.sessions.cell i).toSessionEnd rest n
      case neg => simp [hn] at hs
      rw [if_pos hn] at hs
      obtain rfl := Option.some.inj hs
      exact .written n i rest hr hn
    all_goals cases hs
  | writeFailed =>
    cases hr : s.reader <;> simp only [step, hr] at hs
    case writing i rest =>
      obtain rfl := Option.some.inj hs
      exact .thrown i rest hr
    all_goals cases hs
  | session i e =>
    rw [step] at hs
    split_ifs at hs with hi
    obtain ⟨x,hx,rfl⟩ := Option.map_eq_some_iff.mp hs
    exact .resumed i e x hi hx
  | transmit i =>
    cases hpc : (s.sessions.cell i).pc <;> simp only [step, hpc] at hs
    case sending f onWire =>
      cases onWire <;> simp only at hs
      case false =>
        split_ifs at hs with hi
        obtain rfl := Option.some.inj hs
        exact .transmitted i f hi.1 hi.2 hpc
      case true => cases hs
    all_goals cases hs

theorem step_broken {s t : Provider} {e : ProviderEvent} (hs : s.step e = some t) (ht : t.broken = false) :
    s.broken = false ∧ ∀ i, e = .session i .sent → (s.sessions.cell i).unwritten = false := by
  cases step_turn hs with
  | resumed i e x =>
    obtain ⟨hb,hw⟩ := Bool.or_eq_false_iff.mp ht
    refine ⟨hb,fun j hj => ?_⟩
    obtain ⟨rfl,rfl⟩ := ProviderEvent.session.inj hj
    simpa using hw
  | _ => exact ⟨ht,by simp⟩

/-- A connection to A that is lost stays so. -/
theorem step_cutOff {s t : Provider} {e : ProviderEvent} (hs : s.step e = some t) (h : s.CutOff) : t.CutOff := by
  cases step_turn hs with
  | resumed => exact h.imp_right fun hb => Bool.or_eq_true_iff.mpr (.inl hb)
  | eof | lost => exact .inl rfl
  | _ => exact h

/-- Only the coroutine of a session that is there goes on. -/
theorem lt_of_session {s t : Provider} {i : ℕ} {e : SessionEvent} (hs : s.step (.session i e) = some t) :
    i < s.sessions.count := by
  cases step_turn hs with
  | resumed _ _ _ hi => exact hi

/-- What a step can mean to a session. -/
inductive Moves (s : Provider) (i : ℕ) : ProviderEvent → View SessionState → Prop
  | same (e : ProviderEvent) : Moves s i e (s.view i)
  | resumed (e : SessionEvent) (x : SessionState)
      (hx : (s.sessions.cell i).resume (s.sessions.key i) e = some x) :
      Moves s i (.session i e) { s.view i with
        session := x
        entered := (s.view i).entered && !(x.pc = .ended ∧ e ≠ .writeFailed : Bool) }
  | transmitted (f : Frame) (hpc : (s.sessions.cell i).pc = .sending f false) :
      Moves s i (.transmit i) { s.view i with
        session := (s.sessions.cell i).onEnd (·.transmit f) }
  | passed (f : Frame) (hr : s.reader = .reading) (hm : f.method ≠ .eof)
      (hk : s.sessions.Entered i → providerKey f ≠ some (s.sessions.key i)) :
      Moves s i (.read (.frame f)) { s.view i with frames := s.frames ++ [f] }
  | taken (f : Frame) (hr : s.reader = .reading) (he : s.sessions.Entered i)
      (hk : providerKey f = some (s.sessions.key i)) :
      Moves s i (.read (.frame f)) { s.view i with
        session := ((s.sessions.cell i).onFrame f).session
        entered := !((s.sessions.cell i).onFrame f).erase
        pending := ((s.sessions.cell i).onFrame f).write
        frames := s.frames ++ [f] }
  | written (n : ℕ) (rest : ByteVector) (hr : s.reader = .writing i rest)
      (hn : CanTransfer (s.Live i) (s.sessions.cell i).toSessionEnd rest n) :
      Moves s i (.transferred n) { s.view i with
        session := (s.sessions.cell i).onEnd (·.write (rest.take n))
        pending := if n = rest.length then none else some (rest.drop n) }
  | cut (r : ReadFrame) (fs : List Frame) (hr : s.reader = .reading)
      (hfs : ∀ f ∈ fs, f.method = .eof) :
      Moves s i (.read r) { s.view i with
        session := if s.sessions.Entered i then (s.sessions.cell i).cutOff else s.sessions.cell i
        entered := false
        frames := s.frames ++ fs
        lost := true }
  | thrown (j : ℕ) (rest : ByteVector) (hr : s.reader = .writing j rest) (x : SessionState)
      (hx : x = if i = j then (s.sessions.cell i).onEnd .fail else s.sessions.cell i) :
      Moves s i .writeFailed { s.view i with
        session := if s.sessions.Entered i then x.cutOff else x
        entered := false
        pending := none }

/-- No session was ever forwarded under the identifier before. -/
def Fresh (s : Provider) : ProviderEvent → Prop
  | .read (.frame f) => f.method = .forwardSession → s.sessions.Fresh f.body
  | _ => True

/-- The session `i` is new. -/
def Born (s t : Provider) (i : ℕ) (e : ProviderEvent) : Prop :=
  i = s.sessions.count ∧ ∃ f, e = .read (.frame f) ∧ f.method = .forwardSession ∧
    t.sessions.key i = f.body ∧ t.view i = {
      session := .connect
      entered := true
      frames := s.frames ++ [f]
      lost := s.lost }

/-- A step adds sessions and moves the others; where the identifiers are not all distinct a
session may lose its entry to another. -/
structure Drifts (s t : Provider) (e : ProviderEvent) : Prop where
  count : s.sessions.count ≤ t.sessions.count
  distinct : s.sessions.Distinct → s.Fresh e → t.sessions.Distinct
  view : ∀ i < t.sessions.count, (i < s.sessions.count ∧ t.sessions.key i = s.sessions.key i ∧
    ∃ v, Moves s i e v ∧ t.Shows i (s.sessions.Distinct ∧ s.Fresh e) v) ∨ Born s t i e

/-- A step adds sessions under identifiers of their own, and moves the others. -/
structure Carries (s t : Provider) (e : ProviderEvent) : Prop where
  distinct : t.sessions.Distinct
  view : ∀ i < t.sessions.count,
    (i < s.sessions.count ∧ t.sessions.key i = s.sessions.key i ∧ Moves s i e (t.view i)) ∨ Born s t i e

theorem Drifts.move {s t : Provider} {e : ProviderEvent} (h : s.Drifts t e) {i : ℕ} (hi : i < s.sessions.count) :
    t.sessions.key i = s.sessions.key i ∧ ∃ v, Moves s i e v ∧ t.Shows i (s.sessions.Distinct ∧ s.Fresh e) v := by
  obtain ⟨-,hk,hv⟩ | ⟨rfl,-⟩ := h.view i (hi.trans_le h.count)
  · exact ⟨hk,hv⟩
  · exact absurd hi (Nat.lt_irrefl _)

theorem Drifts.carries {s t : Provider} {e : ProviderEvent} (h : s.Drifts t e)
    (hd : s.sessions.Distinct) (hf : s.Fresh e) : s.Carries t e := by
  refine ⟨h.distinct hd hf,fun i hi => ?_⟩
  obtain ⟨hi,hk,v,hm,hv | ⟨-,hn⟩⟩ | hb := h.view i hi
  · exact .inl ⟨hi,hk,hv ▸ hm⟩
  · exact absurd ⟨hd,hf⟩ hn
  · exact .inr hb

theorem endLoop_drifts {s : Provider} (hr : s.reader = .reading)
    (r : ReadFrame) (fs : List Frame) (hfs : ∀ f ∈ fs, f.method = .eof) :
    s.Drifts { s with
      frames := s.frames ++ fs
      lost := true }.endLoop (.read r) := by
  refine ⟨le_rfl,fun hd _ => by simpa [endLoop] using hd,fun i hi => .inl ⟨hi,rfl,_,.cut r fs hr hfs,.inl ?_⟩⟩
  ext <;> simp [endLoop, hr, SharedMap.clear_cell]

theorem forwardSession_drifts {s : Provider} (hr : s.reader = .reading)
    {f : Frame} (hm : f.method = .forwardSession) :
    s.Drifts ({ s with frames := s.frames ++ [f] }.forwardSession f.body) (.read (.frame f)) := by
  refine ⟨Nat.le_succ _,fun hd hf => hd.insert .connect (hf hm),fun i hi => ?_⟩
  obtain hi | rfl := Nat.lt_succ_iff_lt_or_eq.mp hi
  · refine .inl ⟨hi,SharedMap.insert_key_of_lt _ _ _ hi,_,
      .passed f hr (by simp [hm]) (by simp [providerKey, hm]),?_⟩
    refine Node.shows_of_entered (fun h => ?_) (fun hs h => ?_) ?_
    · exact decide_eq_true (SharedMap.entered_of_insert hi h)
    · exact (SharedMap.insert_entered_of_lt _ (hs.2 hm) hi).mpr (of_decide_eq_true h)
    · ext <;> simp [forwardSession, hr, SharedMap.insert_cell_of_lt _ _ _ hi]
  · refine .inr ⟨rfl,f,rfl,hm,by simp [forwardSession],?_⟩
    ext <;> simp [forwardSession, hr]

theorem dispatch_drifts {s : Provider} (hr : s.reader = .reading)
    {f : Frame} (hm : f.method ≠ .eof) {i : ℕ} (he : s.sessions.Entered i)
    (hk : providerKey f = some (s.sessions.key i)) {t : Provider}
    (ht : t.toNode = { s.toNode with frames := s.frames ++ [f] }.dispatch i ((s.sessions.cell i).onFrame f)) :
    s.Drifts t (.read (.frame f)) := by
  refine ⟨by simp [ht, Node.dispatch],fun hd _ => by simpa [ht, Node.dispatch] using hd,fun j hj => .inl
    ⟨by simpa [ht, Node.dispatch] using hj,by simp [ht, Node.dispatch],?_⟩⟩
  by_cases hji : j = i
  · subst hji
    refine ⟨_,.taken f hr he hk,.inl ?_⟩
    rw [ht]
    exact Node.view_dispatch_self (s := { s.toNode with frames := s.frames ++ [f] }) hr he _
  · have hkey : s.sessions.Entered j → providerKey f ≠ some (s.sessions.key j) := fun hj hk' =>
      hji (hj.unique he (Option.some.inj (hk'.symm.trans hk)))
    refine ⟨_,.passed f hr hm hkey,?_⟩
    rw [ht]
    exact Node.shows_dispatch_of_ne (s := { s.toNode with frames := s.frames ++ [f] }) And.left hr he.lt hji _

theorem put_drifts {s t : Provider} {e : ProviderEvent} {i : ℕ}
    {x : SessionState} {b : Bool} (hi : b = true → i < s.sessions.count)
    (ht : t.sessions = s.sessions.put i x b) (hr : ∀ j, j ≠ i →
      t.reader.pending j = s.reader.pending j ∧ t.reader.isClosing j = s.reader.isClosing j)
    (hf : t.frames = s.frames) (hl : t.lost = s.lost) (hm : Moves s i e (t.view i)) :
    s.Drifts t e := by
  refine ⟨by simp [ht],fun hd _ => by simpa [ht] using hd,fun j hj => .inl ⟨by simpa [ht] using hj,by simp [ht],?_⟩⟩
  by_cases hji : j = i
  · exact ⟨_,hji ▸ hm,.inl rfl⟩
  · exact ⟨_,.same e,Node.shows_of_ne And.left hi ht hji (hr j hji) hf hl⟩

theorem thrown_drifts {s : Provider} {j : ℕ} {rest : ByteVector} (hr : s.reader = .writing j rest) :
    s.Drifts { s with sessions := s.sessions.set j ((s.sessions.cell j).onEnd .fail) }.endLoop .writeFailed := by
  refine ⟨le_rfl,fun hd _ => by simpa [endLoop] using hd,fun i hi => .inl ⟨hi,rfl,_,.thrown j rest hr _ rfl,.inl ?_⟩⟩
  by_cases hij : i = j
  · subst hij
    ext <;> simp [endLoop, hr, SharedMap.clear_cell]
  · ext <;> simp [endLoop, hr, SharedMap.clear_cell, SharedMap.set_cell_of_ne _ _ hij, hij]

theorem step_drifts {s t : Provider} {e : ProviderEvent} (hs : s.step e = some t) : s.Drifts t e := by
  cases step_turn hs with
  | eof f hr hm => exact endLoop_drifts hr _ [f] (by simpa using hm)
  | lost r hr => simpa using endLoop_drifts hr r [] (by simp)
  | forwarded f hr hm => exact forwardSession_drifts hr hm
  | taken f i hr hm he hk => exact dispatch_drifts hr hm he hk rfl
  | passed f hr hm _ hk => exact ⟨le_rfl,fun hd _ => hd,fun i hi => .inl ⟨hi,rfl,_,.passed f hr hm (hk i),.inl rfl⟩⟩
  | written n i rest hr hn =>
    refine put_drifts (b := false) nofun rfl (fun j hj => ?_) rfl rfl ?_
    · simp [hr, ReaderPc.pending_of_ne hj.symm, ReaderPc.pending_next_of_ne hj.symm]
    · convert Moves.written n rest hr hn using 1
      ext <;> simp [hr]
  | thrown j rest hr => exact thrown_drifts hr
  | resumed i e x hi hx =>
    refine put_drifts (fun _ => hi) rfl (fun _ _ => ⟨rfl,rfl⟩) rfl rfl ?_
    convert Moves.resumed e x hx using 1
    ext <;> simp [onResumed, SharedMap.put_entered_self]
  | transmitted i f hi hb hpc =>
    refine put_drifts (b := false) nofun rfl (fun _ _ => ⟨rfl,rfl⟩) rfl rfl ?_
    convert Moves.transmitted f hpc using 1
    ext <;> simp

theorem step_carries {s t : Provider} {e : ProviderEvent} (hd : s.sessions.Distinct) (hf : s.Fresh e)
    (hs : s.step e = some t) : s.Carries t e :=
  (step_drifts hs).carries hd hf

theorem Moves.coroutine {s : Provider} {i : ℕ} {e : ProviderEvent} {v : View SessionState}
    (h : Moves s i e v) : v.session.Steady (s.sessions.cell i).toSessionEnd ∨
      (∃ f, e = .transmit i ∧ (s.sessions.cell i).pc = .sending f false ∧
        v = { s.view i with session := (s.sessions.cell i).onEnd (·.transmit f) }) ∨
      ∃ e' x, e = .session i e' ∧ (s.sessions.cell i).Resumes (s.sessions.key i) e' x ∧
        v = { s.view i with
          session := x
          entered := (s.view i).entered && !(x.pc = .ended ∧ e' ≠ .writeFailed : Bool) } := by
  cases h with
  | same | passed => exact .inl ⟨rfl,rfl,rfl,rfl⟩
  | resumed e x hx => exact .inr (.inr ⟨e,x,rfl,SessionState.resume_resumes hx,rfl⟩)
  | transmitted f hpc => exact .inr (.inl ⟨f,rfl,hpc,rfl⟩)
  | taken f => exact .inl (SessionState.onFrame_steady _ f)
  | written => exact .inl ⟨rfl,rfl,rfl,rfl⟩
  | cut =>
    apply Or.inl
    dsimp only
    split_ifs
    · exact SessionState.cutOff_steady _
    · exact ⟨rfl,rfl,rfl,rfl⟩
  | thrown j rest hr x hx =>
    have hsteady : x.Steady (s.sessions.cell i).toSessionEnd := by
      rw [hx]
      split_ifs <;> exact ⟨rfl,rfl,rfl,rfl⟩
    apply Or.inl
    dsimp only
    split_ifs
    · exact (SessionState.cutOff_steady x).trans hsteady
    · exact hsteady

/-- Only the coroutine of a session gives it a remote. -/
theorem Moves.remote {s : Provider} {i : ℕ} {e : ProviderEvent} {v : View SessionState} (h : Moves s i e v) :
    (∃ e' x, e = .session i e' ∧ (s.sessions.cell i).Resumes (s.sessions.key i) e' x ∧ v.session = x) ∨
      v.session.remoteConnected = (s.sessions.cell i).remoteConnected ∧
      ((s.sessions.cell i).remoteConnected = false →
        v.session.socket.isOpen = (s.sessions.cell i).socket.isOpen) := by
  cases h with
  | same | passed | transmitted | written => exact .inr ⟨rfl,fun _ => rfl⟩
  | resumed e x hx => exact .inl ⟨e,x,rfl,SessionState.resume_resumes hx,rfl⟩
  | taken f => exact .inr (SessionState.onFrame_remote _ f)
  | cut =>
    apply Or.inr
    dsimp only
    split_ifs
    · exact SessionState.cutOff_remote _
    · exact ⟨rfl,fun _ => rfl⟩
  | thrown j rest hr x hx =>
    have hsame : x.remoteConnected = (s.sessions.cell i).remoteConnected ∧
        x.socket.isOpen = (s.sessions.cell i).socket.isOpen := by
      rw [hx]
      split_ifs <;> exact ⟨rfl,rfl⟩
    apply Or.inr
    dsimp only
    split_ifs
    · obtain ⟨hc,ho⟩ := x.cutOff_remote
      exact ⟨hc.trans hsame.1,fun h => (ho (hsame.1.trans h)).trans hsame.2⟩
    · exact ⟨hsame.1,fun _ => hsame.2⟩

theorem Moves.entered_of {s : Provider} {i : ℕ} {e : ProviderEvent} {v : View SessionState}
    (h : Moves s i e v) (he : v.entered = true) : s.sessions.Entered i := by
  cases h with
  | same | passed | transmitted | written => exact of_decide_eq_true he
  | resumed => exact of_decide_eq_true (Bool.and_eq_true_iff.mp he).1
  | taken f hr he' => exact he'
  | cut | thrown => cases he

theorem step_taken {s t : Provider} {i : ℕ} {f : Frame} (hs : s.step (.read (.frame f)) = some t)
    (he : s.sessions.Entered i) (hk : providerKey f = some (s.sessions.key i)) :
    s.reader = .reading ∧ t.view i = { s.view i with
      session := ((s.sessions.cell i).onFrame f).session
      entered := !((s.sessions.cell i).onFrame f).erase
      pending := ((s.sessions.cell i).onFrame f).write
      frames := s.frames ++ [f] } := by
  cases step_turn hs with
  | eof _ _ hm | forwarded _ _ hm => simp [providerKey, hm] at hk
  | lost _ _ hn => exact absurd rfl (hn f)
  | passed _ _ _ _ hn => exact absurd hk (hn i he)
  | taken _ j hr _ hj hkj =>
    obtain rfl := hj.unique he (Option.some.inj (hkj.symm.trans hk))
    exact ⟨hr,Node.view_dispatch_self (s := { s.toNode with frames := s.frames ++ [f] }) hr he _⟩

theorem run_session {P : Uuid → SessionState → Prop} {events : List ProviderEvent} {s : Provider}
    (hrun : run step {} events = some s) (hborn : ∀ u, P u .connect)
    (hmoves : ∀ {s i e v}, P (s.sessions.key i) (s.sessions.cell i) → Moves s i e v →
      P (s.sessions.key i) v.session) :
    ∀ i < s.sessions.count, P (s.sessions.key i) (s.sessions.cell i) := by
  let Q : Provider → Prop := fun s => ∀ i < s.sessions.count, P (s.sessions.key i) (s.sessions.cell i)
  have h0 : Q {} := fun i hi => absurd hi (Nat.not_lt_zero i)
  refine run_invariant (P := Q) hrun h0 fun {s t e} hQ hs i hi => ?_
  obtain ⟨hi,hk,v,hm,hv⟩ | ⟨-,f,-,-,hk,hv⟩ := (step_drifts hs).view i hi
  · have hcell : t.sessions.cell i = v.session := hv.session
    rw [hk, hcell]
    exact hmoves (hQ i hi) hm
  · have hcell : t.sessions.cell i = .connect := congrArg View.session hv
    rw [hcell]
    exact hborn _

theorem run_view {ok : Provider → ProviderEvent → Prop} {P : Uuid → View SessionState → Prop}
    {events : List ProviderEvent} {s : Provider} (hrun : run step {} events = some s)
    (hm : Meets step ok {} events) (hfresh : ∀ s e, ok s e → s.Fresh e)
    (hborn : ∀ {s t i e}, ok s e → Born s t i e → P (t.sessions.key i) (t.view i))
    (hmoves : ∀ {s i e v}, ok s e → P (s.sessions.key i) (s.view i) → Moves s i e v →
      P (s.sessions.key i) v) :
    s.sessions.Distinct ∧ ∀ i < s.sessions.count, P (s.sessions.key i) (s.view i) := by
  let Q : Provider → Prop := fun s =>
    s.sessions.Distinct ∧ ∀ i < s.sessions.count, P (s.sessions.key i) (s.view i)
  have h0 : Q {} :=
    ⟨fun i j hi => absurd hi (Nat.not_lt_zero i),fun i hi => absurd hi (Nat.not_lt_zero i)⟩
  refine (hm.reach hrun).invariant h0 fun {s t e} hQ hok hs => ?_
  have hc := step_carries hQ.1 (hfresh s e hok) hs
  refine ⟨hc.distinct,fun i hi => ?_⟩
  obtain ⟨hi,hk,hv⟩ | hb := hc.view i hi
  · exact hk ▸ hmoves hok (hQ.2 i hi) hv
  · exact hborn hok hb

end Provider

end Msg801.Relay
