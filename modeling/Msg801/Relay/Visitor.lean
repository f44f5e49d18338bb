import Msg801.Lib.Transition
import Msg801.Relay.Node

/-! # The node that listens for clients

The accept loop of the node B makes a session of every client and tells A about it, a
coroutine for each session pumps what the client sends, and one coroutine reads the frames
from A. They interleave at their awaits.
-/
namespace Msg801.Relay
open Transition

/-- A session at B. Its coroutine is first in the `aconn_write` of the accept loop. -/
abbrev ClientSession := SessionEnd

namespace ClientSession

def accepted (uuid : Uuid) : ClientSession where
  pc := .sending ⟨.newSession,buildUuidBody uuid⟩ false
  submitted := [⟨.newSession,buildUuidBody uuid⟩]

/-- The coroutine of a session from one await to the next. -/
def resume (uuid : Uuid) (x : ClientSession) : SessionEvent → Option ClientSession
  | .sent =>
    match x.pc with
    | .sending f _ => some (x.onSent f)
    | _ => none
  | .readSome r =>
    if x.pc = .reading ∧ x.CanRead r then some ((x.receive r).onRead uuid r) else none
  | _ => none

/-- The cases of the reader's switch. -/
def onFrame (x : ClientSession) (f : Frame) : Reaction ClientSession :=
  match f.method with
  | .sessionErr =>
    { session := x.markClosed.close
      erase := true }
  | .data =>
    let data := f.body.drop UUID_BYTES
    { session := x
      write := if data.length > 0 then some data else none }
  | .dataEof =>
    let x := x.recvEof.shutdown
    if x.halfCloseSend then
      { session := x.markClosed
        erase := true }
    else { session := x }
  | .sessionClose =>
    { session := x.markClosed.close
      erase := true }
  | _ => { session := x }

theorem onFrame_steady (x : ClientSession) (f : Frame) : (x.onFrame f).session.Steady x := by
  rw [onFrame]
  split
  · exact ⟨rfl,rfl,rfl,rfl⟩
  · exact ⟨rfl,rfl,rfl,rfl⟩
  · dsimp only
    split_ifs <;> exact ⟨rfl,rfl,rfl,rfl⟩
  · exact ⟨rfl,rfl,rfl,rfl⟩
  · exact ⟨rfl,rfl,rfl,rfl⟩

/-- What the reader does on a frame is no failure of the socket. -/
theorem onFrame_failed (x : ClientSession) (f : Frame) :
    (x.onFrame f).session.socket.readFailed = x.socket.readFailed ∧
      (x.onFrame f).session.socket.writeFailed = x.socket.writeFailed := by
  rw [onFrame]
  split
  · exact ⟨rfl,rfl⟩
  · exact ⟨rfl,rfl⟩
  · dsimp only
    split_ifs <;> exact ⟨rfl,rfl⟩
  · exact ⟨rfl,rfl⟩
  · exact ⟨rfl,rfl⟩

/-- What the coroutine of a session can do between two awaits. -/
inductive Resumes (uuid : Uuid) (x : ClientSession) : SessionEvent → ClientSession → Prop
  | sent (f : Frame) (w : Bool) (hpc : x.pc = .sending f w) : Resumes uuid x .sent (x.onSent f)
  | read (r : ReadSome) (hpc : x.pc = .reading) (hr : x.CanRead r) :
      Resumes uuid x (.readSome r) ((x.receive r).onRead uuid r)

theorem resume_resumes {uuid : Uuid} {x y : ClientSession} {e : SessionEvent}
    (h : x.resume uuid e = some y) : Resumes uuid x e y := by
  cases e with
  | sent =>
    cases hpc : x.pc <;> simp only [resume, hpc] at h
    case sending f w =>
      obtain rfl := Option.some.inj h
      exact .sent f w hpc
    all_goals cases h
  | readSome r =>
    rw [resume] at h
    split_ifs at h with hr
    obtain rfl := Option.some.inj h
    exact .read r hr.1 hr.2
  | connected | transferred | writeFailed => cases h

end ClientSession

/-- Where the accept loop is suspended: in `async_accept`, or telling A of a session. -/
inductive AcceptPc where
  | accepting
  | announcing (i : ℕ)
  | ended
  deriving DecidableEq

/-- The node B. -/
structure Visitor extends Node ClientSession where
  sessions := .empty [] { pc := .ended }
  accept : AcceptPc := .accepting

inductive VisitorEvent where
  | accept (uuid : Uuid)
  | acceptFailed
  | read (r : ReadFrame)
  | transferred (n : ℕ)
  | writeFailed
  | closeWritten
  | closeSent
  | session (i : ℕ) (e : SessionEvent)
  | transmit (i : ℕ)
  deriving DecidableEq

/-- The session a frame is for, where B looks one up. -/
def visitorKey (f : Frame) : Option Uuid :=
  if f.body.length < UUID_BYTES then none else some (f.body.take UUID_BYTES)

namespace Visitor

/-- All clients are closed. -/
def closeAll (s : Visitor) : Visitor := { s with sessions := s.sessions.clear .close }

def endLoop (s : Visitor) : Visitor := { s.closeAll with reader := .ended }

/-- The reader on a frame. -/
def onFrame (s : Visitor) (f : Frame) : Visitor :=
  let s := { s with frames := s.frames ++ [f] }
  if f.method = .eof then { s with lost := true }.endLoop
  else
    match (visitorKey f).bind s.sessions.entry with
    | some i => { s with toNode := s.dispatch i ((s.sessions.cell i).onFrame f) }
    | none => s

/-- A session is held by the table or by a coroutine. -/
def Live (s : Visitor) (i : ℕ) : Prop := s.sessions.Entered i ∨ (s.sessions.cell i).pc ≠ .ended

instance (s : Visitor) (i : ℕ) : Decidable (s.Live i) := inferInstanceAs (Decidable (_ ∨ _))

/-- The coroutine of a session has come to its next await, or to its end. -/
def onResumed (s : Visitor) (i : ℕ) (e : SessionEvent) (x : ClientSession) : Visitor :=
  { s with
    sessions := s.sessions.put i x (x.pc = .ended ∧ x.closed)
    broken := s.broken || (e == .sent && (s.sessions.cell i).unwritten)
    accept := if s.accept = .announcing i then .accepting else s.accept }

def step (s : Visitor) : VisitorEvent → Option Visitor
  | .accept uuid =>
    if s.accept = .accepting then
      some { s with
        sessions := s.sessions.insert uuid (.accepted uuid)
        accept := .announcing s.sessions.count }
    else none
  | .acceptFailed =>
    if s.accept = .accepting then some { s.closeAll with accept := .ended } else none
  | .read r =>
    if s.reader = .reading then
      match r with
      | .frame f => some (s.onFrame f)
      | _ => some { s with lost := true }.endLoop
    else none
  | .transferred n =>
    match s.reader with
    | .writing i rest =>
      let x := s.sessions.cell i
      if CanTransfer (s.Live i) x rest n then
        some { s with
          sessions := s.sessions.set i (x.write (rest.take n))
          reader := .next i (if n = rest.length then none else some (rest.drop n)) }
      else none
    | _ => none
  | .writeFailed =>
    match s.reader with
    | .writing i _ =>
      some { s with
        sessions := s.sessions.set i (s.sessions.cell i).fail
        reader := .closing i false }
    | _ => none
  | .closeWritten =>
    match s.reader with
    | .closing i false =>
      if s.broken = false then
        some { s with
          reader := .closing i true
          wire := s.wire ++ [⟨.sessionClose,buildUuidBody (s.sessions.key i)⟩] }
      else none
    | _ => none
  | .closeSent =>
    match s.reader with
    | .closing i onWire =>
      let s := { s with broken := s.broken || !onWire }
      if s.sessions.Entered i then
        some { s with
          sessions := s.sessions.put i (s.sessions.cell i).markClosed.close true
          reader := .reading }
      else some { s with reader := .stale }
    | _ => none
  | .session i e =>
    if i < s.sessions.count then
      ((s.sessions.cell i).resume (s.sessions.key i) e).map (s.onResumed i e)
    else none
  | .transmit i =>
    let x := s.sessions.cell i
    match x.pc with
    | .sending f false =>
      if i < s.sessions.count ∧ s.broken = false then
        some { s with
          sessions := s.sessions.set i (x.transmit f)
          wire := s.wire ++ [f] }
      else none
    | _ => none

/-- What a step can do. -/
inductive Turn (s : Visitor) : VisitorEvent → Visitor → Prop
  | accepted (uuid : Uuid) (ha : s.accept = .accepting) : Turn s (.accept uuid) { s with
      sessions := s.sessions.insert uuid (.accepted uuid)
      accept := .announcing s.sessions.count }
  | unaccepted (ha : s.accept = .accepting) : Turn s .acceptFailed { s.closeAll with accept := .ended }
  | eof (f : Frame) (hr : s.reader = .reading) (hm : f.method = .eof) :
      Turn s (.read (.frame f)) { s with
        frames := s.frames ++ [f]
        lost := true }.endLoop
  | lost (r : ReadFrame) (hr : s.reader = .reading) (hn : ∀ f, r ≠ .frame f) :
      Turn s (.read r) { s with lost := true }.endLoop
  | taken (f : Frame) (i : ℕ) (hr : s.reader = .reading) (hm : f.method ≠ .eof) (he : s.sessions.Entered i)
      (hk : visitorKey f = some (s.sessions.key i)) : Turn s (.read (.frame f)) { s with
        toNode := { s.toNode with frames := s.frames ++ [f] }.dispatch i ((s.sessions.cell i).onFrame f) }
  | passed (f : Frame) (hr : s.reader = .reading) (hm : f.method ≠ .eof)
      (hk : ∀ i, s.sessions.Entered i → visitorKey f ≠ some (s.sessions.key i)) :
      Turn s (.read (.frame f)) { s with frames := s.frames ++ [f] }
  | written (n i : ℕ) (rest : ByteVector) (hr : s.reader = .writing i rest)
      (hn : CanTransfer (s.Live i) (s.sessions.cell i) rest n) : Turn s (.transferred n) { s with
        sessions := s.sessions.set i ((s.sessions.cell i).write (rest.take n))
        reader := .next i (if n = rest.length then none else some (rest.drop n)) }
  | failed (i : ℕ) (rest : ByteVector) (hr : s.reader = .writing i rest) : Turn s .writeFailed { s with
      sessions := s.sessions.set i (s.sessions.cell i).fail
      reader := .closing i false }
  | closeWritten (i : ℕ) (hr : s.reader = .closing i false) (hb : s.broken = false) :
      Turn s .closeWritten { s with
        reader := .closing i true
        wire := s.wire ++ [sessionCloseFrame (s.sessions.key i)] }
  | dismissed (i : ℕ) (onWire : Bool) (hr : s.reader = .closing i onWire) (he : s.sessions.Entered i) :
      Turn s .closeSent { s with
        sessions := s.sessions.put i (s.sessions.cell i).markClosed.close true
        reader := .reading
        broken := s.broken || !onWire }
  | staled (i : ℕ) (onWire : Bool) (hr : s.reader = .closing i onWire) (he : ¬s.sessions.Entered i) :
      Turn s .closeSent { s with
        reader := .stale
        broken := s.broken || !onWire }
  | resumed (i : ℕ) (e : SessionEvent) (x : ClientSession) (hi : i < s.sessions.count)
      (hx : (s.sessions.cell i).resume (s.sessions.key i) e = some x) :
      Turn s (.session i e) (s.onResumed i e x)
  | transmitted (i : ℕ) (f : Frame) (hi : i < s.sessions.count) (hb : s.broken = false)
      (hpc : (s.sessions.cell i).pc = .sending f false) : Turn s (.transmit i) { s with
        sessions := s.sessions.set i ((s.sessions.cell i).transmit f)
        wire := s.wire ++ [f] }

theorem onFrame_turn {s : Visitor} (hr : s.reader = .reading) (f : Frame) : s.Turn (.read (.frame f)) (s.onFrame f) := by
  rw [onFrame]
  split_ifs with hm
  case pos => exact .eof f hr hm
  case neg =>
    cases hl : (visitorKey f).bind s.sessions.entry with
    | some i =>
      obtain ⟨u,hu,hi⟩ := Option.bind_eq_some_iff.mp hl
      obtain ⟨he,rfl⟩ := (s.sessions.entry_eq_some u i).mp hi
      exact .taken f i hr hm he hu
    | none =>
      refine .passed f hr hm fun i he hk => ?_
      rw [hk, Option.bind_some] at hl
      exact absurd (he.symm.trans hl) (by simp)

theorem step_turn {s t : Visitor} {e : VisitorEvent} (hs : s.step e = some t) : s.Turn e t := by
  cases e with
  | accept uuid =>
    rw [step] at hs
    split_ifs at hs with ha
    obtain rfl := Option.some.inj hs
    exact .accepted uuid ha
  | acceptFailed =>
    rw [step] at hs
    split_ifs at hs with ha
    obtain rfl := Option.some.inj hs
    exact .unaccepted ha
  | read r =>
    by_cases hr : s.reader = .reading
    case neg => simp [step, hr] at hs
    cases r <;> simp only [step, if_pos hr, Option.some.injEq] at hs <;> subst hs
    case frame f => exact onFrame_turn hr f
    case nullopt => exact .lost .nullopt hr (by simp)
    case thrown => exact .lost .thrown hr (by simp)
  | transferred n =>
    cases hr : s.reader <;> simp only [step, hr] at hs
    case writing i rest =>
      by_cases hn : CanTransfer (s.Live i) (s.sessions.cell i) rest n
      case neg => simp [hn] at hs
      rw [if_pos hn] at hs
      obtain rfl := Option.some.inj hs
      exact .written n i rest hr hn
    all_goals cases hs
  | writeFailed =>
    cases hr : s.reader <;> simp only [step, hr] at hs
    case writing i rest =>
      obtain rfl := Option.some.inj hs
      exact .failed i rest hr
    all_goals cases hs
  | closeWritten =>
    cases hr : s.reader <;> simp only [step, hr] at hs
    case closing i onWire =>
      cases onWire <;> simp only at hs
      case false =>
        split_ifs at hs with hb
        obtain rfl := Option.some.inj hs
        exact .closeWritten i hr hb
      case true => cases hs
    all_goals cases hs
  | closeSent =>
    cases hr : s.reader <;> simp only [step, hr] at hs
    case closing i onWire =>
      split_ifs at hs with he <;> obtain rfl := Option.some.inj hs
      · exact .dismissed i onWire hr he
      · exact .staled i onWire hr he
    all_goals cases hs
  | session i e =>
    rw [step] at hs
    split_ifs at hs with hi
    obtain ⟨x,hx,rfl⟩ := Option.map_eq_some_iff.mp hs
    exact .resumed i e x hi hx
  | transmit i =>
    cases hpc : (s.sessions.cell i).pc <;> simp only [step, hpc] at hs
    case sending f onWire =>
      cases onWire <;> simp only at hs
      case false =>
        split_ifs at hs with hi
        obtain rfl := Option.some.inj hs
        exact .transmitted i f hi.1 hi.2 hpc
      case true => cases hs
    all_goals cases hs

/-- The connection to A has failed when a frame of a coroutine was not written. -/
theorem step_broken {s t : Visitor} {e : VisitorEvent} (hs : s.step e = some t) (ht : t.broken = false) :
    s.broken = false ∧ ∀ i, e = .session i .sent → (s.sessions.cell i).unwritten = false := by
  cases step_turn hs with
  | resumed i e x =>
    obtain ⟨hb,hw⟩ := Bool.or_eq_false_iff.mp ht
    refine ⟨hb,fun j hj => ?_⟩
    obtain ⟨rfl,rfl⟩ := VisitorEvent.session.inj hj
    simpa using hw
  | dismissed | staled => exact ⟨(Bool.or_eq_false_iff.mp ht).1,by simp⟩
  | _ => exact ⟨ht,by simp⟩

/-- A connection to A that is lost stays so. -/
theorem step_cutOff {s t : Visitor} {e : VisitorEvent} (hs : s.step e = some t) (h : s.CutOff) : t.CutOff := by
  cases step_turn hs with
  | resumed | dismissed | staled => exact h.imp_right fun hb => Bool.or_eq_true_iff.mpr (.inl hb)
  | eof | lost => exact .inl rfl
  | _ => exact h

theorem lt_of_session {s t : Visitor} {i : ℕ} {e : SessionEvent} (hs : s.step (.session i e) = some t) :
    i < s.sessions.count := by
  cases step_turn hs with
  | resumed _ _ _ hi => exact hi

/-- What a step can mean to a session. -/
inductive Moves (s : Visitor) (i : ℕ) : VisitorEvent → View ClientSession → Prop
  | same (e : VisitorEvent) : Moves s i e (s.view i)
  | resumed (e : SessionEvent) (x : ClientSession)
      (hx : (s.sessions.cell i).resume (s.sessions.key i) e = some x) :
      Moves s i (.session i e) { s.view i with
        session := x
        entered := (s.view i).entered && !(x.pc = .ended ∧ x.closed : Bool) }
  | transmitted (f : Frame) (hpc : (s.sessions.cell i).pc = .sending f false) :
      Moves s i (.transmit i) { s.view i with session := (s.sessions.cell i).transmit f }
  | passed (f : Frame) (hr : s.reader = .reading) (hm : f.method ≠ .eof)
      (hk : s.sessions.Entered i → visitorKey f ≠ some (s.sessions.key i)) :
      Moves s i (.read (.frame f)) { s.view i with frames := s.frames ++ [f] }
  | taken (f : Frame) (hr : s.reader = .reading) (he : s.sessions.Entered i)
      (hm : f.method ≠ .eof) (hk : visitorKey f = some (s.sessions.key i)) :
      Moves s i (.read (.frame f)) { s.view i with
        session := ((s.sessions.cell i).onFrame f).session
        entered := !((s.sessions.cell i).onFrame f).erase
        pending := ((s.sessions.cell i).onFrame f).write
        frames := s.frames ++ [f] }
  | written (n : ℕ) (rest : ByteVector) (hr : s.reader = .writing i rest)
      (hn : CanTransfer (s.Live i) (s.sessions.cell i) rest n) :
      Moves s i (.transferred n) { s.view i with
        session := (s.sessions.cell i).write (rest.take n)
        pending := if n = rest.length then none else some (rest.drop n) }
  | failed (rest : ByteVector) (hr : s.reader = .writing i rest) :
      Moves s i .writeFailed { s.view i with
        session := (s.sessions.cell i).fail
        pending := none
        closing := true }
  | dismissed (onWire : Bool) (hr : s.reader = .closing i onWire) (he : s.sessions.Entered i) :
      Moves s i .closeSent { s.view i with
        session := (s.sessions.cell i).markClosed.close
        entered := false
        closing := false }
  | staled (onWire : Bool) (hr : s.reader = .closing i onWire) (he : ¬s.sessions.Entered i) :
      Moves s i .closeSent { s.view i with closing := false }
  | cut (r : ReadFrame) (fs : List Frame) (hr : s.reader = .reading)
      (hfs : ∀ f ∈ fs, f.method = .eof) :
      Moves s i (.read r) { s.view i with
        session := if s.sessions.Entered i then (s.sessions.cell i).close else s.sessions.cell i
        entered := false
        frames := s.frames ++ fs
        lost := true }
  | shut :
      Moves s i .acceptFailed { s.view i with
        session := if s.sessions.Entered i then (s.sessions.cell i).close else s.sessions.cell i
        entered := false }

/-- The identifier made for a client was never made before. -/
def Fresh (s : Visitor) : VisitorEvent → Prop
  | .accept uuid => s.sessions.Fresh uuid
  | _ => True

/-- The session `i` is new. -/
def Born (s t : Visitor) (i : ℕ) (e : VisitorEvent) : Prop :=
  i = s.sessions.count ∧ ∃ uuid, e = .accept uuid ∧ t.sessions.key i = uuid ∧ t.view i = {
    session := .accepted uuid
    entered := true
    frames := s.frames
    lost := s.lost }

/-- The reader works on no session that is still to come. -/
def Bounded (s : Visitor) : Prop :=
  ∀ i, s.sessions.count ≤ i → s.reader.pending i = none ∧ s.reader.isClosing i = false

/-- A step adds a session and moves the others; where the identifiers are not all distinct a
session may lose its entry to another. -/
structure Drifts (s t : Visitor) (e : VisitorEvent) : Prop where
  bounded : t.Bounded
  count : s.sessions.count ≤ t.sessions.count
  distinct : s.sessions.Distinct → s.Fresh e → t.sessions.Distinct
  view : ∀ i < t.sessions.count, (i < s.sessions.count ∧ t.sessions.key i = s.sessions.key i ∧
    ∃ v, Moves s i e v ∧ t.Shows i (s.sessions.Distinct ∧ s.Fresh e) v) ∨ Born s t i e

/-- A step adds a session under an identifier of its own, and moves the others. -/
structure Carries (s t : Visitor) (e : VisitorEvent) : Prop where
  bounded : t.Bounded
  distinct : t.sessions.Distinct
  view : ∀ i < t.sessions.count,
    (i < s.sessions.count ∧ t.sessions.key i = s.sessions.key i ∧ Moves s i e (t.view i)) ∨ Born s t i e

/-- What a step means to a session that is there. -/
theorem Drifts.move {s t : Visitor} {e : VisitorEvent} (h : s.Drifts t e) {i : ℕ} (hi : i < s.sessions.count) :
    t.sessions.key i = s.sessions.key i ∧ ∃ v, Moves s i e v ∧ t.Shows i (s.sessions.Distinct ∧ s.Fresh e) v := by
  obtain ⟨-,hk,hv⟩ | ⟨rfl,-⟩ := h.view i (hi.trans_le h.count)
  · exact ⟨hk,hv⟩
  · exact absurd hi (Nat.lt_irrefl _)

theorem Drifts.carries {s t : Visitor} {e : VisitorEvent} (h : s.Drifts t e)
    (hd : s.sessions.Distinct) (hf : s.Fresh e) : s.Carries t e := by
  refine ⟨h.bounded,h.distinct hd hf,fun i hi => ?_⟩
  obtain ⟨hi,hk,v,hm,hv | ⟨-,hn⟩⟩ | hb := h.view i hi
  · exact .inl ⟨hi,hk,hv ▸ hm⟩
  · exact absurd ⟨hd,hf⟩ hn
  · exact .inr hb

theorem bounded_of_reader {s : Visitor} (h : s.reader = .reading ∨ s.reader = .stale ∨ s.reader = .ended) :
    s.Bounded := by
  intro i _
  rcases h with h | h | h <;> simp [h]

theorem accept_drifts {s : Visitor} (hb : s.Bounded) (uuid : Uuid) :
    s.Drifts { s with
      sessions := s.sessions.insert uuid (.accepted uuid)
      accept := .announcing s.sessions.count } (.accept uuid) := by
  refine ⟨fun i hi => hb i (Nat.le_of_succ_le hi),Nat.le_succ _,fun hd hf => hd.insert _ hf,fun i hi => ?_⟩
  obtain hi | rfl := Nat.lt_succ_iff_lt_or_eq.mp hi
  · refine .inl ⟨hi,SharedMap.insert_key_of_lt _ _ _ hi,_,.same _,?_⟩
    refine Node.shows_of_entered (fun h => ?_) (fun hs h => ?_) ?_
    · exact decide_eq_true (SharedMap.entered_of_insert hi h)
    · exact (SharedMap.insert_entered_of_lt _ hs.2 hi).mpr (of_decide_eq_true h)
    · ext <;> simp [SharedMap.insert_cell_of_lt _ _ _ hi]
  · refine .inr ⟨rfl,uuid,rfl,by simp,?_⟩
    obtain ⟨hp,hc⟩ := hb _ le_rfl
    ext <;> simp [hp, hc]

theorem acceptFailed_drifts {s : Visitor} (hb : s.Bounded) :
    s.Drifts { s.closeAll with accept := .ended } .acceptFailed := by
  refine ⟨hb,le_rfl,fun hd _ => by simpa [closeAll] using hd,fun i hi => .inl ⟨hi,rfl,_,.shut,.inl ?_⟩⟩
  ext <;> simp [closeAll, SharedMap.clear_cell]

theorem endLoop_drifts {s : Visitor} (hr : s.reader = .reading)
    (r : ReadFrame) (fs : List Frame) (hfs : ∀ f ∈ fs, f.method = .eof) :
    s.Drifts { s with
      frames := s.frames ++ fs
      lost := true }.endLoop (.read r) := by
  refine ⟨bounded_of_reader (by simp [endLoop]),le_rfl,fun hd _ => by simpa [endLoop, closeAll] using hd,
    fun i hi => .inl ⟨hi,rfl,_,.cut r fs hr hfs,.inl ?_⟩⟩
  ext <;> simp [endLoop, closeAll, hr, SharedMap.clear_cell]

theorem dispatch_drifts {s : Visitor} (hr : s.reader = .reading)
    {f : Frame} (hm : f.method ≠ .eof) {i : ℕ} (he : s.sessions.Entered i)
    (hk : visitorKey f = some (s.sessions.key i)) {t : Visitor}
    (ht : t.toNode = { s.toNode with frames := s.frames ++ [f] }.dispatch i ((s.sessions.cell i).onFrame f)) :
    s.Drifts t (.read (.frame f)) := by
  refine ⟨fun j hj => ?_,by simp [ht, Node.dispatch],fun hd _ => by simpa [ht, Node.dispatch] using hd,fun j hj => .inl
    ⟨by simpa [ht, Node.dispatch] using hj,by simp [ht, Node.dispatch],?_⟩⟩
  · have hlt := he.lt
    have hij : i ≠ j := by
      simp only [ht, Node.dispatch, SharedMap.put_count] at hj
      omega
    simp [ht, Node.dispatch, ReaderPc.pending_next_of_ne hij]
  by_cases hji : j = i
  · subst hji
    refine ⟨_,.taken f hr he hm hk,.inl ?_⟩
    rw [ht]
    exact Node.view_dispatch_self (s := { s.toNode with frames := s.frames ++ [f] }) hr he _
  · have hkey : s.sessions.Entered j → visitorKey f ≠ some (s.sessions.key j) := fun hj hk' =>
      hji (hj.unique he (Option.some.inj (hk'.symm.trans hk)))
    refine ⟨_,.passed f hr hm hkey,?_⟩
    rw [ht]
    exact Node.shows_dispatch_of_ne (s := { s.toNode with frames := s.frames ++ [f] }) And.left hr he.lt hji _

/-- A step of one session's coroutine, or on one session's socket. -/
theorem put_drifts {s t : Visitor} {e : VisitorEvent} {i : ℕ}
    {x : ClientSession} {b : Bool} (hi : b = true → i < s.sessions.count) (hb : t.Bounded)
    (ht : t.sessions = s.sessions.put i x b) (hr : ∀ j, j ≠ i →
      t.reader.pending j = s.reader.pending j ∧ t.reader.isClosing j = s.reader.isClosing j)
    (hf : t.frames = s.frames) (hl : t.lost = s.lost) (hm : Moves s i e (t.view i)) :
    s.Drifts t e := by
  refine ⟨hb,by simp [ht],fun hd _ => by simpa [ht] using hd,fun j hj => .inl ⟨by simpa [ht] using hj,by simp [ht],?_⟩⟩
  by_cases hji : j = i
  · exact ⟨_,hji ▸ hm,.inl rfl⟩
  · exact ⟨_,.same e,Node.shows_of_ne And.left hi ht hji (hr j hji) hf hl⟩

/-- A session the reader works on is there already. -/
theorem Bounded.lt_of_writing {s : Visitor} (hb : s.Bounded) {i : ℕ} {rest : ByteVector}
    (hr : s.reader = .writing i rest) : i < s.sessions.count := by
  by_contra hi
  have hp := (hb i (Nat.le_of_not_lt hi)).1
  rw [hr, ReaderPc.pending_self] at hp
  cases hp

theorem Bounded.lt_of_closing {s : Visitor} (hb : s.Bounded) {i : ℕ} {w : Bool}
    (hr : s.reader = .closing i w) : i < s.sessions.count := by
  by_contra hi
  have hc := (hb i (Nat.le_of_not_lt hi)).2
  rw [hr, ReaderPc.isClosing_self] at hc
  cases hc

theorem written_drifts {s : Visitor} (hb : s.Bounded) {n i : ℕ} {rest : ByteVector} (hr : s.reader = .writing i rest)
    (hn : CanTransfer (s.Live i) (s.sessions.cell i) rest n) : s.Drifts { s with
      sessions := s.sessions.set i ((s.sessions.cell i).write (rest.take n))
      reader := .next i (if n = rest.length then none else some (rest.drop n)) } (.transferred n) := by
  have hi := hb.lt_of_writing hr
  refine put_drifts (b := false) nofun (fun j hj => ?_) rfl (fun j hj => ?_) rfl rfl ?_
  · have hij : i ≠ j := by
      simp only [SharedMap.set_count] at hj
      omega
    simp [ReaderPc.pending_next_of_ne hij]
  · simp [hr, ReaderPc.pending_of_ne hj.symm, ReaderPc.pending_next_of_ne hj.symm]
  · convert Moves.written n rest hr hn using 1
    ext <;> simp [hr]

theorem failed_drifts {s : Visitor} (hb : s.Bounded) {i : ℕ} {rest : ByteVector} (hr : s.reader = .writing i rest) :
    s.Drifts { s with
      sessions := s.sessions.set i (s.sessions.cell i).fail
      reader := .closing i false } .writeFailed := by
  have hi := hb.lt_of_writing hr
  refine put_drifts (b := false) nofun (fun j hj => ?_) rfl (fun j hj => ?_) rfl rfl ?_
  · have hij : i ≠ j := by
      simp only [SharedMap.set_count] at hj
      omega
    simp [ReaderPc.isClosing_of_ne hij]
  · simp [hr, ReaderPc.pending_of_ne hj.symm, ReaderPc.isClosing_of_ne hj.symm]
  · convert Moves.failed rest hr using 1
    ext <;> simp

theorem closing_others {s : Visitor} {i : ℕ} {onWire : Bool} (hr : s.reader = .closing i onWire) {j : ℕ} (hj : j ≠ i) :
    s.reader.pending j = none ∧ s.reader.isClosing j = false := by
  simp [hr, ReaderPc.isClosing_of_ne hj.symm]

theorem dismissed_drifts {s : Visitor} (hb : s.Bounded) {i : ℕ} {onWire : Bool} (hr : s.reader = .closing i onWire)
    (he : s.sessions.Entered i) : s.Drifts { s with
      sessions := s.sessions.put i (s.sessions.cell i).markClosed.close true
      reader := .reading
      broken := s.broken || !onWire } .closeSent := by
  refine put_drifts (x := (s.sessions.cell i).markClosed.close) (b := true)
    (fun _ => hb.lt_of_closing hr) (bounded_of_reader (.inl rfl)) rfl
    (fun j hj => by simp [closing_others hr hj]) rfl rfl ?_
  convert Moves.dismissed onWire hr he using 1
  ext <;> simp [hr, SharedMap.put_entered_self]

theorem staled_drifts {s : Visitor} {i : ℕ} {onWire : Bool} (hr : s.reader = .closing i onWire)
    (he : ¬s.sessions.Entered i) : s.Drifts { s with
      reader := .stale
      broken := s.broken || !onWire } .closeSent := by
  refine ⟨bounded_of_reader (.inr (.inl rfl)),le_rfl,fun hd _ => hd,fun j hj => .inl ⟨hj,rfl,?_⟩⟩
  by_cases hji : j = i
  · subst hji
    refine ⟨_,.staled onWire hr he,.inl ?_⟩
    ext <;> simp [hr]
  · refine ⟨_,.same _,.inl ?_⟩
    ext <;> simp [closing_others hr hji]

theorem closeWritten_drifts {s : Visitor} (hb : s.Bounded) {i : ℕ} (hr : s.reader = .closing i false) :
    s.Drifts { s with
      reader := .closing i true
      wire := s.wire ++ [sessionCloseFrame (s.sessions.key i)] } .closeWritten := by
  have hsame : ∀ j, (ReaderPc.closing i true).isClosing j = s.reader.isClosing j := by
    intro j
    rw [hr]
    rfl
  refine ⟨fun j hj => ?_,le_rfl,fun hd _ => hd,fun j hj => .inl ⟨hj,rfl,_,.same _,.inl ?_⟩⟩
  · exact ⟨rfl,(hsame j).trans (hb j hj).2⟩
  · ext <;> simp [hr, hsame]

theorem step_drifts {s t : Visitor} {e : VisitorEvent} (hb : s.Bounded) (hs : s.step e = some t) :
    s.Drifts t e := by
  cases step_turn hs with
  | accepted uuid => exact accept_drifts hb uuid
  | unaccepted => exact acceptFailed_drifts hb
  | eof f hr hm => exact endLoop_drifts hr _ [f] (by simpa using hm)
  | lost r hr => simpa using endLoop_drifts hr r [] (by simp)
  | taken f i hr hm he hk => exact dispatch_drifts hr hm he hk rfl
  | passed f hr hm hk =>
    exact ⟨bounded_of_reader (.inl hr),le_rfl,fun hd _ => hd,
      fun i hi => .inl ⟨hi,rfl,_,.passed f hr hm (hk i),.inl rfl⟩⟩
  | written n i rest hr hn => exact written_drifts hb hr hn
  | failed i rest hr => exact failed_drifts hb hr
  | closeWritten i hr => exact closeWritten_drifts hb hr
  | dismissed i onWire hr he => exact dismissed_drifts hb hr he
  | staled i onWire hr he => exact staled_drifts hr he
  | resumed i e x hi hx =>
    refine put_drifts (fun _ => hi) (by simpa [Bounded, onResumed] using hb) rfl (fun _ _ => ⟨rfl,rfl⟩) rfl rfl ?_
    convert Moves.resumed e x hx using 1
    ext <;> simp [onResumed, SharedMap.put_entered_self]
  | transmitted i f hi hbr hpc =>
    refine put_drifts (b := false) nofun hb rfl (fun _ _ => ⟨rfl,rfl⟩) rfl rfl ?_
    convert Moves.transmitted f hpc using 1
    ext <;> simp

theorem empty_bounded : Bounded {} := bounded_of_reader (.inl rfl)

/-- What the coroutine of a session does between two awaits is done by none else. -/
theorem Moves.coroutine {s : Visitor} {i : ℕ} {e : VisitorEvent} {v : View ClientSession}
    (h : Moves s i e v) : v.session.Steady (s.sessions.cell i) ∨
      (∃ f, e = .transmit i ∧ (s.sessions.cell i).pc = .sending f false ∧
        v = { s.view i with session := (s.sessions.cell i).transmit f }) ∨
      ∃ e' x, e = .session i e' ∧ ClientSession.Resumes (s.sessions.key i) (s.sessions.cell i) e' x ∧
        v = { s.view i with
          session := x
          entered := (s.view i).entered && !(x.pc = .ended ∧ x.closed : Bool) } := by
  cases h with
  | same | passed | staled => exact .inl ⟨rfl,rfl,rfl,rfl⟩
  | resumed e x hx => exact .inr (.inr ⟨e,x,rfl,ClientSession.resume_resumes hx,rfl⟩)
  | transmitted f hpc => exact .inr (.inl ⟨f,rfl,hpc,rfl⟩)
  | taken f => exact .inl (ClientSession.onFrame_steady _ f)
  | written | failed | dismissed => exact .inl ⟨rfl,rfl,rfl,rfl⟩
  | cut | shut =>
    apply Or.inl
    dsimp only
    split_ifs <;> exact ⟨rfl,rfl,rfl,rfl⟩

/-- A session that has left the table does not come back. -/
theorem Moves.entered_of {s : Visitor} {i : ℕ} {e : VisitorEvent} {v : View ClientSession}
    (h : Moves s i e v) (he : v.entered = true) : s.sessions.Entered i := by
  cases h with
  | same | passed | transmitted | written | failed | staled => exact of_decide_eq_true he
  | resumed => exact of_decide_eq_true (Bool.and_eq_true_iff.mp he).1
  | taken f hr he' => exact he'
  | cut | shut | dismissed => cases he

/-- A frame for a session in the table is taken for it. -/
theorem step_taken {s t : Visitor} {i : ℕ} {f : Frame} (hs : s.step (.read (.frame f)) = some t)
    (hm : f.method ≠ .eof) (he : s.sessions.Entered i) (hk : visitorKey f = some (s.sessions.key i)) :
    s.reader = .reading ∧ t.view i = { s.view i with
      session := ((s.sessions.cell i).onFrame f).session
      entered := !((s.sessions.cell i).onFrame f).erase
      pending := ((s.sessions.cell i).onFrame f).write
      frames := s.frames ++ [f] } := by
  cases step_turn hs with
  | eof _ _ heof => exact absurd heof hm
  | lost _ _ hn => exact absurd rfl (hn f)
  | passed _ _ _ hn => exact absurd hk (hn i he)
  | taken _ j hr _ hj hkj =>
    obtain rfl := hj.unique he (Option.some.inj (hkj.symm.trans hk))
    exact ⟨hr,Node.view_dispatch_self (s := { s.toNode with frames := s.frames ++ [f] }) hr he _⟩

/-- What holds of a new session, and of every session of a run after each of its moves. -/
theorem run_session {P : Uuid → ClientSession → Prop} {events : List VisitorEvent} {s : Visitor}
    (hrun : run step {} events = some s) (hborn : ∀ u, P u (.accepted u))
    (hmoves : ∀ {s i e v}, P (s.sessions.key i) (s.sessions.cell i) → Moves s i e v →
      P (s.sessions.key i) v.session) :
    s.Bounded ∧ ∀ i < s.sessions.count, P (s.sessions.key i) (s.sessions.cell i) := by
  let Q : Visitor → Prop := fun s =>
    s.Bounded ∧ ∀ i < s.sessions.count, P (s.sessions.key i) (s.sessions.cell i)
  have h0 : Q {} := ⟨empty_bounded,fun i hi => absurd hi (Nat.not_lt_zero i)⟩
  refine run_invariant (P := Q) hrun h0 fun {s t e} hQ hs => ?_
  have hd := step_drifts hQ.1 hs
  refine ⟨hd.bounded,fun i hi => ?_⟩
  obtain ⟨hi,hk,v,hm,hv⟩ | ⟨-,u,-,hk,hv⟩ := hd.view i hi
  · have hcell : t.sessions.cell i = v.session := hv.session
    rw [hk, hcell]
    exact hmoves (hQ.2 i hi) hm
  · have hcell : t.sessions.cell i = .accepted u := congrArg View.session hv
    rw [hcell, hk]
    exact hborn u

/-- What holds of a new session and is kept by every move holds of each session of a run. -/
theorem run_view {ok : Visitor → VisitorEvent → Prop} {P : Uuid → View ClientSession → Prop}
    {events : List VisitorEvent} {s : Visitor} (hrun : run step {} events = some s)
    (hm : Meets step ok {} events) (hfresh : ∀ s e, ok s e → s.Fresh e)
    (hborn : ∀ {s t i e}, ok s e → Born s t i e → P (t.sessions.key i) (t.view i))
    (hmoves : ∀ {s i e v}, ok s e → P (s.sessions.key i) (s.view i) → Moves s i e v →
      P (s.sessions.key i) v) :
    s.Bounded ∧ s.sessions.Distinct ∧ ∀ i < s.sessions.count, P (s.sessions.key i) (s.view i) := by
  let Q : Visitor → Prop := fun s =>
    s.Bounded ∧ s.sessions.Distinct ∧ ∀ i < s.sessions.count, P (s.sessions.key i) (s.view i)
  have h0 : Q {} := ⟨empty_bounded,fun i j hi => absurd hi (Nat.not_lt_zero i),
    fun i hi => absurd hi (Nat.not_lt_zero i)⟩
  refine (hm.reach hrun).invariant h0 fun {s t e} hQ hok hs => ?_
  have hc := (step_drifts hQ.1 hs).carries hQ.2.1 (hfresh s e hok)
  refine ⟨hc.bounded,hc.distinct,fun i hi => ?_⟩
  obtain ⟨hi,hk,hv⟩ | hb := hc.view i hi
  · exact hk ▸ hmoves hok (hQ.2.2 i hi) hv
  · exact hborn hok hb

end Visitor

end Msg801.Relay
