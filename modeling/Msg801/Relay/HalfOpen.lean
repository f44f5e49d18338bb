import Msg801.Relay.Delivery
import Msg801.Relay.Script

/-! # Half-open sessions

A session is to stay in the table, with its socket open and both its coroutines at work for
it, until `DATA_EOF` has gone in both directions. B keeps to that; C forgets a session when
its own `DATA_EOF` is sent.
-/
namespace Msg801.Relay
open Transition

namespace SessionEnd
variable {u : Uuid} {first : Frame} {x : SessionEnd}

/-- `DATA_EOF` has been given to `aconn_write` exactly when `halfCloseSend` is set. -/
theorem Pumps.dataEof_mem (h : x.Pumps u first) (hf : first.method ≠ .dataEof) :
    dataEofFrame u ∈ x.submitted ↔ x.halfCloseSend = true := by
  have hne : dataEofFrame u ≠ first := fun h => hf (h ▸ rfl)
  unfold SessionEnd.Pumps at h
  generalize x.pc = pc, x.halfCloseSend = b, x.submitted = fs at h
  cases h <;> simp [dataFrame, dataEofFrame] <;> exact fun h => absurd h hne

theorem Pumps.reading (h : x.Pumps u first) (hpc : x.pc = .reading) : x.halfCloseSend = false := by
  unfold SessionEnd.Pumps at h
  rw [hpc] at h
  generalize x.halfCloseSend = b, x.submitted = fs at h
  cases h
  rfl

/-- Behind a frame the coroutine is at its end only with the session, or with its `DATA_EOF`. -/
theorem Pumps.sent (h : x.Pumps u first) {f : Frame} {w : Bool} (hpc : x.pc = .sending f w)
    (hf : first.method ≠ .dataEof ∧ first.method ≠ .sessionClose) :
    x.halfCloseSend = true ∧ f = dataEofFrame u ∧
        x.onSent f = (if x.halfCloseRecv then x.markClosed else x).suspend .ended ∨
      x.halfCloseSend = false ∧ x.onSent f = x.loop := by
  unfold SessionEnd.Pumps at h
  rw [hpc] at h
  have hloop : ∀ {g : Frame}, g.method ≠ .dataEof → g.method ≠ .sessionClose → x.onSent g = x.loop := by
    intro g hg hg'
    cases hm : g.method <;> simp_all [SessionEnd.onSent]
  generalize hb : x.halfCloseSend = b, x.submitted = fs at h
  cases h with
  | opening => exact .inr ⟨rfl,hloop hf.1 hf.2⟩
  | paying ds d => exact .inr ⟨rfl,hloop (by simp [dataFrame]) (by simp [dataFrame])⟩
  | parting ds => exact .inl ⟨rfl,rfl,rfl⟩

end SessionEnd

namespace Visitor

/-- A frame of the method has been taken for the session. -/
def Received (m : Method) (u : Uuid) (frames : List Frame) : Prop :=
  ∃ f ∈ frames, f.method = m ∧ visitorKey f = some u

/-- The session was refused or closed, or its socket failed. -/
def Failed (u : Uuid) (v : View ClientSession) : Prop :=
  v.session.socket.readFailed = true ∨ v.session.socket.writeFailed = true ∨
    Received .sessionErr u v.frames ∨ Received .sessionClose u v.frames

/-- The session has failed, or the connection to A was lost. -/
def Interrupted (s : Visitor) (i : ℕ) : Prop := s.CutOff ∨ Failed (s.sessions.key i) (s.view i)

/-- `DATA_EOF` has gone in both directions. -/
def Through (u : Uuid) (v : View ClientSession) : Prop :=
  dataEofFrame u ∈ v.session.submitted ∧ Received .dataEof u v.frames

/-- As long as nothing interrupts the session and `DATA_EOF` is missing in one direction, the
session is in the table and its client open; what the client sends is read until its
`DATA_EOF` is sent, and what comes for the client is written until `DATA_EOF` has come. -/
def StaysOpen (s : Visitor) (i : ℕ) : Prop :=
  ¬s.Interrupted i → ¬Through (s.sessions.key i) (s.view i) →
    s.sessions.Entered i ∧ (s.sessions.cell i).socket.isOpen = true ∧ (s.sessions.cell i).closed = false ∧
      (dataEofFrame (s.sessions.key i) ∉ (s.sessions.cell i).submitted → (s.sessions.cell i).pc ≠ .ended) ∧
      (¬Received .dataEof (s.sessions.key i) s.frames → (s.sessions.cell i).socket.shutdownSend = false)

/-- The acceptor fails only when every session in the table is interrupted or through. -/
def Keeps (s : Visitor) : VisitorEvent → Prop
  | .acceptFailed => ∀ i, s.sessions.Entered i → s.Interrupted i ∨ Through (s.sessions.key i) (s.view i)
  | _ => True

/-- What the flags of a session that has not failed say. -/
structure Open (u : Uuid) (v : View ClientSession) : Prop where
  recv : v.session.halfCloseRecv = true ↔ Received .dataEof u v.frames
  closed : v.session.closed = true → v.session.halfCloseSend = true ∧ v.session.halfCloseRecv = true
  entered : v.entered = false → v.session.halfCloseSend = true ∧ v.session.halfCloseRecv = true
  isOpen : v.session.socket.isOpen = false → v.session.halfCloseSend = true ∧ v.session.halfCloseRecv = true
  shut : v.session.socket.shutdownSend = true → v.session.halfCloseRecv = true
  ended : v.session.pc = .ended → v.session.halfCloseSend = true
  idle : v.closing = false

variable {s t : Visitor} {e : VisitorEvent} {i : ℕ} {u : Uuid} {v w : View ClientSession} {m : Method}

theorem Received.append {frames : List Frame} (h : Received m u frames) (fs : List Frame) :
    Received m u (frames ++ fs) := by
  obtain ⟨f,hf,hm⟩ := h
  exact ⟨f,List.mem_append_left _ hf,hm⟩

theorem received_append_singleton {frames : List Frame} {f : Frame} (hf : f.method ≠ m ∨ visitorKey f ≠ some u) :
    Received m u (frames ++ [f]) ↔ Received m u frames := by
  refine ⟨?_,fun h => h.append [f]⟩
  rintro ⟨g,hg,hm,hk⟩
  rcases List.mem_append.mp hg with hg | hg
  · exact ⟨g,hg,hm,hk⟩
  · obtain rfl := List.mem_singleton.mp hg
    exact hf.elim (absurd hm) (absurd hk)

theorem Open.through (h : Open u v) (hp : v.session.Pumps u (newSessionFrame u))
    (hboth : v.session.halfCloseSend = true ∧ v.session.halfCloseRecv = true) : Through u v :=
  ⟨(hp.dataEof_mem (by simp [newSessionFrame])).mpr hboth.1,h.recv.mp hboth.2⟩

theorem Open.of_through (h : Open u v) (hp : v.session.Pumps u (newSessionFrame u)) (ht : Through u v) :
    v.session.halfCloseSend = true ∧ v.session.halfCloseRecv = true :=
  ⟨(hp.dataEof_mem (by simp [newSessionFrame])).mp ht.1,h.recv.mpr ht.2⟩

theorem Open.staysOpen (h : Open (s.sessions.key i) (s.view i))
    (hp : (s.sessions.cell i).Pumps (s.sessions.key i) (newSessionFrame (s.sessions.key i))) : s.StaysOpen i := by
  intro _ hn
  refine ⟨?_,?_,?_,fun hs hpc => ?_,fun hr => ?_⟩
  · by_contra he
    exact hn (h.through hp (h.entered (decide_eq_false he)))
  · rw [← Bool.not_eq_false]
    intro ho
    exact hn (h.through hp (h.isOpen ho))
  · rw [← Bool.not_eq_true]
    intro hc
    exact hn (h.through hp (h.closed hc))
  · exact hs ((hp.dataEof_mem (by simp [newSessionFrame])).mpr (h.ended hpc))
  · rw [← Bool.not_eq_true]
    intro hsh
    exact hr (h.recv.mp (h.shut hsh))

theorem Failed.mono (h : Failed u v)
    (hr : v.session.socket.readFailed = true → w.session.socket.readFailed = true)
    (hw : v.session.socket.writeFailed = true → w.session.socket.writeFailed = true)
    (hf : ∃ fs, w.frames = v.frames ++ fs) : Failed u w := by
  obtain ⟨fs,hf⟩ := hf
  refine h.imp hr (Or.imp hw (Or.imp ?_ ?_))
  · intro h
    exact hf ▸ h.append fs
  · intro h
    exact hf ▸ h.append fs

/-- A session that has failed stays so. -/
theorem Moves.failed_mono (hm : Moves s i e v) (h : Failed u (s.view i)) : Failed u v := by
  cases hm with
  | same | transmitted | written | staled | dismissed => exact h.mono id id ⟨[],by simp⟩
  | passed f => exact h.mono id id ⟨[f],rfl⟩
  | failed => exact h.mono id (fun _ => rfl) ⟨[],by simp⟩
  | taken f =>
    obtain ⟨hr,hw⟩ := ClientSession.onFrame_failed (s.sessions.cell i) f
    exact h.mono (hr.trans ·) (hw.trans ·) ⟨[f],rfl⟩
  | resumed e x hx =>
    cases ClientSession.resume_resumes hx with
    | sent f =>
      have hsocket := ((s.sessions.cell i).onSent_frame f).1
      exact h.mono (hsocket ▸ ·) (hsocket ▸ ·) ⟨[],by simp⟩
    | read r =>
      have hsocket := (((s.sessions.cell i).receive r).onRead_frame (s.sessions.key i) r).2.2.2.1
      refine h.mono (fun hr => ?_) (fun hw => ?_) ⟨[],by simp⟩
      · exact (congrArg Socket.readFailed hsocket).trans (Bool.or_eq_true_iff.mpr (.inl hr))
      · exact (congrArg Socket.writeFailed hsocket).trans hw
  | cut r fs =>
    refine h.mono (fun hr => ?_) (fun hw => ?_) ⟨fs,rfl⟩
    · dsimp only
      split_ifs <;> exact hr
    · dsimp only
      split_ifs <;> exact hw
  | shut =>
    refine h.mono (fun hr => ?_) (fun hw => ?_) ⟨[],by simp⟩
    · dsimp only
      split_ifs <;> exact hr
    · dsimp only
      split_ifs <;> exact hw

/-- The pump keeps a session open until the end of its socket is sent. -/
theorem Open.resumed (h : Open u v) (hp : v.session.Pumps u (newSessionFrame u)) {e : SessionEvent}
    {x : ClientSession} (hx : ClientSession.Resumes u v.session e x) {b : Bool}
    (hb : b = false → v.entered = false ∨ x.pc = .ended ∧ x.closed = true) :
    Failed u { v with
        session := x
        entered := b } ∨
      Open u { v with
        session := x
        entered := b } := by
  cases hx with
  | sent f w hpc =>
    apply Or.inr
    rcases hp.sent hpc (by simp [newSessionFrame]) with ⟨hs,-,hsent⟩ | ⟨hs,hsent⟩
    · have hclosed : (v.session.onSent f).closed = true → v.session.halfCloseRecv = true := by
        intro hc
        by_contra hr
        rw [hsent, if_neg hr] at hc
        exact hr (h.closed hc).2
      obtain ⟨hsocket,hr,hs',-⟩ := v.session.onSent_frame f
      constructor <;> simp only [hsocket, hr, hs']
      case recv => exact h.recv
      case closed => exact fun hc => ⟨hs,hclosed hc⟩
      case entered =>
        intro he
        rcases hb he with he | ⟨-,hc⟩
        · exact h.entered he
        · exact ⟨hs,hclosed hc⟩
      case isOpen => exact h.isOpen
      case shut => exact h.shut
      case ended => exact fun _ => hs
      case idle => exact h.idle
    · have hopen : v.session.closed = false := by
        rw [← Bool.not_eq_true]
        intro hc
        exact Bool.false_ne_true (hs.symm.trans (h.closed hc).1)
      rw [hsent] at hb ⊢
      have hloop : v.session.loop = v.session.suspend .reading := by rw [SessionEnd.loop, hopen]; rfl
      rw [hloop] at hb ⊢
      refine ⟨h.recv,h.closed,fun he => ?_,h.isOpen,h.shut,by rintro ⟨⟩,h.idle⟩
      rcases hb he with he | ⟨hend,-⟩
      · exact h.entered he
      · cases hend
  | read r hpc =>
    have hend : ∀ {f : Frame} {x : SessionEnd}, (x.submit f).pc ≠ .ended := by rintro _ _ ⟨⟩
    rcases (v.session.receive r).onRead_cases u r with hr | ⟨d,rfl,-,hr⟩ <;> rw [hr] at hb ⊢
    · by_cases herr : r = .error
      · exact .inl (.inl (by simp [SessionEnd.submit, SessionEnd.sendEof, SessionEnd.receive, herr]))
      · refine .inr ⟨h.recv,fun hc => ⟨rfl,(h.closed hc).2⟩,fun he => ⟨rfl,?_⟩,fun ho => ⟨rfl,(h.isOpen ho).2⟩,
          h.shut,by rintro ⟨⟩,h.idle⟩
        rcases hb he with he | ⟨hpc',-⟩
        · exact (h.entered he).2
        · exact absurd hpc' hend
    · refine .inr ⟨h.recv,h.closed,fun he => ?_,h.isOpen,h.shut,by rintro ⟨⟩,h.idle⟩
      rcases hb he with he | ⟨hpc',-⟩
      · exact h.entered he
      · exact absurd hpc' hend

/-- A frame for an open session closes it, or closes one direction of it. -/
theorem Open.taken {f : Frame} (h : Open u v) (hk : visitorKey f = some u) :
    Failed u { v with
        session := (v.session.onFrame f).session
        entered := !(v.session.onFrame f).erase
        pending := (v.session.onFrame f).write
        frames := v.frames ++ [f] } ∨
      Open u { v with
        session := (v.session.onFrame f).session
        entered := !(v.session.onFrame f).erase
        pending := (v.session.onFrame f).write
        frames := v.frames ++ [f] } := by
  have htaken : ∀ {m : Method}, f.method = m → Received m u (v.frames ++ [f]) := fun hm =>
    ⟨f,List.mem_append_right _ (List.mem_singleton_self f),hm,hk⟩
  have hsame : f.method ≠ .dataEof → ∀ {w : Option ByteVector}, Open u { v with
      entered := true
      pending := w
      frames := v.frames ++ [f] } := by
    intro hm w
    exact ⟨h.recv.trans (received_append_singleton (.inl hm)).symm,h.closed,by rintro ⟨⟩,h.isOpen,h.shut,h.ended,h.idle⟩
  by_cases heof : f.method = .dataEof
  · apply Or.inr
    by_cases hs : v.session.halfCloseSend = true
    · have hx : ClientSession.onFrame v.session f =
          { session := v.session.recvEof.shutdown.markClosed
            erase := true } := by
        simp [ClientSession.onFrame, heof, SessionEnd.recvEof, SessionEnd.shutdown, hs]
      rw [hx]
      exact ⟨iff_of_true rfl (htaken heof),fun _ => ⟨hs,rfl⟩,fun _ => ⟨hs,rfl⟩,fun _ => ⟨hs,rfl⟩,fun _ => rfl,
        h.ended,h.idle⟩
    · have hx : ClientSession.onFrame v.session f = { session := v.session.recvEof.shutdown } := by
        simp [ClientSession.onFrame, heof, SessionEnd.recvEof, SessionEnd.shutdown, hs]
      rw [hx]
      exact ⟨iff_of_true rfl (htaken heof),fun hc => absurd (h.closed hc).1 hs,by rintro ⟨⟩,
        fun ho => absurd (h.isOpen ho).1 hs,fun _ => rfl,h.ended,h.idle⟩
  · cases hm : f.method
    case dataEof => exact absurd hm heof
    case sessionErr => exact .inl (.inr (.inr (.inl (htaken hm))))
    case sessionClose => exact .inl (.inr (.inr (.inr (htaken hm))))
    all_goals
      apply Or.inr
      simp only [ClientSession.onFrame, hm]
      exact hsame heof

/-- While the connection to A stands an open session stays open by whatever a step means to
it, or it fails. -/
theorem Moves.stays (hm : Moves s i e v) (hkeep : s.Keeps e) (hcut : ¬s.CutOff) (hlost : ¬v.lost = true)
    (h : Open (s.sessions.key i) (s.view i)) (hp : (s.sessions.cell i).Pumps (s.sessions.key i) (newSessionFrame (s.sessions.key i))) :
    Failed (s.sessions.key i) v ∨ Open (s.sessions.key i) v := by
  have hclosing : s.reader.isClosing i = false := h.idle
  cases hm with
  | same => exact .inr h
  | transmitted f hpc => exact .inr ⟨h.recv,h.closed,h.entered,h.isOpen,h.shut,nofun,h.idle⟩
  | resumed e x hx =>
    apply h.resumed hp (ClientSession.resume_resumes hx)
    intro hb
    by_cases he : s.sessions.Entered i <;> simp_all
  | passed f hr hm hk =>
    refine .inr ⟨?_,h.closed,h.entered,h.isOpen,h.shut,h.ended,h.idle⟩
    by_cases he : s.sessions.Entered i
    · exact h.recv.trans (received_append_singleton (.inr (hk he))).symm
    · have hrecv := (h.entered (decide_eq_false he)).2
      exact iff_of_true hrecv ((h.recv.mp hrecv).append [f])
  | taken f _ _ _ hk => exact h.taken hk
  | written => exact .inr ⟨h.recv,h.closed,h.entered,h.isOpen,h.shut,h.ended,h.idle⟩
  | failed => exact .inl (.inr (.inl rfl))
  | dismissed w hr => simp [hr] at hclosing
  | staled w hr => simp [hr] at hclosing
  | cut => exact absurd rfl hlost
  | shut =>
    by_cases he : s.sessions.Entered i
    · rcases hkeep i he with (hcut' | hfailed) | hthrough
      · exact absurd hcut' hcut
      · exact .inl (Moves.failed_mono .shut hfailed)
      · have hboth := h.of_through hp hthrough
        simp only [if_pos he]
        exact .inr ⟨h.recv,h.closed,fun _ => hboth,fun _ => hboth,h.shut,h.ended,h.idle⟩
    · simp only [if_neg he]
      exact .inr ⟨h.recv,h.closed,fun _ => h.entered (decide_eq_false he),h.isOpen,h.shut,h.ended,h.idle⟩

/-- All sessions are open or interrupted. -/
structure Sound (s : Visitor) : Prop where
  bounded : s.Bounded
  distinct : s.sessions.Distinct
  pumps : ∀ i < s.sessions.count, (s.sessions.cell i).Pumps (s.sessions.key i) (newSessionFrame (s.sessions.key i))
  opens : ∀ i < s.sessions.count, s.Interrupted i ∨ Open (s.sessions.key i) (s.view i)

theorem Sound.staysOpen (h : s.Sound) : ∀ i < s.sessions.count, s.StaysOpen i := by
  intro i hi
  rcases h.opens i hi with hint | ho
  · intro hn
    exact absurd hint hn
  · exact ho.staysOpen (h.pumps i hi)

theorem step_sound (h : s.Sound) (hseq : s.InSequence e) (hkeep : s.Keeps e) (hs : s.step e = some t) :
    t.Sound := by
  have hc := (step_drifts h.bounded hs).carries h.distinct hseq.fresh
  refine ⟨hc.bounded,hc.distinct,fun i hi => ?_,fun i hi => ?_⟩
  · obtain ⟨hi,hk,hm⟩ | ⟨-,u,-,hk,hv⟩ := hc.view i hi
    · rw [hk]
      exact hm.pumps rfl (h.pumps i hi)
    · have hcell : t.sessions.cell i = .accepted u := congrArg View.session hv
      rw [hk, hcell]
      exact .opening false
  · by_cases hcut : t.CutOff
    · exact .inl (.inl hcut)
    have hcut' : ¬s.CutOff := fun h => hcut (step_cutOff hs h)
    obtain ⟨hi,hk,hm⟩ | ⟨-,u,rfl,hk,hv⟩ := hc.view i hi
    · rw [Interrupted, hk]
      rcases h.opens i hi with (h' | hfailed) | ho
      · exact absurd h' hcut'
      · exact .inl (.inr (hm.failed_mono hfailed))
      · exact (hm.stays hkeep hcut' (fun hl => hcut (.inl hl)) ho (h.pumps i hi)).imp_left .inr
    · rw [hk, hv]
      have hnone : ¬Received .dataEof u s.frames := by
        rintro ⟨g,hg,-,hkey⟩
        exact hseq.2 g hg hkey
      exact .inr ⟨iff_of_false nofun hnone,nofun,nofun,nofun,nofun,nofun,rfl⟩

/-- When the acceptor fails all sessions lose their entry. -/
theorem step_unaccepted (hs : s.step .acceptFailed = some t) (he : s.sessions.Entered i) : t.view i = { s.view i with
    session := (s.sessions.cell i).close
    entered := false } ∧ (t.CutOff → s.CutOff) := by
  cases step_turn hs with
  | unaccepted => exact ⟨by ext <;> simp [closeAll, SharedMap.clear_cell, he],id⟩

theorem StaysOpen.over (h : s.StaysOpen i) (he : ¬s.sessions.Entered i) :
    s.Interrupted i ∨ Through (s.sessions.key i) (s.view i) := by
  by_contra hn
  obtain ⟨hint,hthrough⟩ := not_or.mp hn
  exact he (h hint hthrough).1

theorem keeps_of_staysOpen (hb : s.Bounded) (hs : s.step e = some t) (ht : ∀ i < t.sessions.count, t.StaysOpen i) :
    s.Keeps e := by
  cases e with
  | acceptFailed =>
    intro i he
    obtain ⟨hview,hcut⟩ := step_unaccepted hs he
    have hgone : ¬t.sessions.Entered i := of_decide_eq_false (congrArg View.entered hview)
    have hover := (ht i (he.lt.trans_le (step_drifts hb hs).count)).over hgone
    rw [Interrupted, ((step_drifts hb hs).move he.lt).1, hview] at hover
    exact hover.imp_left (Or.imp_left hcut)
  | _ => trivial

/-- At B every session stays open as long as it should exactly when the acceptor only fails
with no such session in the table. -/
theorem stays_open_iff {events : List VisitorEvent} (hrun : run step {} events = some s)
    (hseq : Meets step InSequence {} events) :
    (∀ pre t, pre <+: events → run step {} pre = some t → ∀ i < t.sessions.count, t.StaysOpen i) ↔
      Meets step Keeps {} events := by
  refine forall_prefix_iff_meets (I := Sound) hrun hseq ?_ Sound.staysOpen step_sound
    fun h _ => keeps_of_staysOpen h.bounded
  exact ⟨empty_bounded,fun i _ hi => absurd hi (Nat.not_lt_zero i),fun i hi => absurd hi (Nat.not_lt_zero i),
    fun i hi => absurd hi (Nat.not_lt_zero i)⟩

end Visitor

/-- A failure of its socket is not forgotten by the coroutine. -/
theorem SessionState.Resumes.failed_mono {u : Uuid} {x y : SessionState} {e : SessionEvent} (h : x.Resumes u e y) :
    (x.socket.readFailed = true → y.socket.readFailed = true) ∧
      (x.socket.writeFailed = true → y.socket.writeFailed = true) := by
  cases h with
  | connected | refused | givenUp | draining => exact ⟨id,id⟩
  | failed => exact ⟨id,fun _ => rfl⟩
  | answered =>
    obtain ⟨hr,hw⟩ := x.drain_failed x.arrivalBuffer
    exact ⟨(hr.trans ·),(hw.trans ·)⟩
  | drained rest left =>
    obtain ⟨hr,hw⟩ := (x.onEnd (·.write rest)).drain_failed left
    exact ⟨(hr.trans ·),(hw.trans ·)⟩
  | pumped f =>
    have hsocket := (x.onSent_frame f).1
    exact ⟨(hsocket ▸ ·),(hsocket ▸ ·)⟩
  | read r =>
    have hsocket := ((x.receive r).onRead_frame u r).2.2.2.1
    refine ⟨fun hr => ?_,fun hw => (congrArg Socket.writeFailed hsocket).trans hw⟩
    exact (congrArg Socket.readFailed hsocket).trans (Bool.or_eq_true_iff.mpr (.inl hr))

namespace Provider

/-- The connect failed, the session was closed, or its remote failed. -/
def Failed (u : Uuid) (v : View SessionState) : Prop :=
  v.session.socket.readFailed = true ∨ v.session.socket.writeFailed = true ∨
    sessionErrFrame u ∈ v.session.submitted ∨ sessionCloseFrame u ∈ v.frames

/-- The session has failed, or the connection to A was lost. -/
def Interrupted (s : Provider) (i : ℕ) : Prop := s.CutOff ∨ Failed (s.sessions.key i) (s.view i)

/-- `DATA_EOF` has gone in both directions. -/
def Through (u : Uuid) (v : View SessionState) : Prop :=
  dataEofFrame u ∈ v.session.submitted ∧ dataEofFrame u ∈ v.frames

/-- As long as nothing interrupts the session and `DATA_EOF` is missing in one direction, the
session is in the table and its remote open; what the remote sends is read until `DATA_EOF`
is sent, and what comes for it is written or kept for it until `DATA_EOF` has come. -/
def StaysOpen (s : Provider) (i : ℕ) : Prop :=
  ¬s.Interrupted i → ¬Through (s.sessions.key i) (s.view i) →
    s.sessions.Entered i ∧ (s.sessions.cell i).socket.isOpen = true ∧ (s.sessions.cell i).closed = false ∧
      (dataEofFrame (s.sessions.key i) ∉ (s.sessions.cell i).submitted → (s.sessions.cell i).pc ≠ .ended) ∧
      (dataEofFrame (s.sessions.key i) ∉ s.frames → (s.sessions.cell i).socket.shutdownSend = false ∧
        ((s.sessions.cell i).remoteConnected = true ∨ (s.sessions.cell i).connecting = true))

/-- The write of `DATA_EOF` succeeds only when `DATA_EOF` has come or the session is
interrupted, and a write of the reader fails only when no other session needs to stay. -/
def Keeps (s : Provider) : ProviderEvent → Prop
  | .session i .sent => (s.sessions.cell i).pc = .sending (dataEofFrame (s.sessions.key i)) true →
    i < s.sessions.count → s.Interrupted i ∨ (s.sessions.cell i).halfCloseRecv = true
  | .writeFailed => ∀ i, s.sessions.Entered i → s.reader.pending i = none →
    s.Interrupted i ∨ Through (s.sessions.key i) (s.view i)
  | _ => True

/-- What the flags of a session that has not failed say. -/
structure Open (u : Uuid) (v : View SessionState) : Prop where
  recv : v.session.halfCloseRecv = true ↔ dataEofFrame u ∈ v.frames
  closed : v.session.closed = true → v.session.halfCloseSend = true ∧ v.session.halfCloseRecv = true
  entered : v.entered = false → v.session.halfCloseSend = true ∧ v.session.halfCloseRecv = true
  isOpen : v.session.socket.isOpen = false → v.session.halfCloseSend = true ∧ v.session.halfCloseRecv = true
  shut : v.session.socket.shutdownSend = true → v.session.halfCloseRecv = true
  ended : v.session.pc = .ended → v.session.halfCloseSend = true ∧ v.session.halfCloseRecv = true
  arrives : v.session.remoteConnected = true ∨ v.session.connecting = true

variable {s t : Provider} {e : ProviderEvent} {i : ℕ} {u : Uuid} {v w : View SessionState}

theorem Failed.mono (h : Failed u v)
    (hr : v.session.socket.readFailed = true → w.session.socket.readFailed = true)
    (hw : v.session.socket.writeFailed = true → w.session.socket.writeFailed = true)
    (hsub : ∀ f ∈ v.session.submitted, f ∈ w.session.submitted) (hf : ∃ fs, w.frames = v.frames ++ fs) :
    Failed u w := by
  obtain ⟨fs,hf⟩ := hf
  exact h.imp hr (Or.imp hw (Or.imp (hsub _) fun h => hf ▸ List.mem_append_left fs h))

theorem Moves.failed_mono (hm : Moves s i e v) (h : Failed u (s.view i)) : Failed u v := by
  have hid : ∀ f ∈ (s.sessions.cell i).submitted, f ∈ (s.sessions.cell i).submitted := fun _ h => h
  cases hm with
  | same | transmitted | written => exact h.mono id id hid ⟨[],by simp⟩
  | passed f => exact h.mono id id hid ⟨[f],rfl⟩
  | taken f =>
    obtain ⟨hr,hw⟩ := SessionState.onFrame_failed (s.sessions.cell i) f
    have hsteady := SessionState.onFrame_steady (s.sessions.cell i) f
    exact h.mono (hr.trans ·) (hw.trans ·) (fun g hg => hsteady.2.2.1.symm ▸ hg) ⟨[f],rfl⟩
  | resumed e x hx =>
    have hres := SessionState.resume_resumes hx
    have hsocket := hres.failed_mono
    exact h.mono hsocket.1 hsocket.2 hres.submitted ⟨[],by simp⟩
  | cut r fs =>
    obtain ⟨hr,hw⟩ := (s.sessions.cell i).cutOff_failed
    have hsteady := (s.sessions.cell i).cutOff_steady
    refine h.mono (fun h => ?_) (fun h => ?_) (fun g hg => ?_) ⟨fs,rfl⟩ <;> dsimp only <;> split_ifs
    · exact hr.trans h
    · exact h
    · exact hw.trans h
    · exact h
    · exact hsteady.2.2.1.symm ▸ hg
    · exact hg
  | thrown j rest hr x hx =>
    have hx' : x.socket.readFailed = (s.sessions.cell i).socket.readFailed ∧
        ((s.sessions.cell i).socket.writeFailed = true → x.socket.writeFailed = true) ∧
        x.submitted = (s.sessions.cell i).submitted := by
      rw [hx]
      split_ifs
      · exact ⟨rfl,fun _ => rfl,rfl⟩
      · exact ⟨rfl,id,rfl⟩
    obtain ⟨hr,hw⟩ := x.cutOff_failed
    have hsteady := x.cutOff_steady
    refine h.mono (fun h => ?_) (fun h => ?_) (fun g hg => ?_) ⟨[],by simp⟩ <;> dsimp only <;> split_ifs
    · exact hr.trans (hx'.1.trans h)
    · exact hx'.1.trans h
    · exact hw.trans (hx'.2.1 h)
    · exact hx'.2.1 h
    · exact hsteady.2.2.1.symm ▸ hx'.2.2.symm ▸ hg
    · exact hx'.2.2.symm ▸ hg

theorem dataEof_mem_of_closeSend {x : SessionState} (h : x.Speaks u) :
    dataEofFrame u ∈ x.submitted ↔ x.halfCloseSend = true := by
  refine ⟨fun hmem => ?_,h.dataEof_mem⟩
  cases h with
  | connecting _ _ hfs => simp [hfs] at hmem
  | refusing _ _ _ hfs | refused _ _ hfs => simp [hfs, dataEofFrame, sessionErrFrame] at hmem
  | pumping hp => exact (hp.dataEof_mem (by simp [sessionOkFrame])).mp hmem

theorem Open.through_iff (h : Open u v) (hp : v.session.Speaks u) : Through u v ↔
    v.session.halfCloseSend = true ∧ v.session.halfCloseRecv = true :=
  and_congr (dataEof_mem_of_closeSend hp) h.recv.symm

theorem Open.staysOpen (h : Open (s.sessions.key i) (s.view i)) (hp : (s.sessions.cell i).Speaks (s.sessions.key i)) :
    s.StaysOpen i := by
  intro _ hn
  rw [h.through_iff hp] at hn
  refine ⟨?_,?_,?_,fun _ hpc => hn (h.ended hpc),fun hr => ⟨?_,h.arrives⟩⟩
  · by_contra he
    exact hn (h.entered (decide_eq_false he))
  · rw [← Bool.not_eq_false]
    intro ho
    exact hn (h.isOpen ho)
  · rw [← Bool.not_eq_true]
    intro hc
    exact hn (h.closed hc)
  · rw [← Bool.not_eq_true]
    intro hsh
    exact hr (h.recv.mp (h.shut hsh))

/-- The loop over the arrival buffer keeps a session open. -/
theorem Open.drain (h : Open u v) (hs : v.session.halfCloseSend = false) (bs : List ByteVector) {b : Bool}
    (hb : b = false → v.entered = false ∨ (v.session.drain bs).pc = .ended) :
    Open u { v with
      session := v.session.drain bs
      entered := b } := by
  have hno : ∀ {P : Prop}, v.session.halfCloseSend = true ∧ v.session.halfCloseRecv = true → P := fun hboth =>
    absurd (hs.symm.trans hboth.1) Bool.false_ne_true
  have hopen : v.session.closed = false := by
    rw [← Bool.not_eq_true]
    intro hc
    exact hno (h.closed hc)
  cases bs with
  | cons d ds =>
    refine ⟨h.recv,h.closed,fun he => ?_,h.isOpen,h.shut,by rintro ⟨⟩,h.arrives⟩
    rcases hb he with he | hend
    · exact h.entered he
    · cases hend
  | nil =>
    obtain ⟨hconn,hcl,hrecv,-⟩ := v.session.drain_frame []
    have hpc : (v.session.drain []).pc = .reading := by simp [hopen]
    have hsend : (v.session.drain []).connecting = v.session.connecting ∧
        (v.session.drain []).halfCloseSend = v.session.halfCloseSend := by
      cases hr : v.session.halfCloseRecv <;> simp [SessionState.drain, hr, SessionState.onEnd, SessionEnd.loop,
        SessionEnd.suspend, SessionEnd.shutdown]
    constructor <;> simp only [hconn, hcl, hrecv, hpc, hsend, SessionState.drain_isOpen,
      SessionState.drain_nil_shutdownSend]
    case recv => exact h.recv
    case closed => exact h.closed
    case entered =>
      intro he
      rcases hb he with he | hend
      · exact h.entered he
      · cases hpc.symm.trans hend
    case isOpen => exact h.isOpen
    case shut => exact fun hsh => (Bool.or_eq_true_iff.mp hsh).elim h.shut id
    case ended => rintro ⟨⟩
    case arrives => exact h.arrives

/-- The coroutine keeps a session open until `DATA_EOF` has gone in both directions. -/
theorem Open.resumed (h : Open u v) (hp : v.session.Speaks u) {e : SessionEvent} {x : SessionState}
    (hx : v.session.Resumes u e x) {b : Bool} (hb : b = false → v.entered = false ∨ x.pc = .ended)
    (hkeep : e = .sent → (∃ w, v.session.pc = .sending (dataEofFrame u) w) →
      Failed u v ∨ v.session.halfCloseRecv = true) :
    Failed u { v with
        session := x
        entered := b } ∨
      Open u { v with
        session := x
        entered := b } := by
  have hgone : ∀ {pc : SessionPc}, x.pc = pc → pc ≠ .ended → b = false → v.entered = false := by
    intro pc hpc hne he
    rcases hb he with he | hend
    · exact he
    · exact absurd (hpc.symm.trans hend) hne
  cases hx with
  | connected hpc =>
    exact .inr ⟨h.recv,h.closed,fun he => h.entered (hgone rfl (by rintro ⟨⟩) he),h.isOpen,h.shut,by rintro ⟨⟩,.inl rfl⟩
  | refused hpc =>
    exact .inl (.inr (.inr (.inl (List.mem_append_right _ (List.mem_singleton_self _)))))
  | answered f w hpc hm => exact .inr (h.drain (hp.answering hpc hm).1 _ hb)
  | givenUp f w hpc hm =>
    obtain ⟨hmem,rfl | rfl | ⟨d,rfl⟩ | rfl⟩ := hp.sending hpc
    · exact .inl (.inr (.inr (.inl hmem)))
    all_goals cases hm
  | pumped f w hpc hok herr =>
    have hpump := hp.pumps (by simp [hpc]) (fun w' h => herr (by rw [(SessionPc.sending.inj (hpc.symm.trans h)).1]; rfl))
      (by simp [hpc])
    obtain ⟨hsocket,hr,hs',hsub,-⟩ := v.session.onSent_frame f
    rcases hpump.sent hpc (by simp [sessionOkFrame]) with ⟨hs,rfl,hsent⟩ | ⟨hs,hsent⟩
    · rcases hkeep rfl ⟨w,hpc⟩ with hfailed | hrecv
      · refine .inl (hfailed.mono (fun hf => ?_) (fun hf => ?_) (fun g hg => ?_) ⟨[],by simp⟩)
        · exact (congrArg Socket.readFailed hsocket).trans hf
        · exact (congrArg Socket.writeFailed hsocket).trans hf
        · exact hsub.symm ▸ hg
      · apply Or.inr
        constructor <;> simp only [SessionState.onEnd, hsocket, hr, hs']
        case recv => exact h.recv
        case closed | entered | isOpen | ended => exact fun _ => ⟨hs,hrecv⟩
        case shut => exact h.shut
        case arrives => exact h.arrives
    · have hopen : v.session.closed = false := by
        rw [← Bool.not_eq_true]
        intro hc
        exact Bool.false_ne_true (hs.symm.trans (h.closed hc).1)
      have hloop : v.session.onSent f = v.session.suspend .reading := by
        rw [hsent, SessionEnd.loop, hopen]
        rfl
      have hpc' : (v.session.onEnd (·.onSent f)).pc = .reading := congrArg SessionEnd.pc hloop
      have hx : v.session.onEnd (·.onSent f) = v.session.onEnd (·.suspend .reading) := by
        rw [SessionState.onEnd, hloop]
        rfl
      rw [hx] at hgone ⊢
      exact .inr ⟨h.recv,h.closed,fun he => h.entered (hgone rfl (by rintro ⟨⟩) he),h.isOpen,h.shut,by rintro ⟨⟩,h.arrives⟩
  | read r hpc =>
    rcases (v.session.receive r).onRead_cases u r with hr | ⟨d,rfl,-,hr⟩
    · have hx : (v.session.onEnd fun y => (y.receive r).onRead u r) =
          v.session.onEnd fun y => (y.receive r).sendEof.submit (dataEofFrame u) := by
        rw [SessionState.onEnd, hr]
        rfl
      rw [hx] at hgone ⊢
      by_cases herr : r = .error
      · exact .inl (.inl (by simp [SessionState.onEnd, SessionEnd.submit, SessionEnd.sendEof,
          SessionEnd.receive, herr]))
      · exact .inr ⟨h.recv,fun hc => ⟨rfl,(h.closed hc).2⟩,fun he => ⟨rfl,(h.entered (hgone rfl (by rintro ⟨⟩) he)).2⟩,
          fun ho => ⟨rfl,(h.isOpen ho).2⟩,h.shut,by rintro ⟨⟩,h.arrives⟩
    · have hx : (v.session.onEnd fun y => (y.receive (.data d)).onRead u (.data d)) =
          v.session.onEnd fun y => (y.receive (.data d)).submit (dataFrame u d) := by
        rw [SessionState.onEnd, hr]
        rfl
      rw [hx] at hgone ⊢
      exact .inr ⟨h.recv,h.closed,fun he => h.entered (hgone rfl (by rintro ⟨⟩) he),h.isOpen,h.shut,by rintro ⟨⟩,h.arrives⟩
  | drained rest left hpc =>
    have hwritten : Open u { v with session := v.session.onEnd (·.write rest) } :=
      ⟨h.recv,h.closed,h.entered,h.isOpen,h.shut,h.ended,h.arrives⟩
    exact .inr (hwritten.drain (hp.draining hpc).1 left hb)
  | draining n rest left hpc =>
    exact .inr ⟨h.recv,h.closed,fun he => h.entered (hgone rfl (by rintro ⟨⟩) he),h.isOpen,h.shut,by rintro ⟨⟩,h.arrives⟩
  | failed => exact .inl (.inr (.inl rfl))

theorem Open.taken {f : Frame} (h : Open u v) (hk : providerKey f = some u) :
    Failed u { v with
        session := (v.session.onFrame f).session
        entered := !(v.session.onFrame f).erase
        pending := (v.session.onFrame f).write
        frames := v.frames ++ [f] } ∨
      Open u { v with
        session := (v.session.onFrame f).session
        entered := !(v.session.onFrame f).erase
        pending := (v.session.onFrame f).write
        frames := v.frames ++ [f] } := by
  obtain ⟨m,body⟩ := f
  obtain hm | hm | hm := providerKey_method hk <;> dsimp only at hm <;> subst hm
  · have hrecv : dataEofFrame u ∈ v.frames ++ [⟨.data,body⟩] ↔ dataEofFrame u ∈ v.frames := by
      simp [dataEofFrame]
    have hsame : ∀ {w : Option ByteVector}, Open u { v with
        entered := true
        pending := w
        frames := v.frames ++ [⟨.data,body⟩] } := fun {_} =>
      ⟨h.recv.trans hrecv.symm,h.closed,by rintro ⟨⟩,h.isOpen,h.shut,h.ended,h.arrives⟩
    apply Or.inr
    simp only [SessionState.onFrame]
    split_ifs
    · exact hsame
    · exact hsame
    · exact ⟨h.recv.trans hrecv.symm,h.closed,by rintro ⟨⟩,h.isOpen,h.shut,h.ended,h.arrives⟩
    · exact hsame
  · obtain rfl : body = u := Option.some.inj hk
    have hmem : dataEofFrame body ∈ v.frames ++ [⟨.dataEof,body⟩] := List.mem_append_right _ (List.mem_singleton_self _)
    obtain ⟨hconn,hrecv,hclosed,hsend,hisOpen,hpc,hcon⟩ : v.session.recvEof.remoteConnected = v.session.remoteConnected ∧
        v.session.recvEof.halfCloseRecv = true ∧ v.session.recvEof.closed = v.session.closed ∧
        v.session.recvEof.halfCloseSend = v.session.halfCloseSend ∧
        v.session.recvEof.socket.isOpen = v.session.socket.isOpen ∧ v.session.recvEof.pc = v.session.pc ∧
        v.session.recvEof.connecting = v.session.connecting := by
      rw [SessionState.recvEof]
      split_ifs <;> exact ⟨rfl,rfl,rfl,rfl,rfl,rfl,rfl⟩
    apply Or.inr
    simp only [SessionState.onFrame, hsend]
    split_ifs with hs
    · constructor <;> simp only [SessionState.onEnd, SessionEnd.markClosed, hconn, hrecv, hsend, hs, hcon]
      case recv => exact iff_of_true trivial hmem
      case arrives => exact h.arrives
      case shut => exact fun _ => trivial
      all_goals exact fun _ => ⟨trivial,trivial⟩
    · have hno : ∀ {P : Prop}, v.session.halfCloseSend = true ∧ v.session.halfCloseRecv = true → P :=
        fun hboth => absurd hboth.1 hs
      constructor <;> simp only [hconn, hrecv, hclosed, hsend, hisOpen, hpc, hcon]
      case recv => exact iff_of_true trivial hmem
      case closed => exact fun hc => hno (h.closed hc)
      case entered => rintro ⟨⟩
      case isOpen => exact fun ho => hno (h.isOpen ho)
      case shut => exact fun _ => trivial
      case ended => exact fun hend => hno (h.ended hend)
      case arrives => exact h.arrives
  · obtain rfl : body = u := Option.some.inj hk
    exact .inl (.inr (.inr (.inr (List.mem_append_right _ (List.mem_singleton_self _)))))

/-- A write of the reader to another session fails: the table is given up. -/
theorem Open.cleared (h : Open u v)
    (hentered : v.entered = true → v.session.halfCloseSend = true ∧ v.session.halfCloseRecv = true) {x : SessionState}
    (hx : x = v.session ∨ v.entered = true ∧ x = v.session.cutOff) : Open u { v with
      session := x
      entered := false
      pending := none } := by
  have hboth : v.session.halfCloseSend = true ∧ v.session.halfCloseRecv = true := by
    cases he : v.entered
    · exact h.entered he
    · exact hentered he
  rcases hx with rfl | ⟨-,rfl⟩
  · exact ⟨h.recv,h.closed,fun _ => hboth,h.isOpen,h.shut,h.ended,h.arrives⟩
  · rw [SessionState.cutOff]
    split_ifs
    · exact ⟨h.recv,h.closed,fun _ => hboth,fun _ => hboth,h.shut,h.ended,h.arrives⟩
    · exact ⟨h.recv,h.closed,fun _ => hboth,h.isOpen,h.shut,h.ended,h.arrives⟩

/-- While the connection to A stands an open session stays open by whatever a step means to
it, or it fails. -/
theorem Moves.stays (hm : Moves s i e v) (hi : i < s.sessions.count) (hkeep : s.Keeps e) (hcut : ¬s.CutOff)
    (hlost : ¬v.lost = true) (hsent : ∀ j, e = .session j .sent → (s.sessions.cell j).unwritten = false)
    (h : Open (s.sessions.key i) (s.view i)) (hp : (s.sessions.cell i).Speaks (s.sessions.key i)) :
    Failed (s.sessions.key i) v ∨ Open (s.sessions.key i) v := by
  cases hm with
  | same => exact .inr h
  | transmitted f hpc => exact .inr ⟨h.recv,h.closed,h.entered,h.isOpen,h.shut,nofun,h.arrives⟩
  | resumed e x hx =>
    refine h.resumed hp (SessionState.resume_resumes hx) (fun hb => ?_) ?_
    · by_cases he : s.sessions.Entered i <;> simp_all
    · rintro rfl ⟨w,hw⟩
      obtain rfl : w = true := by simpa [SessionEnd.unwritten, show (s.sessions.cell i).pc = _ from hw] using hsent i rfl
      exact (hkeep hw hi).imp_left fun h => h.resolve_left hcut
  | passed f hr hm hk =>
    refine .inr ⟨?_,h.closed,h.entered,h.isOpen,h.shut,h.ended,h.arrives⟩
    by_cases he : s.sessions.Entered i
    · have hne : dataEofFrame (s.sessions.key i) ≠ f := fun h => hk he (h ▸ rfl)
      exact h.recv.trans (by simp [hne])
    · have hrecv := (h.entered (decide_eq_false he)).2
      exact iff_of_true hrecv (List.mem_append_left [f] (h.recv.mp hrecv))
  | taken f _ _ hk => exact h.taken hk
  | written => exact .inr ⟨h.recv,h.closed,h.entered,h.isOpen,h.shut,h.ended,h.arrives⟩
  | cut => exact absurd rfl hlost
  | thrown j rest hr x hx =>
    by_cases hij : i = j
    · have hfailed : x.socket.writeFailed = true := by
        rw [hx, if_pos hij]
        rfl
      refine .inl (.inr (.inl ?_))
      dsimp only
      split_ifs
      · exact x.cutOff_failed.2.trans hfailed
      · exact hfailed
    · rw [if_neg hij] at hx
      subst hx
      by_cases he : s.sessions.Entered i
      · have hpending : s.reader.pending i = none := by rw [hr, ReaderPc.pending_of_ne (Ne.symm hij)]
        rcases hkeep i he hpending with (hcut' | hfailed) | hthrough
        · exact absurd hcut' hcut
        · exact .inl (Moves.failed_mono (.thrown j rest hr _ (if_neg hij).symm) hfailed)
        · have hboth := (h.through_iff hp).mp hthrough
          simp only [if_pos he]
          exact .inr (h.cleared (fun _ => hboth) (.inr ⟨decide_eq_true he,rfl⟩))
      · simp only [if_neg he]
        exact .inr (h.cleared (fun he' => absurd (of_decide_eq_true he') he) (.inl rfl))

theorem InSequence.fresh (hq : s.InSequence e) : s.Fresh e := by
  cases e with
  | read r =>
    cases r with
    | frame f => exact fun hf => (hq hf).1
    | _ => trivial
  | _ => trivial

/-- All sessions are open or interrupted. -/
structure Sound (s : Provider) : Prop where
  distinct : s.sessions.Distinct
  speaks : ∀ i < s.sessions.count, (s.sessions.cell i).Speaks (s.sessions.key i)
  opens : ∀ i < s.sessions.count, s.Interrupted i ∨ Open (s.sessions.key i) (s.view i)

theorem Sound.staysOpen (h : s.Sound) : ∀ i < s.sessions.count, s.StaysOpen i := by
  intro i hi
  rcases h.opens i hi with hint | ho
  · intro hn
    exact absurd hint hn
  · exact ho.staysOpen (h.speaks i hi)

theorem step_sound (h : s.Sound) (hseq : s.InSequence e) (hkeep : s.Keeps e) (hs : s.step e = some t) :
    t.Sound := by
  have hc := step_carries h.distinct hseq.fresh hs
  refine ⟨hc.distinct,fun i hi => ?_,fun i hi => ?_⟩
  · obtain ⟨hi,hk,hm⟩ | ⟨-,f,-,-,-,hv⟩ := hc.view i hi
    · rw [hk]
      exact hm.speaks (h.speaks i hi)
    · have hcell : t.sessions.cell i = .connect := congrArg View.session hv
      rw [hcell]
      exact .connecting rfl rfl rfl
  · by_cases hcut : t.CutOff
    · exact .inl (.inl hcut)
    have hcut' : ¬s.CutOff := fun h => hcut (step_cutOff hs h)
    obtain ⟨hi,hk,hm⟩ | ⟨-,f,rfl,hfwd,hk,hv⟩ := hc.view i hi
    · rw [Interrupted, hk]
      rcases h.opens i hi with (h' | hfailed) | ho
      · exact absurd h' hcut'
      · exact .inl (.inr (hm.failed_mono hfailed))
      · have hsent := (step_broken hs (Bool.eq_false_iff.mpr fun hb => hcut (.inr hb))).2
        exact (hm.stays hi hkeep hcut' (fun hl => hcut (.inl hl)) hsent ho (h.speaks i hi)).imp_left .inr
    · rw [hk, hv]
      have hnone : dataEofFrame f.body ∉ s.frames ++ [f] := by
        intro hmem
        rcases List.mem_append.mp hmem with hmem | hmem
        · exact (hseq hfwd).2 _ hmem rfl
        · rw [← List.mem_singleton.mp hmem] at hfwd
          cases hfwd
      exact .inr ⟨iff_of_false nofun hnone,nofun,nofun,nofun,nofun,nofun,.inr rfl⟩

/-- Behind its `DATA_EOF` the coroutine gives up the entry of its session. -/
theorem step_parted (hs : s.step (.session i .sent) = some t) {w : Bool}
    (hpc : (s.sessions.cell i).pc = .sending (dataEofFrame u) w) : t.view i = { s.view i with
      session := (s.sessions.cell i).onEnd (·.onSent (dataEofFrame u))
      entered := false } := by
  cases step_turn hs with
  | resumed _ _ x hi hx =>
    simp only [SessionState.resume, hpc, dataEofFrame, Option.some.injEq] at hx
    subst hx
    ext <;> simp [onResumed, SharedMap.put_entered_self]
    · rfl
    · intro _
      exact rfl

/-- A write of the reader that fails takes all sessions out of the table. -/
theorem step_cleared (hs : s.step .writeFailed = some t) (he : s.sessions.Entered i)
    (hpending : s.reader.pending i = none) : t.view i = { s.view i with
      session := (s.sessions.cell i).cutOff
      entered := false } := by
  cases step_turn hs with
  | thrown j rest hr =>
    have hij : i ≠ j := by
      rintro rfl
      simp [hr] at hpending
    ext <;> simp [endLoop, hr, SharedMap.clear_cell, SharedMap.set_cell_of_ne _ _ hij, he,
      ReaderPc.pending_of_ne (Ne.symm hij)]

theorem cutOff_of_sent (hs : s.step (.session i .sent) = some t) (hw : (s.sessions.cell i).unwritten = false)
    (h : t.CutOff) : s.CutOff := by
  cases step_turn hs with
  | resumed => simpa [Node.CutOff, onResumed, hw] using h

theorem cutOff_of_writeFailed (hs : s.step .writeFailed = some t) (h : t.CutOff) : s.CutOff := by
  cases step_turn hs with
  | thrown => exact h

theorem StaysOpen.over (h : s.StaysOpen i) (he : ¬s.sessions.Entered i) :
    s.Interrupted i ∨ Through (s.sessions.key i) (s.view i) := by
  by_contra hn
  obtain ⟨hint,hthrough⟩ := not_or.mp hn
  exact he (h hint hthrough).1

/-- A session leaves the table when its `DATA_EOF` is sent, and all do when a write fails. -/
theorem keeps_of_staysOpen (h : s.Sound) (hs : s.step e = some t)
    (ht : ∀ i < t.sessions.count, t.StaysOpen i) : s.Keeps e := by
  cases e with
  | session i e =>
    cases e with
    | sent =>
      intro hpc hi
      have hview := step_parted hs hpc
      have hgone : ¬t.sessions.Entered i := of_decide_eq_false (congrArg View.entered hview)
      have hover := (ht i (hi.trans_le (step_drifts hs).count)).over hgone
      rw [Interrupted, ((step_drifts hs).move hi).1, hview] at hover
      obtain ⟨hsocket,-,-,hsub,-⟩ := (s.sessions.cell i).onSent_frame (dataEofFrame (s.sessions.key i))
      rcases hover with (hcut | hfailed) | hthrough
      · exact .inl (.inl (cutOff_of_sent hs (by simp [SessionEnd.unwritten, hpc]) hcut))
      · exact .inl (.inr (hfailed.imp (hsocket ▸ ·) (Or.imp (hsocket ▸ ·) (Or.imp (hsub ▸ ·) id))))
      · exact (h.opens i hi).imp_right fun hopen => hopen.recv.mpr hthrough.2
    | _ => trivial
  | writeFailed =>
    intro i he hpending
    have hview := step_cleared hs he hpending
    have hgone : ¬t.sessions.Entered i := of_decide_eq_false (congrArg View.entered hview)
    have hover := (ht i (he.lt.trans_le (step_drifts hs).count)).over hgone
    rw [Interrupted, ((step_drifts hs).move he.lt).1, hview] at hover
    obtain ⟨hread,hwrite⟩ := (s.sessions.cell i).cutOff_failed
    have hsub := (s.sessions.cell i).cutOff_steady.2.2.1
    rcases hover with (hcut | hfailed) | hthrough
    · exact .inl (.inl (cutOff_of_writeFailed hs hcut))
    · exact .inl (.inr (hfailed.imp (hread ▸ ·) (Or.imp (hwrite ▸ ·) (Or.imp (hsub ▸ ·) id))))
    · exact .inr ⟨hsub ▸ hthrough.1,hthrough.2⟩
  | _ => trivial

/-- At C every session stays open as long as it should exactly when `DATA_EOF` is sent last. -/
theorem stays_open_iff {events : List ProviderEvent} (hrun : run step {} events = some s)
    (hseq : Meets step InSequence {} events) :
    (∀ pre t, pre <+: events → run step {} pre = some t → ∀ i < t.sessions.count, t.StaysOpen i) ↔
      Meets step Keeps {} events := by
  refine forall_prefix_iff_meets (I := Sound) hrun hseq ?_ Sound.staysOpen step_sound
    fun h _ => keeps_of_staysOpen h
  exact ⟨fun i _ hi => absurd hi (Nat.not_lt_zero i),fun i hi => absurd hi (Nat.not_lt_zero i),
    fun i hi => absurd hi (Nat.not_lt_zero i)⟩

end Provider

/-- In a run where identifiers are new the sessions of both nodes stay open until `DATA_EOF`
has gone in both directions exactly when at B the acceptor and at C a write of the reader only
fails with no such session in the table, and C sends its `DATA_EOF` behind the one of B. -/
theorem half_open_iff (eventsB : List VisitorEvent) (eventsC : List ProviderEvent) :
    (∀ s, run Visitor.step {} eventsB = some s → Meets Visitor.step Visitor.InSequence {} eventsB →
      ((∀ pre t, pre <+: eventsB → run Visitor.step {} pre = some t → ∀ i < t.sessions.count,
        t.StaysOpen i) ↔ Meets Visitor.step Visitor.Keeps {} eventsB)) ∧
    ∀ s, run Provider.step {} eventsC = some s → Meets Provider.step Provider.InSequence {} eventsC →
      ((∀ pre t, pre <+: eventsC → run Provider.step {} pre = some t → ∀ i < t.sessions.count,
        t.StaysOpen i) ↔ Meets Provider.step Provider.Keeps {} eventsC) :=
  ⟨fun _ => Visitor.stays_open_iff,fun _ => Provider.stays_open_iff⟩

def uuidH : Uuid := text "16fd2706-8baf-433b-82eb-8c7fada847da"

/-- The client closes first. -/
def clientFirst : List VisitorEvent :=
  [.accept uuidH, .transmit 0, .session 0 .sent, .session 0 (.readSome .eof), .transmit 0, .session 0 .sent]

/-- The client closes first, and the remote afterwards. -/
def remoteLast : List ProviderEvent :=
  [.read (.frame ⟨.forwardSession,uuidH⟩), .session 0 (.connected true), .transmit 0, .session 0 .sent,
    .read (.frame ⟨.dataEof,uuidH⟩), .session 0 (.readSome .eof), .transmit 0, .session 0 .sent]

/-- The remote closes first. -/
def remoteFirst : List ProviderEvent :=
  [.read (.frame ⟨.forwardSession,uuidH⟩), .session 0 (.connected true), .transmit 0, .session 0 .sent,
    .session 0 (.readSome .eof), .transmit 0, .session 0 .sent]

theorem clientFirst_inSequence : Meets Visitor.step Visitor.InSequence {} clientFirst :=
  .cons ⟨nofun,nofun⟩ rfl (.cons trivial rfl (.cons trivial rfl (.cons trivial rfl (.cons trivial rfl
    (.cons trivial rfl (.nil _))))))

theorem half_open_iff_clientFirst :
    (∃ s, run Visitor.step {} clientFirst = some s ∧ 0 < s.sessions.count ∧
      s.StaysOpen 0) ∧
    ∃ s, run Provider.step {} (remoteLast.take 5) = some s ∧ 0 < s.sessions.count ∧
      s.StaysOpen 0 := by
  constructor
  · obtain ⟨s,hrun,hc⟩ : ∃ s, run Visitor.step {} clientFirst = some s ∧ 0 < s.sessions.count :=
      ⟨_,rfl,by decide⟩
    have hm : Meets Visitor.step Visitor.Keeps {} clientFirst :=
      .cons trivial rfl (.cons trivial rfl (.cons trivial rfl (.cons trivial rfl (.cons trivial rfl
        (.cons trivial rfl (.nil _))))))
    exact ⟨s,hrun,hc,((half_open_iff clientFirst []).1 s hrun clientFirst_inSequence).mpr hm clientFirst s
      List.prefix_rfl hrun 0 hc⟩
  · obtain ⟨s,hrun⟩ : ∃ s, run Provider.step {} remoteLast = some s := ⟨_,rfl⟩
    obtain ⟨t,ht,hc⟩ : ∃ t, run Provider.step {} (remoteLast.take 5) = some t ∧ 0 < t.sessions.count :=
      ⟨_,rfl,by decide⟩
    have hseq : Meets Provider.step Provider.InSequence {} remoteLast :=
      .cons (fun _ => ⟨nofun,nofun⟩) rfl (.cons trivial rfl (.cons trivial rfl (.cons trivial rfl
        (.cons nofun rfl (.cons trivial rfl (.cons trivial rfl (.cons trivial rfl (.nil _))))))))
    have hm : Meets Provider.step Provider.Keeps {} remoteLast :=
      .cons trivial rfl (.cons trivial rfl (.cons trivial rfl (.cons nofun rfl
        (.cons trivial rfl (.cons trivial rfl (.cons trivial rfl (.cons (fun _ _ => .inr rfl) rfl (.nil _))))))))
    exact ⟨t,ht,hc,((half_open_iff [] remoteLast).2 s hrun hseq).mpr hm _ t (List.take_prefix 5 remoteLast) ht 0 hc⟩

/-- C has forgotten a session whose remote closed first, and drops what the client still sends;
B keeps a session whose client closed first. -/
theorem remoteFirst_forgotten :
    (∃ s, run Provider.step {} remoteFirst = some s ∧ Meets Provider.step Provider.InSequence {} remoteFirst ∧
      0 < s.sessions.count ∧ ¬s.StaysOpen 0) ∧
    (∃ s, run Provider.step {} (remoteFirst ++ [.read (.frame ⟨.data,uuidH ++ text "a"⟩)]) = some s ∧
      s.reader = .reading ∧ (s.sessions.cell 0).socket.written = []) ∧
    ∃ s, run Visitor.step {} clientFirst = some s ∧ s.sessions.Entered 0 := by
  refine ⟨?_,⟨_,rfl,rfl,rfl⟩,⟨_,rfl,by decide +kernel⟩⟩
  obtain ⟨s,hrun,hc,he,hl,hb,hr,hw,hsub,hf⟩ : ∃ s, run Provider.step {} remoteFirst = some s ∧
      0 < s.sessions.count ∧ ¬s.sessions.Entered 0 ∧ s.lost = false ∧ s.broken = false ∧
      (s.sessions.cell 0).socket.readFailed = false ∧ (s.sessions.cell 0).socket.writeFailed = false ∧
      (s.sessions.cell 0).submitted = [sessionOkFrame uuidH, dataEofFrame uuidH] ∧
      s.frames = [⟨.forwardSession,uuidH⟩] := ⟨_,rfl,by decide,by decide +kernel,rfl,rfl,rfl,rfl,rfl,rfl⟩
  have hseq : Meets Provider.step Provider.InSequence {} remoteFirst :=
    .cons (fun _ => ⟨nofun,nofun⟩) rfl (.cons trivial rfl (.cons trivial rfl (.cons trivial rfl
      (.cons trivial rfl (.cons trivial rfl (.cons trivial rfl (.nil _)))))))
  refine ⟨s,hrun,hseq,hc,fun h => ?_⟩
  refine he (h ?_ ?_).1
  · simp [Provider.Interrupted, Provider.Failed, Node.CutOff, hl, hb, hr, hw, hsub, hf, sessionErrFrame, sessionOkFrame, dataEofFrame, sessionCloseFrame]
  · simp [Provider.Through, hf, dataEofFrame]

end Msg801.Relay
