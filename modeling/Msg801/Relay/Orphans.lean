import Mathlib.Data.List.Basic
import Msg801.Relay.Script

/-! # Sessions left behind at C

The coroutine of a session takes the session out of the table at its end, and tells A, if
its end is not a failed write from the arrival buffer: such a write leaves it by an exception
that nobody sees.
-/
namespace Msg801.Relay
open Transition

/-- One of the frames by which B learns that the session is over has been submitted. -/
def SessionState.Notified (u : Uuid) (x : SessionState) : Prop :=
  sessionErrFrame u ∈ x.submitted ∨ dataEofFrame u ∈ x.submitted ∨ sessionCloseFrame u ∈ x.submitted

namespace Provider

/-- A `SESSION_CLOSE` has come behind the `FORWARD_SESSION` of the session; that is the one
number `i` among those taken. -/
def ClosedByB (frames : List Frame) (i : ℕ) (u : Uuid) : Prop :=
  ∃ pre post, frames = pre ++ post ∧ i < pre.countP (·.method = .forwardSession) ∧
    sessionCloseFrame u ∈ post

theorem ClosedByB.append {frames : List Frame} {i : ℕ} {u : Uuid} (h : ClosedByB frames i u)
    (fs : List Frame) : ClosedByB (frames ++ fs) i u := by
  obtain ⟨pre,post,rfl,hi,hmem⟩ := h
  exact ⟨pre,post ++ fs,List.append_assoc _ _ _,hi,List.mem_append_left _ hmem⟩

/-- B has closed the session, or the connection to A was lost. -/
def Excused (s : Provider) (i : ℕ) : Prop :=
  s.CutOff ∨ ClosedByB s.frames i (s.sessions.key i)

/-- The session is out of the table, and B knows or need not know. -/
def Released (s : Provider) (i : ℕ) : Prop :=
  ¬s.sessions.Entered i ∧ (s.Excused i ∨ (s.sessions.cell i).Notified (s.sessions.key i))

/-- A write from an arrival buffer fails only when the session is already over. -/
def Drains (s : Provider) (e : ProviderEvent) : Prop :=
  ∀ i, e = .session i .writeFailed → ¬s.sessions.Entered i ∧ s.Excused i

/-- What has been taken from A stays so, and every `FORWARD_SESSION` makes a session. -/
theorem step_history {s t : Provider} {e : ProviderEvent} (hs : s.step e = some t) :
    ∃ fs, t.frames = s.frames ++ fs ∧
      t.sessions.count = s.sessions.count + fs.countP (·.method = .forwardSession) := by
  cases step_turn hs with
  | eof f _ hm => exact ⟨[f],rfl,by simp [endLoop, hm]⟩
  | forwarded f _ hm => exact ⟨[f],rfl,by simp [forwardSession, hm]⟩
  | taken f i _ _ _ hk =>
    have hfwd : f.method ≠ .forwardSession := by
      intro hm
      simp [providerKey, hm] at hk
    exact ⟨[f],rfl,by simp [Node.dispatch, hfwd]⟩
  | passed f _ _ hm => exact ⟨[f],rfl,by simp [hm]⟩
  | lost | thrown => exact ⟨[],by simp [endLoop],by simp [endLoop]⟩
  | written | transmitted => exact ⟨[],by simp,by simp⟩
  | resumed => exact ⟨[],by simp [onResumed],by simp [onResumed]⟩

end Provider

namespace SessionState
variable {u : Uuid} {x y : SessionState}

theorem Notified.of_submitted (h : x.Notified u) (hsub : ∀ f ∈ x.submitted, f ∈ y.submitted) : y.Notified u :=
  h.imp (hsub _) (Or.imp (hsub _) (hsub _))

/-- A session is marked closed, or its coroutine comes to its end, when B has been told,
when it was marked before, or by a failed write. -/
theorem Resumes.over {e : SessionEvent} (h : x.Resumes u e y) (hx : x.Speaks u)
    (hy : y.closed = true ∨ y.pc = .ended) (hne : e ≠ .writeFailed) : x.closed = true ∨ y.Notified u := by
  cases h with
  | connected | refused | draining => exact hy.elim .inl nofun
  | failed => exact absurd rfl hne
  | answered =>
    obtain ⟨-,hcl,-⟩ := x.drain_frame x.arrivalBuffer
    refine .inl (hy.elim (fun h => hcl ▸ h) fun h => ?_)
    cases hb : x.arrivalBuffer with
    | cons => rw [hb] at h; cases h
    | nil => simpa [hb] using h
  | drained rest left =>
    obtain ⟨-,hcl,-⟩ := (x.onEnd (·.write rest)).drain_frame left
    refine .inl (hy.elim (fun h => hcl ▸ h) fun h => ?_)
    cases left with
    | cons => cases h
    | nil => simpa [onEnd, SessionEnd.write] using h
  | givenUp f w hpc hm =>
    obtain ⟨hmem,rfl | rfl | ⟨d,rfl⟩ | rfl⟩ := hx.sending hpc
    · exact .inr (.inl hmem)
    all_goals cases hm
  | pumped f w hpc hok herr =>
    obtain ⟨hmem,rfl | rfl | ⟨d,rfl⟩ | rfl⟩ := hx.sending hpc
    · exact absurd rfl herr
    · exact absurd rfl hok
    · refine .inl (hy.elim id fun h => ?_)
      simpa [onEnd, SessionEnd.onSent, dataFrame, SessionEnd.loop, SessionEnd.suspend] using h
    · obtain ⟨-,-,-,hsub,-⟩ := x.onSent_frame (dataEofFrame u)
      exact .inr (.inr (.inl (hsub ▸ hmem)))
  | read r =>
    obtain ⟨hpc',-,-,-,hcl,-⟩ := (x.receive r).onRead_frame u r
    refine .inl (hy.elim (fun h => hcl ▸ h) fun h => ?_)
    have := hpc'.symm.trans h
    cases this

end SessionState

namespace Provider

/-- What is known of the frames of a session and of one that is marked closed. -/
structure Accounted (s : Provider) (i : ℕ) : Prop where
  speaks : (s.sessions.cell i).Speaks (s.sessions.key i)
  closed : (s.sessions.cell i).closed = true →
    s.Excused i ∨ (s.sessions.cell i).Notified (s.sessions.key i)

/-- Sessions are numbered by their `FORWARD_SESSION`, and all are accounted for. -/
def Books (s : Provider) : Prop :=
  s.sessions.count = s.frames.countP (·.method = .forwardSession) ∧ ∀ i < s.sessions.count, s.Accounted i

/-- A frame from B marks a session closed that B closes or that has sent `DATA_EOF`. -/
theorem onFrame_closed {u : Uuid} {x : SessionState} (hx : x.Speaks u) {f : Frame} (hk : providerKey f = some u)
    (hc : (x.onFrame f).session.closed = true) :
    x.closed = true ∨ f = sessionCloseFrame u ∨ x.Notified u := by
  have hrecv : x.recvEof.closed = x.closed ∧ x.recvEof.halfCloseSend = x.halfCloseSend := by
    rw [SessionState.recvEof]
    split_ifs <;> exact ⟨rfl,rfl⟩
  obtain ⟨m,body⟩ := f
  cases m <;> simp only [SessionState.onFrame] at hc
  case data =>
    left
    split_ifs at hc <;> exact hc
  case dataEof =>
    split_ifs at hc with hs
    · exact .inr (.inr (.inr (.inl (hx.dataEof_mem (hrecv.2 ▸ hs)))))
    · exact .inl (hrecv.1 ▸ hc)
  case sessionClose =>
    obtain rfl : body = u := Option.some.inj hk
    exact .inr (.inl rfl)
  all_goals exact .inl hc

variable {s t : Provider} {e : ProviderEvent} {i : ℕ}

theorem Excused.step (h : s.Excused i) (hk : t.sessions.key i = s.sessions.key i)
    (hs : s.step e = some t) : t.Excused i := by
  obtain ⟨fs,hf,-⟩ := step_history hs
  refine h.imp (step_cutOff hs) fun h => ?_
  rw [hf, hk]
  exact h.append fs

variable {v : View SessionState}

theorem Moves.notified {u : Uuid} (h : Moves s i e v) (hn : (s.sessions.cell i).Notified u) :
    v.session.Notified u := by
  rcases h.coroutine with hsteady | ⟨f,-,-,rfl⟩ | ⟨e,x,-,hr,rfl⟩
  · exact hn.of_submitted fun f hf => hsteady.2.2.1.symm ▸ hf
  · exact hn
  · exact hn.of_submitted hr.submitted

/-- How a session comes to be marked closed. -/
theorem Moves.closes (h : Moves s i e v) (hx : (s.sessions.cell i).Speaks (s.sessions.key i))
    (hcl : v.session.closed = true) : (s.sessions.cell i).closed = true ∨
      v.frames = s.frames ++ [sessionCloseFrame (s.sessions.key i)] ∨
      v.session.Notified (s.sessions.key i) := by
  have hcut : ∀ {x : SessionState}, x.cutOff.closed = x.closed := by
    intro x
    rw [SessionState.cutOff]
    split_ifs <;> rfl
  cases id h with
  | same | passed | transmitted | written => exact .inl hcl
  | taken f hr he hk =>
    obtain hcl | rfl | hn := onFrame_closed hx hk hcl
    · exact .inl hcl
    · exact .inr (.inl rfl)
    · exact .inr (.inr (h.notified hn))
  | cut =>
    apply Or.inl
    dsimp only at hcl
    split_ifs at hcl
    · exact hcut ▸ hcl
    · exact hcl
  | thrown j rest hr x hx' =>
    have hsame : x.closed = (s.sessions.cell i).closed := by
      rw [hx']
      split_ifs <;> rfl
    apply Or.inl
    dsimp only at hcl
    split_ifs at hcl
    · exact hsame ▸ hcut ▸ hcl
    · exact hsame ▸ hcl
  | resumed e x hr =>
    have hres := SessionState.resume_resumes hr
    by_cases hne : e = .writeFailed
    · subst hne
      cases hres with
      | failed => exact .inl hcl
    · exact (hres.over hx (.inl hcl) hne).imp id .inr

/-- How the coroutine of a session comes to its end. -/
theorem Moves.ends (h : Moves s i e v) (hx : (s.sessions.cell i).Speaks (s.sessions.key i))
    (hpc : v.session.pc = .ended) : (s.sessions.cell i).pc = .ended ∨ e = .session i .writeFailed ∨
      v.entered = false ∧ ((s.sessions.cell i).closed = true ∨ v.session.Notified (s.sessions.key i)) := by
  rcases h.coroutine with hsteady | ⟨f,-,-,rfl⟩ | ⟨e,x,rfl,hr,rfl⟩
  · exact .inl (hsteady.1 ▸ hpc)
  · cases hpc
  · by_cases hne : e = .writeFailed
    · exact .inr (.inl (hne ▸ rfl))
    · have hended : x.pc = .ended := hpc
      exact .inr (.inr ⟨by simp [hended, hne],hr.over hx (.inr hpc) hne⟩)

theorem step_books (h : s.Books) (hs : s.step e = some t) : t.Books := by
  obtain ⟨hc,hall⟩ := h
  refine ⟨?_,fun i hi => ?_⟩
  · obtain ⟨fs,hf,hc'⟩ := step_history hs
    rw [hc', hf, hc, List.countP_append]
  obtain ⟨hi,hk,v,hm,hv⟩ | ⟨-,f,-,-,hk,hv⟩ := (step_drifts hs).view i hi
  · have hacc := hall i hi
    have hcell : t.sessions.cell i = v.session := hv.session
    constructor <;> rw [hk, hcell]
    case speaks => exact hm.speaks hacc.speaks
    case closed =>
      intro hcl
      rcases hm.closes hacc.speaks hcl with hcl | hclose | hn
      · exact (hacc.closed hcl).imp (·.step hk hs) hm.notified
      · refine .inl (.inr ?_)
        rw [hv.frames, hclose, hk]
        exact ⟨s.frames,[sessionCloseFrame _],rfl,hc ▸ hi,by simp⟩
      · exact .inr hn
  · have hcell : t.sessions.cell i = .connect := congrArg View.session hv
    constructor <;> rw [hcell]
    · exact .connecting rfl rfl rfl
    · nofun

/-- A session stays released, and is released when its coroutine comes to its end but for a
failed write. -/
theorem step_released (h : s.Books) (hd : s.Drains e) (hs : s.step e = some t)
    (hended : ∀ i < s.sessions.count, (s.sessions.cell i).pc = .ended → s.Released i) :
    ∀ i < t.sessions.count, (t.sessions.cell i).pc = .ended → t.Released i := by
  intro i hi hpc
  obtain ⟨hi,hk,v,hm,hv⟩ | ⟨-,f,-,-,hk,hv⟩ := (step_drifts hs).view i hi
  · have hacc := h.2 i hi
    have hcell : t.sessions.cell i = v.session := hv.session
    rw [hcell] at hpc
    rcases hm.ends hacc.speaks hpc with hpc | rfl | ⟨hn,hover⟩
    · obtain ⟨hn,hr⟩ := hended i hi hpc
      refine ⟨fun he => hn (hm.entered_of (hv.entered he)),hr.imp (·.step hk hs) fun hr => ?_⟩
      rw [hk, hcell]
      exact hm.notified hr
    · obtain ⟨hn,hexc⟩ := hd i rfl
      exact ⟨fun he => hn (hm.entered_of (hv.entered he)),.inl (hexc.step hk hs)⟩
    · refine ⟨fun he => Bool.false_ne_true (hn.symm.trans (hv.entered he)),?_⟩
      rw [hk, hcell]
      rcases hover with hcl | hr
      · exact (hacc.closed hcl).imp (·.step hk hs) hm.notified
      · exact .inr hr
  · have hcell : t.sessions.cell i = .connect := congrArg View.session hv
    rw [hcell] at hpc
    cases hpc

/-- A write from an arrival buffer that fails tells A nothing. -/
theorem not_notified_of_drain {x y : SessionState} {u : Uuid} (hx : x.Speaks u)
    (hr : x.Resumes u .writeFailed y) : y.pc = .ended ∧ ¬y.Notified u := by
  cases hr with
  | failed rest left hpc =>
    refine ⟨rfl,fun hn => ?_⟩
    have hsub : (x.onEnd (·.fail.suspend .ended)).submitted = [sessionOkFrame u] := (hx.draining hpc).2
    rcases hn with hn | hn | hn <;> rw [hsub] at hn <;> cases List.mem_singleton.mp hn

theorem drains_of_released (h : s.Books) (hs : s.step e = some t)
    (hended : ∀ i < t.sessions.count, (t.sessions.cell i).pc = .ended → t.Released i) : s.Drains e := by
  rintro i rfl
  cases step_turn hs with
  | resumed _ _ x hi hx =>
    obtain ⟨hpc,hn⟩ := not_notified_of_drain (h.2 i hi).speaks (SessionState.resume_resumes hx)
    obtain ⟨hentered,hexc⟩ := hended i (by simpa [onResumed] using hi) (by simpa [onResumed] using hpc)
    simp only [onResumed, SharedMap.put_entered_self, SharedMap.put_cell_self, SharedMap.put_key] at hentered hexc
    exact ⟨fun he => hentered ⟨he,by simp⟩,by simpa [Excused, Node.CutOff, onResumed, hn] using hexc⟩

/-- No session is left behind in a run exactly when writes from an arrival buffer fail only
in sessions that are over. -/
theorem no_orphans_iff {events : List ProviderEvent} {s : Provider} (hrun : run step {} events = some s) :
    (∀ pre t, pre <+: events → run step {} pre = some t → ∀ i < t.sessions.count,
      (t.sessions.cell i).pc = .ended → t.Released i) ↔ Meets step Drains {} events := by
  refine forall_prefix_iff_meets (g := fun _ _ => True) (I := fun s => s.Books ∧
    ∀ i < s.sessions.count, (s.sessions.cell i).pc = .ended → s.Released i) hrun (fun _ _ _ _ _ _ => trivial)
    ⟨⟨rfl,fun i hi => absurd hi (Nat.not_lt_zero i)⟩,fun i hi => absurd hi (Nat.not_lt_zero i)⟩ And.right
    (fun h _ hd hs => ⟨step_books h.1 hs,step_released h.1 hd hs h.2⟩)
    fun h _ hs => drains_of_released h.1 hs

def uuidD : Uuid := text "3fa85f64-5717-4562-b3fc-2c963f66afa6"

/-- A session whose remote comes to its end. -/
def pumpedOut : List ProviderEvent :=
  [.read (.frame ⟨.forwardSession,uuidD⟩), .session 0 (.connected true), .transmit 0, .session 0 .sent,
    .session 0 (.readSome .eof), .transmit 0, .session 0 .sent]

theorem no_orphans_iff_pumpedOut : ∃ s, run step {} pumpedOut = some s ∧
    (s.sessions.cell 0).pc = .ended ∧ s.Released 0 := by
  obtain ⟨s,hrun,hi,hpc⟩ : ∃ s, run step {} pumpedOut = some s ∧ 0 < s.sessions.count ∧
      (s.sessions.cell 0).pc = .ended := ⟨_,rfl,by decide,rfl⟩
  have hm : Meets step Drains {} pumpedOut :=
    .cons nofun rfl (.cons nofun rfl (.cons nofun rfl (.cons nofun rfl (.cons nofun rfl
      (.cons nofun rfl (.cons nofun rfl (.nil _)))))))
  exact ⟨s,hrun,hpc,(no_orphans_iff hrun).mpr hm pumpedOut s List.prefix_rfl hrun 0 hi hpc⟩

/-- A payload comes before the remote is connected, and its write fails. -/
def drainFails : List ProviderEvent :=
  [.read (.frame ⟨.forwardSession,uuidD⟩), .read (.frame ⟨.data,uuidD ++ text "a"⟩),
    .session 0 (.connected true), .transmit 0, .session 0 .sent, .session 0 .writeFailed]

/-- The session stays in the table, and B hears of `SESSION_OK` alone. -/
theorem drainFails_orphan : ∃ s, run step {} drainFails = some s ∧ 0 < s.sessions.count ∧
    (s.sessions.cell 0).pc = .ended ∧ s.sessions.Entered 0 ∧ ¬s.Excused 0 ∧
    ¬(s.sessions.cell 0).Notified (s.sessions.key 0) ∧ ¬s.Released 0 := by
  obtain ⟨s,hrun,hi,hpc,he,hl,hb,hf,hk,hsub⟩ : ∃ s, run step {} drainFails = some s ∧
      0 < s.sessions.count ∧ (s.sessions.cell 0).pc = .ended ∧ s.sessions.Entered 0 ∧
      s.lost = false ∧ s.broken = false ∧
      s.frames = [⟨.forwardSession,uuidD⟩, ⟨.data,uuidD ++ text "a"⟩] ∧ s.sessions.key 0 = uuidD ∧
      (s.sessions.cell 0).submitted = [sessionOkFrame uuidD] :=
    ⟨_,rfl,by decide,rfl,by decide +kernel,rfl,rfl,rfl,rfl,rfl⟩
  have hclosed : ¬ClosedByB s.frames 0 (s.sessions.key 0) := by
    rintro ⟨pre,post,hpp,-,hmem⟩
    have hmem' : sessionCloseFrame (s.sessions.key 0) ∈ s.frames := hpp ▸ List.mem_append_right _ hmem
    simp [hf, sessionCloseFrame] at hmem'
  have hexc : ¬s.Excused 0 := by simp [Excused, Node.CutOff, hl, hb, hclosed]
  have hn : ¬(s.sessions.cell 0).Notified (s.sessions.key 0) := by
    simp [SessionState.Notified, hsub, hk, sessionErrFrame, sessionOkFrame, sessionCloseFrame, dataEofFrame]
  exact ⟨s,hrun,hi,hpc,he,hexc,hn,fun h => h.1 he⟩

end Provider

end Msg801.Relay
