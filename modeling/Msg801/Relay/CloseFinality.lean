import Msg801.Relay.Discipline

/-! # The finality of a close at C

At C the coroutine of a session first connects and then drains what has arrived. A
`SESSION_CLOSE` finds it at any of its awaits; only where it is between the connect and the
read, or behind its last read, does the flag `closed` stop it.
-/
namespace Msg801.Relay
open Transition

namespace SessionState

/-- Bytes are only transferred to a socket that takes them. -/
theorem resume_transferred {u : Uuid} {x y : SessionState} {n : ℕ} (h : x.resume u (.transferred n) = some y) :
    ∃ rest left, x.pc = .draining rest left ∧ CanTransfer True x.toSessionEnd rest n := by
  cases hpc : x.pc <;> simp only [resume, hpc] at h
  case draining rest left =>
    by_cases hn : CanTransfer True x.toSessionEnd rest n
    · exact ⟨rest,left,rfl,hn⟩
    · simp [hn] at h
  all_goals cases h

end SessionState

namespace Provider

/-- What a step gives to `aconn_write` for the session `i`. -/
def submits (i : ℕ) (s : Provider) : ProviderEvent → List Frame
  | .session j (.connected ok) =>
    if j = i then [if ok then sessionOkFrame (s.sessions.key i) else sessionErrFrame (s.sessions.key i)] else []
  | .session j (.readSome r) => if j = i then [SessionEnd.readFrame (s.sessions.key i) r] else []
  | _ => []

/-- The session is closed by a frame the reader takes for it. -/
def Processes (i : ℕ) (s : Provider) : ProviderEvent → Prop
  | .read (.frame f) => f.method = .sessionClose ∧ s.sessions.Entered i ∧
    providerKey f = some (s.sessions.key i)
  | _ => False

/-- `SESSION_CLOSE` or `SESSION_ERR` is sent for the session, or `SESSION_CLOSE` processed. -/
def Closes (i : ℕ) (s : Provider) (e : ProviderEvent) : Prop :=
  (∃ f ∈ s.submits i e, f.method = .sessionErr ∨ f.method = .sessionClose) ∨ s.Processes i e

/-- No coroutine is in its connect or in its read when its session is closed, and
identifiers are new. -/
def Quiet (s : Provider) : ProviderEvent → Prop
  | .read (.frame f) => (f.method = .forwardSession → s.sessions.Fresh f.body) ∧
    ∀ i, s.Processes i (.read (.frame f)) →
      (s.sessions.cell i).pc ≠ .connecting ∧ (s.sessions.cell i).pc ≠ .reading
  | _ => True

/-- Neither coroutine will send or write anything for the session: its own is over, or gives
up, or finds the session closed. -/
structure Final (u : Uuid) (v : View SessionState) : Prop where
  pending : v.pending = none
  finished : v.session.pc = .ended ∧ (v.entered = true → v.session.remoteConnected = false) ∨
    (∃ w, v.session.pc = .sending (sessionErrFrame u) w) ∧ v.session.remoteConnected = false ∨
    v.session.pc ≠ .connecting ∧ v.session.pc ≠ .reading ∧ v.entered = false ∧ v.session.closed = true ∧
      v.session.socket.isOpen = false

/-- What has been submitted for the session comes from its coroutine, and the reader only
writes to a session with a remote. -/
structure Kept (h : List Frame) (u : Uuid) (v : View SessionState) : Prop where
  speaks : v.session.Speaks u
  linked : v.session.Linked
  held : v.pending.isSome = true → v.session.remoteConnected = true
  submitted : h = v.session.submitted

variable {s t : Provider} {e : ProviderEvent} {i : ℕ} {v : View SessionState} {u : Uuid}

/-- A session that is closed and whose remote is closed is only left. -/
theorem drain_final {x : SessionState} {w : View SessionState} (hc : x.closed = true)
    (ho : x.socket.isOpen = false) (hp : w.pending = none) (he : w.entered = false) (bs : List ByteVector) :
    Final u { w with session := x.drain bs } := by
  refine ⟨hp,?_⟩
  cases bs with
  | cons b bs => exact .inr (.inr ⟨nofun,nofun,he,hc,ho⟩)
  | nil =>
    refine .inl ⟨?_,fun he' => absurd (he.symm.trans he') Bool.false_ne_true⟩
    simp [hc]

/-- The sweep over the table keeps what is over. -/
theorem final_swept {x : SessionState} {b : Prop} [Decidable b] {w : View SessionState}
    (hp : w.pending = none) (he : w.entered = false)
    (hover : x.pc = .ended ∨ (∃ w, x.pc = .sending (sessionErrFrame u) w) ∧ x.remoteConnected = false ∨
      x.pc ≠ .connecting ∧ x.pc ≠ .reading ∧ ¬b ∧ x.closed = true ∧ x.socket.isOpen = false) :
    Final u { w with session := if b then x.cutOff else x } ∧
      (if b then x.cutOff else x).socket.written = x.socket.written := by
  have hsteady : (if b then x.cutOff else x).Steady x.toSessionEnd := by
    split_ifs
    · exact SessionState.cutOff_steady x
    · exact ⟨rfl,rfl,rfl,rfl⟩
  refine ⟨⟨hp,?_⟩,?_⟩
  · rcases hover with hend | ⟨⟨w',herr⟩,hc⟩ | ⟨hne,hne',hn,hc,ho⟩
    · exact .inl ⟨hsteady.1.trans hend,fun h => absurd (he.symm.trans h) Bool.false_ne_true⟩
    · refine .inr (.inl ⟨⟨w',hsteady.1.trans herr⟩,?_⟩)
      dsimp only
      split_ifs
      · exact (SessionState.cutOff_remote x).1.trans hc
      · exact hc
    · dsimp only
      rw [if_neg hn]
      exact .inr (.inr ⟨hne,hne',he,hc,ho⟩)
  · rw [SessionState.cutOff]
    split_ifs <;> rfl

/-- The coroutine of a session that is over only comes to its end. -/
theorem resumed_final {x y : SessionState} {e : SessionEvent} {w : View SessionState}
    (hr : x.resume u e = some y) (hp : w.pending = none) (he : w.entered = true → y.remoteConnected = false)
    (hover : (∃ w, x.pc = .sending (sessionErrFrame u) w) ∧ x.remoteConnected = false ∨
      x.pc ≠ .connecting ∧ x.pc ≠ .reading ∧ w.entered = false ∧ x.closed = true ∧ x.socket.isOpen = false) :
    Final u { w with session := y } ∧ y.socket.written = x.socket.written := by
  have hres := SessionState.resume_resumes hr
  rcases hover with ⟨⟨w',herr⟩,hc⟩ | ⟨hne,hne',hn,hc,ho⟩
  · cases hres with
    | givenUp => exact ⟨⟨hp,.inl ⟨rfl,he⟩⟩,rfl⟩
    | answered f w hpc hm =>
      obtain ⟨rfl,-⟩ := SessionPc.sending.inj (herr.symm.trans hpc)
      cases hm
    | pumped f w hpc hok hne =>
      obtain ⟨rfl,-⟩ := SessionPc.sending.inj (herr.symm.trans hpc)
      exact absurd rfl hne
    | connected hpc | refused hpc | read _ hpc | drained _ _ hpc | draining _ _ _ hpc | failed _ _ hpc =>
      cases herr.symm.trans hpc
  · have htransfer : ∀ {n rest left}, e = .transferred n → x.pc = .draining rest left → rest = [] := by
      rintro n rest left rfl hpc
      obtain ⟨rest',left',hpc',⟨hrest,-⟩ | ⟨-,-,-,ho',-⟩⟩ := SessionState.resume_transferred hr
      · obtain ⟨rfl,-⟩ := SessionPc.draining.inj (hpc'.symm.trans hpc)
        exact hrest
      · cases ho.symm.trans ho'
    cases hres with
    | connected hpc | refused hpc => exact absurd hpc hne
    | read r hpc => exact absurd hpc hne'
    | answered => exact ⟨drain_final hc ho hp hn _,(x.drain_frame _).2.2.2⟩
    | givenUp | failed => exact ⟨⟨hp,.inl ⟨rfl,he⟩⟩,rfl⟩
    | pumped f w hpc hok herr =>
      have hend : (x.onSent f).pc = .ended := by
        rcases x.onSent_pc f with hend | ⟨-,-,hopen⟩
        · exact hend
        · cases hc.symm.trans hopen
      exact ⟨⟨hp,.inl ⟨hend,he⟩⟩,congrArg Socket.written (x.onSent_frame f).1⟩
    | drained rest left hpc =>
      obtain rfl := htransfer rfl hpc
      refine ⟨drain_final (x := x.onEnd (·.write [])) hc ho hp hn left,?_⟩
      apply ((x.onEnd (·.write [])).drain_frame left).2.2.2.trans
      simp [SessionState.onEnd, SessionEnd.write]
    | draining n rest left hpc hlt =>
      obtain rfl := htransfer rfl hpc
      simp at hlt

/-- A session that is over stays so, and its remote is sent nothing. -/
theorem Moves.final (hm : Moves s i e v) (hf : Final (s.sessions.key i) (s.view i)) :
    Final (s.sessions.key i) v ∧ v.session.socket.written = (s.sessions.cell i).socket.written := by
  obtain ⟨hpending,hover⟩ := hf
  simp only [Node.view_pending, Node.view_session, Node.view_entered, decide_eq_true_eq,
    decide_eq_false_iff_not] at hpending hover
  cases hm with
  | same | passed => exact ⟨⟨hpending,by simpa using hover⟩,rfl⟩
  | transmitted f hpc =>
    refine ⟨⟨hpending,?_⟩,rfl⟩
    rcases hover with ⟨hend,-⟩ | ⟨⟨w,herr⟩,hc⟩ | ⟨-,-,he,hc,ho⟩
    · cases hpc.symm.trans hend
    · obtain ⟨rfl,-⟩ := SessionPc.sending.inj (hpc.symm.trans herr)
      exact .inr (.inl ⟨⟨true,rfl⟩,hc⟩)
    · exact .inr (.inr ⟨nofun,nofun,by simpa using he,hc,ho⟩)
  | taken f hr he =>
    have hc : (s.sessions.cell i).remoteConnected = false := by
      rcases hover with ⟨-,hc⟩ | ⟨-,hc⟩ | ⟨-,-,hn,-⟩
      · exact hc he
      · exact hc
      · exact absurd he hn
    have hsteady := SessionState.onFrame_steady (s.sessions.cell i) f
    have hremote := (SessionState.onFrame_remote (s.sessions.cell i) f).1.trans hc
    obtain ⟨hwrite,hwritten⟩ := SessionState.onFrame_unconnected f hc
    refine ⟨⟨hwrite,?_⟩,hwritten⟩
    rcases hover with ⟨hend,-⟩ | ⟨⟨w,herr⟩,-⟩ | ⟨-,-,hn,-⟩
    · exact .inl ⟨hsteady.1.trans hend,fun _ => hremote⟩
    · exact .inr (.inl ⟨⟨w,hsteady.1.trans herr⟩,hremote⟩)
    · exact absurd he hn
  | written n rest hr => simp [hr] at hpending
  | cut r fs hr =>
    exact final_swept (w := { s.view i with
      entered := false
      frames := s.frames ++ fs
      lost := true }) hpending rfl (hover.imp And.left id)
  | thrown j rest hr x hx =>
    obtain rfl : x = s.sessions.cell i := by
      rw [hx, if_neg]
      rintro rfl
      simp [hr] at hpending
    exact final_swept (w := { s.view i with
      entered := false
      pending := none }) rfl rfl (hover.imp And.left id)
  | resumed e x hr =>
    rcases hover with ⟨hend,-⟩ | hover
    · cases SessionState.resume_resumes hr <;> simp_all
    · refine resumed_final (w := { s.view i with
        entered := (s.view i).entered && !(x.pc = .ended ∧ e ≠ .writeFailed : Bool) }) hr hpending
        (fun he => ?_) (hover.imp id fun ⟨hne,hne',hn,hc⟩ => ⟨hne,hne',by simp [hn],hc⟩)
      rcases hover with ⟨⟨w,herr⟩,hc⟩ | ⟨-,-,hn,-⟩
      · cases SessionState.resume_resumes hr with
        | givenUp => exact hc
        | answered f w hpc hm =>
          obtain ⟨rfl,-⟩ := SessionPc.sending.inj (herr.symm.trans hpc)
          cases hm
        | pumped => exact hc
        | _ => simp_all
      · simp [hn] at he

theorem submits_of_final (hf : Final (s.sessions.key i) (s.view i)) (hi : i < s.sessions.count)
    (hs : s.step e = some t) : s.submits i e = [] := by
  have haway : (s.sessions.cell i).pc ≠ .connecting ∧ (s.sessions.cell i).pc ≠ .reading := by
    rcases hf.finished with ⟨hend,-⟩ | ⟨⟨w,herr⟩,-⟩ | ⟨hne,hne',-⟩
    · constructor <;> exact fun hpc => by cases hend.symm.trans hpc
    · constructor <;> exact fun hpc => by cases herr.symm.trans hpc
    · exact ⟨hne,hne'⟩
  cases e with
  | session j e =>
    by_cases hji : j = i
    · subst hji
      cases step_turn hs with
      | resumed _ _ x _ hx =>
        cases SessionState.resume_resumes hx with
        | connected hpc | refused hpc => exact absurd hpc haway.1
        | read r hpc => exact absurd hpc haway.2
        | _ => rfl
    · cases e <;> simp [submits, hji]
  | _ => rfl

theorem step_submitted (hi : i < s.sessions.count) (hs : s.step e = some t) :
    (t.sessions.cell i).submitted = (s.sessions.cell i).submitted ++ s.submits i e := by
  by_cases hj : ∃ e', e = .session i e'
  · obtain ⟨e',rfl⟩ := hj
    cases step_turn hs with
    | resumed _ _ x _ hx =>
      rw [onResumed, SharedMap.put_cell_self]
      cases SessionState.resume_resumes hx with
      | connected | refused =>
        simp only [submits, if_true]
        rfl
      | read r =>
        simp only [submits, if_true]
        exact (((s.sessions.cell i).receive r).onRead_frame _ r).2.1
      | answered => exact (SessionState.drain_submitted _ _).trans (List.append_nil _).symm
      | drained => exact (SessionState.drain_submitted _ _).trans (List.append_nil _).symm
      | pumped f => exact ((s.sessions.cell i).onSent_frame f).2.2.2.1.trans (List.append_nil _).symm
      | givenUp | draining | failed => exact (List.append_nil _).symm
  · have hnone : s.submits i e = [] := by
      cases e with
      | session j e =>
        have hji : j ≠ i := fun hji => hj ⟨e,by rw [hji]⟩
        cases e <;> simp [submits, hji]
      | _ => rfl
    rw [hnone, List.append_nil]
    obtain ⟨-,v,hm,hv⟩ := (step_drifts hs).move hi
    rw [hv.session]
    rcases hm.coroutine with hsteady | ⟨f,-,-,rfl⟩ | ⟨e',x,rfl,-⟩
    · exact hsteady.2.2.1
    · rfl
    · exact absurd ⟨e',rfl⟩ hj

/-- The reader writes only to a session with a remote, and no session loses its remote. -/
theorem Moves.held (hm : Moves s i e v)
    (h : (s.reader.pending i).isSome = true → (s.sessions.cell i).remoteConnected = true)
    (hx : (s.sessions.cell i).Linked) (hp : v.pending.isSome = true) : v.session.remoteConnected = true := by
  cases id hm with
  | taken f hr he =>
    by_contra hc
    have hc' : (s.sessions.cell i).remoteConnected = false := by
      rw [← Bool.not_eq_true]
      intro h
      exact hc ((SessionState.onFrame_remote _ f).1.trans h)
    simp [(SessionState.onFrame_unconnected f hc').1] at hp
  | resumed e x hr =>
    have hc := h hp
    cases SessionState.resume_resumes hr with
    | connected hpc =>
      simp only [SessionState.Linked, hpc, hc] at hx
      cases hx.1
    | answered => exact (SessionState.drain_frame _ _).1.trans hc
    | drained => exact (SessionState.drain_frame _ _).1.trans hc
    | _ => exact hc
  | thrown => cases hp
  | same | passed | transmitted => exact h hp
  | written n rest hr => exact h (by simp [hr])
  | cut r fs hr => simp [hr] at hp

/-- What was submitted for the session so far is kept track of. -/
structure Ledger (i : ℕ) (h : List Frame) (s : Provider) : Prop where
  distinct : s.sessions.Distinct
  kept : i < s.sessions.count → Kept h (s.sessions.key i) (s.view i)
  unborn : s.sessions.count ≤ i → h = []

theorem Quiet.fresh (hq : s.Quiet e) : s.Fresh e := by
  cases e with
  | read r => cases r <;> first | exact hq.1 | trivial
  | _ => trivial

theorem step_ledger {h : List Frame} (hl : Ledger i h s) (hq : s.Quiet e) (hs : s.step e = some t) :
    Ledger i (h ++ s.submits i e) t := by
  have hd := step_drifts hs
  have hc := hd.carries hl.distinct hq.fresh
  by_cases hi : i < s.sessions.count
  · refine ⟨hc.distinct,fun hi' => ?_,fun hi' => absurd (hi.trans_le hd.count) (Nat.not_lt_of_le hi')⟩
    have hk := hl.kept hi
    obtain ⟨-,hkey,hm⟩ | ⟨rfl,-⟩ := hc.view i hi'
    · rw [hkey]
      refine ⟨hm.speaks hk.speaks,hm.linked hk.linked,hm.held hk.held hk.linked,?_⟩
      rw [hk.submitted]
      exact (step_submitted hi hs).symm
    · exact absurd hi (Nat.lt_irrefl _)
  · obtain rfl := hl.unborn (Nat.le_of_not_lt hi)
    have hnone : s.submits i e = [] := by
      cases e with
      | session j e =>
        have hji : j ≠ i := by
          rintro rfl
          exact hi (lt_of_session hs)
        cases e <;> simp [submits, hji]
      | _ => rfl
    refine ⟨hc.distinct,fun hi' => ?_,fun _ => hnone⟩
    obtain ⟨hi'',-⟩ | ⟨-,f,-,-,-,hv⟩ := hc.view i hi'
    · exact absurd hi'' hi
    · rw [hv, hnone]
      exact ⟨.connecting rfl rfl rfl,⟨rfl,rfl⟩,by rintro ⟨⟩,rfl⟩

/-- `SESSION_CLOSE` is taken when the coroutine is neither in its connect nor in its read. -/
theorem final_closed {x : SessionState} {w : View SessionState} (hspeaks : x.Speaks u) (hlinked : x.Linked)
    (hne : x.pc ≠ .connecting) (hne' : x.pc ≠ .reading) : Final u { w with
      session := (x.onEnd .markClosed).cutOff
      entered := false
      pending := none } := by
  have hsteady := SessionState.cutOff_steady (x.onEnd .markClosed)
  have hcut : x.remoteConnected = true → (x.onEnd .markClosed).cutOff.socket.isOpen = false ∧
      (x.onEnd .markClosed).cutOff.closed = true := by
    intro hc
    rw [SessionState.cutOff, if_pos (show (x.onEnd .markClosed).remoteConnected = true from hc)]
    exact ⟨rfl,rfl⟩
  have hgone : x.remoteConnected = true → x.pc ≠ .ended → Final u { w with
      session := (x.onEnd .markClosed).cutOff
      entered := false
      pending := none } := by
    intro hc _
    exact ⟨rfl,.inr (.inr ⟨fun h => hne (hsteady.1.symm.trans h),fun h => hne' (hsteady.1.symm.trans h),rfl,
      (hcut hc).2,(hcut hc).1⟩)⟩
  cases hpc : x.pc <;> rw [SessionState.Linked, hpc] at hlinked
  case connecting => exact absurd hpc hne
  case reading => exact absurd hpc hne'
  case draining => exact hgone hlinked (by simp [hpc])
  case ended => exact ⟨rfl,.inl ⟨hsteady.1.trans hpc,by rintro ⟨⟩⟩⟩
  case sending f w' =>
    cases hc : x.remoteConnected with
    | true => exact hgone hc (by simp [hpc])
    | false =>
      have herr := hlinked.mp hc
      obtain ⟨-,rfl | rfl | ⟨d,rfl⟩ | rfl⟩ := hspeaks.sending hpc
      · refine ⟨rfl,.inr (.inl ⟨⟨w',hsteady.1.trans hpc⟩,?_⟩)⟩
        exact (SessionState.cutOff_remote _).1.trans hc
      all_goals cases herr

theorem final_of_closes {h : List Frame} (hl : Ledger i h s) (hq : s.Quiet e) (hc : s.Closes i e)
    (hi : i < s.sessions.count) (hs : s.step e = some t) : Final (t.sessions.key i) (t.view i) := by
  obtain ⟨hspeaks,hlinked,hheld,-⟩ := hl.kept hi
  have hkey := ((step_drifts hs).move hi).1
  rcases hc with ⟨f,hf,hm⟩ | hp
  · cases e with
    | session j e =>
      by_cases hji : j = i
      case neg => cases e <;> simp [submits, hji] at hf
      subst hji
      cases step_turn hs with
      | resumed _ _ x _ hx =>
        cases SessionState.resume_resumes hx with
        | refused hpc =>
          rw [Node.view_session, SessionState.Linked, hpc] at hlinked
          have hpending : s.reader.pending j = none := by
            by_contra hp
            have hr := hheld (by simpa using Option.ne_none_iff_isSome.mp hp)
            cases hlinked.1.symm.trans hr
          refine ⟨hpending,.inr (.inl ⟨⟨false,?_⟩,?_⟩)⟩
          · simp [onResumed, SessionState.onEnd, SessionEnd.submit, sessionErrFrame]
          · simpa [onResumed, SessionState.onEnd, SessionEnd.submit] using hlinked.1
        | connected =>
          obtain rfl : f = sessionOkFrame (s.sessions.key j) := by simpa [submits] using hf
          simp [sessionOkFrame] at hm
        | read r =>
          obtain rfl : f = SessionEnd.readFrame (s.sessions.key j) r := by simpa [submits] using hf
          rcases SessionEnd.readFrame_cases (s.sessions.key j) r with hr | ⟨d,-,-,hr⟩ <;>
            simp [hr, dataEofFrame, dataFrame] at hm
        | _ => simp [submits] at hf
    | _ => simp [submits] at hf
  · cases e with
    | read r =>
      cases r with
      | frame f =>
        obtain ⟨hm,he,hk⟩ := id hp
        obtain ⟨hne,hne'⟩ := hq.2 i hp
        rw [(step_taken hs he hk).2, hkey]
        simp only [SessionState.onFrame, hm]
        exact final_closed (w := { s.view i with frames := s.frames ++ [f] }) hspeaks hlinked hne hne'
      | _ => exact hp.elim
    | _ => exact hp.elim

theorem empty_ledger (i : ℕ) : Ledger i [] {} :=
  ⟨fun i _ hi => absurd hi (Nat.not_lt_zero i),fun hi => absurd hi (Nat.not_lt_zero i),fun _ => rfl⟩

theorem Closes.lt (hs : s.step e = some t) (hc : s.Closes i e) : i < s.sessions.count := by
  by_contra hi
  rcases hc with ⟨f,hf,-⟩ | hp
  · cases e with
    | session j e =>
      have hji : j ≠ i := by
        rintro rfl
        exact hi (lt_of_session hs)
      cases e <;> simp [submits, hji] at hf
    | _ => simp [submits] at hf
  · cases e with
    | read r =>
      cases r with
      | frame f => exact hi hp.2.1.lt
      | _ => exact hp
    | _ => exact hp

/-- The frames of a coroutine at C are `SESSION_ERR`, or `SESSION_OK` and those of a pump. -/
theorem Kept.disciplined {h : List Frame} (hk : Kept h u v) :
    h = [] ∨ h = [sessionErrFrame u] ∨ Disciplined u (sessionOkFrame u) h := by
  rw [hk.submitted]
  cases hk.speaks with
  | connecting _ _ hfs => exact .inl hfs
  | refusing _ _ _ hfs => exact .inr (.inl hfs)
  | refused _ _ hfs => exact .inr (.inl hfs)
  | pumping hp => exact .inr (.inr (by simpa using hp.disciplined List.nil_prefix))

/-- The frames and the close of a session at C in a run that is quiet. -/
theorem run_discipline {events : List ProviderEvent} (hrun : run step {} events = some s)
    (hm : Meets step Quiet {} events) (i : ℕ) :
    (i < s.sessions.count → outputs step (submits i) {} events = [] ∨
      outputs step (submits i) {} events = [sessionErrFrame (s.sessions.key i)] ∨
      Disciplined (s.sessions.key i) (sessionOkFrame (s.sessions.key i)) (outputs step (submits i) {} events)) ∧
    CloseIsFinal step (submits i) (fun s => (s.sessions.cell i).socket.written) (Closes i) {} events := by
  constructor
  · intro hi
    exact ((outputs_invariant (o := submits i) hrun hm (empty_ledger i) step_ledger).kept hi).disciplined
  · refine closeIsFinal_of (I := fun s => ∃ h, Ledger i h s)
      (F := fun s => i < s.sessions.count ∧ Final (s.sessions.key i) (s.view i)) hrun hm ⟨[],empty_ledger i⟩
      (fun ⟨h,hl⟩ hq hs => ⟨_,step_ledger hl hq hs⟩) ?_ ?_
    · rintro s t e ⟨h,hl⟩ hq hc hs
      have hi := hc.lt hs
      exact ⟨hi.trans_le (step_drifts hs).count,final_of_closes hl hq hc hi hs⟩
    · rintro s t e ⟨h,hl⟩ ⟨hi,hf⟩ hq hs
      have hd := step_drifts hs
      obtain ⟨-,hkey,hmv⟩ | ⟨rfl,-⟩ := (hd.carries hl.distinct hq.fresh).view i (hi.trans_le hd.count)
      · obtain ⟨hf',hw⟩ := hmv.final hf
        exact ⟨⟨hi.trans_le hd.count,hkey.symm ▸ hf'⟩,submits_of_final hf hi hs,hw⟩
      · exact absurd hi (Nat.lt_irrefl _)

end Provider

/-- At both nodes the frames of a session are those of the protocol and its close is final, as
long as the coroutine of a session is at none of the awaits that miss the close. -/
theorem frame_discipline (eventsB : List VisitorEvent) (eventsC : List ProviderEvent) :
    (∀ s, run Visitor.step {} eventsB = some s → Meets Visitor.step Visitor.Quiet {} eventsB →
      ∀ i < s.sessions.count,
        Disciplined (s.sessions.key i) (newSessionFrame (s.sessions.key i))
          (outputs Visitor.step (Visitor.submits i) {} eventsB) ∧
        CloseIsFinal Visitor.step (Visitor.submits i) (fun s => (s.sessions.cell i).socket.written)
          (Visitor.Closes i) {} eventsB) ∧
    ∀ s, run Provider.step {} eventsC = some s → Meets Provider.step Provider.Quiet {} eventsC →
      ∀ i < s.sessions.count,
        (outputs Provider.step (Provider.submits i) {} eventsC = [] ∨
          outputs Provider.step (Provider.submits i) {} eventsC = [sessionErrFrame (s.sessions.key i)] ∨
          Disciplined (s.sessions.key i) (sessionOkFrame (s.sessions.key i))
            (outputs Provider.step (Provider.submits i) {} eventsC)) ∧
        CloseIsFinal Provider.step (Provider.submits i) (fun s => (s.sessions.cell i).socket.written)
          (Provider.Closes i) {} eventsC := by
  constructor
  · intro s hrun hm i hi
    have h := Visitor.run_discipline hrun hm i
    exact ⟨h.1 hi,h.2⟩
  · intro s hrun hm i hi
    have h := Provider.run_discipline hrun hm i
    exact ⟨h.1 hi,h.2⟩

def uuidF : Uuid := text "1b4e28ba-2fa1-41d2-883f-0016d3cca427"

/-- The client comes to its end, and A closes the session while `DATA_EOF` is being sent. -/
def closedB : List VisitorEvent :=
  [.accept uuidF, .transmit 0, .session 0 .sent, .session 0 (.readSome .eof),
    .read (.frame (sessionCloseFrame uuidF)), .transmit 0, .session 0 .sent]

/-- `SESSION_CLOSE` comes while `SESSION_OK` is being sent. -/
def closedC : List ProviderEvent :=
  [.read (.frame ⟨.forwardSession,uuidF⟩), .session 0 (.connected true),
    .read (.frame (sessionCloseFrame uuidF)), .transmit 0, .session 0 .sent]

theorem frame_discipline_closed :
    (∃ s, run Visitor.step {} closedB = some s ∧ Disciplined uuidF (newSessionFrame uuidF)
      (outputs Visitor.step (Visitor.submits 0) {} closedB)) ∧
    ∃ s, run Provider.step {} closedC = some s ∧
      CloseIsFinal Provider.step (Provider.submits 0) (fun s => (s.sessions.cell 0).socket.written)
        (Provider.Closes 0) {} closedC := by
  constructor
  · obtain ⟨s,hrun,hi,hk⟩ : ∃ s, run Visitor.step {} closedB = some s ∧ 0 < s.sessions.count ∧
        s.sessions.key 0 = uuidF := ⟨_,rfl,by decide,rfl⟩
    have hm : Meets Visitor.step Visitor.Quiet {} closedB := by
      refine .cons nofun rfl (.cons trivial rfl (.cons nofun rfl (.cons trivial rfl
        (.cons ?_ rfl (.cons trivial rfl (.cons nofun rfl (.nil _)))))))
      rintro i ⟨-,he,-⟩
      obtain rfl : i = 0 := Nat.lt_one_iff.mp he.lt
      nofun
    exact ⟨s,hrun,hk ▸ ((frame_discipline closedB []).1 s hrun hm 0 hi).1⟩
  · obtain ⟨s,hrun,hi⟩ : ∃ s, run Provider.step {} closedC = some s ∧ 0 < s.sessions.count :=
      ⟨_,rfl,by decide⟩
    have hm : Meets Provider.step Provider.Quiet {} closedC := by
      refine .cons ⟨fun _ => nofun,fun i hp => ?_⟩ rfl (.cons trivial rfl (.cons ⟨nofun,fun i hp => ?_⟩ rfl
        (.cons trivial rfl (.cons trivial rfl (.nil _)))))
      · exact absurd hp.2.1.lt (Nat.not_lt_zero i)
      · obtain rfl : i = 0 := Nat.lt_one_iff.mp hp.2.1.lt
        exact ⟨nofun,nofun⟩
    exact ⟨s,hrun,((frame_discipline [] closedC).2 s hrun hm 0 hi).2⟩

/-- The session is closed while its pump reads. -/
def closedReading : List VisitorEvent :=
  [.accept uuidF, .transmit 0, .session 0 .sent, .read (.frame (sessionCloseFrame uuidF)),
    .session 0 (.readSome .error)]

/-- The session is closed while it connects, with a payload in its arrival buffer. -/
def closedConnecting : List ProviderEvent :=
  [.read (.frame ⟨.forwardSession,uuidF⟩), .read (.frame ⟨.data,uuidF ++ text "a"⟩),
    .read (.frame (sessionCloseFrame uuidF)), .session 0 (.connected true), .transmit 0, .session 0 .sent,
    .session 0 (.transferred 1)]

/-- `DATA_EOF` follows the close at B, and `SESSION_OK` and a payload follow it at C. -/
theorem close_not_final :
    ¬CloseIsFinal Visitor.step (Visitor.submits 0) (fun s => (s.sessions.cell 0).socket.written)
      (Visitor.Closes 0) {} closedReading ∧
    ¬CloseIsFinal Provider.step (Provider.submits 0) (fun s => (s.sessions.cell 0).socket.written)
      (Provider.Closes 0) {} closedConnecting ∧
    ∃ s, run Provider.step {} closedConnecting = some s ∧
      (s.sessions.cell 0).socket.written = text "a" := by
  refine ⟨fun h => ?_,fun h => ?_,_,rfl,rfl⟩
  · obtain ⟨s,t,hs,ht,hc⟩ : ∃ s t, run Visitor.step {} [.accept uuidF, .transmit 0, .session 0 .sent] = some s ∧
        s.step (.read (.frame (sessionCloseFrame uuidF))) = some t ∧
        s.Closes 0 (.read (.frame (sessionCloseFrame uuidF))) :=
      ⟨_,_,rfl,rfl,.inr ⟨.inr rfl,by decide +kernel,by decide +kernel⟩⟩
    obtain ⟨v,hv⟩ : ∃ v, run Visitor.step t [.session 0 (.readSome .error)] = some v := by
      obtain rfl := Option.some.inj (hs.symm.trans rfl)
      obtain rfl := Option.some.inj (ht.symm.trans rfl)
      exact ⟨_,rfl⟩
    have hout := (h _ _ _ rfl s t hs ht hc [.session 0 (.readSome .error)] v List.prefix_rfl hv).1
    rw [outputs_singleton] at hout
    cases hout
  · obtain ⟨s,t,hs,ht,hc⟩ : ∃ s t, run Provider.step {} [.read (.frame ⟨.forwardSession,uuidF⟩),
          .read (.frame ⟨.data,uuidF ++ text "a"⟩)] = some s ∧
        s.step (.read (.frame (sessionCloseFrame uuidF))) = some t ∧
        s.Closes 0 (.read (.frame (sessionCloseFrame uuidF))) :=
      ⟨_,_,rfl,rfl,.inr ⟨rfl,by decide +kernel,rfl⟩⟩
    obtain ⟨v,hv⟩ : ∃ v, run Provider.step t [.session 0 (.connected true)] = some v := by
      obtain rfl := Option.some.inj (hs.symm.trans rfl)
      obtain rfl := Option.some.inj (ht.symm.trans rfl)
      exact ⟨_,rfl⟩
    have hout := (h _ _ _ rfl s t hs ht hc [.session 0 (.connected true)] v ⟨_,rfl⟩ hv).1
    rw [outputs_singleton] at hout
    cases hout

end Msg801.Relay
