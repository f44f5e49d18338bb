import Msg801.Relay.Isolation
import Msg801.Relay.Script

/-! # After the connection to A is lost

The loop over the frames from A closes, at its end, the sockets of the sessions that are in
the table then. Sessions that are out of it, clients accepted afterwards and remotes
connected afterwards are not reached by that.
-/
namespace Msg801.Relay
open Transition

/-- The loop over the frames ends with this result of `read_frame`. -/
def ReadFrame.endsLoop : ReadFrame → Bool
  | .frame f => f.method = .eof
  | _ => true

namespace Visitor

/-- The session has a client socket that is open. -/
def ClientOpen (s : Visitor) (i : ℕ) : Prop := s.Live i ∧ (s.sessions.cell i).socket.isOpen = true

/-- The table is empty and no client is open. -/
def Swept (s : Visitor) : Prop := ∀ i < s.sessions.count, ¬s.sessions.Entered i ∧ ¬s.ClientOpen i

/-- No client is accepted behind the loop, and all that are open at its end are in the table. -/
def Departs (s : Visitor) : VisitorEvent → Prop
  | .accept _ => s.reader ≠ .ended
  | .read r => r.endsLoop = true → ∀ i < s.sessions.count, s.ClientOpen i → s.sessions.Entered i
  | _ => True

variable {s t : Visitor} {e : VisitorEvent} {i : ℕ}

/-- The loop ends with a frame or without one, and the sweep over the table. -/
theorem step_ended (hs : s.step e = some t) (ht : t.reader = .ended) :
    s.reader = .ended ∨ ∃ r, e = .read r ∧ r.endsLoop = true ∧ t.sessions = s.sessions.clear .close := by
  cases step_turn hs with
  | eof f _ hm => exact .inr ⟨.frame f,rfl,by simpa [ReadFrame.endsLoop] using hm,rfl⟩
  | lost r _ hn =>
    refine .inr ⟨r,rfl,?_,rfl⟩
    cases r with
    | frame f => exact absurd rfl (hn f)
    | _ => rfl
  | accepted | unaccepted | passed | resumed | transmitted => exact .inl ht
  | taken f i => exact absurd ht (ReaderPc.next_ne_ended _ _)
  | written => exact absurd ht (ReaderPc.next_ne_ended _ _)
  | failed | closeWritten | dismissed | staled => cases ht

/-- The sweep leaves open what is open and not in the table. -/
theorem swept_clear (ht : t.sessions = s.sessions.clear .close) :
    t.Swept ↔ ∀ i < s.sessions.count, s.ClientOpen i → s.sessions.Entered i := by
  unfold Swept
  rw [ht]
  apply forall₂_congr
  intro i _
  rw [and_iff_right (SharedMap.not_clear_entered _ _ _), ClientOpen, Live, ht, SharedMap.clear_cell]
  by_cases he : s.sessions.Entered i <;> simp [he, SessionEnd.close, ClientOpen, Live]

/-- What a step means to a session does not open its socket. -/
theorem Moves.opens {v : View ClientSession} (h : Moves s i e v) (hpc : v.session.pc ≠ .ended)
    (ho : v.session.socket.isOpen = true) :
    (s.sessions.cell i).pc ≠ .ended ∧ (s.sessions.cell i).socket.isOpen = true := by
  constructor
  · rcases h.coroutine with hsteady | ⟨f,-,hf,-⟩ | ⟨e,x,-,hr,-⟩
    · intro hend
      exact hpc (hsteady.1.trans hend)
    · rw [hf]
      nofun
    · cases hr <;> simp_all
  · cases h with
    | same | passed | transmitted | written | failed | staled => exact ho
    | dismissed => cases ho
    | resumed e x hx =>
      cases ClientSession.resume_resumes hx with
      | sent f => exact ((s.sessions.cell i).onSent_frame f).1 ▸ ho
      | read r =>
        have hsocket := (((s.sessions.cell i).receive r).onRead_frame (s.sessions.key i) r).2.2.2.1
        dsimp only at ho
        rw [hsocket] at ho
        exact ho
    | taken f =>
      dsimp only at ho
      rw [ClientSession.onFrame] at ho
      split at ho
      · cases ho
      · exact ho
      · dsimp only at ho
        split_ifs at ho <;> exact ho
      · cases ho
      · exact ho
    | cut | shut =>
      dsimp only at ho
      split_ifs at ho
      · cases ho
      · exact ho

theorem step_swept (hb : s.Bounded) (hd : s.Departs e) (hs : s.step e = some t) (hr : s.reader = .ended)
    (h : s.Swept) : t.Swept := by
  intro i hi
  obtain ⟨hi,-,v,hm,hv⟩ | ⟨-,u,rfl,-⟩ := (step_drifts hb hs).view i hi
  · obtain ⟨hn,hclosed⟩ := h i hi
    have hn' : ¬t.sessions.Entered i := fun he => hn (hm.entered_of (hv.entered he))
    refine ⟨hn',?_⟩
    rintro ⟨he | hpc,ho⟩
    · exact hn' he
    · rw [hv.session] at hpc ho
      obtain ⟨hpc',ho'⟩ := hm.opens hpc ho
      exact hclosed ⟨.inr hpc',ho'⟩
  · exact absurd hr hd

/-- A step keeps swept what is, and leaves it swept behind the end of the loop, exactly when
it departs. -/
theorem swept_iff_departs (hb : s.Bounded) (h : s.reader = .ended → s.Swept) (hs : s.step e = some t) :
    (t.reader = .ended → t.Swept) ↔ s.Departs e := by
  constructor
  · intro ht
    cases e with
    | accept uuid =>
      intro hr
      cases step_turn hs with
      | accepted _ ha =>
        refine (ht hr s.sessions.count ?_).1 ?_
        · simp
        · simp
    | read r =>
      intro hend
      cases step_turn hs with
      | eof | lost => exact (swept_clear rfl).mp (ht rfl)
      | taken f i _ hm | passed f _ hm => exact absurd (by simpa [ReadFrame.endsLoop] using hend) hm
    | _ => trivial
  · intro hd ht
    obtain hr | ⟨r,rfl,hend,hclear⟩ := step_ended hs ht
    · exact step_swept hb hd hs hr (h hr)
    · exact (swept_clear hclear).mpr (hd hend)

end Visitor

namespace SessionState
variable {u : Uuid} {x y : SessionState}

/-- The session has a remote that was not closed. -/
def HasRemote (x : SessionState) : Prop := x.remoteConnected = true ∧ x.socket.isOpen = true

theorem not_hasRemote_cutOff (x : SessionState) : ¬x.cutOff.HasRemote := by
  rintro ⟨hc,ho⟩
  rw [cutOff] at hc ho
  split_ifs at hc ho with h
  · cases ho
  · exact h hc

theorem onFrame_hasRemote {f : Frame} (h : (x.onFrame f).session.HasRemote) : x.HasRemote := by
  have hrecv : x.recvEof.remoteConnected = x.remoteConnected ∧
      x.recvEof.socket.isOpen = x.socket.isOpen := by
    rw [recvEof]
    split_ifs <;> exact ⟨rfl,rfl⟩
  obtain ⟨m,body⟩ := f
  cases m <;> simp only [onFrame] at h
  case data => split_ifs at h <;> exact h
  case dataEof => split_ifs at h <;> exact ⟨hrecv.1 ▸ h.1,hrecv.2 ▸ h.2⟩
  case sessionClose => exact (not_hasRemote_cutOff _ h).elim
  all_goals exact h

theorem drain_hasRemote {bs : List ByteVector} (h : (x.drain bs).HasRemote) : x.HasRemote :=
  ⟨(x.drain_frame bs).1 ▸ h.1,(x.drain_isOpen bs).symm.trans h.2⟩

theorem Resumes.hasRemote {e : SessionEvent} (h : x.Resumes u e y) (hy : y.HasRemote) :
    e = .connected true ∨ x.HasRemote := by
  cases h with
  | connected => exact .inl rfl
  | refused | givenUp | draining | failed => exact .inr hy
  | answered => exact .inr (drain_hasRemote hy)
  | drained rest => exact .inr (drain_hasRemote (x := x.onEnd (·.write rest)) hy)
  | pumped f => exact .inr ⟨hy.1,(x.onSent_frame f).1 ▸ hy.2⟩
  | read r =>
    have hsocket := congrArg Socket.isOpen ((x.receive r).onRead_frame u r).2.2.2.1
    exact .inr ⟨hy.1,hsocket.symm.trans hy.2⟩

end SessionState

namespace Provider

/-- The table is empty and no remote is open. -/
def Swept (s : Provider) : Prop := ∀ i < s.sessions.count, ¬s.sessions.Entered i ∧ ¬s.RemoteOpen i

/-- No remote is connected behind the loop, and all that are open at its end are in the table. -/
def Departs (s : Provider) : ProviderEvent → Prop
  | .session _ (.connected true) => s.reader ≠ .ended
  | .read r => r.endsLoop = true → ∀ i < s.sessions.count, s.RemoteOpen i → s.sessions.Entered i
  | .writeFailed => ∀ i < s.sessions.count, s.RemoteOpen i → s.sessions.Entered i
  | _ => True

variable {s t : Provider} {e : ProviderEvent} {i : ℕ}

/-- What the loop leaves behind when it ends. -/
structure Ends (s t : Provider) : Prop where
  reader : t.reader = .ended
  sessions : t.sessions = s.sessions.clear .cutOff

/-- A failed write changes nothing that the sweep looks at. -/
structure Same (s s' : Provider) : Prop where
  count : s'.sessions.count = s.sessions.count
  entered : ∀ i, s'.sessions.Entered i ↔ s.sessions.Entered i
  remote : ∀ i, s'.RemoteOpen i ↔ s.RemoteOpen i

theorem same_fail (s : Provider) (i : ℕ) : s.Same { s with
    sessions := s.sessions.set i ((s.sessions.cell i).onEnd .fail) } := by
  refine ⟨rfl,fun _ => Iff.rfl,fun j => ?_⟩
  unfold RemoteOpen Live
  by_cases hji : j = i
  · subst hji
    simp [SessionState.onEnd, SessionEnd.fail]
  · simp [SharedMap.set_cell_of_ne _ _ hji]

/-- The loop ends with a frame, without one, or by a failed write, and with the sweep over
the table. -/
theorem step_ended (hs : s.step e = some t) (ht : t.reader = .ended) :
    s.reader = .ended ∨ (e = .writeFailed ∨ ∃ r, e = .read r ∧ r.endsLoop = true) ∧
      ∃ s', s.Same s' ∧ s'.Ends t := by
  have hsame : s.Same s := ⟨rfl,fun _ => Iff.rfl,fun _ => Iff.rfl⟩
  cases step_turn hs with
  | eof f _ hm => exact .inr ⟨.inr ⟨.frame f,rfl,by simpa [ReadFrame.endsLoop] using hm⟩,s,hsame,rfl,rfl⟩
  | lost r _ hn =>
    refine .inr ⟨.inr ⟨r,rfl,?_⟩,s,hsame,rfl,rfl⟩
    cases r with
    | frame f => exact absurd rfl (hn f)
    | _ => rfl
  | thrown i => exact .inr ⟨.inl rfl,_,same_fail s i,rfl,rfl⟩
  | forwarded | passed | resumed | transmitted => exact .inl ht
  | taken f i => exact absurd ht (ReaderPc.next_ne_ended _ _)
  | written => exact absurd ht (ReaderPc.next_ne_ended _ _)

theorem Ends.swept_iff (h : s.Ends t) :
    t.Swept ↔ ∀ i < s.sessions.count, s.RemoteOpen i → s.sessions.Entered i := by
  unfold Swept
  rw [h.sessions]
  apply forall₂_congr
  intro i _
  rw [and_iff_right (SharedMap.not_clear_entered _ _ _), RemoteOpen, Live, h.sessions, SharedMap.clear_cell]
  by_cases he : s.sessions.Entered i
  · cases hc : (s.sessions.cell i).remoteConnected <;>
      simp [he, SessionState.cutOff, hc, SessionState.onEnd, SessionEnd.close]
  · simp [he, RemoteOpen, Live]

theorem Same.forall_iff {s' : Provider} (h : s.Same s') :
    (∀ i < s'.sessions.count, s'.RemoteOpen i → s'.sessions.Entered i) ↔
      ∀ i < s.sessions.count, s.RemoteOpen i → s.sessions.Entered i := by
  rw [h.count]
  exact forall₂_congr fun i _ => by rw [h.remote, h.entered]

/-- Only the end of a connect gives a session an open remote. -/
theorem Moves.opens {v : View SessionState} (h : Moves s i e v) (hpc : v.session.pc ≠ .ended)
    (hv : v.session.HasRemote) :
    e = .session i (.connected true) ∨ (s.sessions.cell i).pc ≠ .ended ∧ (s.sessions.cell i).HasRemote := by
  have hpc' : (s.sessions.cell i).pc ≠ .ended := by
    rcases h.coroutine with hsteady | ⟨f,-,hf,-⟩ | ⟨e,x,-,hr,-⟩
    · intro hend
      exact hpc (hsteady.1.trans hend)
    · rw [hf]
      nofun
    · cases hr <;> simp_all
  rw [and_iff_right hpc']
  cases h with
  | same | passed | transmitted | written => exact .inr hv
  | resumed e x hx => exact ((SessionState.resume_resumes hx).hasRemote hv).imp (congrArg _) id
  | taken f => exact .inr (SessionState.onFrame_hasRemote hv)
  | cut =>
    apply Or.inr
    dsimp only at hv
    split_ifs at hv
    · exact (SessionState.not_hasRemote_cutOff _ hv).elim
    · exact hv
  | thrown j rest hr x hx =>
    apply Or.inr
    dsimp only at hv
    split_ifs at hv
    · exact (SessionState.not_hasRemote_cutOff _ hv).elim
    · rw [hx] at hv
      split_ifs at hv <;> exact hv

theorem step_swept (hd : s.Departs e) (hs : s.step e = some t) (hr : s.reader = .ended)
    (h : s.Swept) : t.Swept := by
  intro i hi
  obtain ⟨hi,-,v,hm,hv⟩ | ⟨-,f,rfl,-⟩ := (step_drifts hs).view i hi
  · obtain ⟨hn,hclosed⟩ := h i hi
    have hn' : ¬t.sessions.Entered i := fun he => hn (hm.entered_of (hv.entered he))
    refine ⟨hn',?_⟩
    rintro ⟨he | hpc,hremote⟩
    · exact hn' he
    · rw [hv.session] at hpc hremote
      obtain rfl | ⟨hpc',hremote'⟩ := hm.opens hpc hremote
      · exact hd hr
      · exact hclosed ⟨.inr hpc',hremote'⟩
  · simp [step, hr] at hs

theorem step_linked (h : ∀ i < s.sessions.count, (s.sessions.cell i).Linked) (hs : s.step e = some t) :
    ∀ i < t.sessions.count, (t.sessions.cell i).Linked := by
  intro i hi
  obtain ⟨hi,-,v,hm,hv⟩ | ⟨-,f,-,-,-,hv⟩ := (step_drifts hs).view i hi
  · rw [hv.session]
    exact hm.linked (h i hi)
  · have hcell : t.sessions.cell i = .connect := congrArg View.session hv
    rw [hcell]
    exact ⟨rfl,rfl⟩

/-- A step keeps swept what is, and leaves it swept behind the end of the loop, exactly when
it departs. -/
theorem swept_iff_departs (hlinked : ∀ i < s.sessions.count, (s.sessions.cell i).Linked)
    (h : s.reader = .ended → s.Swept) (hs : s.step e = some t) : (t.reader = .ended → t.Swept) ↔ s.Departs e := by
  constructor
  · intro ht
    cases e with
    | read r =>
      intro hend
      cases step_turn hs with
      | eof | lost => exact (Ends.swept_iff ⟨rfl,rfl⟩).mp (ht rfl)
      | forwarded f _ hm => simp [ReadFrame.endsLoop, hm] at hend
      | taken f i _ hm | passed f _ hm => exact absurd (by simpa [ReadFrame.endsLoop] using hend) hm
    | writeFailed =>
      cases step_turn hs with
      | thrown j rest hr => exact (same_fail s j).forall_iff.mp ((Ends.swept_iff ⟨rfl,rfl⟩).mp (ht rfl))
    | session i e =>
      cases e with
      | connected ok =>
        cases ok with
        | false => trivial
        | true =>
          intro hr
          cases step_turn hs with
          | resumed _ _ x hi hx =>
            cases SessionState.resume_resumes hx with
            | connected hpc =>
              refine (ht hr i (by simpa [onResumed] using hi)).2 ⟨.inr ?_,?_⟩
              · simp [onResumed, SessionState.onEnd, SessionEnd.submit]
              · have hisOpen : (s.sessions.cell i).socket.isOpen = true := by
                  have hx := hlinked i hi
                  rw [SessionState.Linked, hpc] at hx
                  exact hx.2
                simpa [onResumed, SessionState.onEnd, SessionState.connectedTo, SessionEnd.submit] using hisOpen
      | _ => trivial
    | _ => trivial
  · intro hd ht
    obtain hr | ⟨he,s',hsame,hends⟩ := step_ended hs ht
    · exact step_swept hd hs hr (h hr)
    · refine hends.swept_iff.mpr (hsame.forall_iff.mpr ?_)
      obtain rfl | ⟨r,rfl,hend⟩ := he
      · exact hd
      · exact hd hend

end Provider

/-- At both nodes everything is over for good behind the loop over the frames exactly when
nothing is accepted or connected behind it, and all that is open at its end is in the table. -/
theorem disconnect_final_iff (eventsB : List VisitorEvent) (eventsC : List ProviderEvent) :
    (∀ s, run Visitor.step {} eventsB = some s →
      ((∀ pre t, pre <+: eventsB → run Visitor.step {} pre = some t → t.reader = .ended → t.Swept) ↔
        Meets Visitor.step Visitor.Departs {} eventsB)) ∧
    ∀ s, run Provider.step {} eventsC = some s →
      ((∀ pre t, pre <+: eventsC → run Provider.step {} pre = some t → t.reader = .ended → t.Swept) ↔
        Meets Provider.step Provider.Departs {} eventsC) := by
  constructor
  · intro s hrun
    refine forall_prefix_iff_meets (g := fun _ _ => True)
      (I := fun s : Visitor => s.Bounded ∧ (s.reader = .ended → s.Swept)) hrun (fun _ _ _ _ _ _ => trivial)
      ⟨Visitor.empty_bounded,nofun⟩ And.right (fun h _ hd hs => ?_) fun h _ hs =>
        (Visitor.swept_iff_departs h.1 h.2 hs).mp
    exact ⟨(Visitor.step_drifts h.1 hs).bounded,(Visitor.swept_iff_departs h.1 h.2 hs).mpr hd⟩
  · intro s hrun
    refine forall_prefix_iff_meets (g := fun _ _ => True) (I := fun s : Provider =>
        (∀ i < s.sessions.count, (s.sessions.cell i).Linked) ∧ (s.reader = .ended → s.Swept)) hrun
      (fun _ _ _ _ _ _ => trivial) ⟨fun i hi => absurd hi (Nat.not_lt_zero i),nofun⟩ And.right
      (fun h _ hd hs => ?_) fun h _ hs => (Provider.swept_iff_departs h.1 h.2 hs).mp
    exact ⟨Provider.step_linked h.1 hs,(Provider.swept_iff_departs h.1 h.2 hs).mpr hd⟩

def uuidE : Uuid := text "6fa459ea-ee8a-4ca4-894e-db77e160355e"

/-- One client, and then the end of the connection to A. -/
def leaveB : List VisitorEvent := [.accept uuidE, .transmit 0, .session 0 .sent, .read .nullopt]

/-- One session with a connected remote, and then the end of the connection to A. -/
def leaveC : List ProviderEvent :=
  [.read (.frame ⟨.forwardSession,uuidE⟩), .session 0 (.connected true), .transmit 0, .session 0 .sent,
    .read (.frame ⟨.eof,[]⟩)]

theorem disconnect_final_iff_leave :
    (∃ s, run Visitor.step {} leaveB = some s ∧ s.reader = .ended ∧ s.Swept) ∧
      ∃ s, run Provider.step {} leaveC = some s ∧ s.reader = .ended ∧ s.Swept := by
  constructor
  · obtain ⟨s,hrun,hr⟩ : ∃ s, run Visitor.step {} leaveB = some s ∧ s.reader = .ended := ⟨_,rfl,rfl⟩
    have hm : Meets Visitor.step Visitor.Departs {} leaveB := by
      refine .cons nofun rfl (.cons trivial rfl (.cons trivial rfl (.cons (fun _ i hi _ => ?_) rfl (.nil _))))
      obtain rfl : i = 0 := Nat.lt_one_iff.mp hi
      decide +kernel
    exact ⟨s,hrun,hr,((disconnect_final_iff leaveB []).1 s hrun).mpr hm leaveB s List.prefix_rfl hrun hr⟩
  · obtain ⟨s,hrun,hr⟩ : ∃ s, run Provider.step {} leaveC = some s ∧ s.reader = .ended := ⟨_,rfl,rfl⟩
    have hm : Meets Provider.step Provider.Departs {} leaveC := by
      refine .cons nofun rfl (.cons nofun rfl (.cons trivial rfl (.cons trivial rfl
        (.cons (fun _ i hi _ => ?_) rfl (.nil _)))))
      obtain rfl : i = 0 := Nat.lt_one_iff.mp hi
      decide +kernel
    exact ⟨s,hrun,hr,((disconnect_final_iff [] leaveC).2 s hrun).mpr hm leaveC s List.prefix_rfl hrun hr⟩

/-- At B a client is accepted behind the end of the loop, at C a remote is connected. -/
theorem late_not_swept :
    (∃ s, run Visitor.step {} [.read .nullopt, .accept uuidE] = some s ∧ s.reader = .ended ∧
      s.sessions.Entered 0 ∧ s.ClientOpen 0 ∧ ¬s.Swept) ∧
    ∃ s, run Provider.step {} [.read (.frame ⟨.forwardSession,uuidE⟩), .read (.frame ⟨.eof,[]⟩),
      .session 0 (.connected true)] = some s ∧ s.reader = .ended ∧ s.RemoteOpen 0 ∧ ¬s.Swept := by
  constructor
  · obtain ⟨s,hrun,hr,hc,he,ho⟩ : ∃ s, run Visitor.step {} [.read .nullopt, .accept uuidE] = some s ∧
        s.reader = .ended ∧ 0 < s.sessions.count ∧ s.sessions.Entered 0 ∧
        (s.sessions.cell 0).socket.isOpen = true := ⟨_,rfl,rfl,by decide,by decide +kernel,rfl⟩
    exact ⟨s,hrun,hr,he,⟨.inl he,ho⟩,fun h => (h 0 hc).1 he⟩
  · obtain ⟨s,hrun,hr,hc,ho⟩ : ∃ s, run Provider.step {} [.read (.frame ⟨.forwardSession,uuidE⟩),
        .read (.frame ⟨.eof,[]⟩), .session 0 (.connected true)] = some s ∧ s.reader = .ended ∧
        0 < s.sessions.count ∧ s.RemoteOpen 0 := ⟨_,rfl,rfl,by decide,.inr nofun,rfl,rfl⟩
    exact ⟨s,hrun,hr,ho,fun h => (h 0 hc).2 ho⟩

end Msg801.Relay
