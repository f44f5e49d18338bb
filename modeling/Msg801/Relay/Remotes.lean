import Msg801.Relay.CloseFinality
import Msg801.Relay.Flow

/-! # Remotes that take what they are written

As long as C can connect, no write fails and the remotes do not end, the coroutine of a session
opens it, drains what arrived in the meantime and then only reads; the reader of C can write
whatever comes.
-/
namespace Msg801.Relay
open Transition

namespace SessionState
variable {u : Uuid} {x y : SessionState} {e : SessionEvent}

/-- The remote is not connected yet, or has not been written what came before. -/
def Opening (x : SessionState) : Prop :=
  match x.pc with
  | .connecting | .draining _ _ => True
  | .sending f _ => f.method = .sessionOk
  | .reading | .ended => False

/-- A session whose remote takes what it is written and does not end: it is shut down behind
`DATA_EOF` as soon as what came before is drained. -/
structure Thrives (x : SessionState) : Prop where
  isOpen : x.socket.isOpen = true
  closed : x.closed = false
  send : x.halfCloseSend = false
  live : x.pc ≠ .ended
  sending : ∀ f w, x.pc = .sending f w → f.method = .sessionOk ∨ f.method = .data
  shut : x.socket.shutdownSend = true → x.halfCloseRecv = true ∧ x.arrivalBuffer = []
  past : x.halfCloseRecv = true → x.socket.shutdownSend = true ∨ x.Opening

/-- Nothing fails in the coroutine, and its remote does not end. -/
def Calm : SessionEvent → Prop
  | .connected ok => ok = true
  | .readSome r => r.bytes ≠ []
  | .writeFailed => False
  | .sent | .transferred _ => True

instance (e : SessionEvent) : Decidable (Calm e) :=
  match e with
  | .connected _ => inferInstanceAs (Decidable (_ = _))
  | .readSome _ => inferInstanceAs (Decidable (_ ≠ _))
  | .writeFailed => inferInstanceAs (Decidable False)
  | .sent | .transferred _ => inferInstanceAs (Decidable True)

theorem connect_thrives : connect.Thrives :=
  ⟨rfl,rfl,rfl,by simp [connect],by simp [connect],by simp [connect],by simp [connect]⟩

/-- The loop over the arrival buffer writes it, and then shuts the remote down where it is to be. -/
theorem Thrives.drain (h : x.Thrives) (bs : List ByteVector) (hbs : bs ≠ [] → x.socket.shutdownSend = false) :
    (x.drain bs).Thrives := by
  cases bs with
  | cons b bs =>
    have hshut := hbs (by simp)
    exact ⟨h.isOpen,h.closed,h.send,by simp [SessionState.drain, onEnd, SessionEnd.suspend],
      by simp [SessionState.drain, onEnd, SessionEnd.suspend],fun hs => absurd (hshut.symm.trans hs) Bool.false_ne_true,
      fun _ => .inr trivial⟩
  | nil =>
    obtain ⟨-,hclosed,hrecv,-⟩ := x.drain_frame []
    have hpc : (x.drain []).pc = .reading := by simp [h.closed]
    have hsend : (x.drain []).halfCloseSend = false := by
      cases hr : x.halfCloseRecv <;>
        simp [SessionState.drain, hr, onEnd, SessionEnd.loop, SessionEnd.suspend, SessionEnd.shutdown, h.send]
    refine ⟨by rw [drain_isOpen, h.isOpen],hclosed.trans h.closed,hsend,by simp [hpc],by simp [hpc],fun hs => ?_,fun hr => ?_⟩
    · rw [drain_nil_shutdownSend, Bool.or_eq_true_iff] at hs
      refine ⟨?_,drain_nil_arrivalBuffer x⟩
      rw [hrecv]
      exact hs.elim (fun hs => (h.shut hs).1) fun hr => hr
    · rw [hrecv] at hr
      exact .inl (by rw [drain_nil_shutdownSend, hr, Bool.or_true])

theorem Thrives.resumed (h : x.Thrives) (hp : x.Placed true) (hx : x.Resumes u e y) (hcalm : Calm e) : y.Thrives := by
  have hshut : x.arrivalBuffer ≠ [] → x.socket.shutdownSend = false := by
    intro hne
    rw [← Bool.not_eq_true]
    exact fun hs => hne (h.shut hs).2
  cases hx with
  | connected hpc =>
    exact ⟨h.isOpen,h.closed,h.send,by simp [onEnd, SessionEnd.submit],by simp [onEnd, SessionEnd.submit],h.shut,
      fun _ => .inr rfl⟩
  | refused => cases hcalm
  | answered f w hpc hm => exact h.drain _ hshut
  | givenUp f w hpc hm => rcases h.sending f w hpc with hm' | hm' <;> cases hm.symm.trans hm'
  | pumped f w hpc hok herr =>
    have hm : f.method = .data := (h.sending f w hpc).resolve_left hok
    have hsent : x.onSent f = x.suspend .reading := by
      rw [SessionEnd.onSent, hm]
      simp [SessionEnd.loop, h.closed]
    rw [onEnd, hsent]
    refine ⟨h.isOpen,h.closed,h.send,by simp [SessionEnd.suspend],by simp [SessionEnd.suspend],h.shut,fun hr => .inl ?_⟩
    rcases h.past hr with hs | ho
    · exact hs
    · simp only [Opening, hpc] at ho
      exact absurd ho hok
  | read r hpc hr =>
    obtain ⟨b,d,rfl⟩ : ∃ b d, r = .data (b :: d) := by
      rcases r with (_ | ⟨b,d⟩) | _ | _
      case data.cons => exact ⟨b,d,rfl⟩
      all_goals exact absurd rfl hcalm
    refine ⟨h.isOpen,h.closed,h.send,by simp [onEnd, SessionEnd.onRead, ReadSome.bytes, SessionEnd.submit],?_,h.shut,
      fun hr => .inl ?_⟩
    · intro f w hpc'
      obtain ⟨rfl,-⟩ := SessionPc.sending.inj hpc'
      exact .inr rfl
    · rcases h.past hr with hs | ho
      · exact hs
      · simp only [Opening, hpc] at ho
  | drained rest left hpc =>
    have hbuf : x.arrivalBuffer ≠ [] := by
      simp only [Placed, hpc] at hp
      exact hp.2
    have hw : (x.onEnd (·.write rest)).Thrives :=
      ⟨h.isOpen,h.closed,h.send,h.live,h.sending,h.shut,h.past⟩
    exact hw.drain left fun _ => hshut hbuf
  | draining n rest left hpc =>
    exact ⟨h.isOpen,h.closed,h.send,by simp [onEnd, SessionEnd.suspend],by simp [onEnd, SessionEnd.suspend],h.shut,
      fun _ => .inr trivial⟩
  | failed => exact hcalm.elim

theorem Resumes.recv (hx : x.Resumes u e y) : y.halfCloseRecv = x.halfCloseRecv := by
  cases hx with
  | connected | refused | givenUp | draining | failed => rfl
  | answered => exact (x.drain_frame _).2.2.1
  | pumped f => exact (x.onSent_frame f).2.1
  | read r => exact ((x.receive r).onRead_frame u r).2.2.2.2.2
  | drained rest left => exact ((x.onEnd (·.write rest)).drain_frame left).2.2.1

theorem Thrives.buffer (h : x.Thrives) (hr : x.halfCloseRecv = false) (data : ByteVector) : (x.buffer data).Thrives :=
  ⟨h.isOpen,h.closed,h.send,h.live,h.sending,fun hs => absurd (hr.symm.trans (h.shut hs).1) Bool.false_ne_true,
    fun hr' => absurd (hr.symm.trans hr') Bool.false_ne_true⟩

/-- `DATA_EOF` shuts a remote down that is connected, and finds nothing left to drain. -/
theorem Thrives.recvEof (h : x.Thrives) (hp : x.Placed true) (hbuf : x.remoteConnected = true → x.arrivalBuffer = []) :
    x.recvEof.Thrives := by
  rw [SessionState.recvEof]
  split_ifs with hconn
  · exact ⟨h.isOpen,h.closed,h.send,h.live,h.sending,fun _ => ⟨rfl,hbuf hconn⟩,fun _ => .inl rfl⟩
  · refine ⟨h.isOpen,h.closed,h.send,h.live,h.sending,fun hs => ⟨rfl,(h.shut hs).2⟩,fun _ => .inr ?_⟩
    change x.Opening
    -- without a remote the coroutine is still in its connect
    cases hpc : x.pc with
    | connecting => simp [Opening, hpc]
    | sending f w =>
      have hm := h.sending f w hpc
      rcases hm with hm | hm <;> simp [Placed, hpc, hm, hconn] at hp
    | draining | reading => simp [Placed, hpc, hconn] at hp
    | ended => exact absurd hpc h.live

theorem onFrame_data (x : SessionState) {f : Frame} (hm : f.method = .data) : (x.onFrame f).erase = false ∧
    ((x.onFrame f).session = x ∨ (x.onFrame f).session = x.buffer (f.body.drop UUID_BYTES)) := by
  simp only [onFrame, hm]
  split_ifs
  · exact ⟨rfl,.inl rfl⟩
  · exact ⟨rfl,.inl rfl⟩
  · exact ⟨rfl,.inr rfl⟩
  · exact ⟨rfl,.inl rfl⟩

theorem onFrame_dataEof (hs : x.halfCloseSend = false) {f : Frame} (hm : f.method = .dataEof) :
    x.onFrame f = { session := x.recvEof } := by
  have hsend : x.recvEof.halfCloseSend = false := by
    rw [SessionState.recvEof]
    split_ifs <;> exact hs
  simp [onFrame, hm, hsend]

/-- What payloads weigh, each one more than its bytes. -/
def pile (bs : List ByteVector) : ℕ := (bs.map fun b => b.length + 1).sum

/-- What the coroutine has still to do until it reads, with the payloads in the arrival buffer. -/
def work (x : SessionState) : ℕ :=
  match x.pc with
  | .connecting => pile x.arrivalBuffer + 3
  | .sending _ false => pile x.arrivalBuffer + 2
  | .sending _ true => pile x.arrivalBuffer + 1
  | .draining rest left => rest.length + 1 + pile left
  | .reading | .ended => 0

theorem work_congr (hpc : x.pc = y.pc) (hbuf : x.arrivalBuffer = y.arrivalBuffer) : x.work = y.work := by
  rw [work, work, hpc, hbuf]

theorem drain_work (x : SessionState) (bs : List ByteVector) : (x.drain bs).work ≤ pile bs := by
  cases bs with
  | cons b bs => simp [work, SessionState.drain, onEnd, SessionEnd.suspend, pile]
  | nil =>
    rw [work, drain_nil_pc]
    cases x.closed <;> exact le_rfl

theorem buffer_work (x : SessionState) (data : ByteVector) : (x.buffer data).work ≤ x.work + (data.length + 1) := by
  have hpile : pile (x.arrivalBuffer ++ [data]) = pile x.arrivalBuffer + (data.length + 1) := by simp [pile]
  rw [work, work]
  change (match x.pc with
    | .connecting => pile (x.arrivalBuffer ++ [data]) + 3
    | .sending _ false => pile (x.arrivalBuffer ++ [data]) + 2
    | .sending _ true => pile (x.arrivalBuffer ++ [data]) + 1
    | .draining rest left => rest.length + 1 + pile left
    | .reading | .ended => 0) ≤ _
  rw [hpile]
  split <;> omega

/-- The coroutine does what it has to do. -/
theorem resume_work (h : x.resume u e = some y) (hr : ∀ r, e ≠ .readSome r) : y.work < x.work := by
  cases resume_resumes h with
  | connected hpc | refused hpc => simp [work, hpc, onEnd, SessionEnd.submit, connectedTo]
  | answered f w hpc =>
    have hdrain := x.drain_work x.arrivalBuffer
    have hx : pile x.arrivalBuffer < x.work := by cases w <;> simp [work, hpc]
    exact hdrain.trans_lt hx
  | givenUp f w hpc => cases w <;> simp [work, hpc, onEnd, SessionEnd.giveUp, SessionEnd.suspend]
  | pumped f w hpc =>
    have hidle : (x.onEnd (·.onSent f)).work = 0 := by
      rcases x.onSent_pc f with hpc' | ⟨hpc',-⟩ <;> simp [work, onEnd, hpc']
    rw [hidle]
    cases w <;> simp [work, hpc]
  | read r => exact absurd rfl (hr r)
  | drained rest left hpc =>
    have hdrain := (x.onEnd (·.write rest)).drain_work left
    have hx : pile left < x.work := by
      simp only [work, hpc]
      omega
    exact hdrain.trans_lt hx
  | draining n rest left hpc hn =>
    obtain ⟨rest',left',hpc',hcan⟩ := resume_transferred h
    obtain ⟨rfl,-⟩ := SessionPc.draining.inj (hpc'.symm.trans hpc)
    obtain ⟨rfl,-⟩ | ⟨hpos,-⟩ := hcan
    · simp at hn
    · simp only [work, hpc, onEnd, SessionEnd.suspend, List.length_drop]
      omega
  | failed rest left hpc =>
    simp only [work, hpc, onEnd, SessionEnd.suspend]
    omega

/-- A frame weighs more than what is made of it. -/
theorem onFrame_work (x : SessionState) (f : Frame) (i : ℕ) :
    (x.onFrame f).session.work + (ReaderPc.next i (x.onFrame f).write).backlog ≤ x.work + (f.body.length + 1) := by
  have hsame : ∀ {y : SessionState}, y.pc = x.pc → y.arrivalBuffer = x.arrivalBuffer →
      y.work + ReaderPc.backlog .reading ≤ x.work + (f.body.length + 1) := by
    intro y hpc hbuf
    rw [work_congr hpc hbuf]
    exact Nat.add_le_add_left (Nat.zero_le _) _
  rw [onFrame]
  split
  · have hlen : (f.body.drop UUID_BYTES).length + 1 ≤ f.body.length + 1 := by simp
    dsimp only
    split_ifs
    · exact hsame rfl rfl
    · exact Nat.add_le_add_left hlen _
    · exact (x.buffer_work _).trans (Nat.add_le_add_left hlen _)
    · exact hsame rfl rfl
  · have hrecv : x.recvEof.pc = x.pc ∧ x.recvEof.arrivalBuffer = x.arrivalBuffer := by
      rw [SessionState.recvEof]
      split_ifs <;> exact ⟨rfl,rfl⟩
    dsimp only
    split_ifs <;> exact hsame hrecv.1 hrecv.2
  · have hcut : (x.onEnd .markClosed).cutOff.pc = x.pc ∧ (x.onEnd .markClosed).cutOff.arrivalBuffer = x.arrivalBuffer := by
      rw [cutOff]
      split_ifs <;> exact ⟨rfl,rfl⟩
    exact hsame hcut.1 hcut.2
  · exact hsame rfl rfl

/-- A coroutine that does not read goes on, with its frame written or when nothing hinders it. -/
theorem Thrives.exists_resume (h : x.Thrives) {b : Bool} (hp : x.Placed b) (hpc : x.pc ≠ .reading) :
    (∃ f, x.pc = .sending f false) ∨
      ∃ e y, x.resume u e = some y ∧ Calm e ∧ (∀ r, e ≠ .readSome r) ∧ x.unwritten = false := by
  cases hpc' : x.pc with
  | reading => exact absurd hpc' hpc
  | ended => exact absurd hpc' h.live
  | connecting =>
    have hstep : x.resume u (.connected true) = some (x.connectedTo.onEnd (·.submit ⟨.sessionOk,buildUuidBody u⟩)) := by
      rw [resume, if_pos hpc', if_pos rfl]
    exact .inr ⟨_,_,hstep,rfl,by simp,by simp [SessionEnd.unwritten, hpc']⟩
  | sending f w =>
    cases w with
    | false => exact .inl ⟨f,rfl⟩
    | true =>
      refine .inr ⟨.sent,?_⟩
      rcases h.sending f true hpc' with hm | hm <;>
        simp [resume, hpc', hm, Calm, SessionEnd.unwritten]
  | draining rest left =>
    have hshut : x.socket.shutdownSend = false := by
      simp only [Placed, hpc'] at hp
      rw [← Bool.not_eq_true]
      exact fun hs => hp.2 (h.shut hs).2
    have hstep : x.resume u (.transferred rest.length) = some (if rest.length = rest.length
        then (x.onEnd (·.write (rest.take rest.length))).drain left
        else (x.onEnd (·.write (rest.take rest.length))).onEnd (·.suspend (.draining (rest.drop rest.length) left))) := by
      simp only [resume, hpc', if_pos (SessionEnd.canTransfer_all rest trivial h.isOpen hshut)]
    exact .inr ⟨_,_,hstep,trivial,by simp,by simp [SessionEnd.unwritten, hpc']⟩

end SessionState

namespace Provider
variable {s t : Provider} {e : ProviderEvent} {i : ℕ} {u : Uuid} {v : View SessionState}

/-- The connection to A does not fail, nor does a connect, or a write to a remote, and no
remote ends. -/
def Calm : ProviderEvent → Prop
  | .read .nullopt | .read .thrown | .writeFailed => False
  | .session _ e => SessionState.Calm e
  | .read (.frame _) | .transferred _ | .transmit _ => True

instance (e : ProviderEvent) : Decidable (Calm e) :=
  match e with
  | .read .nullopt | .read .thrown | .writeFailed => inferInstanceAs (Decidable False)
  | .session _ e => inferInstanceAs (Decidable (SessionState.Calm e))
  | .read (.frame _) | .transferred _ | .transmit _ => inferInstanceAs (Decidable True)

/-- A session of the table whose remote has been told what has come for it. -/
structure Takes (u : Uuid) (v : View SessionState) : Prop where
  entered : v.entered = true
  thrives : v.session.Thrives
  ordered : Ordered u v
  told : dataEofFrame u ∈ v.frames → v.session.halfCloseRecv = true
  pending : v.pending.isSome = true → v.session.halfCloseRecv = false

theorem Takes.taken (h : Takes (s.sessions.key i) (s.view i)) {f : Frame} (hd : s.Drained (.read (.frame f)))
    (hr : s.reader = .reading) (he : s.sessions.Entered i) (hk : providerKey f = some (s.sessions.key i))
    (hclose : f.method ≠ .sessionClose) (hlate : f.method = .data → dataEofFrame (s.sessions.key i) ∉ s.frames) :
    Takes (s.sessions.key i) { s.view i with
      session := ((s.sessions.cell i).onFrame f).session
      entered := !((s.sessions.cell i).onFrame f).erase
      pending := ((s.sessions.cell i).onFrame f).write
      frames := s.frames ++ [f] } := by
  have hordered := h.ordered.taken hd hr he hk
  have hthrives : (s.sessions.cell i).Thrives := h.thrives
  have hplaced : (s.sessions.cell i).Placed true := by
    have hp := h.ordered.placed
    rwa [h.entered] at hp
  obtain hm | hm | hm := providerKey_method hk
  case inr.inr => exact absurd hm hclose
  case inl =>
    obtain ⟨herase,hsession⟩ := (s.sessions.cell i).onFrame_data hm
    have hrecv : (s.sessions.cell i).halfCloseRecv = false := by
      rw [← Bool.not_eq_true]
      exact fun hr => hlate hm (h.ordered.eof hr).1
    have hsame : ((s.sessions.cell i).onFrame f).session.Thrives ∧
        ((s.sessions.cell i).onFrame f).session.halfCloseRecv = false := by
      rcases hsession with hx | hx <;> rw [hx]
      · exact ⟨hthrives,hrecv⟩
      · exact ⟨hthrives.buffer hrecv _,hrecv⟩
    refine ⟨by simp [herase],hsame.1,hordered,fun hmem => ?_,fun _ => hsame.2⟩
    rcases List.mem_append.mp hmem with hmem | hmem
    · exact absurd hmem (hlate hm)
    · rw [← List.mem_singleton.mp hmem] at hm
      cases hm
  case inr.inl =>
    rw [SessionState.onFrame_dataEof hthrives.send hm] at hordered ⊢
    have hrecv : (s.sessions.cell i).recvEof.halfCloseRecv = true := by
      rw [SessionState.recvEof]
      split_ifs <;> rfl
    exact ⟨rfl,hthrives.recvEof hplaced (hd (.inr hm) i he hk),hordered,fun _ => hrecv,by rintro ⟨⟩⟩

/-- What a calm step means to a session whose remote takes what it is written. -/
theorem Moves.takes (hm : Moves s i e v) (h : Takes (s.sessions.key i) (s.view i)) (hcalm : Calm e) (hd : s.Drained e)
    (hlost : v.lost = false) (hclose : ∀ f, e = .read (.frame f) → f.method ≠ .sessionClose)
    (hlate : ∀ f, e = .read (.frame f) → f.method = .data → providerKey f = some (s.sessions.key i) →
      dataEofFrame (s.sessions.key i) ∉ s.frames) : Takes (s.sessions.key i) v := by
  have hordered := hm.ordered h.ordered hd
  have hplaced : (s.sessions.cell i).Placed true := by
    have hp := h.ordered.placed
    rwa [h.entered] at hp
  have hthrives : (s.sessions.cell i).Thrives := h.thrives
  cases hm with
  | same => exact h
  | resumed e x hx =>
    have hres := SessionState.resume_resumes hx
    have hx' := hthrives.resumed hplaced hres hcalm
    have hrecv : x.halfCloseRecv = (s.sessions.cell i).halfCloseRecv := hres.recv
    refine ⟨?_,hx',hordered,fun hmem => hrecv.trans (h.told hmem),fun hp => hrecv.trans (h.pending hp)⟩
    have hentered : (s.view i).entered = true := h.entered
    rw [hentered]
    simp [hx'.live]
  | transmitted f hpc =>
    refine ⟨h.entered,⟨hthrives.isOpen,hthrives.closed,hthrives.send,by simp [SessionState.onEnd, SessionEnd.transmit],?_,hthrives.shut,?_⟩,
      hordered,h.told,h.pending⟩
    · intro g w hg
      obtain ⟨rfl,-⟩ := SessionPc.sending.inj hg
      exact hthrives.sending _ _ hpc
    · intro hr
      apply (hthrives.past hr).imp_right
      intro ho
      simpa [SessionState.Opening, hpc, SessionState.onEnd, SessionEnd.transmit] using ho
  | passed f hr hm hk =>
    refine ⟨h.entered,h.thrives,hordered,fun hmem => h.told ?_,h.pending⟩
    rcases List.mem_append.mp hmem with hmem | hmem
    · exact hmem
    · obtain rfl := List.mem_singleton.mp hmem
      exact absurd rfl (hk (of_decide_eq_true h.entered))
  | taken f hr he hk => exact h.taken hd hr he hk (hclose f rfl) fun hm => hlate f rfl hm hk
  | written n rest hr hn =>
    refine ⟨h.entered,⟨hthrives.isOpen,hthrives.closed,hthrives.send,hthrives.live,hthrives.sending,hthrives.shut,hthrives.past⟩,
      hordered,h.told,fun _ => h.pending (by simp [hr])⟩
  | cut => cases hlost
  | thrown => exact hcalm.elim

/-- C in a run in which the remotes take what they are written: its reader reads, or writes
to one of them, and has a session for every `FORWARD_SESSION` it has taken. -/
structure Serving (s : Provider) : Prop where
  lost : s.lost = false
  takes : ∀ i < s.sessions.count, Takes (s.sessions.key i) (s.view i)
  reader : s.reader.Serves s.sessions.count
  known : ∀ f ∈ s.frames, f.method = .forwardSession → ∃ i < s.sessions.count, s.sessions.key i = f.body

theorem Serving.stays (h : s.Serving) (hcalm : Calm e) (heof : ∀ f, e = .read (.frame f) → f.method ≠ .eof)
    (hs : s.step e = some t) : t.lost = false ∧ t.reader.Serves t.sessions.count := by
  cases step_turn hs with
  | eof f _ hm => exact absurd hm (heof f rfl)
  | lost r _ hn =>
    cases r with
    | frame f => exact absurd rfl (hn f)
    | nullopt | thrown => exact hcalm.elim
  | forwarded f hr => exact ⟨h.lost,.inl hr⟩
  | taken f i _ _ he =>
    refine ⟨h.lost,ReaderPc.serves_next ?_ _⟩
    simpa [Node.dispatch] using he.lt
  | written n i rest hr => exact ⟨h.lost,ReaderPc.serves_next (h.reader.lt hr) _⟩
  | thrown => exact hcalm.elim
  | resumed i e x =>
    refine ⟨h.lost,?_⟩
    simpa [onResumed] using h.reader
  | passed | transmitted => exact ⟨h.lost,h.reader⟩

theorem Serving.knows (h : s.Serving) (hs : s.step e = some t) :
    ∀ f ∈ t.frames, f.method = .forwardSession → ∃ i < t.sessions.count, t.sessions.key i = f.body := by
  have hd := step_drifts hs
  have hold : ∀ f ∈ s.frames, f.method = .forwardSession → ∃ i < t.sessions.count, t.sessions.key i = f.body := by
    intro f hf hm
    obtain ⟨i,hi,hk⟩ := h.known f hf hm
    exact ⟨i,hi.trans_le hd.count,(hd.move hi).1.trans hk⟩
  rcases step_frames hs with hframes | ⟨g,rfl,hframes⟩ <;> rw [hframes]
  · exact hold
  · intro f hf hm
    rcases List.mem_append.mp hf with hf | hf
    · exact hold f hf hm
    · obtain rfl := List.mem_singleton.mp hf
      cases step_turn hs with
      | eof _ _ hm' => cases hm.symm.trans hm'
      | lost _ _ hn => exact absurd rfl (hn f)
      | forwarded => exact ⟨s.sessions.count,Nat.lt_succ_self _,SharedMap.insert_key_self _ _ _⟩
      | taken _ _ _ _ _ hk => simp [providerKey, hm] at hk
      | passed _ _ _ hm' => exact absurd hm hm'

theorem born_takes (hb : Born s t i e) (hs : s.InSequence e) (hnone : dataEofFrame (t.sessions.key i) ∉ t.frames) :
    Takes (t.sessions.key i) (t.view i) := by
  have hordered := born_ordered hs hb
  obtain ⟨-,f,-,-,-,hv⟩ := hb
  have hframes : dataEofFrame (t.sessions.key i) ∉ (t.view i).frames := hnone
  rw [hv] at hordered hframes ⊢
  exact ⟨rfl,SessionState.connect_thrives,hordered,fun hmem => absurd hmem hframes,by rintro ⟨⟩⟩

theorem step_serving (h : s.Serving) (hp : s.Posted) (hseq : s.InSequence e) (hcalm : Calm e) (hd : s.Drained e)
    (hread : ∀ f, e = .read (.frame f) → f.method ≠ .eof ∧ f.method ≠ .sessionClose)
    (hlate : ∀ f u, e = .read (.frame f) → f.method = .data → providerKey f = some u → dataEofFrame u ∉ s.frames)
    (hearly : ∀ f, e = .read (.frame f) → f.method = .forwardSession → dataEofFrame f.body ∉ s.frames)
    (hs : s.step e = some t) : t.Serving := by
  have hfresh : s.Fresh e := by
    cases e with
    | read r =>
      cases r with
      | frame f => exact fun hm => (hseq hm).1
      | _ => trivial
    | _ => trivial
  have hc := step_carries hp.distinct hfresh hs
  obtain ⟨hlost,hreader⟩ := h.stays hcalm (fun f hf => (hread f hf).1) hs
  refine ⟨hlost,fun i hi => ?_,hreader,h.knows hs⟩
  obtain ⟨hi',hk,hm⟩ | hb := hc.view i hi
  · rw [hk]
    exact hm.takes (h.takes i hi') hcalm hd hlost (fun f hf => (hread f hf).2) fun f hf hm hk => hlate f _ hf hm hk
  · refine born_takes hb hseq ?_
    obtain ⟨-,f,rfl,hm,hk,hv⟩ := hb
    have hframes : t.frames = s.frames ++ [f] := congrArg View.frames hv
    rw [hk, hframes]
    intro hmem
    rcases List.mem_append.mp hmem with hmem | hmem
    · exact hearly f rfl hm hmem
    · rw [← List.mem_singleton.mp hmem] at hm
      cases hm

end Provider

namespace Visitor
variable {s t : Visitor} {e : VisitorEvent} {i : ℕ}

/-- B on a connection to A that does not fail, to which it closes no session. -/
structure Speaking (s : Visitor) : Prop where
  unbroken : s.broken = false
  short : ∀ i < s.sessions.count, ∀ f ∈ (s.sessions.cell i).submitted, f.Fits
  unclosed : ∀ f ∈ s.wire, f.method ≠ .sessionClose

theorem Speaking.fits (h : s.Speaking) (hp : s.Posted) {f : Frame} (hf : f ∈ s.wire) : f.Fits := by
  rcases hp.wire f hf with hm | ⟨i,hi,hsub⟩
  · exact absurd hm (h.unclosed f hf)
  · exact h.short i hi f hsub

end Visitor

end Msg801.Relay
