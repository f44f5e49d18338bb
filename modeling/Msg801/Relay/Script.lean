import Msg801.Relay.Provider
import Msg801.Relay.Visitor

/-! # What the coroutine of a session sends

Whatever the other coroutines do, the pump of a session sends its opening frame, then the
payloads it has read, and at its end `DATA_EOF`. At C the connect comes first, and if that
fails `SESSION_ERR` is all there is.
-/
namespace Msg801.Relay
open Transition

/-- What a pump has given to `aconn_write`, by where it is suspended and whether it has
come to the end of its socket. -/
inductive Pumping (u : Uuid) (first : Frame) : SessionPc → Bool → List Frame → Prop
  | opening (w : Bool) : Pumping u first (.sending first w) false [first]
  | draining (rest : ByteVector) (left : List ByteVector) : Pumping u first (.draining rest left) false [first]
  | reading (ds : List ByteVector) : Pumping u first .reading false (first :: ds.map (dataFrame u))
  | paying (ds : List ByteVector) (d : ByteVector) (w : Bool) :
      Pumping u first (.sending (dataFrame u d) w) false (first :: (ds ++ [d]).map (dataFrame u))
  | parting (ds : List ByteVector) (w : Bool) :
      Pumping u first (.sending (dataEofFrame u) w) true (first :: ds.map (dataFrame u) ++ [dataEofFrame u])
  | stopped (ds : List ByteVector) : Pumping u first .ended false (first :: ds.map (dataFrame u))
  | parted (ds : List ByteVector) :
      Pumping u first .ended true (first :: ds.map (dataFrame u) ++ [dataEofFrame u])

namespace SessionEnd

/-- The coroutine of the session is the pump behind the frame `first`. -/
def Pumps (u : Uuid) (first : Frame) (x : SessionEnd) : Prop :=
  Pumping u first x.pc x.halfCloseSend x.submitted

theorem Steady.pumps {u : Uuid} {first : Frame} {x y : SessionEnd} (h : y.Steady x)
    (hx : x.Pumps u first) : y.Pumps u first := by
  obtain ⟨hpc,hs,hsub,-⟩ := h
  rwa [Pumps, hpc, hs, hsub]

/-- Behind a read that told the end of the socket `halfCloseSend` is set. -/
theorem onRead_cases (u : Uuid) (x : SessionEnd) (r : ReadSome) :
    x.onRead u r = x.sendEof.submit (dataEofFrame u) ∨
      ∃ d, r = .data d ∧ d ≠ [] ∧ x.onRead u r = x.submit (dataFrame u d) := by
  cases r with
  | eof => exact .inl rfl
  | error => exact .inl rfl
  | data d =>
    cases d with
    | nil => exact .inl rfl
    | cons b d => exact .inr ⟨b :: d,rfl,by simp,rfl⟩

variable {u : Uuid} {first : Frame} {x : SessionEnd}

theorem Pumps.transmit (h : x.Pumps u first) {f : Frame} (hpc : x.pc = .sending f false) :
    (x.transmit f).Pumps u first := by
  unfold Pumps at h ⊢
  rw [hpc] at h
  change Pumping u first (.sending f true) x.halfCloseSend x.submitted
  generalize x.halfCloseSend = b, x.submitted = fs at h
  cases h with
  | opening => exact .opening true
  | paying ds d => exact .paying ds d true
  | parting ds => exact .parting ds true

theorem Pumps.onRead (h : x.Pumps u first) (hpc : x.pc = .reading) (r : ReadSome) :
    ((x.receive r).onRead u r).Pumps u first := by
  unfold Pumps at h
  rw [hpc] at h
  generalize hb : x.halfCloseSend = b, hfs : x.submitted = fs at h
  cases h with
  | reading ds =>
    obtain hr | ⟨d,-,-,hr⟩ := (x.receive r).onRead_cases u r
    · rw [hr]
      change Pumping u first _ true (x.submitted ++ [dataEofFrame u])
      rw [hfs]
      exact .parting ds false
    · rw [hr]
      change Pumping u first _ x.halfCloseSend (x.submitted ++ [dataFrame u d])
      rw [hb, hfs, List.cons_append, ← List.map_singleton, ← List.map_append]
      exact .paying ds d false

theorem pumps_loop {l : List ByteVector} (hb : x.halfCloseSend = false)
    (hfs : x.submitted = first :: l.map (dataFrame u)) : x.loop.Pumps u first := by
  unfold Pumps
  change Pumping u first (if x.closed then .ended else .reading) x.halfCloseSend x.submitted
  rw [hb, hfs]
  split_ifs
  · exact .stopped l
  · exact .reading l

theorem Pumps.onSent (h : x.Pumps u first) {f : Frame} {w : Bool} (hpc : x.pc = .sending f w)
    (heof : first.method ≠ .dataEof) (hclose : first.method ≠ .sessionClose) :
    (x.onSent f).Pumps u first := by
  unfold Pumps at h
  rw [hpc] at h
  generalize hb : x.halfCloseSend = b, hfs : x.submitted = fs at h
  have hloop : ∀ {g : Frame}, g.method ≠ .dataEof → g.method ≠ .sessionClose → x.onSent g = x.loop := by
    intro g hg hg'
    cases hm : g.method <;> simp_all [SessionEnd.onSent]
  cases h with
  | opening =>
    rw [hloop heof hclose]
    exact pumps_loop (l := []) hb hfs
  | paying ds d =>
    rw [hloop (by simp [dataFrame]) (by simp [dataFrame])]
    exact pumps_loop hb hfs
  | parting ds =>
    obtain ⟨-,-,hs,hsub,-⟩ := x.onSent_frame (dataEofFrame u)
    unfold Pumps
    rw [hs, hsub, hb, hfs]
    exact .parted ds

end SessionEnd

def newSessionFrame (u : Uuid) : Frame := ⟨.newSession,buildUuidBody u⟩
def sessionOkFrame (u : Uuid) : Frame := ⟨.sessionOk,buildUuidBody u⟩
def sessionErrFrame (u : Uuid) : Frame := ⟨.sessionErr,buildUuidBody u⟩

theorem ClientSession.Resumes.pumps {u : Uuid} {x y : ClientSession} {e : SessionEvent}
    (h : ClientSession.Resumes u x e y) (hx : x.Pumps u (newSessionFrame u)) :
    y.Pumps u (newSessionFrame u) := by
  cases h with
  | sent f w hpc => exact hx.onSent hpc (by simp [newSessionFrame]) (by simp [newSessionFrame])
  | read r hpc => exact hx.onRead hpc r

theorem Visitor.Moves.pumps {s : Visitor} {i : ℕ} {e : VisitorEvent} {v : View ClientSession} {u : Uuid}
    (h : Visitor.Moves s i e v) (hu : s.sessions.key i = u)
    (hx : (s.sessions.cell i).Pumps u (newSessionFrame u)) : v.session.Pumps u (newSessionFrame u) := by
  subst hu
  rcases h.coroutine with hsteady | ⟨f,-,hpc,rfl⟩ | ⟨e,x,-,hr,rfl⟩
  · exact hsteady.pumps hx
  · exact hx.transmit hpc
  · exact hr.pumps hx

/-- The pump of every client sends `NEW_SESSION`, payloads and `DATA_EOF`. -/
theorem Visitor.run_pumps {events : List VisitorEvent} {s : Visitor} (hrun : run step {} events = some s) :
    ∀ i < s.sessions.count, (s.sessions.cell i).Pumps (s.sessions.key i) (newSessionFrame (s.sessions.key i)) :=
  (run_session (P := fun u x => x.Pumps u (newSessionFrame u)) hrun
    (fun _ => .opening false) fun hp hm => hm.pumps rfl hp).2

namespace SessionState

/-- What the coroutine of a session at C has given to `aconn_write`. -/
inductive Speaks (u : Uuid) (x : SessionState) : Prop
  | connecting (hpc : x.pc = .connecting) (hs : x.halfCloseSend = false) (hfs : x.submitted = [])
  | refusing (w : Bool) (hpc : x.pc = .sending (sessionErrFrame u) w) (hs : x.halfCloseSend = false)
      (hfs : x.submitted = [sessionErrFrame u])
  | refused (hpc : x.pc = .ended) (hs : x.halfCloseSend = false) (hfs : x.submitted = [sessionErrFrame u])
  | pumping (h : x.Pumps u (sessionOkFrame u))

variable {u : Uuid} {x y : SessionState}

theorem Speaks.of_steady (h : y.Steady x.toSessionEnd) (hx : x.Speaks u) : y.Speaks u := by
  obtain ⟨hpc,hs,hfs,-⟩ := id h
  cases hx with
  | connecting hpc' hs' hfs' => exact .connecting (hpc.trans hpc') (hs.trans hs') (hfs.trans hfs')
  | refusing w hpc' hs' hfs' => exact .refusing w (hpc.trans hpc') (hs.trans hs') (hfs.trans hfs')
  | refused hpc' hs' hfs' => exact .refused (hpc.trans hpc') (hs.trans hs') (hfs.trans hfs')
  | pumping hp => exact .pumping (h.pumps hp)

/-- Before the remote is read from only the opening frame has been sent. -/
theorem pumps_drain (hs : x.halfCloseSend = false) (hfs : x.submitted = [sessionOkFrame u])
    (bs : List ByteVector) : (x.drain bs).Pumps u (sessionOkFrame u) := by
  cases bs with
  | cons b bs =>
    change Pumping u _ (.draining b bs) x.halfCloseSend x.submitted
    rw [hs, hfs]
    exact .draining b bs
  | nil =>
    have hsteady : (if x.halfCloseRecv then ({ x with arrivalBuffer := [] } : SessionState).onEnd .shutdown
        else { x with arrivalBuffer := [] }).Steady x.toSessionEnd := by
      split_ifs <;> exact ⟨rfl,rfl,rfl,rfl⟩
    exact SessionEnd.pumps_loop (l := []) (hsteady.2.1.trans hs) (hsteady.2.2.1.trans hfs)

theorem Speaks.draining (h : x.Speaks u) {rest : ByteVector} {left : List ByteVector}
    (hpc : x.pc = .draining rest left) : x.halfCloseSend = false ∧ x.submitted = [sessionOkFrame u] := by
  cases h with
  | pumping h =>
    unfold SessionEnd.Pumps at h
    rw [hpc] at h
    generalize x.halfCloseSend = b, x.submitted = fs at h
    cases h
    exact ⟨rfl,rfl⟩
  | connecting h | refusing _ h | refused h => simp [hpc] at h

theorem Speaks.answering (h : x.Speaks u) {f : Frame} {w : Bool} (hpc : x.pc = .sending f w)
    (hm : f.method = .sessionOk) : x.halfCloseSend = false ∧ x.submitted = [sessionOkFrame u] := by
  cases h with
  | refusing w' h =>
    obtain ⟨rfl,-⟩ := SessionPc.sending.inj (hpc.symm.trans h)
    cases hm
  | pumping h =>
    unfold SessionEnd.Pumps at h
    rw [hpc] at h
    generalize x.halfCloseSend = b, x.submitted = fs at h
    cases h with
    | opening => exact ⟨rfl,rfl⟩
    | paying | parting => cases hm
  | connecting h | refused h => simp [hpc] at h

/-- The frame under way has been submitted, and is one of four. -/
theorem Speaks.sending (h : x.Speaks u) {f : Frame} {w : Bool} (hpc : x.pc = .sending f w) :
    f ∈ x.submitted ∧ (f = sessionErrFrame u ∨ f = sessionOkFrame u ∨ (∃ d, f = dataFrame u d) ∨
      f = dataEofFrame u) := by
  cases h with
  | refusing w' h hs hfs =>
    obtain ⟨rfl,-⟩ := SessionPc.sending.inj (hpc.symm.trans h)
    exact ⟨by simp [hfs],.inl rfl⟩
  | pumping h =>
    unfold SessionEnd.Pumps at h
    rw [hpc] at h
    generalize x.halfCloseSend = b, x.submitted = fs at h
    cases h with
    | opening => exact ⟨by simp,.inr (.inl rfl)⟩
    | paying ds d => exact ⟨by simp,.inr (.inr (.inl ⟨d,rfl⟩))⟩
    | parting ds => exact ⟨by simp,.inr (.inr (.inr rfl))⟩
  | connecting h | refused h => simp [hpc] at h

theorem Speaks.dataEof_mem (h : x.Speaks u) (hs : x.halfCloseSend = true) : dataEofFrame u ∈ x.submitted := by
  cases h with
  | pumping h =>
    unfold SessionEnd.Pumps at h
    rw [hs] at h
    generalize x.pc = pc, x.submitted = fs at h
    cases h <;> simp
  | connecting _ h | refusing _ _ h | refused _ h => simp [hs] at h

/-- Behind the opening frame the coroutine is a pump. -/
theorem Speaks.pumps (h : x.Speaks u) (hne : x.pc ≠ .connecting) (herr : ∀ w, x.pc ≠ .sending (sessionErrFrame u) w)
    (hend : x.pc ≠ .ended) : x.Pumps u (sessionOkFrame u) := by
  cases h with
  | connecting hpc => exact absurd hpc hne
  | refusing w hpc => exact absurd hpc (herr w)
  | refused hpc => exact absurd hpc hend
  | pumping h => exact h

theorem Resumes.speaks {e : SessionEvent} (h : x.Resumes u e y) (hx : x.Speaks u) : y.Speaks u := by
  cases h with
  | connected hpc =>
    cases hx with
    | connecting _ hs hfs =>
      refine .pumping ?_
      change Pumping u _ (.sending (sessionOkFrame u) false) x.halfCloseSend (x.submitted ++ [sessionOkFrame u])
      rw [hs, hfs]
      exact .opening false
    | refusing _ h | refused h => simp [hpc] at h
    | pumping h =>
      unfold SessionEnd.Pumps at h
      rw [hpc] at h
      cases h
  | refused hpc =>
    cases hx with
    | connecting _ hs hfs =>
      refine .refusing false rfl hs ?_
      change x.submitted ++ [sessionErrFrame u] = _
      rw [hfs, List.nil_append]
    | refusing _ h | refused h => simp [hpc] at h
    | pumping h =>
      unfold SessionEnd.Pumps at h
      rw [hpc] at h
      cases h
  | answered f w hpc hm =>
    obtain ⟨hs,hfs⟩ := hx.answering hpc hm
    exact .pumping (pumps_drain hs hfs _)
  | givenUp f w hpc hm =>
    cases hx with
    | refusing _ _ hs hfs => exact .refused rfl hs hfs
    | pumping h =>
      unfold SessionEnd.Pumps at h
      rw [hpc] at h
      generalize x.halfCloseSend = b, x.submitted = fs at h
      cases h <;> cases hm
    | connecting h | refused h => simp [hpc] at h
  | pumped f w hpc hok herr =>
    have hp : x.Pumps u (sessionOkFrame u) := by
      refine hx.pumps (by simp [hpc]) (fun w' h => ?_) (by simp [hpc])
      obtain ⟨rfl,-⟩ := SessionPc.sending.inj (hpc.symm.trans h)
      exact herr rfl
    exact .pumping (hp.onSent hpc (by simp [sessionOkFrame]) (by simp [sessionOkFrame]))
  | read r hpc =>
    have hp := hx.pumps (by simp [hpc]) (by simp [hpc]) (by simp [hpc])
    exact .pumping (hp.onRead hpc r)
  | drained rest left hpc =>
    obtain ⟨hs,hfs⟩ := hx.draining hpc
    exact .pumping (pumps_drain (x := x.onEnd (·.write rest)) hs hfs left)
  | draining n rest left hpc =>
    obtain ⟨hs,hfs⟩ := hx.draining hpc
    refine .pumping ?_
    change Pumping u _ _ x.halfCloseSend x.submitted
    rw [hs, hfs]
    exact .draining _ left
  | failed rest left hpc =>
    obtain ⟨hs,hfs⟩ := hx.draining hpc
    refine .pumping ?_
    change Pumping u _ .ended x.halfCloseSend x.submitted
    rw [hs, hfs]
    exact .stopped []

theorem Resumes.submitted {e : SessionEvent} (h : x.Resumes u e y) :
    ∀ f ∈ x.submitted, f ∈ y.submitted := by
  intro f hf
  cases h with
  | connected | refused => exact List.mem_append_left _ hf
  | answered => rwa [drain_submitted]
  | givenUp | draining | failed => exact hf
  | pumped g => exact (x.onSent_frame g).2.2.2.1 ▸ hf
  | read r => exact ((x.receive r).onRead_frame u r).2.1 ▸ List.mem_append_left _ hf
  | drained => rwa [drain_submitted]

/-- The remote of a session belongs to it from the end of its connect on. -/
def Linked (x : SessionState) : Prop :=
  match x.pc with
  | .connecting => x.remoteConnected = false ∧ x.socket.isOpen = true
  | .sending f _ => (x.remoteConnected = false ↔ f.method = .sessionErr)
  | .draining _ _ => x.remoteConnected = true
  | .reading => x.remoteConnected = true
  | .ended => True

theorem Linked.of_steady (hx : x.Linked) (h : y.Steady x.toSessionEnd)
    (hc : y.remoteConnected = x.remoteConnected)
    (ho : x.remoteConnected = false → y.socket.isOpen = x.socket.isOpen) : y.Linked := by
  unfold Linked at hx ⊢
  rw [h.1]
  cases hpc : x.pc <;> simp only [hpc] at hx ⊢
  case connecting => exact ⟨hc.trans hx.1,(ho hx.1).trans hx.2⟩
  case sending => rwa [hc]
  case draining | reading => exact hc.trans hx

theorem linked_drain (hc : x.remoteConnected = true) (bs : List ByteVector) : (x.drain bs).Linked := by
  have hc' := (x.drain_frame bs).1.trans hc
  unfold Linked
  cases bs with
  | cons => exact hc'
  | nil =>
    rw [drain_nil_pc]
    split_ifs
    · trivial
    · exact hc'

theorem Resumes.linked {e : SessionEvent} (h : x.Resumes u e y) (hx : x.Linked) : y.Linked := by
  cases h with
  | connected hpc => simp [Linked, onEnd, connectedTo, SessionEnd.submit]
  | refused hpc =>
    simp only [Linked, hpc] at hx
    simp [Linked, onEnd, SessionEnd.submit, hx]
  | answered f w hpc hm =>
    simp only [Linked, hpc] at hx
    exact linked_drain (by simpa [hm] using hx) _
  | givenUp | failed => exact trivial
  | pumped f w hpc hok herr =>
    simp only [Linked, hpc] at hx
    unfold Linked
    rcases x.onSent_pc f with hend | ⟨hread,-⟩
    · simp only [onEnd, hend]
    · simp only [onEnd, hread]
      simpa [herr] using hx
  | read r hpc =>
    have hc : x.remoteConnected = true := by simpa only [Linked, hpc] using hx
    unfold Linked
    simp only [onEnd, ((x.receive r).onRead_frame u r).1, hc]
    rcases SessionEnd.readFrame_cases u r with hr | ⟨d,-,-,hr⟩ <;> simp [hr, dataEofFrame, dataFrame]
  | drained rest left hpc =>
    simp only [Linked, hpc] at hx
    exact linked_drain (x := x.onEnd (·.write rest)) hx left
  | draining n rest left hpc =>
    simp only [Linked, hpc] at hx
    exact hx

end SessionState

theorem Provider.Moves.linked {s : Provider} {i : ℕ} {e : ProviderEvent} {v : View SessionState}
    (h : Provider.Moves s i e v) (hx : (s.sessions.cell i).Linked) : v.session.Linked := by
  rcases h.remote with ⟨e',x,-,hr,rfl⟩ | ⟨hc,ho⟩
  · exact hr.linked hx
  rcases h.coroutine with hsteady | ⟨f,-,hpc,rfl⟩ | ⟨e',x,-,hr,rfl⟩
  · exact hx.of_steady hsteady hc ho
  · simp only [SessionState.Linked, hpc] at hx
    exact hx
  · exact hr.linked hx

theorem Provider.Moves.speaks {s : Provider} {i : ℕ} {e : ProviderEvent} {v : View SessionState}
    (h : Provider.Moves s i e v) (hx : (s.sessions.cell i).Speaks (s.sessions.key i)) :
    v.session.Speaks (s.sessions.key i) := by
  rcases h.coroutine with hsteady | ⟨f,-,hpc,rfl⟩ | ⟨e,x,-,hr,rfl⟩
  · exact hx.of_steady hsteady
  · cases hx with
    | refusing w h hs hfs =>
      obtain ⟨rfl,-⟩ := SessionPc.sending.inj (hpc.symm.trans h)
      exact .refusing true rfl hs hfs
    | pumping h => exact .pumping (h.transmit hpc)
    | connecting h | refused h => simp [hpc] at h
  · exact hr.speaks hx

/-- The coroutine of every session sends `SESSION_ERR`, or `SESSION_OK`, payloads and
`DATA_EOF`. -/
theorem Provider.run_speaks {events : List ProviderEvent} {s : Provider} (hrun : run step {} events = some s) :
    ∀ i < s.sessions.count, (s.sessions.cell i).Speaks (s.sessions.key i) :=
  run_session (P := fun u x => x.Speaks u) hrun (fun _ => .connecting rfl rfl rfl) fun hp hm => hm.speaks hp

end Msg801.Relay
