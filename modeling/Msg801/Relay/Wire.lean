import Mathlib.Data.List.Nodup
import Msg801.Relay.Delivery
import Msg801.Relay.Script

/-! # What the nodes put on the wire

The frames of a session are written in the order in which its coroutine submits them. What C
writes for a session is told from the rest by its identifier; B announces every session once.
-/
namespace Msg801.Relay
open Transition

namespace SessionEnd

/-- The frame the coroutine has given to `aconn_write` and that is not written. -/
def held (x : SessionEnd) : List Frame :=
  match x.pc with
  | .sending f false => [f]
  | _ => []

/-- What was submitted is written, in its order, up to the frame that is held; behind a
connection that has failed no more is written. -/
def Shipped (x : SessionEnd) (broken : Bool) : Prop :=
  x.sent <+: x.submitted ∧ (broken = false → x.submitted = x.sent ++ x.held)

variable {x y : SessionEnd} {b b' : Bool}

theorem Shipped.steady (h : x.Shipped b) (hs : y.Steady x) (hb : b' = false → b = false) : y.Shipped b' := by
  obtain ⟨hpc,-,hsub,hsent⟩ := hs
  refine ⟨?_,fun hb' => ?_⟩
  · rw [hsub, hsent]
    exact h.1
  · have hheld : y.held = x.held := by rw [held, held, hpc]
    rw [hsub, hsent, hheld]
    exact h.2 (hb hb')

theorem Shipped.transmit (h : x.Shipped false) {f : Frame} (hpc : x.pc = .sending f false) :
    (x.transmit f).Shipped b := by
  have hsub : x.submitted = x.sent ++ [f] := by simpa [held, hpc] using h.2 rfl
  refine ⟨?_,fun _ => ?_⟩
  · change x.sent ++ [f] <+: x.submitted
    exact hsub ▸ List.prefix_rfl
  · change x.submitted = x.sent ++ [f] ++ []
    rw [hsub, List.append_nil]

/-- The coroutine has gone on without a frame in its hands. -/
theorem Shipped.resume (h : x.Shipped b) (hsub : y.submitted = x.submitted) (hsent : y.sent = x.sent)
    (hy : y.held = []) (hb : b' = false → b = false ∧ x.held = []) : y.Shipped b' := by
  refine ⟨?_,fun hb' => ?_⟩
  · rw [hsub, hsent]
    exact h.1
  · obtain ⟨hb,hx⟩ := hb hb'
    rw [hsub, hsent, hy, ← hx]
    exact h.2 hb

theorem Shipped.submit (h : x.Shipped b) (hx : x.held = []) (f : Frame) (hb : b' = false → b = false)
    (hsub : y.submitted = x.submitted ++ [f]) (hsent : y.sent = x.sent) (hpc : y.pc = .sending f false) :
    y.Shipped b' := by
  have hheld : y.held = [f] := by rw [held, hpc]
  refine ⟨?_,fun hb' => ?_⟩
  · rw [hsub, hsent]
    exact h.1.trans (List.prefix_append _ _)
  · have hall := h.2 (hb hb')
    rw [hx, List.append_nil] at hall
    rw [hsub, hsent, hheld, hall]

theorem held_of_written {f : Frame} {w : Bool} (hpc : x.pc = .sending f w) (h : x.unwritten = false) :
    x.held = [] := by
  cases w with
  | true => rw [held, hpc]
  | false => simp [unwritten, hpc] at h

theorem held_onSent (x : SessionEnd) (f : Frame) : (x.onSent f).held = [] := by
  rcases x.onSent_pc f with h | ⟨h,-⟩ <;> rw [held, h]

/-- The coroutine of a session that has come to its next await has told what it has read. -/
theorem Shipped.onSent (h : x.Shipped b) {f : Frame} {w : Bool} (hpc : x.pc = .sending f w)
    (hb : b' = false → b = false ∧ x.unwritten = false) : (x.onSent f).Shipped b' := by
  obtain ⟨-,-,-,hsub,hsent⟩ := x.onSent_frame f
  apply h.resume hsub hsent (held_onSent x f)
  intro hb'
  obtain ⟨hb,hw⟩ := hb hb'
  exact ⟨hb,held_of_written hpc hw⟩

theorem Shipped.onRead (h : x.Shipped b) (hpc : x.pc = .reading) (u : Uuid) (r : ReadSome)
    (hb : b' = false → b = false) : ((x.receive r).onRead u r).Shipped b' := by
  obtain ⟨hpc',hsub,hsent,-⟩ := (x.receive r).onRead_frame u r
  exact h.submit (by rw [held, hpc]) _ hb hsub hsent hpc'

end SessionEnd

theorem visitorKey_of_take {m : Method} {u : Uuid} (hu : u.length = UUID_BYTES) (bytes : ByteVector) :
    visitorKey ⟨m,u ++ bytes⟩ = some u := by
  have hlen : ¬(u ++ bytes).length < UUID_BYTES := by
    rw [List.length_append, hu]
    exact Nat.not_lt.mpr (Nat.le_add_right _ _)
  rw [visitorKey, if_neg hlen, ← hu, List.take_left]

theorem visitorKey_of_uuid {m : Method} {u : Uuid} (hu : u.length = UUID_BYTES) : visitorKey ⟨m,u⟩ = some u := by
  simpa using visitorKey_of_take (m := m) hu []

theorem payload_readFrame {u : Uuid} (hu : u.length = UUID_BYTES) (r : ReadSome) :
    payload u (SessionEnd.readFrame u r) = r.bytes := by
  rcases r with (_ | ⟨b,d⟩) | _ | _
  · exact payload_of_ne_data u (by simp [SessionEnd.readFrame, ReadSome.bytes])
  · have hframe : SessionEnd.readFrame u (.data (b :: d)) = dataFrame u (b :: d) := rfl
    rw [hframe, dataFrame, buildUuidDataBody, payload_of_visitorKey rfl (visitorKey_of_take hu _)]
    change (u ++ (b :: d)).drop UUID_BYTES = b :: d
    rw [← hu, List.drop_left]
  · exact payload_of_ne_data u (by simp [SessionEnd.readFrame])
  · exact payload_of_ne_data u (by simp [SessionEnd.readFrame, ReadSome.bytes])

namespace Visitor
variable {s t : Visitor} {e : VisitorEvent} {i : ℕ} {v : View ClientSession}

theorem step_wire (hs : s.step e = some t) : (t.wire = s.wire ∧ ∀ i, e ≠ .transmit i) ∨
    (∃ i f, e = .transmit i ∧ i < s.sessions.count ∧ s.broken = false ∧
      (s.sessions.cell i).pc = .sending f false ∧ t.wire = s.wire ++ [f] ∧
      t.sessions = s.sessions.set i ((s.sessions.cell i).transmit f)) ∨
    ∃ i, t.wire = s.wire ++ [sessionCloseFrame (s.sessions.key i)] ∧ ∀ j, e ≠ .transmit j := by
  cases step_turn hs with
  | closeWritten i => exact .inr (.inr ⟨i,rfl,by simp⟩)
  | transmitted i f hi hb hpc => exact .inr (.inl ⟨i,f,rfl,hi,hb,hpc,rfl,rfl⟩)
  | _ => exact .inl ⟨rfl,by simp⟩

theorem step_frames (hs : s.step e = some t) :
    t.frames = s.frames ∨ ∃ f, e = .read (.frame f) ∧ t.frames = s.frames ++ [f] := by
  cases step_turn hs with
  | eof f | taken f | passed f => exact .inr ⟨f,rfl,rfl⟩
  | _ => exact .inl rfl

/-- Each coroutine writes what it submits. -/
theorem Moves.shipped (hm : Moves s i e v) {b : Bool} (hx : (s.sessions.cell i).Shipped s.broken)
    (hb : b = false → s.broken = false ∧ ∀ i, e = .session i .sent → (s.sessions.cell i).unwritten = false)
    (htransmit : e = .transmit i → s.broken = false) : v.session.Shipped b := by
  rcases hm.coroutine with hsteady | ⟨f,he,hpc,rfl⟩ | ⟨e',x,rfl,hr,rfl⟩
  · exact hx.steady hsteady fun h => (hb h).1
  · rw [htransmit he] at hx
    exact hx.transmit hpc
  · cases hr with
    | sent f w hpc => exact hx.onSent hpc fun h => ⟨(hb h).1,(hb h).2 i rfl⟩
    | read r hpc => exact hx.onRead hpc _ r fun h => (hb h).1

/-- What a session has read is told by what it has submitted. -/
theorem Moves.reads (hm : Moves s i e v) : v.session.socket.read = (s.sessions.cell i).socket.read ∧
      v.session.submitted = (s.sessions.cell i).submitted ∨
    ∃ r, e = .session i (.readSome r) ∧ v.session.socket.read = (s.sessions.cell i).socket.read ++ r.bytes ∧
      v.session.submitted = (s.sessions.cell i).submitted ++ [SessionEnd.readFrame (s.sessions.key i) r] := by
  cases hm with
  | same | passed | transmitted | written | failed | dismissed | staled => exact .inl ⟨rfl,rfl⟩
  | resumed e x hx =>
    cases ClientSession.resume_resumes hx with
    | sent f =>
      obtain ⟨hsocket,-,-,hsub,-⟩ := (s.sessions.cell i).onSent_frame f
      exact .inl ⟨congrArg Socket.read hsocket,hsub⟩
    | read r =>
      obtain ⟨-,hsub,-,hsocket,-⟩ := ((s.sessions.cell i).receive r).onRead_frame (s.sessions.key i) r
      exact .inr ⟨r,rfl,congrArg Socket.read hsocket,hsub⟩
  | taken f =>
    have hread : ((s.sessions.cell i).onFrame f).session.socket.read = (s.sessions.cell i).socket.read := by
      rw [ClientSession.onFrame]
      split
      · rfl
      · rfl
      · dsimp only
        split_ifs <;> rfl
      · rfl
      · rfl
    exact .inl ⟨hread,(ClientSession.onFrame_steady _ f).2.2.1⟩
  | cut | shut =>
    apply Or.inl
    dsimp only
    split_ifs <;> exact ⟨rfl,rfl⟩

end Visitor

namespace SessionState
variable {u : Uuid} {x y : SessionState}

theorem cutOff_read (x : SessionState) : x.cutOff.socket.read = x.socket.read := by
  rw [cutOff]
  split_ifs <;> rfl

theorem onFrame_read (x : SessionState) (f : Frame) : (x.onFrame f).session.socket.read = x.socket.read := by
  have hrecv : x.recvEof.socket.read = x.socket.read := by
    rw [recvEof]
    split_ifs <;> rfl
  rw [onFrame]
  split
  · split_ifs <;> rfl
  · dsimp only
    split_ifs <;> exact hrecv
  · exact cutOff_read (x.onEnd .markClosed)
  · rfl

/-- The loop over the arrival buffer submits nothing, and reads nothing. -/
theorem drain_shipped (x : SessionState) (bs : List ByteVector) : (x.drain bs).sent = x.sent ∧
    (x.drain bs).held = [] ∧ (x.drain bs).socket.read = x.socket.read := by
  cases bs with
  | cons b bs => exact ⟨rfl,rfl,rfl⟩
  | nil =>
    refine ⟨?_,?_,?_⟩
    · cases h : x.halfCloseRecv <;> simp [drain, h, onEnd, SessionEnd.loop, SessionEnd.suspend, SessionEnd.shutdown]
    · rw [SessionEnd.held, drain_nil_pc]
      split_ifs <;> rfl
    · cases h : x.halfCloseRecv <;> simp [drain, h, onEnd, SessionEnd.loop, SessionEnd.suspend, SessionEnd.shutdown]

theorem Resumes.shipped {e : SessionEvent} (h : x.Resumes u e y) {b b' : Bool} (hx : x.Shipped b)
    (hb : b' = false → b = false ∧ (e = .sent → x.unwritten = false)) : y.Shipped b' := by
  have hstays : x.held = [] → ∀ {z : SessionState}, z.submitted = x.submitted → z.sent = x.sent → z.held = [] →
      z.Shipped b' := fun hheld {_} hsub hsent hz => hx.resume hsub hsent hz fun h => ⟨(hb h).1,hheld⟩
  have hdrained : ∀ (w : SessionState) bs, w.submitted = x.submitted → w.sent = x.sent →
      (b' = false → x.held = []) → (w.drain bs).Shipped b' := by
    intro w bs hsub hsent hheld
    obtain ⟨hsent',hheld',-⟩ := w.drain_shipped bs
    exact hx.resume ((w.drain_submitted bs).trans hsub) (hsent'.trans hsent) hheld' fun h => ⟨(hb h).1,hheld h⟩
  cases h with
  | connected hpc | refused hpc =>
    exact hx.submit (by rw [SessionEnd.held, hpc]) _ (fun h => (hb h).1) rfl rfl rfl
  | answered f w hpc =>
    exact hdrained x _ rfl rfl fun h => SessionEnd.held_of_written hpc ((hb h).2 rfl)
  | givenUp f w hpc =>
    exact hx.resume rfl rfl rfl fun h => ⟨(hb h).1,SessionEnd.held_of_written hpc ((hb h).2 rfl)⟩
  | pumped f w hpc => exact hx.onSent hpc fun h => ⟨(hb h).1,(hb h).2 rfl⟩
  | read r hpc => exact hx.onRead hpc u r fun h => (hb h).1
  | drained rest left hpc =>
    exact hdrained (x.onEnd (·.write rest)) left rfl rfl fun _ => by rw [SessionEnd.held, hpc]
  | draining n rest left hpc | failed rest left hpc => exact hstays (by rw [SessionEnd.held, hpc]) rfl rfl rfl

end SessionState

namespace Provider
variable {s t : Provider} {e : ProviderEvent} {i : ℕ} {v : View SessionState}

theorem step_wire (hs : s.step e = some t) : (t.wire = s.wire ∧ ∀ i, e ≠ .transmit i) ∨
    ∃ i f, e = .transmit i ∧ i < s.sessions.count ∧ s.broken = false ∧
      (s.sessions.cell i).pc = .sending f false ∧ t.wire = s.wire ++ [f] ∧
      t.sessions = s.sessions.set i ((s.sessions.cell i).onEnd (·.transmit f)) := by
  cases step_turn hs with
  | transmitted i f hi hb hpc => exact .inr ⟨i,f,rfl,hi,hb,hpc,rfl,rfl⟩
  | _ => exact .inl ⟨rfl,by simp⟩

theorem step_frames (hs : s.step e = some t) :
    t.frames = s.frames ∨ ∃ f, e = .read (.frame f) ∧ t.frames = s.frames ++ [f] := by
  cases step_turn hs with
  | eof f | forwarded f | taken f | passed f => exact .inr ⟨f,rfl,rfl⟩
  | _ => exact .inl rfl

theorem Moves.shipped (hm : Moves s i e v) {b : Bool} (hx : (s.sessions.cell i).Shipped s.broken)
    (hb : b = false → s.broken = false ∧ ∀ i, e = .session i .sent → (s.sessions.cell i).unwritten = false)
    (htransmit : e = .transmit i → s.broken = false) : v.session.Shipped b := by
  rcases hm.coroutine with hsteady | ⟨f,he,hpc,rfl⟩ | ⟨e',x,rfl,hr,rfl⟩
  · exact hx.steady hsteady fun h => (hb h).1
  · rw [htransmit he] at hx
    exact hx.transmit hpc
  · refine hr.shipped hx fun h => ⟨(hb h).1,?_⟩
    rintro rfl
    exact (hb h).2 i rfl

theorem Moves.reads (hm : Moves s i e v) : v.session.socket.read = (s.sessions.cell i).socket.read ∧
      v.session.submitted = (s.sessions.cell i).submitted ∨
    (∃ f, (f = sessionOkFrame (s.sessions.key i) ∨ f = sessionErrFrame (s.sessions.key i)) ∧
      (s.sessions.cell i).pc = .connecting ∧ v.session.socket.read = (s.sessions.cell i).socket.read ∧
      v.session.submitted = (s.sessions.cell i).submitted ++ [f]) ∨
    ∃ r, e = .session i (.readSome r) ∧ v.session.socket.read = (s.sessions.cell i).socket.read ++ r.bytes ∧
      v.session.submitted = (s.sessions.cell i).submitted ++ [SessionEnd.readFrame (s.sessions.key i) r] := by
  cases hm with
  | same | passed | transmitted | written => exact .inl ⟨rfl,rfl⟩
  | resumed e x hx =>
    cases SessionState.resume_resumes hx with
    | connected hpc => exact .inr (.inl ⟨_,.inl rfl,hpc,rfl,rfl⟩)
    | refused hpc => exact .inr (.inl ⟨_,.inr rfl,hpc,rfl,rfl⟩)
    | answered => exact .inl ⟨((s.sessions.cell i).drain_shipped _).2.2,(s.sessions.cell i).drain_submitted _⟩
    | givenUp | draining | failed => exact .inl ⟨rfl,rfl⟩
    | drained rest left =>
      exact .inl ⟨(((s.sessions.cell i).onEnd (·.write rest)).drain_shipped _).2.2,
        ((s.sessions.cell i).onEnd (·.write rest)).drain_submitted _⟩
    | pumped f =>
      obtain ⟨hsocket,-,-,hsub,-⟩ := (s.sessions.cell i).onSent_frame f
      exact .inl ⟨congrArg Socket.read hsocket,hsub⟩
    | read r =>
      obtain ⟨-,hsub,-,hsocket,-⟩ := ((s.sessions.cell i).receive r).onRead_frame (s.sessions.key i) r
      exact .inr (.inr ⟨r,rfl,congrArg Socket.read hsocket,hsub⟩)
  | taken f => exact .inl ⟨SessionState.onFrame_read _ f,(SessionState.onFrame_steady _ f).2.2.1⟩
  | cut =>
    apply Or.inl
    dsimp only
    split_ifs
    · exact ⟨SessionState.cutOff_read _,(SessionState.cutOff_steady _).2.2.1⟩
    · exact ⟨rfl,rfl⟩
  | thrown j rest hr x hx =>
    have hx' : x.socket.read = (s.sessions.cell i).socket.read ∧ x.submitted = (s.sessions.cell i).submitted := by
      rw [hx]
      split_ifs <;> exact ⟨rfl,rfl⟩
    apply Or.inl
    dsimp only
    split_ifs
    · exact ⟨x.cutOff_read.trans hx'.1,x.cutOff_steady.2.2.1.trans hx'.2⟩
    · exact hx'

/-- The remote of a session is shut down behind the `DATA_EOF` of B. -/
theorem Moves.eof (hm : Moves s i e v)
    (h : (s.sessions.cell i).halfCloseRecv = true ∨ (s.sessions.cell i).socket.shutdownSend = true →
      dataEofFrame (s.sessions.key i) ∈ s.frames) :
    v.session.halfCloseRecv = true ∨ v.session.socket.shutdownSend = true →
      dataEofFrame (s.sessions.key i) ∈ v.frames := by
  have hcut : ∀ {x : SessionState}, x.cutOff.halfCloseRecv = x.halfCloseRecv ∧
      x.cutOff.socket.shutdownSend = x.socket.shutdownSend := by
    intro x
    rw [SessionState.cutOff]
    split_ifs <;> exact ⟨rfl,rfl⟩
  have hdrain : ∀ {x : SessionState} (bs : List ByteVector), x.halfCloseRecv = (s.sessions.cell i).halfCloseRecv →
      x.socket.shutdownSend = (s.sessions.cell i).socket.shutdownSend →
      (x.drain bs).halfCloseRecv = true ∨ (x.drain bs).socket.shutdownSend = true →
        dataEofFrame (s.sessions.key i) ∈ s.frames := by
    intro x bs hr hs hx
    apply h
    rw [(x.drain_frame bs).2.2.1, hr] at hx
    apply hx.elim .inl
    intro hx
    cases bs with
    | cons => exact .inr (hs ▸ hx)
    | nil =>
      rw [SessionState.drain_nil_shutdownSend, hr, hs, Bool.or_eq_true_iff] at hx
      exact hx.symm
  cases hm with
  | same | transmitted | written => exact h
  | passed f => exact fun hv => List.mem_append_left _ (h hv)
  | resumed e x hx =>
    cases SessionState.resume_resumes hx with
    | connected | refused | givenUp | draining | failed => exact h
    | answered => exact hdrain _ rfl rfl
    | drained rest left => exact hdrain (x := (s.sessions.cell i).onEnd (·.write rest)) left rfl rfl
    | pumped f =>
      obtain ⟨hsocket,hrecv,-⟩ := (s.sessions.cell i).onSent_frame f
      intro hv
      exact h (hv.imp (hrecv ▸ ·) (hsocket ▸ ·))
    | read r =>
      obtain ⟨-,-,-,hsocket,-,hrecv⟩ := ((s.sessions.cell i).receive r).onRead_frame (s.sessions.key i) r
      intro hv
      exact h (hv.imp (hrecv.symm.trans ·) ((congrArg Socket.shutdownSend hsocket).symm.trans ·))
  | taken f hr he hk =>
    intro hv
    obtain ⟨m,body⟩ := f
    obtain hm | hm | hm := providerKey_method hk <;> dsimp only at hm <;> subst hm
    · refine List.mem_append_left _ (h ?_)
      simp only [SessionState.onFrame] at hv
      split_ifs at hv <;> exact hv
    · obtain rfl : body = s.sessions.key i := Option.some.inj hk
      exact List.mem_append_right _ (List.mem_singleton_self _)
    · refine List.mem_append_left _ (h ?_)
      simp only [SessionState.onFrame, hcut] at hv
      exact hv
  | cut r fs =>
    intro hv
    refine List.mem_append_left _ (h ?_)
    dsimp only at hv
    split_ifs at hv
    · rwa [hcut.1, hcut.2] at hv
    · exact hv
  | thrown j rest hr x hx =>
    have hx' : x.halfCloseRecv = (s.sessions.cell i).halfCloseRecv ∧
        x.socket.shutdownSend = (s.sessions.cell i).socket.shutdownSend := by
      rw [hx]
      split_ifs <;> exact ⟨rfl,rfl⟩
    intro hv
    dsimp only at hv
    split_ifs at hv
    · rw [hcut.1, hcut.2, hx'.1, hx'.2] at hv
      exact h hv
    · rw [hx'.1, hx'.2] at hv
      exact h hv

/-- An identifier a session is forwarded under was given to none before, and has its length. -/
def Sized (s : Provider) : ProviderEvent → Prop
  | .read (.frame f) => f.method = .forwardSession → s.sessions.Fresh f.body ∧ f.body.length = UUID_BYTES
  | _ => True

/-- All C has written to A is of its sessions, of each what its coroutine has submitted. -/
structure Posted (s : Provider) : Prop where
  distinct : s.sessions.Distinct
  sized : ∀ i < s.sessions.count, (s.sessions.key i).length = UUID_BYTES
  speaks : ∀ i < s.sessions.count, (s.sessions.cell i).Speaks (s.sessions.key i)
  shipped : ∀ i < s.sessions.count, (s.sessions.cell i).Shipped s.broken
  reads : ∀ i < s.sessions.count,
    dataOf (s.sessions.key i) (s.sessions.cell i).submitted = (s.sessions.cell i).socket.read
  eof : ∀ i < s.sessions.count, (s.sessions.cell i).halfCloseRecv = true ∨
    (s.sessions.cell i).socket.shutdownSend = true → dataEofFrame (s.sessions.key i) ∈ s.frames
  forwarded : ∀ i < s.sessions.count, ∃ f ∈ s.frames, f.method = .forwardSession ∧ f.body = s.sessions.key i
  keyed : ∀ f ∈ s.wire, ∃ i < s.sessions.count, visitorKey f = some (s.sessions.key i)
  posted : ∀ i < s.sessions.count,
    s.wire.filter (visitorKey · = some (s.sessions.key i)) = (s.sessions.cell i).sent

end Provider

theorem SessionEnd.Pumps.mem {u : Uuid} {first : Frame} {x : SessionEnd} (h : x.Pumps u first) {f : Frame}
    (hf : f ∈ x.submitted) : f = first ∨ (∃ d, f = dataFrame u d) ∨ f = dataEofFrame u := by
  unfold SessionEnd.Pumps at h
  generalize x.pc = pc, x.halfCloseSend = b, x.submitted = fs at h hf
  cases h <;> simp at hf <;> grind

/-- Where `DATA_EOF` is submitted it is the last frame. -/
theorem SessionEnd.Pumps.eof_last {u : Uuid} {first : Frame} {x : SessionEnd} (h : x.Pumps u first)
    (hf : first.method ≠ .dataEof) {pre : List Frame} {g : Frame} (hpre : pre ++ [g] <+: x.submitted)
    (hg : g.method = .dataEof) : pre ++ [g] = x.submitted := by
  have hno : ∀ ds : List ByteVector, ¬pre ++ [g] <+: first :: ds.map (dataFrame u) := by
    intro ds hp
    have hmem : g ∈ first :: ds.map (dataFrame u) := hp.subset (List.mem_append_right _ (List.mem_singleton_self g))
    rcases List.mem_cons.mp hmem with rfl | hmem
    · exact hf hg
    · obtain ⟨d,-,rfl⟩ := List.mem_map.mp hmem
      cases hg
  have hlast : ∀ ds : List ByteVector, pre ++ [g] <+: first :: ds.map (dataFrame u) ++ [dataEofFrame u] →
      pre ++ [g] = first :: ds.map (dataFrame u) ++ [dataEofFrame u] := fun ds hp =>
    (List.prefix_concat_iff.mp hp).resolve_right (hno ds)
  unfold SessionEnd.Pumps at h
  generalize x.pc = pc, x.halfCloseSend = b, x.submitted = fs at h hpre ⊢
  cases h with
  | opening => exact absurd hpre (hno [])
  | draining => exact absurd hpre (hno [])
  | reading ds => exact absurd hpre (hno ds)
  | paying ds d => exact absurd hpre (hno (ds ++ [d]))
  | parting ds => exact hlast ds hpre
  | stopped ds => exact absurd hpre (hno ds)
  | parted ds => exact hlast ds hpre

theorem SessionState.Speaks.eof_last {u : Uuid} {x : SessionState} (h : x.Speaks u) {pre : List Frame} {g : Frame}
    (hpre : pre ++ [g] <+: x.submitted) (hg : g.method = .dataEof) : pre ++ [g] = x.submitted := by
  cases h with
  | connecting _ _ hfs => simp [hfs] at hpre
  | refusing _ _ _ hfs | refused _ _ hfs =>
    have hmem : g ∈ [sessionErrFrame u] := hfs ▸ hpre.subset (List.mem_append_right _ (List.mem_singleton_self g))
    rw [List.mem_singleton.mp hmem] at hg
    cases hg
  | pumping hp => exact hp.eof_last (by simp [sessionOkFrame]) hpre hg

/-- Only the frames of a session carry anything for it. -/
theorem dataOf_filter (u : Uuid) (fs : List Frame) : dataOf u (fs.filter (visitorKey · = some u)) = dataOf u fs := by
  induction fs with
  | nil => rfl
  | cons f fs ih =>
    by_cases hk : visitorKey f = some u
    · rw [List.filter_cons_of_pos (by simpa using hk)]
      exact congrArg (payload u f ++ ·) ih
    · rw [List.filter_cons_of_neg (by simpa using hk), ih]
      change dataOf u fs = payload u f ++ dataOf u fs
      rw [payload_of_visitorKey_ne hk, List.nil_append]

theorem visitorKey_dataFrame {u : Uuid} (hu : u.length = UUID_BYTES) (d : ByteVector) :
    visitorKey (dataFrame u d) = some u :=
  visitorKey_of_take hu d

theorem SessionState.Speaks.keyed {u : Uuid} (hu : u.length = UUID_BYTES) {x : SessionState} (h : x.Speaks u)
    {f : Frame} (hf : f ∈ x.submitted) : visitorKey f = some u := by
  cases h with
  | connecting _ _ hfs => simp [hfs] at hf
  | refusing _ _ _ hfs | refused _ _ hfs =>
    rw [hfs, List.mem_singleton] at hf
    rw [hf]
    exact visitorKey_of_uuid hu
  | pumping hp =>
    rcases hp.mem hf with rfl | ⟨d,rfl⟩ | rfl
    · exact visitorKey_of_uuid hu
    · exact visitorKey_dataFrame hu d
    · exact visitorKey_of_uuid hu

namespace Provider
variable {s t : Provider} {e : ProviderEvent} {i : ℕ}

theorem Sized.fresh (h : s.Sized e) : s.Fresh e := by
  cases e with
  | read r =>
    cases r with
    | frame f => exact fun hf => (h hf).1
    | _ => trivial
  | _ => trivial

theorem prefix_frames {v : View SessionState} (hm : Moves s i e v) : s.frames <+: v.frames := by
  cases hm with
  | same | transmitted | written | resumed | thrown => exact List.prefix_rfl
  | passed | taken | cut => exact List.prefix_append _ _

/-- A frame a session has not submitted before is behind all it has written. -/
theorem Posted.wire_of_transmit (h : s.Posted) {f : Frame} (hi : i < s.sessions.count)
    (hpc : (s.sessions.cell i).pc = .sending f false) (hb : s.broken = false) :
    f ∈ (s.sessions.cell i).submitted ∧ visitorKey f = some (s.sessions.key i) := by
  have hsub := (h.shipped i hi).2 hb
  simp only [SessionEnd.held, hpc] at hsub
  have hmem : f ∈ (s.sessions.cell i).submitted := by
    rw [hsub]
    exact List.mem_append_right _ (List.mem_singleton_self f)
  exact ⟨hmem,(h.speaks i hi).keyed (h.sized i hi) hmem⟩

theorem Moves.sent {v : View SessionState} (hm : Moves s i e v) : v.session.sent = (s.sessions.cell i).sent ∨
    ∃ f, e = .transmit i ∧ (s.sessions.cell i).pc = .sending f false ∧
      v.session.sent = (s.sessions.cell i).sent ++ [f] := by
  rcases hm.coroutine with hsteady | ⟨f,he,hpc,rfl⟩ | ⟨e',x,-,hr,rfl⟩
  · exact .inl hsteady.2.2.2
  · exact .inr ⟨f,he,hpc,rfl⟩
  · apply Or.inl
    cases hr with
    | connected | refused | givenUp | draining | failed => rfl
    | answered => exact ((s.sessions.cell i).drain_shipped _).1
    | drained rest left => exact (((s.sessions.cell i).onEnd (·.write rest)).drain_shipped left).1
    | pumped f => exact ((s.sessions.cell i).onSent_frame f).2.2.2.2
    | read r => exact (((s.sessions.cell i).receive r).onRead_frame (s.sessions.key i) r).2.2.1

theorem Moves.told {v : View SessionState} (hm : Moves s i e v) (hu : (s.sessions.key i).length = UUID_BYTES)
    (h : dataOf (s.sessions.key i) (s.sessions.cell i).submitted = (s.sessions.cell i).socket.read) :
    dataOf (s.sessions.key i) v.session.submitted = v.session.socket.read := by
  rcases hm.reads with ⟨hr,hsub⟩ | ⟨f,hf,-,hr,hsub⟩ | ⟨r,-,hr,hsub⟩ <;> rw [hr, hsub]
  · exact h
  · have hnone : payload (s.sessions.key i) f = [] := by
      rcases hf with rfl | rfl <;> exact payload_of_ne_data _ (by simp [sessionOkFrame, sessionErrFrame])
    rw [dataOf_append, dataOf_singleton, hnone, List.append_nil, h]
  · rw [dataOf_append, dataOf_singleton, payload_readFrame hu, h]

theorem Posted.step_keyed (h : s.Posted) (hs : s.step e = some t) {f : Frame} (hf : f ∈ t.wire) :
    ∃ i < s.sessions.count, visitorKey f = some (s.sessions.key i) := by
  rcases step_wire hs with ⟨hw,-⟩ | ⟨i,g,-,hi,hb,hpc,hw,-⟩ <;> rw [hw] at hf
  · exact h.keyed f hf
  · rcases List.mem_append.mp hf with hf | hf
    · exact h.keyed f hf
    · obtain rfl := List.mem_singleton.mp hf
      exact ⟨i,hi,(h.wire_of_transmit hi hpc hb).2⟩

theorem Posted.step_sent (h : s.Posted) (hd : s.Drifts t e) (hs : s.step e = some t) (hi : i < s.sessions.count) :
    t.wire.filter (visitorKey · = some (s.sessions.key i)) = (t.sessions.cell i).sent := by
  rcases step_wire hs with ⟨hw,hne⟩ | ⟨j,g,rfl,hj,hb,hpc,hw,hsessions⟩ <;> rw [hw]
  · obtain ⟨-,v,hm,hv⟩ := hd.move hi
    rcases hm.sent with hsent | ⟨f,rfl,-⟩
    · rw [h.posted i hi, hv.session, hsent]
    · exact absurd rfl (hne i)
  · have hkg := (h.wire_of_transmit hj hpc hb).2
    rw [hsessions, List.filter_append, h.posted i hi]
    by_cases hij : i = j
    · subst hij
      rw [SharedMap.set_cell_self]
      simp [hkg, SessionState.onEnd, SessionEnd.transmit]
    · have hne : s.sessions.key j ≠ s.sessions.key i := fun hk => hij (h.distinct i j hi hj hk.symm)
      rw [SharedMap.set_cell_of_ne _ _ hij]
      simp [hkg, hne]

/-- A session C is told of is new, and A has been told nothing for it. -/
theorem Posted.born (h : s.Posted) (hd : s.Drifts t e) (hc : s.Carries t e) (hsize : s.Sized e)
    (hs : s.step e = some t) (hi : i < t.sessions.count) (hb : Born s t i e) :
    t.wire.filter (visitorKey · = some (t.sessions.key i)) = [] ∧ t.sessions.cell i = .connect ∧
      (t.sessions.key i).length = UUID_BYTES ∧
      ∃ f ∈ t.frames, f.method = .forwardSession ∧ f.body = t.sessions.key i := by
  obtain ⟨hi',f,rfl,hm,hk,hv⟩ := hb
  have hframes : t.frames = s.frames ++ [f] := congrArg View.frames hv
  refine ⟨List.filter_eq_nil_iff.mpr fun g hg hkg => ?_,congrArg View.session hv,hk ▸ (hsize hm).2,f,?_,hm,hk.symm⟩
  · obtain ⟨j,hj,hkj⟩ := h.step_keyed hs hg
    have hkey := (Option.some.inj ((of_decide_eq_true hkg).symm.trans hkj)).trans (hd.move hj).1.symm
    have hij := hc.distinct i j hi (hj.trans_le hd.count) hkey
    omega
  · rw [hframes]
    exact List.mem_append_right _ (List.mem_singleton_self f)

theorem step_posted (h : s.Posted) (hsize : s.Sized e) (hs : s.step e = some t) : t.Posted := by
  have hd := step_drifts hs
  have hc := hd.carries h.distinct hsize.fresh
  have htransmit : ∀ {i}, e = .transmit i → s.broken = false := by
    rintro i rfl
    rcases step_wire hs with ⟨-,hne⟩ | ⟨-,-,-,-,hb,-,-⟩
    · exact absurd rfl (hne i)
    · exact hb
  refine ⟨hc.distinct,fun i hi => ?sized,fun i hi => ?speaks,fun i hi => ?shipped,fun i hi => ?reads,
    fun i hi => ?eof,fun i hi => ?forwarded,fun f hf => ?keyed,fun i hi => ?posted⟩
  case keyed =>
    obtain ⟨i,hi,hk⟩ := h.step_keyed hs hf
    exact ⟨i,hi.trans_le hd.count,(hd.move hi).1 ▸ hk⟩
  all_goals obtain ⟨hi',hk,hm⟩ | hb := hc.view i hi
  case sized.inl => exact hk ▸ h.sized i hi'
  case sized.inr => exact (h.born hd hc hsize hs hi hb).2.2.1
  case speaks.inl => exact hk ▸ hm.speaks (h.speaks i hi')
  case speaks.inr => exact (h.born hd hc hsize hs hi hb).2.1 ▸ .connecting rfl rfl rfl
  case shipped.inl => exact hm.shipped (h.shipped i hi') (step_broken hs) htransmit
  case shipped.inr =>
    rw [(h.born hd hc hsize hs hi hb).2.1]
    exact ⟨List.prefix_rfl,fun _ => rfl⟩
  case reads.inl => exact hk ▸ hm.told (h.sized i hi') (h.reads i hi')
  case reads.inr =>
    rw [(h.born hd hc hsize hs hi hb).2.1]
    rfl
  case eof.inl => exact hk ▸ hm.eof (h.eof i hi')
  case eof.inr =>
    rw [(h.born hd hc hsize hs hi hb).2.1]
    rintro (⟨⟨⟩⟩ | ⟨⟨⟩⟩)
  case forwarded.inl =>
    obtain ⟨f,hf,hmf,hbody⟩ := h.forwarded i hi'
    exact ⟨f,(prefix_frames hm).subset hf,hmf,hk ▸ hbody⟩
  case forwarded.inr => exact (h.born hd hc hsize hs hi hb).2.2.2
  case posted.inl => exact hk ▸ h.step_sent hd hs hi'
  case posted.inr =>
    obtain ⟨hnone,hcell,-⟩ := h.born hd hc hsize hs hi hb
    rw [hnone, hcell]
    rfl

end Provider

/-- The session a frame announces. -/
def announcement (f : Frame) : Option Uuid := if f.method = .newSession then some f.body else none

namespace Visitor
variable {s t : Visitor} {e : VisitorEvent} {i : ℕ} {v : View ClientSession}

/-- An identifier made for a client is as long as all are, and no frame was for it before. -/
def Sized (s : Visitor) (e : VisitorEvent) : Prop :=
  s.InSequence e ∧ ∀ uuid, e = .accept uuid → uuid.length = UUID_BYTES

/-- All B has written to A is of its sessions, and each session is announced once. -/
structure Posted (s : Visitor) : Prop where
  bounded : s.Bounded
  distinct : s.sessions.Distinct
  sized : ∀ i < s.sessions.count, (s.sessions.key i).length = UUID_BYTES
  pumps : ∀ i < s.sessions.count, (s.sessions.cell i).Pumps (s.sessions.key i) (newSessionFrame (s.sessions.key i))
  shipped : ∀ i < s.sessions.count, (s.sessions.cell i).Shipped s.broken
  ordered : ∀ i < s.sessions.count, Ordered (s.sessions.key i) (s.view i)
  wire : ∀ f ∈ s.wire, f.method = .sessionClose ∨ ∃ i < s.sessions.count, f ∈ (s.sessions.cell i).submitted
  announced : (s.wire.filterMap announcement).Nodup
  announcer : ∀ u ∈ s.wire.filterMap announcement,
    ∃ i < s.sessions.count, s.sessions.key i = u ∧ newSessionFrame u ∈ (s.sessions.cell i).sent

theorem Moves.sent (hm : Moves s i e v) : (s.sessions.cell i).sent <+: v.session.sent := by
  rcases hm.coroutine with hsteady | ⟨f,he,hpc,rfl⟩ | ⟨e',x,-,hr,rfl⟩
  · exact hsteady.2.2.2 ▸ List.prefix_rfl
  · exact List.prefix_append _ _
  · cases hr with
    | sent f => exact ((s.sessions.cell i).onSent_frame f).2.2.2.2 ▸ List.prefix_rfl
    | read r => exact (((s.sessions.cell i).receive r).onRead_frame (s.sessions.key i) r).2.2.1 ▸ List.prefix_rfl

theorem Moves.submitted (hm : Moves s i e v) : (s.sessions.cell i).submitted <+: v.session.submitted := by
  rcases hm.reads with ⟨-,hsub⟩ | ⟨r,-,-,hsub⟩
  · exact hsub ▸ List.prefix_rfl
  · exact hsub ▸ List.prefix_append _ _

/-- A pump that has yet to write a frame: it is the announcement only if that is all there is. -/
theorem Posted.holds (h : s.Posted) {f : Frame} (hi : i < s.sessions.count)
    (hpc : (s.sessions.cell i).pc = .sending f false) (hb : s.broken = false) :
    f ∈ (s.sessions.cell i).submitted ∧ (f = newSessionFrame (s.sessions.key i) ∧ (s.sessions.cell i).sent = [] ∨
      f.method ≠ .newSession) := by
  have hsub := (h.shipped i hi).2 hb
  simp only [SessionEnd.held, hpc] at hsub
  have hp := h.pumps i hi
  unfold SessionEnd.Pumps at hp
  rw [hpc, hsub] at hp
  refine ⟨by rw [hsub]; exact List.mem_append_right _ (List.mem_singleton_self f),?_⟩
  generalize hb' : (s.sessions.cell i).halfCloseSend = b, hfs : (s.sessions.cell i).sent ++ [f] = fs at hp
  cases hp with
  | opening => exact .inl ⟨rfl,by simpa using hfs⟩
  | paying ds d => exact .inr (by simp [dataFrame])
  | parting ds => exact .inr (by simp [dataEofFrame])

/-- A step announces nothing, or a session of which nothing has been written. -/
theorem Posted.announces (h : s.Posted) (hs : s.step e = some t) :
    t.wire.filterMap announcement = s.wire.filterMap announcement ∨
      ∃ i < s.sessions.count, (s.sessions.cell i).sent = [] ∧
        t.wire.filterMap announcement = s.wire.filterMap announcement ++ [s.sessions.key i] ∧
        newSessionFrame (s.sessions.key i) ∈ (t.sessions.cell i).sent := by
  rcases step_wire hs with ⟨hw,-⟩ | ⟨i,g,-,hi,hb,hpc,hw,hsessions⟩ | ⟨i,hw,-⟩
  · exact .inl (by rw [hw])
  · rcases (h.holds hi hpc hb).2 with ⟨rfl,hsent⟩ | hm
    · refine .inr ⟨i,hi,hsent,?_,?_⟩
      · rw [hw, List.filterMap_append]
        rfl
      · rw [hsessions, SharedMap.set_cell_self]
        exact List.mem_append_right _ (List.mem_singleton_self _)
    · apply Or.inl
      rw [hw, List.filterMap_append]
      simp [announcement, hm]
  · apply Or.inl
    rw [hw, List.filterMap_append]
    exact List.append_nil _

theorem Carries.move (hc : s.Carries t e) (hd : s.Drifts t e) (hi : i < s.sessions.count) :
    Moves s i e (t.view i) := by
  obtain ⟨-,-,hm⟩ | ⟨rfl,-⟩ := hc.view i (hi.trans_le hd.count)
  · exact hm
  · exact absurd hi (Nat.lt_irrefl _)

theorem Posted.step_sent (h : s.Posted) (hs : s.step e = some t) {f : Frame} (hf : f ∈ t.wire) :
    f.method = .sessionClose ∨ ∃ i < s.sessions.count, f ∈ (s.sessions.cell i).submitted := by
  rcases step_wire hs with ⟨hw,-⟩ | ⟨i,g,-,hi,hb,hpc,hw,-⟩ | ⟨i,hw,-⟩ <;> rw [hw] at hf
  · exact h.wire f hf
  · rcases List.mem_append.mp hf with hf | hf
    · exact h.wire f hf
    · obtain rfl := List.mem_singleton.mp hf
      exact .inr ⟨i,hi,(h.holds hi hpc hb).1⟩
  · rcases List.mem_append.mp hf with hf | hf
    · exact h.wire f hf
    · rw [List.mem_singleton.mp hf]
      exact .inl rfl

theorem Posted.step_announced (h : s.Posted) (hs : s.step e = some t) : (t.wire.filterMap announcement).Nodup := by
  rcases h.announces hs with hsame | ⟨i,hi,hsent,hnew,-⟩
  · exact hsame ▸ h.announced
  · rw [hnew, ← List.concat_eq_append, List.nodup_concat]
    refine ⟨fun hmem => ?_,h.announced⟩
    obtain ⟨j,hj,hk,hu⟩ := h.announcer _ hmem
    obtain rfl := h.distinct j i hj hi hk
    simp [hsent] at hu

theorem Posted.step_announcer (h : s.Posted) (hc : s.Carries t e) (hd : s.Drifts t e) (hs : s.step e = some t)
    {u : Uuid} (hu : u ∈ t.wire.filterMap announcement) :
    ∃ i < t.sessions.count, t.sessions.key i = u ∧ newSessionFrame u ∈ (t.sessions.cell i).sent := by
  have hold : u ∈ s.wire.filterMap announcement →
      ∃ i < t.sessions.count, t.sessions.key i = u ∧ newSessionFrame u ∈ (t.sessions.cell i).sent := by
    intro hu
    obtain ⟨i,hi,hk,hnew⟩ := h.announcer u hu
    exact ⟨i,hi.trans_le hd.count,(hd.move hi).1.trans hk,(hc.move hd hi).sent.subset hnew⟩
  rcases h.announces hs with hsame | ⟨i,hi,-,hnew,hsent⟩
  · exact hold (hsame ▸ hu)
  · rw [hnew] at hu
    rcases List.mem_append.mp hu with hu | hu
    · exact hold hu
    · rw [List.mem_singleton.mp hu]
      exact ⟨i,hi.trans_le hd.count,(hd.move hi).1,hsent⟩

/-- No frame was for the session of a new client before. -/
theorem Born.ordered (hsize : s.Sized e) (hb : Born s t i e) : Ordered (t.sessions.key i) (t.view i) ∧
    (t.sessions.key i).length = UUID_BYTES ∧ t.sessions.cell i = .accepted (t.sessions.key i) := by
  obtain ⟨-,u,rfl,rfl,hv⟩ := hb
  have hnone : dataOf (t.sessions.key i) s.frames = [] :=
    List.flatMap_eq_nil_iff.mpr fun g hg => payload_of_visitorKey_ne (hsize.1.2 g hg)
  refine ⟨?_,hsize.2 _ rfl,congrArg View.session hv⟩
  rw [hv]
  exact ⟨List.nil_prefix,fun _ _ => hnone.symm,nofun⟩

theorem step_posted (h : s.Posted) (hsize : s.Sized e) (hs : s.step e = some t) : t.Posted := by
  have hd := step_drifts h.bounded hs
  have hc := hd.carries h.distinct hsize.1.fresh
  have htransmit : ∀ {i}, e = .transmit i → s.broken = false := by
    rintro i rfl
    rcases step_wire hs with ⟨-,hne⟩ | ⟨-,-,-,-,hb,-,-,-⟩ | ⟨-,-,hne⟩
    · exact absurd rfl (hne i)
    · exact hb
    · exact absurd rfl (hne i)
  refine ⟨hc.bounded,hc.distinct,fun i hi => ?sized,fun i hi => ?pumps,fun i hi => ?shipped,fun i hi => ?ordered,
    fun f hf => ?wire,h.step_announced hs,fun u hu => h.step_announcer hc hd hs hu⟩
  case wire =>
    apply (h.step_sent hs hf).imp_right
    rintro ⟨i,hi,hsub⟩
    exact ⟨i,hi.trans_le hd.count,(hc.move hd hi).submitted.subset hsub⟩
  all_goals obtain ⟨hi',hk,hm⟩ | hb := hc.view i hi
  case sized.inl => exact hk ▸ h.sized i hi'
  case sized.inr => exact (hb.ordered hsize).2.1
  case pumps.inl =>
    rw [hk]
    exact hm.pumps rfl (h.pumps i hi')
  case pumps.inr =>
    rw [(hb.ordered hsize).2.2]
    exact .opening false
  case shipped.inl => exact hm.shipped (h.shipped i hi') (step_broken hs) htransmit
  case shipped.inr =>
    rw [(hb.ordered hsize).2.2]
    exact ⟨List.nil_prefix,fun _ => rfl⟩
  case ordered.inl =>
    rw [hk]
    exact hm.ordered (h.ordered i hi')
  case ordered.inr => exact (hb.ordered hsize).1

end Visitor

end Msg801.Relay
