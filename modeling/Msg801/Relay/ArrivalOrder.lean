import Mathlib.Data.List.TakeWhile
import Msg801.Relay.Provider

/-! # The order in which a remote is written to

Two coroutines write to the remote of a session: its own drains what arrived before the
remote was connected, and the reader writes what arrives afterwards. As long as the reader
finds nothing left to drain, the remote is sent what the frames carry, in their order.
-/
namespace Msg801.Relay
open Transition

/-- What the frames carry for a session up to its first `DATA_EOF`. -/
def dataBeforeEof (u : Uuid) (frames : List Frame) : ByteVector :=
  dataOf u (frames.takeWhile (· ≠ dataEofFrame u))

theorem dataBeforeEof_prefix (u : Uuid) (frames : List Frame) :
    dataBeforeEof u frames <+: dataOf u frames := by
  have h := congrArg (dataOf u) (List.takeWhile_append_dropWhile (p := (· ≠ dataEofFrame u)) (l := frames))
  rw [dataOf_append] at h
  exact ⟨_,h⟩

theorem dataBeforeEof_append {u : Uuid} {frames : List Frame} (h : dataEofFrame u ∈ frames)
    (fs : List Frame) : dataBeforeEof u (frames ++ fs) = dataBeforeEof u frames := by
  have hcut : frames.takeWhile (· ≠ dataEofFrame u) = (frames ++ fs).takeWhile (· ≠ dataEofFrame u) := by
    induction frames with
    | nil => simp at h
    | cons g frames ih =>
      by_cases hg : g = dataEofFrame u
      · simp [hg]
      · have hmem : dataEofFrame u ∈ frames := (List.mem_cons.mp h).resolve_left (Ne.symm hg)
        simpa [hg] using ih hmem
  rw [dataBeforeEof, dataBeforeEof, hcut]

theorem payload_eq_nil {u : Uuid} {f : Frame} (h : providerKey f ≠ some u) : payload u f = [] := by
  rw [payload]
  split_ifs with hf
  · obtain ⟨hm,hlen,rfl⟩ := hf
    exact absurd (by simp [providerKey, hm, Nat.not_lt.mpr hlen]) h
  · rfl

theorem payload_of_ne_data (u : Uuid) {f : Frame} (h : f.method ≠ .data) : payload u f = [] :=
  if_neg fun hf => h hf.1

theorem providerKey_method {u : Uuid} {f : Frame} (h : providerKey f = some u) :
    f.method = .data ∨ f.method = .dataEof ∨ f.method = .sessionClose := by
  cases hm : f.method <;> simp [providerKey, hm] at h ⊢

theorem payload_of_data {u : Uuid} {f : Frame} (hm : f.method = .data) (hk : providerKey f = some u) :
    payload u f = f.body.drop UUID_BYTES := by
  simp only [providerKey, hm] at hk
  split_ifs at hk with hlen
  exact if_pos ⟨hm,Nat.not_lt.mp hlen,Option.some.inj hk⟩

namespace SessionState

/-- What the coroutine of a session still has to write from the arrival buffer. -/
def backlog (x : SessionState) : ByteVector :=
  match x.pc with
  | .draining rest left => rest ++ left.flatten
  | .ended => []
  | _ => x.arrivalBuffer.flatten

/-- What the state of a coroutine says about the flags and the arrival buffer. -/
def Placed (x : SessionState) (entered : Bool) : Prop :=
  match x.pc with
  | .connecting => x.remoteConnected = false ∧ x.connecting = true
  | .sending f _ =>
    if f.method = .sessionErr then x.remoteConnected = false ∧ x.connecting = true
    else x.remoteConnected = true ∧ (f.method ≠ .sessionOk → x.arrivalBuffer = [])
  | .draining _ _ => x.remoteConnected = true ∧ x.arrivalBuffer ≠ []
  | .reading => x.remoteConnected = true ∧ x.arrivalBuffer = []
  | .ended => entered = true → x.remoteConnected = true ∧ x.arrivalBuffer ≠ []

theorem Placed.backlog_eq_nil {x : SessionState} {b : Bool} (h : x.Placed b)
    (hbuf : x.arrivalBuffer = []) : x.backlog = [] := by
  cases hpc : x.pc <;> simp only [Placed, backlog, hpc] at h ⊢
  case draining => exact absurd hbuf h.2
  all_goals simp [hbuf]

/-- The same as far as the order of the writes goes. -/
def Alike (x y : SessionState) : Prop :=
  x.pc = y.pc ∧ x.remoteConnected = y.remoteConnected ∧ x.connecting = y.connecting ∧
    x.arrivalBuffer = y.arrivalBuffer ∧ x.halfCloseRecv = y.halfCloseRecv ∧
    x.socket.written = y.socket.written ∧ x.socket.shutdownSend = y.socket.shutdownSend

theorem alike_fail (x : SessionState) : (x.onEnd .fail).Alike x := ⟨rfl,rfl,rfl,rfl,rfl,rfl,rfl⟩

theorem Alike.cutOff {x y : SessionState} (h : x.Alike y) : x.cutOff.Alike y := by
  rw [SessionState.cutOff]
  split_ifs <;> exact h

theorem Alike.clear {x y : SessionState} (h : x.Alike y) (b : Prop) [Decidable b] :
    (if b then x.cutOff else x).Alike y := by
  split_ifs
  · exact h.cutOff
  · exact h

end SessionState

namespace Provider

/-- Every session has one identifier, and its frames come behind its `FORWARD_SESSION`. -/
def InSequence (s : Provider) : ProviderEvent → Prop
  | .read (.frame f) => f.method = .forwardSession →
    s.sessions.Fresh f.body ∧ ∀ g ∈ s.frames, providerKey g ≠ some f.body
  | _ => True

/-- The reader takes a frame for a session with a remote only when the arrival buffer of
the session has been drained. -/
def Drained (s : Provider) : ProviderEvent → Prop
  | .read (.frame f) => f.method = .data ∨ f.method = .dataEof → ∀ i, s.sessions.Entered i →
    providerKey f = some (s.sessions.key i) → (s.sessions.cell i).remoteConnected = true →
    (s.sessions.cell i).arrivalBuffer = []
  | _ => True

/-- What the remote of a session was sent begins what the frames carry for it, one write
at most is under way, and the remote was shut down behind all that came before `DATA_EOF`. -/
def InOrder (s : Provider) (i : ℕ) : Prop :=
  let u := s.sessions.key i
  let x := s.sessions.cell i
  x.socket.written <+: dataOf u s.frames ∧
    ¬((s.reader.pending i).isSome = true ∧ ∃ rest left, x.pc = .draining rest left) ∧
    (x.socket.shutdownSend = true → dataBeforeEof u s.frames <+: x.socket.written)

/-- What a session and the reader have written, and have still to write, is what the
frames carry; all of it as long as the session is in the table. -/
structure Ordered (u : Uuid) (v : View SessionState) : Prop where
  placed : v.session.Placed v.entered
  unclosed : v.entered = true → v.session.closed = false
  alone : v.pending.isSome = true → v.session.remoteConnected = true ∧ v.session.arrivalBuffer = []
  kept : v.session.socket.written ++ v.session.backlog ++ v.pending.getD [] <+: dataOf u v.frames
  whole : v.entered = true → v.session.pc ≠ .ended →
    v.session.socket.written ++ v.session.backlog ++ v.pending.getD [] = dataOf u v.frames
  eof : v.session.halfCloseRecv = true → dataEofFrame u ∈ v.frames ∧
    (v.session.pc ≠ .ended → dataBeforeEof u v.frames <+: v.session.socket.written ++ v.session.backlog)
  shut : v.session.socket.shutdownSend = true → dataEofFrame u ∈ v.frames ∧
    dataBeforeEof u v.frames <+: v.session.socket.written

theorem Ordered.inOrder {s : Provider} {i : ℕ} (h : Ordered (s.sessions.key i) (s.view i)) :
    s.InOrder i := by
  refine ⟨?_,?_,fun hs => (h.shut hs).2⟩
  · exact (List.prefix_append _ _).trans ((List.append_assoc _ _ _) ▸ h.kept)
  · rintro ⟨hp,rest,left,hpc⟩
    have hplaced := h.placed
    have hempty : (s.sessions.cell i).arrivalBuffer = [] := (h.alone hp).2
    simp only [Node.view_session, SessionState.Placed, hpc] at hplaced
    exact hplaced.2 hempty

theorem born_ordered {s t : Provider} {i : ℕ} {e : ProviderEvent} (hs : s.InSequence e)
    (hb : Born s t i e) : Ordered (t.sessions.key i) (t.view i) := by
  obtain ⟨-,f,rfl,hm,hk,hv⟩ := hb
  have hnone : dataOf f.body (s.frames ++ [f]) = [] := by
    rw [dataOf_append, dataOf_singleton, payload_of_ne_data _ (by simp [hm]), List.append_nil]
    exact List.flatMap_eq_nil_iff.mpr fun g hg => payload_eq_nil ((hs hm).2 g hg)
  rw [hk, hv]
  constructor <;> simp [SessionState.connect, SessionState.Placed, SessionState.backlog, hnone]

/-- The loop over the arrival buffer comes to its next write or to the pump. -/
theorem ordered_drain {u : Uuid} {v : View SessionState} {x : SessionState} {bs : List ByteVector} {b : Bool}
    (hconn : x.remoteConnected = true) (hbuf : bs ≠ [] → x.arrivalBuffer ≠ [])
    (hb : b = true → v.entered = true ∧ (x.drain bs).pc ≠ .ended)
    (hclosed : v.entered = true → x.closed = false)
    (halone : v.pending.isSome = true → x.arrivalBuffer = [])
    (hkept : x.socket.written ++ bs.flatten ++ v.pending.getD [] <+: dataOf u v.frames)
    (hwhole : v.entered = true → x.socket.written ++ bs.flatten ++ v.pending.getD [] = dataOf u v.frames)
    (heof : x.halfCloseRecv = true → dataEofFrame u ∈ v.frames ∧
      dataBeforeEof u v.frames <+: x.socket.written ++ bs.flatten)
    (hshut : x.socket.shutdownSend = true → dataEofFrame u ∈ v.frames ∧
      dataBeforeEof u v.frames <+: x.socket.written) :
    Ordered u { v with
      session := x.drain bs
      entered := b } := by
  cases bs with
  | cons d ds =>
    constructor <;> simp only [SessionState.drain, SessionState.onEnd, SessionEnd.suspend,
      SessionState.Placed, SessionState.backlog]
    case placed => exact ⟨hconn,hbuf (by simp)⟩
    case unclosed => exact fun h => hclosed (hb h).1
    case alone => exact fun h => ⟨hconn,halone h⟩
    case kept => exact hkept
    case whole => exact fun h _ => hwhole (hb h).1
    case eof => exact fun h => ⟨(heof h).1,fun _ => (heof h).2⟩
    case shut => exact hshut
  | nil =>
    have hbacklog : (x.drain []).backlog = [] := by
      simp only [SessionState.backlog, SessionState.drain_nil_pc, SessionState.drain_nil_arrivalBuffer]
      split_ifs <;> rfl
    simp only [List.flatten_nil, List.append_nil] at hkept hwhole heof
    obtain ⟨hr,hcl,hh,hw⟩ := x.drain_frame []
    constructor <;> simp only [hbacklog, hr, hcl, hh, hw, SessionState.drain_nil_shutdownSend, List.append_nil]
    case placed =>
      simp only [SessionState.Placed, SessionState.drain_nil_pc]
      cases hc : x.closed
      · simpa [hr] using hconn
      · intro h
        exact absurd (hclosed (hb h).1) (by simp [hc])
    case unclosed => exact fun h => hclosed (hb h).1
    case alone => simpa using fun _ => hconn
    case kept => exact hkept
    case whole => exact fun h _ => hwhole (hb h).1
    case eof => exact fun h => ⟨(heof h).1,fun _ => (heof h).2⟩
    case shut =>
      intro h
      obtain h | h := Bool.or_eq_true_iff.mp h
      · exact hshut h
      · exact heof h

/-- The coroutine writes nothing and has as much to write as before. -/
theorem Ordered.keep {u : Uuid} {v : View SessionState} (h : Ordered u v) {x : SessionState} {b : Bool}
    (hpc : v.session.pc ≠ .ended) (hplaced : x.Placed b) (hb : b = true → v.entered = true)
    (hclosed : b = true → x.closed = v.session.closed)
    (halone : v.pending.isSome = true → x.remoteConnected = true ∧ x.arrivalBuffer = [])
    (hwritten : x.socket.written = v.session.socket.written)
    (hbacklog : x.backlog = v.session.backlog)
    (hrecv : x.halfCloseRecv = v.session.halfCloseRecv)
    (hshut : x.socket.shutdownSend = v.session.socket.shutdownSend) :
    Ordered u { v with
      session := x
      entered := b } := by
  constructor <;> simp only [hwritten, hbacklog, hrecv, hshut]
  case placed => exact hplaced
  case unclosed => exact fun hb' => (hclosed hb').trans (h.unclosed (hb hb'))
  case alone => exact halone
  case kept => exact h.kept
  case whole => exact fun hb' _ => h.whole (hb hb') hpc
  case eof => exact fun hr => ⟨(h.eof hr).1,fun _ => (h.eof hr).2 hpc⟩
  case shut => exact h.shut

/-- The coroutine comes to its end with something unwritten; no other write is under way. -/
theorem Ordered.leave {u : Uuid} {v : View SessionState} (h : Ordered u v) {x : SessionState} {b : Bool}
    (hpc : x.pc = .ended) (hplaced : x.Placed b) (hclosed : b = true → x.closed = false)
    (hnone : v.pending = none) (hwritten : x.socket.written = v.session.socket.written)
    (hrecv : x.halfCloseRecv = v.session.halfCloseRecv)
    (hshut : x.socket.shutdownSend = v.session.socket.shutdownSend) :
    Ordered u { v with
      session := x
      entered := b } := by
  have hbacklog : x.backlog = [] := by rw [SessionState.backlog, hpc]
  have hkept := h.kept
  rw [hnone, Option.getD_none, List.append_nil] at hkept
  constructor <;> simp only [hwritten, hbacklog, hrecv, hshut, hpc, hnone]
  case placed => exact hplaced
  case unclosed => exact hclosed
  case alone => simp
  case kept => simpa using (List.prefix_append _ _).trans hkept
  case whole => simp
  case eof => exact fun hr => ⟨(h.eof hr).1,fun hne => absurd rfl hne⟩
  case shut => exact h.shut

/-- Only one of the two writes to a remote, the reader or the coroutine. -/
theorem Ordered.pending_eq_none {u : Uuid} {v : View SessionState} (h : Ordered u v)
    (hn : v.session.remoteConnected = false ∨ v.session.arrivalBuffer ≠ []) : v.pending = none := by
  cases hp : v.pending with
  | none => rfl
  | some rest =>
    obtain ⟨hconn,hbuf⟩ := h.alone (by simp [hp])
    rcases hn with hn | hn
    · cases hn.symm.trans hconn
    · exact absurd hbuf hn

theorem Ordered.pumped {u : Uuid} {v : View SessionState} (h : Ordered u v) {f : Frame} {w : Bool}
    (hpc : v.session.pc = .sending f w) (hok : f.method ≠ .sessionOk) (herr : f.method ≠ .sessionErr) {b : Bool}
    (hb : b = true → v.entered = true ∧ (v.session.onSent f).pc ≠ .ended) :
    Ordered u { v with
      session := v.session.onEnd (·.onSent f)
      entered := b } := by
  have hplaced := h.placed
  simp only [SessionState.Placed, hpc, if_neg herr] at hplaced
  have hempty : v.session.arrivalBuffer = [] := hplaced.2 hok
  obtain ⟨hsocket,hrecv,-⟩ := v.session.onSent_frame f
  have hnext := v.session.onSent_pc f
  refine h.keep (by simp [hpc]) ?_ (fun h' => (hb h').1) ?_ (fun hp => ⟨hplaced.1,hempty⟩) ?_ ?_ hrecv ?_
  · obtain he | ⟨hr,-⟩ := hnext
    · have hgone : b = false := by
        rw [← Bool.not_eq_true]
        intro h'
        exact (hb h').2 he
      simp [SessionState.Placed, SessionState.onEnd, he, hgone]
    · simp [SessionState.Placed, SessionState.onEnd, hr, hplaced.1, hempty]
  · intro h'
    obtain he | ⟨-,hc,hc'⟩ := hnext
    · exact absurd he (hb h').2
    · exact hc.trans hc'.symm
  · exact congrArg Socket.written hsocket
  · obtain he | ⟨hr,-⟩ := hnext <;> simp [SessionState.backlog, SessionState.onEnd, *]
  · exact congrArg Socket.shutdownSend hsocket

theorem Ordered.read {u : Uuid} {v : View SessionState} (h : Ordered u v) (hpc : v.session.pc = .reading)
    (r : ReadSome) {b : Bool} (hb : b = true → v.entered = true) :
    Ordered u { v with
      session := v.session.onEnd fun y => (y.receive r).onRead u r
      entered := b } := by
  have hplaced := h.placed
  simp only [SessionState.Placed, hpc] at hplaced
  obtain ⟨hpc',-,-,hsocket,hclosed,hrecv⟩ := (v.session.receive r).onRead_frame u r
  refine h.keep (by simp [hpc]) ?_ hb (fun _ => hclosed) (fun hp => hplaced) ?_ ?_ hrecv ?_
  · have hm : (SessionEnd.readFrame u r).method ≠ .sessionErr := by
      obtain hm | hm | hm := SessionEnd.readFrame_method u r <;> simp [hm]
    simp [SessionState.Placed, SessionState.onEnd, hpc', hm, hplaced]
  · have hwritten := congrArg Socket.written hsocket
    exact hwritten
  · simp [SessionState.backlog, SessionState.onEnd, hpc', hpc]
  · have hshut := congrArg Socket.shutdownSend hsocket
    exact hshut

theorem Ordered.draining {u : Uuid} {v : View SessionState} (h : Ordered u v) {rest : ByteVector}
    {left : List ByteVector} (hpc : v.session.pc = .draining rest left) (n : ℕ) {b : Bool}
    (hb : b = true → v.entered = true) :
    Ordered u { v with
      session := (v.session.onEnd (·.write (rest.take n))).onEnd (·.suspend (.draining (rest.drop n) left))
      entered := b } := by
  have hplaced := h.placed
  have hne : v.session.pc ≠ .ended := by simp [hpc]
  have hbacklog : v.session.backlog = rest ++ left.flatten := by rw [SessionState.backlog, hpc]
  simp only [SessionState.Placed, hpc] at hplaced
  have hcut : v.session.socket.written ++ rest.take n ++ (rest.drop n ++ left.flatten) =
      v.session.socket.written ++ v.session.backlog := by
    rw [hbacklog, List.append_assoc, ← List.append_assoc (rest.take n), List.take_append_drop]
  constructor <;> simp only [SessionState.onEnd, SessionEnd.suspend, SessionEnd.write,
    SessionState.Placed, SessionState.backlog, hcut]
  case placed => exact hplaced
  case unclosed => exact fun h' => h.unclosed (hb h')
  case alone => exact h.alone
  case kept => exact h.kept
  case whole => exact fun h' _ => h.whole (hb h') hne
  case eof => exact fun hr => ⟨(h.eof hr).1,fun _ => (h.eof hr).2 hne⟩
  case shut => exact fun hs => ⟨(h.shut hs).1,(h.shut hs).2.trans (List.prefix_append _ _)⟩

/-- The coroutine of a session takes what it writes from the arrival buffer. -/
theorem Ordered.resumed {u : Uuid} {v : View SessionState} (h : Ordered u v) {e : SessionEvent} {x : SessionState}
    (hx : v.session.Resumes u e x) {b : Bool}
    (hb : b = true → v.entered = true ∧ ¬(x.pc = .ended ∧ e ≠ .writeFailed)) :
    Ordered u { v with
      session := x
      entered := b } := by
  have hplaced := h.placed
  have hentered : b = true → v.entered = true := fun h' => (hb h').1
  have hstays : e ≠ .writeFailed → b = true → x.pc ≠ .ended := fun hne h' he => (hb h').2 ⟨he,hne⟩
  cases hx with
  | connected hpc =>
    rw [SessionState.Placed, hpc] at hplaced
    refine h.keep (by simp [hpc]) ?_ hentered (fun _ => rfl) (fun hp => ⟨rfl,(h.alone hp).2⟩) rfl ?_ rfl rfl
    · simp [SessionState.Placed, SessionState.onEnd, SessionState.connectedTo, SessionEnd.submit]
    · simp [SessionState.backlog, SessionState.onEnd, SessionState.connectedTo, SessionEnd.submit, hpc]
  | refused hpc =>
    rw [SessionState.Placed, hpc] at hplaced
    refine h.keep (by simp [hpc]) ?_ hentered (fun _ => rfl) h.alone rfl ?_ rfl rfl
    · simp [SessionState.Placed, SessionState.onEnd, SessionEnd.submit, hplaced]
    · simp [SessionState.backlog, SessionState.onEnd, SessionEnd.submit, hpc]
  | answered f w hpc hm =>
    have hne : v.session.pc ≠ .ended := by simp [hpc]
    have hbacklog : v.session.backlog = v.session.arrivalBuffer.flatten := by
      rw [SessionState.backlog, hpc]
    have hkept := h.kept
    have hwhole := fun he => h.whole he hne
    have heof := fun hr => And.intro (h.eof hr).1 ((h.eof hr).2 hne)
    simp only [SessionState.Placed, hpc, hm] at hplaced
    rw [hbacklog] at hkept hwhole heof
    exact ordered_drain (by simpa using hplaced) id (fun h' => ⟨hentered h',hstays (by simp) h'⟩)
      h.unclosed (fun hp => (h.alone hp).2) hkept hwhole heof h.shut
  | givenUp f w hpc hm =>
    simp only [SessionState.Placed, hpc, hm, if_true] at hplaced
    have hgone : b = false := by
      rw [← Bool.not_eq_true]
      intro h'
      exact hstays (by simp) h' rfl
    refine h.leave rfl ?_ ?_ (h.pending_eq_none (.inl hplaced.1)) rfl rfl rfl <;>
      simp [SessionState.Placed, hgone, SessionState.onEnd, SessionEnd.giveUp, SessionEnd.suspend]
  | pumped f w hpc hok herr => exact h.pumped hpc hok herr fun h' => ⟨hentered h',hstays (by simp) h'⟩
  | read r hpc => exact h.read hpc r hentered
  | drained rest left hpc =>
    have hne : v.session.pc ≠ .ended := by simp [hpc]
    have hbacklog : v.session.backlog = rest ++ left.flatten := by rw [SessionState.backlog, hpc]
    have hkept := h.kept
    have hwhole := fun he => h.whole he hne
    have heof := fun hr => And.intro (h.eof hr).1 ((h.eof hr).2 hne)
    simp only [SessionState.Placed, hpc] at hplaced
    rw [hbacklog, ← List.append_assoc] at hkept hwhole heof
    exact ordered_drain hplaced.1 (fun _ => hplaced.2) (fun h' => ⟨hentered h',hstays (by simp) h'⟩)
      h.unclosed (fun hp => (h.alone hp).2) hkept hwhole heof
      fun hs => ⟨(h.shut hs).1,(h.shut hs).2.trans (List.prefix_append _ _)⟩
  | draining n rest left hpc => exact h.draining hpc n hentered
  | failed rest left hpc =>
    simp only [SessionState.Placed, hpc] at hplaced
    refine h.leave rfl ?_ (fun h' => h.unclosed (hentered h')) (h.pending_eq_none (.inr hplaced.2)) rfl rfl rfl
    intro _
    exact hplaced

theorem Ordered.overhear {u : Uuid} {v : View SessionState} (h : Ordered u v) {fs : List Frame}
    (hfs : v.entered = true → dataOf u fs = []) : Ordered u { v with frames := v.frames ++ fs } := by
  constructor <;> simp only [dataOf_append]
  case placed => exact h.placed
  case unclosed => exact h.unclosed
  case alone => exact h.alone
  case kept => exact h.kept.trans (List.prefix_append _ _)
  case whole => exact fun he hpc => by rw [hfs he, List.append_nil, h.whole he hpc]
  case eof =>
    intro hr
    rw [dataBeforeEof_append (h.eof hr).1]
    exact ⟨List.mem_append_left _ (h.eof hr).1,(h.eof hr).2⟩
  case shut =>
    intro hs
    rw [dataBeforeEof_append (h.shut hs).1]
    exact ⟨List.mem_append_left _ (h.shut hs).1,(h.shut hs).2⟩

/-- A session that leaves the table keeps what it was sent; a write under way may be lost. -/
theorem Ordered.release {u : Uuid} {v : View SessionState} (h : Ordered u v) {x : SessionState} (hx : x.Alike v.session)
    (lost : Bool) :
    Ordered u { v with
      session := x
      entered := false
      pending := none
      lost := lost } := by
  obtain ⟨hpc,hconn,hcing,hbuf,hrecv,hwritten,hshut⟩ := hx
  have hbacklog : x.backlog = v.session.backlog := by rw [SessionState.backlog, SessionState.backlog, hpc, hbuf]
  constructor <;> simp only [hwritten, hbacklog, hrecv, hshut, hpc, Option.getD_none, List.append_nil]
  case placed =>
    have hplaced := h.placed
    simp only [SessionState.Placed, hpc, hconn, hcing, hbuf] at hplaced ⊢
    split <;> simp_all
  case unclosed => nofun
  case alone => nofun
  case kept => exact (List.prefix_append _ _).trans h.kept
  case whole => nofun
  case eof => exact h.eof
  case shut => exact h.shut

/-- A session in the table with an empty arrival buffer has nothing left to drain. -/
theorem Ordered.written_eq {u : Uuid} {v : View SessionState} (h : Ordered u v) (he : v.entered = true)
    (hp : v.pending = none) (hbuf : v.session.arrivalBuffer = []) : v.session.pc ≠ .ended ∧ v.session.backlog = [] ∧
      v.session.socket.written = dataOf u v.frames := by
  have hplaced := h.placed
  have hne : v.session.pc ≠ .ended := by
    intro hpc
    simp only [SessionState.Placed, hpc] at hplaced
    exact (hplaced he).2 hbuf
  have hbacklog := hplaced.backlog_eq_nil hbuf
  have hwhole := h.whole he hne
  rw [hbacklog, hp, Option.getD_none, List.append_nil, List.append_nil] at hwhole
  exact ⟨hne,hbacklog,hwhole⟩

/-- With a remote and nothing to drain, a payload is next. -/
theorem Ordered.writeData {u : Uuid} {v : View SessionState} (h : Ordered u v) (he : v.entered = true)
    (hp : v.pending = none) (hconn : v.session.remoteConnected = true)
    (hbuf : v.session.arrivalBuffer = []) (fs : List Frame) :
    Ordered u { v with
      pending := some (dataOf u fs)
      frames := v.frames ++ fs } := by
  obtain ⟨-,hbacklog,hwritten⟩ := h.written_eq he hp hbuf
  have hall : v.session.socket.written ++ v.session.backlog ++ dataOf u fs = dataOf u (v.frames ++ fs) := by
    rw [hbacklog, List.append_nil, hwritten, dataOf_append]
  constructor <;> simp only [Option.getD_some, hall]
  case placed => exact h.placed
  case unclosed => exact h.unclosed
  case alone => exact fun _ => ⟨hconn,hbuf⟩
  case kept => exact List.prefix_rfl
  case whole => simp
  case eof =>
    intro hr
    rw [dataBeforeEof_append (h.eof hr).1]
    exact ⟨List.mem_append_left _ (h.eof hr).1,(h.eof hr).2⟩
  case shut =>
    intro hs
    rw [dataBeforeEof_append (h.shut hs).1]
    exact ⟨List.mem_append_left _ (h.shut hs).1,(h.shut hs).2⟩

/-- Without a remote a payload goes behind the arrival buffer. -/
theorem Ordered.bufferData {u : Uuid} {v : View SessionState} (h : Ordered u v) (he : v.entered = true)
    (hp : v.pending = none) (hconn : v.session.remoteConnected = false) {fs : List Frame}
    {data : ByteVector} (hdata : dataOf u fs = data) :
    Ordered u { v with
      session := v.session.buffer data
      frames := v.frames ++ fs } := by
  have hplaced := h.placed
  have hne : v.session.pc ≠ .ended := by
    intro hpc
    simp only [SessionState.Placed, hpc, hconn] at hplaced
    simpa using hplaced he
  have hbacklog : (v.session.buffer data).backlog = v.session.backlog ++ data := by
    cases hpc : v.session.pc <;> simp only [SessionState.Placed, hpc, hconn] at hplaced <;>
      simp_all [SessionState.backlog, SessionState.buffer]
  have hall : v.session.socket.written ++ (v.session.backlog ++ data) = dataOf u (v.frames ++ fs) := by
    have hwhole := h.whole he hne
    rw [hp, Option.getD_none, List.append_nil] at hwhole
    rw [← List.append_assoc, hwhole, dataOf_append, hdata]
  constructor <;> simp only [hbacklog, hp, Option.getD_none, List.append_nil, SessionState.buffer_toSessionEnd, hall]
  case placed =>
    cases hpc : v.session.pc <;> simp only [SessionState.Placed, SessionState.buffer, hpc, hconn] at hplaced ⊢ <;>
      simp_all
  case unclosed => exact h.unclosed
  case alone => nofun
  case kept => exact List.prefix_rfl
  case whole => simp
  case eof =>
    intro hr
    rw [dataBeforeEof_append (h.eof hr).1]
    refine ⟨List.mem_append_left _ (h.eof hr).1,fun _ => ((h.eof hr).2 hne).trans ?_⟩
    exact ⟨data,by rw [List.append_assoc, hall]⟩
  case shut =>
    intro hs
    rw [dataBeforeEof_append (h.shut hs).1]
    exact ⟨List.mem_append_left _ (h.shut hs).1,(h.shut hs).2⟩

/-- `DATA_EOF` finds everything before it written, or what is left of it in the arrival
buffer. -/
theorem Ordered.takeEof {u : Uuid} {v : View SessionState} (h : Ordered u v) (he : v.entered = true)
    (hp : v.pending = none) (hbuf : v.session.remoteConnected = true → v.session.arrivalBuffer = [])
    {x : SessionState} (hx : x.Alike v.session.recvEof) {b : Bool} (hb : b = true → x.closed = false) :
    Ordered u { v with
      session := x
      entered := b
      frames := v.frames ++ [dataEofFrame u] } := by
  have hrecvEof : v.session.recvEof.pc = v.session.pc ∧
      v.session.recvEof.remoteConnected = v.session.remoteConnected ∧
      v.session.recvEof.connecting = v.session.connecting ∧
      v.session.recvEof.arrivalBuffer = v.session.arrivalBuffer ∧
      v.session.recvEof.socket.written = v.session.socket.written ∧
      (v.session.recvEof.socket.shutdownSend = true → v.session.socket.shutdownSend = true ∨
        v.session.remoteConnected = true) := by
    rw [SessionState.recvEof]
    split_ifs with hc
    · exact ⟨rfl,rfl,rfl,rfl,rfl,fun _ => .inr hc⟩
    · exact ⟨rfl,rfl,rfl,rfl,rfl,.inl⟩
  obtain ⟨hpc,hconn,hcing,hbuf',-,hwritten,hshut⟩ := hx
  obtain ⟨hpc',hconn',hcing',hbuf'',hwritten',hshut'⟩ := hrecvEof
  rw [hpc'] at hpc
  rw [hconn'] at hconn
  rw [hcing'] at hcing
  rw [hbuf''] at hbuf'
  rw [hwritten'] at hwritten
  have hdata : dataOf u (v.frames ++ [dataEofFrame u]) = dataOf u v.frames := by
    rw [dataOf_append, dataOf_singleton, payload_of_ne_data _ (by simp [dataEofFrame]), List.append_nil]
  have hbacklog : x.backlog = v.session.backlog := by
    rw [SessionState.backlog, SessionState.backlog, hpc, hbuf']
  have hmem : dataEofFrame u ∈ v.frames ++ [dataEofFrame u] := by simp
  have hbefore : dataBeforeEof u (v.frames ++ [dataEofFrame u]) <+: dataOf u v.frames :=
    hdata ▸ dataBeforeEof_prefix u _
  constructor <;> simp only [hpc, hbacklog, hwritten, hdata]
  case placed =>
    have hplaced := h.placed
    simp only [SessionState.Placed, hpc, hconn, hcing, hbuf'] at hplaced ⊢
    split <;> simp_all
  case unclosed => exact hb
  case alone => simp [hp]
  case kept => exact h.kept
  case whole => exact fun _ hne => h.whole he hne
  case eof =>
    refine fun _ => ⟨hmem,fun hne => ?_⟩
    have hwhole := h.whole he hne
    rw [hp, Option.getD_none, List.append_nil] at hwhole
    rwa [hwhole]
  case shut =>
    intro hs
    refine ⟨hmem,?_⟩
    obtain hs | hc := hshut' (hshut ▸ hs)
    · rw [dataBeforeEof_append (h.shut hs).1]
      exact (h.shut hs).2
    · rw [(h.written_eq he hp (hbuf hc)).2.2]
      exact hbefore

theorem Ordered.advance {u : Uuid} {v : View SessionState} (h : Ordered u v) {rest : ByteVector}
    (hp : v.pending = some rest) (n : ℕ) :
    Ordered u { v with
      session := v.session.onEnd (·.write (rest.take n))
      pending := if n = rest.length then none else some (rest.drop n) } := by
  have hbuf := h.alone (by simp [hp])
  have hbacklog := h.placed.backlog_eq_nil hbuf.2
  have hbacklog' : (v.session.onEnd (·.write (rest.take n))).backlog = [] := hbacklog
  have hwritten' : (v.session.onEnd (·.write (rest.take n))).socket.written =
      v.session.socket.written ++ rest.take n := rfl
  have hgetD : (if n = rest.length then none else some (rest.drop n)).getD [] = rest.drop n := by
    split_ifs with hlen <;> simp [hlen]
  have hkept := h.kept
  have hwhole := h.whole
  have heof := h.eof
  simp only [hp, hbacklog, Option.getD_some, List.append_nil] at hkept hwhole heof
  constructor <;> simp only [hbacklog', hwritten', hgetD, List.append_nil, List.append_assoc,
    List.take_append_drop]
  case placed => exact h.placed
  case unclosed => exact h.unclosed
  case alone => exact fun _ => hbuf
  case kept => exact hkept
  case whole => exact hwhole
  case eof => exact fun hr => ⟨(heof hr).1,fun hne => ((heof hr).2 hne).trans (List.prefix_append _ _)⟩
  case shut => exact fun hs => ⟨(h.shut hs).1,(h.shut hs).2.trans (List.prefix_append _ _)⟩

theorem Ordered.taken {s : Provider} {i : ℕ} {f : Frame} (h : Ordered (s.sessions.key i) (s.view i))
    (hd : s.Drained (.read (.frame f))) (hr : s.reader = .reading) (he : s.sessions.Entered i)
    (hk : providerKey f = some (s.sessions.key i)) : Ordered (s.sessions.key i) { s.view i with
      session := ((s.sessions.cell i).onFrame f).session
      entered := !((s.sessions.cell i).onFrame f).erase
      pending := ((s.sessions.cell i).onFrame f).write
      frames := s.frames ++ [f] } := by
  have he' : (s.view i).entered = true := by simpa using he
  have hp : (s.view i).pending = none := by simp [hr]
  have hclosed : (s.sessions.cell i).closed = false := h.unclosed he'
  obtain hm | hm | hm := providerKey_method hk
  case inl =>
    have hdata : dataOf (s.sessions.key i) [f] = f.body.drop UUID_BYTES := by
      rw [dataOf_singleton, payload_of_data hm hk]
    cases hconn : (s.sessions.cell i).remoteConnected with
    | true =>
      have hwrite := h.writeData he' hp hconn (hd (.inl hm) i he hk hconn) [f]
      simpa [SessionState.onFrame, hm, hclosed, hconn, hdata, he] using hwrite
    | false =>
      have hplaced := h.placed
      have hconnecting : (s.sessions.cell i).connecting = true := by
        cases hpc : (s.sessions.cell i).pc <;> simp_all [SessionState.Placed]
      have hbuffer := h.bufferData he' hp hconn hdata
      simpa [SessionState.onFrame, hm, hclosed, hconn, hconnecting, he, hr] using hbuffer
  case inr.inl =>
    obtain rfl : f = dataEofFrame (s.sessions.key i) := by
      obtain ⟨m,body⟩ := f
      obtain rfl : m = .dataEof := hm
      obtain rfl : body = s.sessions.key i := Option.some.inj hk
      rfl
    have hbuf := hd (.inr hm) i he hk
    simp only [SessionState.onFrame, hm]
    split_ifs
    · have heof := h.takeEof he' hp hbuf (x := (s.sessions.cell i).recvEof.onEnd .markClosed) (b := false)
        ⟨rfl,rfl,rfl,rfl,rfl,rfl,rfl⟩ (by rintro ⟨⟩)
      simpa [hr] using heof
    · have hopen : (s.sessions.cell i).recvEof.closed = false := by
        rw [SessionState.recvEof]
        split_ifs <;> exact hclosed
      have heof := h.takeEof he' hp hbuf (b := true) ⟨rfl,rfl,rfl,rfl,rfl,rfl,rfl⟩ fun _ => hopen
      simpa [hr] using heof
  case inr.inr =>
    have hnone : dataOf (s.sessions.key i) [f] = [] := by
      rw [dataOf_singleton, payload_of_ne_data _ (by simp [hm])]
    have hclose := (h.overhear fun _ => hnone).release
      (x := ((s.sessions.cell i).onEnd .markClosed).cutOff)
      (SessionState.Alike.cutOff ⟨rfl,rfl,rfl,rfl,rfl,rfl,rfl⟩) s.lost
    simpa [SessionState.onFrame, hm, hr] using hclose

theorem Moves.ordered {s : Provider} {i : ℕ} {e : ProviderEvent} {v : View SessionState}
    (h : Ordered (s.sessions.key i) (s.view i)) (hd : s.Drained e) (hm : Moves s i e v) :
    Ordered (s.sessions.key i) v := by
  cases hm with
  | same => exact h
  | resumed e x hx =>
    apply h.resumed (SessionState.resume_resumes hx)
    intro hb
    simp only [Bool.and_eq_true, Bool.not_eq_true', decide_eq_false_iff_not] at hb
    exact hb
  | transmitted f hpc =>
    have hplaced := h.placed
    simp only [Node.view_session, SessionState.Placed, hpc] at hplaced
    refine h.keep (by simp [hpc]) ?_ id (fun _ => rfl) h.alone rfl ?_ rfl rfl
    · simpa [SessionState.Placed, SessionState.onEnd, SessionEnd.transmit] using hplaced
    · simp [SessionState.backlog, SessionState.onEnd, SessionEnd.transmit, hpc]
  | passed f hr hm hk =>
    apply h.overhear
    intro he
    rw [dataOf_singleton]
    exact payload_eq_nil (hk (by simpa using he))
  | taken f hr he hk => exact h.taken hd hr he hk
  | written n rest hr hn => exact h.advance (by simp [hr]) n
  | cut r fs hr hfs =>
    have hnone : dataOf (s.sessions.key i) fs = [] :=
      List.flatMap_eq_nil_iff.mpr fun f hf => payload_of_ne_data _ (by simp [hfs f hf])
    have hrelease := (h.overhear fun _ => hnone).release
      (SessionState.Alike.clear ⟨rfl,rfl,rfl,rfl,rfl,rfl,rfl⟩ (s.sessions.Entered i)) true
    simpa [Node.view, hr] using hrelease
  | thrown j rest hr x hx =>
    have halike : x.Alike (s.sessions.cell i) := by
      rw [hx]
      split_ifs
      · exact SessionState.alike_fail _
      · exact ⟨rfl,rfl,rfl,rfl,rfl,rfl,rfl⟩
    exact h.release (halike.clear _) _

/-- Whatever a remote is sent is sent in order, as long as the reader finds the arrival
buffers drained. -/
theorem remote_in_order {events : List ProviderEvent} {s : Provider}
    (hrun : run step {} events = some s)
    (hm : Meets step (fun s e => s.InSequence e ∧ s.Drained e) {} events) {i : ℕ}
    (hi : i < s.sessions.count) : s.InOrder i := by
  have hall := run_view (P := Ordered) hrun hm
    (fun s e h => by
      cases e with
      | read r =>
        cases r with
        | frame f => exact fun hf => (h.1 hf).1
        | _ => trivial
      | _ => trivial)
    (fun h hb => born_ordered h.1 hb) fun h hp hmv => hmv.ordered hp h.2
  exact (hall.2 i hi).inOrder

def uuid0 : Uuid := text "01234567-89ab-4cde-8f01-23456789abcd"

/-- A session with one payload before its remote is connected and one afterwards. -/
def inTime : List ProviderEvent :=
  [.read (.frame ⟨.forwardSession,uuid0⟩), .read (.frame ⟨.data,uuid0 ++ text "a"⟩),
    .session 0 (.connected true), .transmit 0, .session 0 .sent, .session 0 (.transferred 1),
    .read (.frame ⟨.data,uuid0 ++ text "b"⟩), .transferred 1, .read (.frame ⟨.dataEof,uuid0⟩)]

theorem drained_of_single {s : Provider} (hc : s.sessions.count = 1)
    (h0 : (s.sessions.cell 0).remoteConnected = true → (s.sessions.cell 0).arrivalBuffer = [])
    (e : ProviderEvent) : s.Drained e := by
  cases e with
  | read r =>
    cases r with
    | frame f =>
      rintro - i he -
      obtain rfl : i = 0 := by
        have := he.lt
        omega
      exact h0
    | _ => trivial
  | _ => trivial

theorem remote_in_order_inTime : ∃ s, run step {} inTime = some s ∧ s.InOrder 0 := by
  obtain ⟨s,hrun,hc⟩ : ∃ s, run step {} inTime = some s ∧ s.sessions.count = 1 := ⟨_,rfl,rfl⟩
  have hm : Meets step (fun s e => s.InSequence e ∧ s.Drained e) {} inTime := by
    refine .cons ⟨fun _ => ⟨nofun,nofun⟩,nofun⟩ rfl (.cons ⟨nofun,drained_of_single rfl (fun h => absurd h Bool.false_ne_true) _⟩ rfl
      (.cons ⟨trivial,trivial⟩ rfl (.cons ⟨trivial,trivial⟩ rfl (.cons ⟨trivial,trivial⟩ rfl
      (.cons ⟨trivial,trivial⟩ rfl (.cons ⟨nofun,drained_of_single rfl (fun _ => rfl) _⟩ rfl
      (.cons ⟨trivial,trivial⟩ rfl (.cons ⟨nofun,drained_of_single rfl (fun _ => rfl) _⟩ rfl (.nil _)))))))))
  exact ⟨s,hrun,remote_in_order hrun hm (by omega)⟩

/-- The second payload comes while `SESSION_OK` is being written, and overtakes the first. -/
def overtaking : List ProviderEvent :=
  [.read (.frame ⟨.forwardSession,uuid0⟩), .read (.frame ⟨.data,uuid0 ++ text "a"⟩),
    .session 0 (.connected true), .read (.frame ⟨.data,uuid0 ++ text "b"⟩), .transferred 1]

theorem overtaking_not_inOrder : ∃ s, run step {} overtaking = some s ∧
    Meets step InSequence {} overtaking ∧ ¬s.InOrder 0 := by
  obtain ⟨s,hrun,hwritten,hdata⟩ : ∃ s, run step {} overtaking = some s ∧
      (s.sessions.cell 0).socket.written = text "b" ∧
      dataOf (s.sessions.key 0) s.frames = text "ab" := ⟨_,rfl,rfl,by decide +kernel⟩
  refine ⟨s,hrun,?_,fun h => ?_⟩
  · exact .cons (fun _ => ⟨nofun,nofun⟩) rfl (.cons nofun rfl (.cons trivial rfl (.cons nofun rfl
      (.cons trivial rfl (.nil _)))))
  · have hp := h.1
    rw [hwritten, hdata] at hp
    exact absurd hp (by decide +kernel)

end Provider

end Msg801.Relay
