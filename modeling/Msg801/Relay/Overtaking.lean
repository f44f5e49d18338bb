import Msg801.Lib.Interleaving
import Msg801.Relay.Requests

/-! # What overtaking can do

The coroutine of a session at C drains the arrival buffer while the reader writes what
arrives later. Whatever their order, each of the two writes its part in its order, so that a
remote is sent an interleaving of two pieces of what its client has sent.
-/
namespace Msg801.Relay
open Transition Interleaving

namespace SessionState
variable {x y : SessionState} {u : Uuid}

theorem backlog_of_ended (h : x.pc = .ended) : x.backlog = [] := by rw [backlog, h]

theorem backlog_congr (hpc : y.pc = x.pc) (hbuf : y.arrivalBuffer = x.arrivalBuffer) : y.backlog = x.backlog := by
  rw [backlog, backlog, hpc, hbuf]

theorem drain_backlog (x : SessionState) (bs : List ByteVector) : (x.drain bs).backlog = bs.flatten := by
  cases bs with
  | cons b bs => rfl
  | nil =>
    simp only [backlog, drain_nil_pc, drain_nil_arrivalBuffer]
    split_ifs <;> rfl

/-- A payload that arrives has somewhere to go. -/
def Arrives (x : SessionState) : Prop := x.remoteConnected = true ∨ x.connecting = true

theorem Resumes.arrives {e : SessionEvent} (h : x.Resumes u e y) (hl : x.Linked) (hx : x.Arrives) : y.Arrives := by
  have hdrain : ∀ {z : SessionState} (bs : List ByteVector), z.remoteConnected = true → (z.drain bs).Arrives :=
    fun {z} bs hz => .inl ((z.drain_frame bs).1.trans hz)
  cases h with
  | connected => exact .inl rfl
  | refused | givenUp | pumped | read | draining | failed => exact hx
  | answered f w hpc hm =>
    have hc : x.remoteConnected = true := by simpa [Linked, hpc, hm] using hl
    exact hdrain _ hc
  | drained rest left hpc =>
    have hc : x.remoteConnected = true := by simpa [Linked, hpc] using hl
    exact hdrain (z := x.onEnd (·.write rest)) left hc

theorem cutOff_arrives (hx : x.Arrives) : x.cutOff.Arrives := by
  rw [cutOff]
  split_ifs <;> exact hx

theorem onFrame_arrives (f : Frame) (hx : x.Arrives) : (x.onFrame f).session.Arrives := by
  have hrecv : x.recvEof.Arrives := by
    rw [recvEof]
    split_ifs <;> exact hx
  rw [onFrame]
  split
  · split_ifs <;> exact hx
  · dsimp only
    split_ifs <;> exact hrecv
  · exact cutOff_arrives (x := x.onEnd .markClosed) hx
  · exact hx

/-- A coroutine that is not over has not closed its session. -/
theorem Resumes.unclosed {e : SessionEvent} (h : x.Resumes u e y) (hx : x.closed = false) :
    y.closed = false ∨ y.pc = .ended ∧ e ≠ .writeFailed := by
  have hdrain : ∀ {z : SessionState} (bs : List ByteVector), z.closed = false → (z.drain bs).closed = false :=
    fun {z} bs hz => (z.drain_frame bs).2.1.trans hz
  cases h with
  | connected | refused | draining | failed => exact .inl hx
  | answered => exact .inl (hdrain _ hx)
  | drained rest left => exact .inl (hdrain (z := x.onEnd (·.write rest)) left hx)
  | givenUp => exact .inr ⟨rfl,by simp⟩
  | read r => exact .inl (((x.receive r).onRead_frame u r).2.2.2.2.1.trans hx)
  | pumped f =>
    rcases x.onSent_pc f with hend | ⟨-,hc,-⟩
    · exact .inr ⟨hend,by simp⟩
    · exact .inl hc

/-- Only a payload gives either writer anything. -/
theorem onFrame_idle (x : SessionState) {f : Frame} (hm : f.method ≠ .data) : (x.onFrame f).write = none ∧
    (x.onFrame f).session.pc = x.pc ∧ (x.onFrame f).session.remoteConnected = x.remoteConnected ∧
    (x.onFrame f).session.arrivalBuffer = x.arrivalBuffer ∧
    (x.onFrame f).session.socket.written = x.socket.written := by
  rw [onFrame]
  split
  · exact absurd ‹_› hm
  · rw [recvEof]
    dsimp only
    split_ifs <;> exact ⟨rfl,rfl,rfl,rfl,rfl⟩
  · rw [cutOff]
    split_ifs <;> exact ⟨rfl,rfl,rfl,rfl,rfl⟩
  · exact ⟨rfl,rfl,rfl,rfl,rfl⟩

theorem onFrame_unclosed {f : Frame} (hx : x.closed = false) (he : (x.onFrame f).erase = false) :
    (x.onFrame f).session.closed = false := by
  have hrecv : x.recvEof.closed = false := by
    rw [recvEof]
    split_ifs <;> exact hx
  rw [onFrame] at he ⊢
  split at he
  · dsimp only
    split_ifs <;> exact hx
  · dsimp only at he ⊢
    split_ifs at he ⊢
    exact hrecv
  · cases he
  · exact hx

end SessionState

namespace Provider
variable {s : Provider} {i : ℕ} {e : ProviderEvent} {u : Uuid} {v : View SessionState}
  {early late p q : ByteVector}

/-- `early` is what was put into the arrival buffer and `late` what came behind it; the
coroutine has written `p` of the one and the reader `q` of the other. -/
structure Shares (u : Uuid) (v : View SessionState) (early late p q : ByteVector) : Prop where
  kept : early ++ late <+: dataOf u v.frames
  whole : v.entered = true → early ++ late = dataOf u v.frames
  unconnected : v.session.remoteConnected = false → late = []
  merged : Interleaves p q v.session.socket.written
  drained : p ++ v.session.backlog <+: early
  buffered : v.session.pc ≠ .ended → p ++ v.session.backlog = early
  passed : q ++ v.pending.getD [] <+: late
  rest : v.entered = true → q ++ v.pending.getD [] = late

/-- The coroutine writes `d`, and has as much to write as before; at its end it may leave
something behind. -/
theorem Shares.flush (h : Shares u v early late p q) {x : SessionState} {d : ByteVector} {b : Bool}
    (hb : b = true → v.entered = true)
    (hconn : x.remoteConnected = false → v.session.remoteConnected = false)
    (hw : x.socket.written = v.session.socket.written ++ d) (hd : d ++ x.backlog <+: v.session.backlog)
    (hpc : x.pc ≠ .ended → v.session.pc ≠ .ended ∧ d ++ x.backlog = v.session.backlog) : Shares u { v with
      session := x
      entered := b } early late (p ++ d) q := by
  refine ⟨h.kept,fun he => h.whole (hb he),fun hc => h.unconnected (hconn hc),?_,?_,fun hne => ?_,h.passed,
    fun he => h.rest (hb he)⟩
  · exact hw ▸ h.merged.append_left d
  · rw [List.append_assoc]
    exact ((List.prefix_append_right_inj p).mpr hd).trans h.drained
  · obtain ⟨hne',hback⟩ := hpc hne
    rw [List.append_assoc]
    exact (congrArg (p ++ ·) hback).trans (h.buffered hne')

/-- The coroutine writes nothing. -/
theorem Shares.keep (h : Shares u v early late p q) {x : SessionState} {b : Bool} (hb : b = true → v.entered = true)
    (hconn : x.remoteConnected = false → v.session.remoteConnected = false)
    (hw : x.socket.written = v.session.socket.written)
    (hpc : x.pc ≠ .ended → v.session.pc ≠ .ended ∧ x.backlog = v.session.backlog) : Shares u { v with
      session := x
      entered := b } early late p q := by
  have hback : x.backlog <+: v.session.backlog := by
    by_cases hend : x.pc = .ended
    · rw [SessionState.backlog_of_ended hend]
      exact List.nil_prefix
    · exact (hpc hend).2 ▸ List.prefix_rfl
  simpa using h.flush (d := []) hb hconn (hw.trans (List.append_nil _).symm) hback hpc

theorem Shares.frames (h : Shares u v early late p q) {fs : List Frame} (hfs : v.entered = true → dataOf u fs = []) :
    Shares u { v with frames := v.frames ++ fs } early late p q := by
  refine ⟨h.kept.trans (prefix_dataOf (List.prefix_append _ _)),fun he => ?_,h.unconnected,h.merged,h.drained,h.buffered,
    h.passed,h.rest⟩
  rw [dataOf_append, hfs he, List.append_nil]
  exact h.whole he

/-- A write of the reader may come to nothing with the session. -/
theorem Shares.release (h : Shares u v early late p q) {x : SessionState} (hx : x.Alike v.session) (w : Option ByteVector)
    (hw : w = v.pending ∨ w = none) (lost : Bool) : Shares u { v with
      session := x
      entered := false
      pending := w
      lost := lost } early late p q := by
  obtain ⟨hpc,hconn,-,hbuf,-,hwritten,-⟩ := hx
  have hback := SessionState.backlog_congr hpc hbuf
  refine ⟨h.kept,nofun,fun hc => h.unconnected (hconn ▸ hc),?_,?_,fun hne => ?_,?_,nofun⟩
  · exact hwritten ▸ h.merged
  · exact hback ▸ h.drained
  · exact hback ▸ h.buffered (hpc ▸ hne)
  · rcases hw with rfl | rfl
    · exact h.passed
    · rw [Option.getD_none, List.append_nil]
      exact (List.prefix_append _ _).trans h.passed

/-- A payload is next for the remote. -/
theorem Shares.writeData (h : Shares u v early late p q) (he : v.entered = true) (hp : v.pending = none)
    (hconn : v.session.remoteConnected = true) {f : Frame} {data : ByteVector} (hdata : payload u f = data) :
    Shares u { v with
      pending := some data
      frames := v.frames ++ [f] } early (late ++ data) p q := by
  have hall : early ++ (late ++ data) = dataOf u (v.frames ++ [f]) := by
    rw [dataOf_append, dataOf_singleton, hdata, ← h.whole he, List.append_assoc]
  have hrest : q ++ data = late ++ data := by
    have hr := h.rest he
    rw [hp, Option.getD_none, List.append_nil] at hr
    rw [hr]
  exact ⟨hall ▸ List.prefix_rfl,fun _ => hall,fun hc => absurd (hc.symm.trans hconn) Bool.false_ne_true,h.merged,h.drained,
    h.buffered,hrest ▸ List.prefix_rfl,fun _ => hrest⟩

/-- Without a remote a payload goes behind the arrival buffer. -/
theorem Shares.bufferData (h : Shares u v early late p q) (he : v.entered = true)
    (hconn : v.session.remoteConnected = false) (hl : v.session.Linked) {f : Frame} {data : ByteVector}
    (hdata : payload u f = data) : Shares u { v with
      session := v.session.buffer data
      frames := v.frames ++ [f] } (early ++ data) late p q := by
  obtain rfl := h.unconnected hconn
  have hall : early ++ data ++ [] = dataOf u (v.frames ++ [f]) := by
    have hwhole := h.whole he
    rw [List.append_nil] at hwhole ⊢
    rw [dataOf_append, dataOf_singleton, hdata, ← hwhole]
  have hback : v.session.pc ≠ .ended → (v.session.buffer data).backlog = v.session.backlog ++ data := by
    intro hne
    cases hpc : v.session.pc <;> simp only [SessionState.Linked, hpc, hconn, Bool.false_eq_true] at hl <;>
      simp_all [SessionState.backlog, SessionState.buffer]
  have hbuffered : v.session.pc ≠ .ended → p ++ (v.session.buffer data).backlog = early ++ data := fun hne => by
    rw [hback hne, ← List.append_assoc, h.buffered hne]
  refine ⟨hall ▸ List.prefix_rfl,fun _ => hall,fun _ => rfl,h.merged,?_,hbuffered,h.passed,h.rest⟩
  by_cases hend : v.session.pc = .ended
  · rw [SessionState.backlog_of_ended (x := v.session.buffer data) hend, List.append_nil]
    have hpre := h.drained
    rw [SessionState.backlog_of_ended hend, List.append_nil] at hpre
    exact hpre.trans (List.prefix_append _ _)
  · exact hbuffered hend ▸ List.prefix_rfl

/-- The reader writes. -/
theorem Shares.advance (h : Shares u v early late p q) {rest : ByteVector} (hp : v.pending = some rest) (n : ℕ) :
    Shares u { v with
      session := v.session.onEnd (·.write (rest.take n))
      pending := if n = rest.length then none else some (rest.drop n) } early late p (q ++ rest.take n) := by
  have hleft : rest.take n ++ (if n = rest.length then none else some (rest.drop n)).getD [] = rest := by
    split_ifs with hlen
    · rw [hlen, List.take_length, Option.getD_none, List.append_nil]
    · exact List.take_append_drop n rest
  have hsame : q ++ rest.take n ++ (if n = rest.length then none else some (rest.drop n)).getD [] =
      q ++ v.pending.getD [] := by
    rw [List.append_assoc, hleft, hp, Option.getD_some]
  refine ⟨h.kept,h.whole,h.unconnected,h.merged.append_right _,h.drained,h.buffered,?_,fun he => ?_⟩
  · exact hsame ▸ h.passed
  · exact hsame.trans (h.rest he)

/-- The coroutine takes what it writes from what it had to write. -/
theorem Shares.resumed (h : Shares u v early late p q) {e : SessionEvent} {x : SessionState}
    (hx : v.session.Resumes u e x) {b : Bool} (hb : b = true → v.entered = true) :
    ∃ d, Shares u { v with
      session := x
      entered := b } early late (p ++ d) q := by
  have hdrain : ∀ {y : SessionState} {d : ByteVector} (bs : List ByteVector), v.session.pc ≠ .ended →
      v.session.backlog = d ++ bs.flatten → v.session.remoteConnected = y.remoteConnected →
      y.socket.written = v.session.socket.written ++ d → Shares u { v with
        session := y.drain bs
        entered := b } early late (p ++ d) q := by
    intro y d bs hne hback hc hw
    obtain ⟨hr,-,-,hw'⟩ := y.drain_frame bs
    rw [← y.drain_backlog bs] at hback
    exact h.flush hb (fun hc' => hc.trans (hr.symm.trans hc')) (hw'.trans hw) (hback ▸ List.prefix_rfl)
      fun _ => ⟨hne,hback.symm⟩
  have hkeep : x.remoteConnected = v.session.remoteConnected → x.socket.written = v.session.socket.written →
      (x.pc ≠ .ended → v.session.pc ≠ .ended ∧ x.backlog = v.session.backlog) → ∃ d, Shares u { v with
        session := x
        entered := b } early late (p ++ d) q := fun hc hw hpc =>
    ⟨[],(List.append_nil p).symm ▸ h.keep hb (fun hc' => hc.symm.trans hc') hw hpc⟩
  cases hx with
  | connected hpc =>
    refine ⟨[],(List.append_nil p).symm ▸ h.keep hb nofun rfl fun _ => ⟨by simp [hpc],?_⟩⟩
    rw [SessionState.backlog, SessionState.backlog, hpc]
    rfl
  | refused hpc =>
    refine hkeep rfl rfl fun _ => ⟨by simp [hpc],?_⟩
    rw [SessionState.backlog, SessionState.backlog, hpc]
    rfl
  | answered f w hpc =>
    exact ⟨[],hdrain _ (by simp [hpc]) (by rw [SessionState.backlog, hpc]; rfl) rfl (List.append_nil _).symm⟩
  | givenUp | failed => exact hkeep rfl rfl fun hne => absurd rfl hne
  | pumped f w hpc =>
    obtain ⟨hsocket,-⟩ := v.session.onSent_frame f
    refine hkeep rfl (congrArg Socket.written hsocket) fun hne => ⟨by simp [hpc],?_⟩
    have hread : (v.session.onSent f).pc = .reading := ((v.session.onSent_pc f).resolve_left hne).1
    simp [SessionState.backlog, SessionState.onEnd, hread, hpc]
  | read r hpc =>
    obtain ⟨hpc',-,-,hsocket,-⟩ := (v.session.receive r).onRead_frame u r
    have hw := congrArg Socket.written hsocket
    refine hkeep rfl hw fun _ => ⟨by simp [hpc],?_⟩
    simp [SessionState.backlog, SessionState.onEnd, hpc', hpc]
  | drained rest left hpc =>
    have hback : v.session.backlog = rest ++ left.flatten := by rw [SessionState.backlog, hpc]
    exact ⟨rest,hdrain (y := v.session.onEnd (·.write rest)) left (by simp [hpc]) hback rfl rfl⟩
  | draining n rest left hpc =>
    have hback : rest.take n ++ (rest.drop n ++ left.flatten) = v.session.backlog := by
      rw [SessionState.backlog, hpc, ← List.append_assoc, List.take_append_drop]
    exact ⟨rest.take n,h.flush hb id rfl (hback ▸ List.prefix_rfl) fun _ => ⟨by simp [hpc],hback⟩⟩

/-- A session at C, with the part of its payloads either of its two writers has. -/
structure Merged (u : Uuid) (v : View SessionState) : Prop where
  linked : v.session.Linked
  arrives : v.session.Arrives
  unclosed : v.entered = true → v.session.closed = false
  shares : ∃ early late p q, Shares u v early late p q

theorem born_merged (hx : v.session = .connect) (hp : v.pending = none)
    (hnone : dataOf u v.frames = []) : Merged u v := by
  refine ⟨hx ▸ ⟨rfl,rfl⟩,hx ▸ .inr rfl,fun _ => hx ▸ rfl,[],[],[],[],?_⟩
  constructor <;> simp [hx, hp, hnone, SessionState.connect, SessionState.backlog, Interleaves.nil]

theorem Merged.taken (h : Merged (s.sessions.key i) (s.view i)) {f : Frame} (hr : s.reader = .reading)
    (he : s.sessions.Entered i) (hk : providerKey f = some (s.sessions.key i)) :
    ∃ early late p q, Shares (s.sessions.key i) { s.view i with
      session := ((s.sessions.cell i).onFrame f).session
      entered := !((s.sessions.cell i).onFrame f).erase
      pending := ((s.sessions.cell i).onFrame f).write
      frames := s.frames ++ [f] } early late p q := by
  obtain ⟨early,late,p,q,hs⟩ := h.shares
  have he' : (s.view i).entered = true := by simpa using he
  have hp : (s.view i).pending = none := by simp [hr]
  have hclosed : (s.sessions.cell i).closed = false := h.unclosed he'
  obtain hm | hm | hm := providerKey_method hk
  case inl =>
    have hdata := payload_of_data hm hk
    cases hconn : (s.sessions.cell i).remoteConnected with
    | true =>
      have hwrite := hs.writeData he' hp hconn hdata
      exact ⟨early,_,p,q,by simpa [SessionState.onFrame, hm, hclosed, hconn, he] using hwrite⟩
    | false =>
      have hconnecting : (s.sessions.cell i).connecting = true := h.arrives.resolve_left (by simp [hconn])
      have hbuffer := hs.bufferData he' hconn h.linked hdata
      exact ⟨_,late,p,q,by simpa [SessionState.onFrame, hm, hclosed, hconn, hconnecting, he, hr] using hbuffer⟩
  all_goals
    have hnone : dataOf (s.sessions.key i) [f] = [] := by
      rw [dataOf_singleton, payload_of_ne_data _ (by simp [hm])]
    have hframes := hs.frames (show _ → dataOf _ [f] = [] from fun _ => hnone)
    refine ⟨early,late,p,q,?_⟩
  all_goals
    obtain ⟨hwrite,hpc,hconn,hbuf,hwritten⟩ := (s.sessions.cell i).onFrame_idle (f := f) (by simp [hm])
    have hsame := hframes.keep (x := ((s.sessions.cell i).onFrame f).session)
      (b := !((s.sessions.cell i).onFrame f).erase) (fun _ => he') (fun hc => hconn.symm.trans hc) hwritten fun hne =>
        ⟨hpc ▸ hne,SessionState.backlog_congr hpc hbuf⟩
    simpa [hwrite, hr] using hsame

/-- Either writer goes on in its part, or a payload is added to one of the parts. -/
theorem Moves.merged (hm : Moves s i e v) (h : Merged (s.sessions.key i) (s.view i)) : Merged (s.sessions.key i) v := by
  obtain ⟨early,late,p,q,hs⟩ := h.shares
  refine ⟨hm.linked h.linked,?arrives,?unclosed,?shares⟩
  case arrives =>
    have harrives : (s.sessions.cell i).Arrives := h.arrives
    cases hm with
    | same | passed | transmitted | written => exact harrives
    | resumed e x hx => exact (SessionState.resume_resumes hx).arrives h.linked harrives
    | taken f => exact SessionState.onFrame_arrives f harrives
    | cut =>
      dsimp only
      split_ifs
      · exact SessionState.cutOff_arrives harrives
      · exact harrives
    | thrown j rest hr x hx =>
      have hx' : x.Arrives := by
        rw [hx]
        split_ifs <;> exact harrives
      dsimp only
      split_ifs
      · exact SessionState.cutOff_arrives hx'
      · exact hx'
  case unclosed =>
    intro he
    have hopen : (s.sessions.cell i).closed = false := h.unclosed (decide_eq_true (hm.entered_of he))
    cases hm with
    | same | passed | transmitted | written => exact hopen
    | resumed e x hx =>
      simp only [Bool.and_eq_true, Bool.not_eq_true', decide_eq_false_iff_not] at he
      exact ((SessionState.resume_resumes hx).unclosed hopen).resolve_right he.2
    | taken f => exact SessionState.onFrame_unclosed hopen (by simpa using he)
    | cut | thrown => cases he
  case shares =>
    cases hm with
    | same => exact ⟨early,late,p,q,hs⟩
    | resumed e x hx =>
      obtain ⟨d,hd⟩ := hs.resumed (SessionState.resume_resumes hx)
        (b := (s.view i).entered && !(x.pc = .ended ∧ e ≠ .writeFailed : Bool)) fun hb => (Bool.and_eq_true_iff.mp hb).1
      exact ⟨early,late,p ++ d,q,hd⟩
    | transmitted f hpc =>
      refine ⟨early,late,p,q,hs.keep id id rfl fun _ => ⟨by simp [hpc],?_⟩⟩
      simp [SessionState.backlog, SessionState.onEnd, SessionEnd.transmit, hpc]
    | passed f hr hm hk =>
      refine ⟨early,late,p,q,hs.frames fun he => ?_⟩
      rw [dataOf_singleton]
      exact payload_eq_nil (hk (by simpa using he))
    | taken f hr he hk => exact h.taken hr he hk
    | written n rest hr => exact ⟨early,late,p,_,hs.advance (by simp [hr]) n⟩
    | cut r fs hr hfs =>
      have hnone : dataOf (s.sessions.key i) fs = [] :=
        List.flatMap_eq_nil_iff.mpr fun f hf => payload_of_ne_data _ (by simp [hfs f hf])
      exact ⟨early,late,p,q,(hs.frames fun _ => hnone).release
        (SessionState.Alike.clear ⟨rfl,rfl,rfl,rfl,rfl,rfl,rfl⟩ (s.sessions.Entered i)) _ (.inl rfl) true⟩
    | thrown j rest hr x hx =>
      have halike : x.Alike (s.sessions.cell i) := by
        rw [hx]
        split_ifs
        · exact SessionState.alike_fail _
        · exact ⟨rfl,rfl,rfl,rfl,rfl,rfl,rfl⟩
      exact ⟨early,late,p,q,hs.release (halike.clear _) none (.inr rfl) s.lost⟩

end Provider

namespace System
variable {id : MatchId} {s : System}

/-- In every run of the three nodes the remote of a session has been written an interleaving
of two pieces of what B has read from the client of that session, a prefix of what came
before some point and a prefix of what came behind it: no byte of another session, none that
was not read, and none twice. -/
theorem requests_interleaved {events : List SystemEvent} (hrun : run (step id) {} events = some s)
    (hm : Meets (step id) (Delivers id) {} events) :
    ∀ j < s.provider.sessions.count, ∃ i < s.visitor.sessions.count,
      s.visitor.sessions.key i = s.provider.sessions.key j ∧
      (s.provider.sessions.cell j).socket.written.Subperm (s.visitor.sessions.cell i).socket.read ∧
      ∃ early late p q, early ++ late <+: (s.visitor.sessions.cell i).socket.read ∧ p <+: early ∧ q <+: late ∧
        Interleaves p q (s.provider.sessions.cell j).socket.written := by
  obtain ⟨⟨h,ht⟩,hmerged⟩ := run_requested (P := Provider.Merged) hrun hm (fun _ _ => fun h => h)
    (fun hx _ hp hnone => Provider.born_merged hx hp hnone) fun _ hp hmv => hmv.merged hp
  intro j hj
  obtain ⟨i,hi,hk⟩ := h.requester hj
  obtain ⟨early,late,p,q,hs⟩ := (hmerged j hj).shares
  have hread : early ++ late <+: (s.visitor.sessions.cell i).socket.read :=
    hs.kept.trans (hk ▸ h.requested ht hi)
  have hp : p <+: early := (List.prefix_append _ _).trans hs.drained
  have hq : q <+: late := (List.prefix_append _ _).trans hs.passed
  have hpieces : List.Sublist (p ++ q) (early ++ late) := hp.sublist.append hq.sublist
  exact ⟨i,hi,hk,hs.merged.perm.subperm.trans (hpieces.trans hread.sublist).subperm,early,late,p,q,hread,hp,hq,hs.merged⟩

/-- The second byte of a client comes to C while `SESSION_OK` is being written, the byte of
another one between the two. -/
def overtaken : List SystemEvent :=
  opened.take 12 ++ second ++ [.visitor (.session 0 (.readSome (.data (text "a")))), .visitor (.transmit 0),
    .visitor (.session 0 .sent), .visitor (.session 1 (.readSome (.data (text "r")))), .visitor (.transmit 1),
    .visitor (.session 0 (.readSome (.data (text "b")))), .visitor (.transmit 0),
    .server (.pair (text "x") (.pump .b (.read (buildFrameBytes .data (uuidS ++ text "a"))))),
    .server (.pair (text "x") (.pump .b .writeOk)),
    .server (.pair (text "x") (.pump .b (.read (buildFrameBytes .data (uuidT ++ text "r"))))),
    .server (.pair (text "x") (.pump .b .writeOk)),
    .server (.pair (text "x") (.pump .b (.read (buildFrameBytes .data (uuidS ++ text "b"))))),
    .server (.pair (text "x") (.pump .b .writeOk)), .provider (.read (.frame (dataFrame uuidS (text "a")))),
    .provider (.session 0 (.connected true)), .provider (.read (.frame (dataFrame uuidT (text "r")))),
    .provider (.transferred 1), .provider (.read (.frame (dataFrame uuidS (text "b")))), .provider (.transferred 1),
    .provider (.transmit 0), .provider (.session 0 .sent), .provider (.session 0 (.transferred 1))]

theorem requests_interleaved_overtaken : ∃ s, run (step (text "x")) {} overtaken = some s ∧
    (s.provider.sessions.cell 0).socket.written = text "ba" ∧ (s.provider.sessions.cell 1).socket.written = text "r" ∧
    ∀ j < 2, ∃ i < s.visitor.sessions.count,
      (s.provider.sessions.cell j).socket.written.Subperm (s.visitor.sessions.cell i).socket.read := by
  have hend : (run (step (text "x")) {} overtaken).map (fun s => decide (s.provider.sessions.count = 2 ∧
      (s.provider.sessions.cell 0).socket.written = text "ba" ∧ (s.provider.sessions.cell 1).socket.written = text "r")) =
        some true := by decide +kernel
  obtain ⟨s,hrun,hs⟩ := Option.map_eq_some_iff.mp hend
  obtain ⟨hcount,hfirst,hsecond⟩ := of_decide_eq_true hs
  have hm : Meets (step (text "x")) (Delivers (text "x")) {} overtaken := .of_follows (by decide +kernel)
  refine ⟨s,hrun,hfirst,hsecond,fun j hj => ?_⟩
  obtain ⟨i,hi,-,hsub,-⟩ := requests_interleaved hrun hm j (by omega)
  exact ⟨i,hi,hsub⟩

end System

end Msg801.Relay
