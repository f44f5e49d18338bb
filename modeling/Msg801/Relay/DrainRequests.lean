import Msg801.Relay.Drain
import Msg801.Relay.Remotes

/-! # No request stays on the way

As long as nothing fails on the way to the remotes, and these do not end, what B has read from
its clients comes to them: B, A and C come to an end with it by themselves, in whatever order
they go on. The sessions of C are opened, and drained, on the way.
-/
namespace Msg801.Relay
open Transition

namespace System
variable {id : MatchId} {s t : System} {e : SystemEvent} {i j : ℕ} {u : Uuid}

/-- What B submits is written, C can connect, and its remotes take what they are written and
do not end. -/
def Thrives (s : System) : SystemEvent → Prop
  | .visitor (.session i .sent) => (s.visitor.sessions.cell i).unwritten = false
  | .provider e => Provider.Calm e
  | _ => True

instance (s : System) (e : SystemEvent) : Decidable (Thrives s e) :=
  match e with
  | .visitor (.session _ .sent) => inferInstanceAs (Decidable (_ = _))
  | .provider _ => inferInstanceAs (Decidable (Provider.Calm _))
  | .visitor (.session _ (.connected _)) | .visitor (.session _ (.readSome _)) | .visitor (.session _ (.transferred _))
  | .visitor (.session _ .writeFailed) | .visitor (.accept _) | .visitor .acceptFailed | .visitor (.read _)
  | .visitor (.transferred _) | .visitor .writeFailed | .visitor .closeWritten | .visitor .closeSent
  | .visitor (.transmit _) | .server _ => inferInstanceAs (Decidable True)

/-- What comes to C for a session is `FORWARD_SESSION`, then payloads, then `DATA_EOF`. -/
theorem Joined.script (h : s.Joined id) (ht : s.visitor.Told) {fs : List Frame} {f : Frame}
    (hfs : fs ++ [f] <+: (s.received id .c).tail) (hk : ofPump u f = true) : u.length = UUID_BYTES ∧
    ∃ ds : List ByteVector, fs.filter (ofPump u) ++ [f] <+:
      ⟨.forwardSession,u⟩ :: ds.map (dataFrame u) ++ [dataEofFrame u] := by
  rcases h.of_received (r := .b) (hfs.subset (List.mem_append_right _ (List.mem_singleton_self f))) with rfl | ⟨g,hg,rfl⟩
  · simp [ofPump, eofFrame, visitorKey, UUID_BYTES] at hk
  · have hk' := hk
    rw [ofPump_translate] at hk'
    rcases h.visitor.wire g hg with hm | ⟨i,hi,hsub⟩
    · simp [ofPump, hm] at hk'
    · obtain rfl := h.visitor.pump_keyed hi hsub hk'
      obtain ⟨ds,hds⟩ := (h.visitor.pumps i hi).shape
      have hpre := h.requests_prefix ht hi hfs
      rw [List.filter_append, List.filter_cons_of_pos hk, List.filter_nil] at hpre
      exact ⟨h.visitor.sized i hi,ds,translate_requests _ ds ▸ hpre.trans (hds.map _)⟩

/-- `FORWARD_SESSION` is the first that comes for a session. -/
theorem Joined.forward_first (h : s.Joined id) (ht : s.visitor.Told) {f : Frame}
    (hf : s.provider.frames ++ [f] <+: (s.received id .c).tail) (hm : f.method = .forwardSession) :
    f.body.length = UUID_BYTES ∧ s.provider.frames.filter (ofPump f.body) = [] := by
  obtain ⟨i,hi,hki⟩ := h.announced (hf.subset (List.mem_append_right _ (List.mem_singleton_self f))) hm
  have hu : f.body.length = UUID_BYTES := hki ▸ h.visitor.sized i hi
  obtain ⟨-,ds,hpre⟩ := h.script ht hf (decide_eq_true ⟨visitorKey_of_uuid (m := f.method) hu,by simp [hm]⟩)
  refine ⟨hu,?_⟩
  cases hfs : s.provider.frames.filter (ofPump f.body) with
  | nil => rfl
  | cons g gs =>
    rw [hfs, List.cons_append, List.cons_append, List.cons_prefix_cons] at hpre
    have hmem := hpre.2.subset (List.mem_append_right _ (List.mem_singleton_self f))
    rcases List.mem_append.mp hmem with hmem | hmem
    · obtain ⟨d,-,hd⟩ := List.mem_map.mp hmem
      rw [← hd] at hm
      cases hm
    · rw [List.mem_singleton.mp hmem] at hm
      cases hm

/-- What is so in every state of a run in which nothing fails on the way to the remotes. -/
structure Supplied (id : MatchId) (s : System) : Prop where
  flowing : s.Flowing id
  told : s.visitor.Told
  speaking : s.visitor.Speaking
  serving : s.provider.Serving

/-- Neither an end of the connection nor of a session comes to C. -/
theorem Supplied.goes_on (h : s.Supplied id) {f : Frame} (hf : f ∈ (s.received id .c).tail) :
    f.method ≠ .eof ∧ f.method ≠ .sessionClose := by
  obtain ⟨g,hg,rfl⟩ := List.mem_map.mp ((h.flowing.down .b).subset hf)
  have heof := h.flowing.joined.wire_ne_eof .b hg
  have hclose := h.speaking.unclosed g hg
  rw [translate]
  split_ifs
  · exact ⟨by simp,by simp⟩
  · exact ⟨heof,hclose⟩

/-- The steps that bring the frames of B to the remotes. -/
def Outward (id : MatchId) (s : System) (e : SystemEvent) : Prop :=
  s.Delivers id e ∧ Holds id s e ∧ Thrives s e ∧ s.Drained e ∧
    match e with
    | .visitor (.transmit _) | .provider (.read _) | .provider (.transferred _) | .provider (.transmit _) => True
    | .provider (.session _ e) => ∀ r, e ≠ .readSome r
    | .server (.pair id' (.pump r _)) => id' = id ∧ r = .b
    | _ => False

/-- All that B has submitted has come to C, and is written. -/
structure Emptied (s : System) : Prop where
  held : ∀ i < s.visitor.sessions.count, (s.visitor.sessions.cell i).held = []
  frames : s.provider.frames = s.visitor.wire.map (translate .b)
  reader : s.provider.reader = .reading
  drained : ∀ j < s.provider.sessions.count, (s.provider.sessions.cell j).pc = .reading

/-- An upper bound of the steps that are left to the remotes. -/
def outstanding (id : MatchId) (s : System) : ℕ :=
  s.visitor.sessions.total (fun x => load 7 x.held) + s.inTransit id .b + s.provider.reader.backlog +
    s.provider.sessions.total SessionState.work

/-- What a step of C leaves of what was on its way to the remotes. -/
theorem Supplied.provider_lowers (h : s.Supplied id) {e : ProviderEvent} (ha : Outward id s (.provider e)) {p : Provider}
    (hp : s.provider.step e = some p) :
    load 4 ((s.received id .c).tail.drop p.frames.length) + p.reader.backlog + p.sessions.total SessionState.work <
      load 4 ((s.received id .c).tail.drop s.provider.frames.length) + s.provider.reader.backlog +
        s.provider.sessions.total SessionState.work := by
  obtain ⟨hd,-,hth,-,hon⟩ := ha
  cases Provider.step_turn hp with
  | eof f hr hm =>
    exact absurd hm (h.goes_on (hd.subset (List.mem_append_right _ (List.mem_singleton_self f)))).1
  | lost r _ hn =>
    cases r with
    | frame f => exact absurd rfl (hn f)
    | nullopt | thrown => exact hth.elim
  | forwarded f hr hm =>
    have htotal := s.provider.sessions.total_insert f.body .connect SessionState.work
    -- the frame pays for the connect, the answer and the drain of the new session
    have hconnect : SessionState.connect.work = 3 := rfl
    rw [load_drop_next hd]
    simp only [Provider.forwardSession, htotal, hconnect]
    omega
  | taken f i hr hm he =>
    have htotal := s.provider.sessions.total_put ((s.provider.sessions.cell i).onFrame f).session
      ((s.provider.sessions.cell i).onFrame f).erase SessionState.work he.lt
    have hwork := (s.provider.sessions.cell i).onFrame_work f i
    rw [load_drop_next hd]
    simp only [Node.dispatch]
    omega
  | passed f hr =>
    rw [load_drop_next hd]
    dsimp only
    omega
  | written n i rest hr hn =>
    have htotal := s.provider.sessions.total_set SessionState.work
      ((s.provider.sessions.cell i).onEnd (·.write (rest.take n))) (h.serving.reader.lt hr)
    have hsame : ((s.provider.sessions.cell i).onEnd (·.write (rest.take n))).work = (s.provider.sessions.cell i).work := rfl
    have hlt := ReaderPc.backlog_written (i := i) hn
    rw [← hr] at hlt
    dsimp only
    omega
  | thrown => exact hth.elim
  | resumed i e x hi hx =>
    have hlt := SessionState.resume_work hx hon
    have htotal := s.provider.sessions.total_put x (x.pc = .ended ∧ e ≠ .writeFailed) SessionState.work hi
    simp only [Provider.onResumed]
    omega
  | transmitted i f hi hb hpc =>
    have htotal := s.provider.sessions.total_set SessionState.work
      ((s.provider.sessions.cell i).onEnd (·.transmit f)) hi
    have hlt : ((s.provider.sessions.cell i).onEnd (·.transmit f)).work < (s.provider.sessions.cell i).work := by
      simp [SessionState.work, hpc, SessionState.onEnd, SessionEnd.transmit]
    dsimp only
    omega

/-- Every step outward leaves fewer. -/
theorem Supplied.step_lowers (h : s.Supplied id) (ha : Outward id s e) (hs : step id s e = some t) :
    outstanding id t < outstanding id s := by
  cases e with
  | visitor e =>
    obtain ⟨v,hv,rfl⟩ := Option.map_eq_some_iff.mp hs
    cases Visitor.step_turn hv with
    | transmitted i f hi hb hpc =>
      have htotal := s.visitor.sessions.total_set (fun x => load 7 x.held) ((s.visitor.sessions.cell i).transmit f) hi
      have hdrop := load_drop_concat (k := 6) (h.flowing.joined.up .b).length_le f
      simp only [SessionEnd.held, hpc, SessionEnd.transmit, load_nil, load_singleton] at htotal
      simp only [outstanding, inTransit, received, wire, frames, SessionEnd.held, SessionEnd.transmit] at hdrop ⊢
      omega
    | _ => exact ha.2.2.2.2.elim
  | server e =>
    obtain ⟨hd,ho,-,-,hon⟩ := ha
    cases e with
    | pair id' e =>
      cases e with
      | pump r e =>
        obtain ⟨rfl,rfl⟩ := hon
        obtain ⟨hv,hp,hlt⟩ := h.flowing.pump_lowers hd (ho rfl) hs
        rw [outstanding, outstanding, hv, hp]
        omega
      | disconnect => exact hon.elim
    | _ => exact hon.elim
  | provider e =>
    obtain ⟨p,hp,rfl⟩ := Option.map_eq_some_iff.mp hs
    have hlt := h.provider_lowers ha hp
    simp only [outstanding, inTransit, received, wire, frames, Role.opposite] at hlt ⊢
    omega

/-- The reader can write what it has for a remote. -/
theorem Supplied.exists_transferred (h : s.Supplied id) (hr : s.provider.reader ≠ .reading) :
    ∃ n p, s.provider.step (.transferred n) = some p := by
  obtain ⟨i,hi,rest,hw⟩ := h.serving.reader.resolve_left hr
  have htakes := h.serving.takes i hi
  have hpending : (s.provider.view i).pending = some rest := by simp [hw]
  have hshut : (s.provider.sessions.cell i).socket.shutdownSend = false := by
    rw [← Bool.not_eq_true]
    intro hs
    have hrecv := htakes.pending (by rw [hpending]; rfl)
    exact absurd (hrecv.symm.trans (htakes.thrives.shut hs).1) Bool.false_ne_true
  have hlive : s.provider.Live i := .inl (of_decide_eq_true htakes.entered)
  have hstep : s.provider.step (.transferred rest.length) = some { s.provider with
      sessions := s.provider.sessions.set i ((s.provider.sessions.cell i).onEnd (·.write (rest.take rest.length)))
      reader := .next i (if rest.length = rest.length then none else some (rest.drop rest.length)) } := by
    rw [Provider.step, hw]
    exact if_pos (SessionEnd.canTransfer_all rest hlive htakes.thrives.isOpen hshut)
  exact ⟨rest.length,_,hstep⟩

/-- A session that does not read has something to do, and can do it. -/
theorem Supplied.exists_resumed (h : s.Supplied id) (hj : j < s.provider.sessions.count)
    (hpc : (s.provider.sessions.cell j).pc ≠ .reading) :
    ∃ e p, Outward id s (.provider e) ∧ s.provider.step e = some p := by
  have htakes := h.serving.takes j hj
  have hthrives : (s.provider.sessions.cell j).Thrives := htakes.thrives
  rcases hthrives.exists_resume (u := s.provider.sessions.key j) htakes.ordered.placed hpc with
    ⟨f,hpc'⟩ | ⟨e,x,hx,hcalm,hr,hw⟩
  · have hstep : s.provider.step (.transmit j) = some { s.provider with
        sessions := s.provider.sessions.set j ((s.provider.sessions.cell j).onEnd (·.transmit f))
        wire := s.provider.wire ++ [f] } := by
      simp only [Provider.step, hpc']
      exact if_pos ⟨hj,h.flowing.unbroken⟩
    exact ⟨.transmit j,_,⟨trivial,trivial,trivial,trivial,trivial⟩,hstep⟩
  · have hstep : s.provider.step (.session j e) = some (s.provider.onResumed j e x) := by
      rw [Provider.step, if_pos hj, hx, Option.map_some]
    have hholds : Holds id s (.provider (.session j e)) := by
      cases e with
      | sent => exact hw
      | _ => trivial
    exact ⟨.session j e,_,⟨trivial,hholds,hcalm,trivial,hr⟩,hstep⟩

/-- As long as not all has come to the remotes there is a step outward. -/
theorem Supplied.progress (h : s.Supplied id) (hpump : (s.server.pairOf id).pump .b ≠ .idle) (hn : ¬s.Emptied) :
    ¬Halted (step id) (Outward id) s := by
  intro hhalt
  have hprovider : ∀ e p, s.provider.step e = some p → ¬Outward id s (.provider e) := fun e p hp ha =>
    absurd (hhalt _ ha) (by simp [step, hp])
  apply hn
  have hreader : s.provider.reader = .reading := by
    by_contra hr
    obtain ⟨n,p,hp⟩ := h.exists_transferred hr
    exact hprovider (.transferred n) p hp ⟨trivial,trivial,trivial,trivial,trivial⟩
  have hdrained : ∀ j < s.provider.sessions.count, (s.provider.sessions.cell j).pc = .reading := by
    intro j hj
    by_contra hpc
    obtain ⟨e,p,ha,hp⟩ := h.exists_resumed hj hpc
    exact hprovider e p hp ha
  refine ⟨fun i hi => ?_,?_,hreader,hdrained⟩
  · by_contra hheld
    obtain ⟨f,hpc⟩ := SessionEnd.exists_held hheld
    have hnone := hhalt (.visitor (.transmit i)) ⟨trivial,trivial,trivial,trivial,trivial⟩
    simp [step, Visitor.step, hpc, hi, h.speaking.unbroken] at hnone
  · have hframes : s.provider.frames = (s.received id .c).tail := by
      obtain ⟨fs,hfs⟩ := h.flowing.joined.down .c
      change s.provider.frames ++ fs = (s.received id .c).tail at hfs
      cases fs with
      | nil => simpa using hfs
      | cons f fs =>
        have hd : s.provider.frames ++ [f] <+: (s.received id .c).tail := ⟨fs,by simpa using hfs⟩
        -- where every coroutine reads there is nothing left in an arrival buffer
        have hdr : s.Drained (.provider (.read (.frame f))) := by
          rintro - j he - -
          have hp := (h.serving.takes j he.lt).ordered.placed
          simp only [Node.view_session, SessionState.Placed, hdrained j he.lt] at hp
          exact hp.2
        have hstep : s.provider.step (.read (.frame f)) = some (s.provider.onFrame f) := by rw [Provider.step, if_pos hreader]
        exact absurd ⟨hd,trivial,trivial,hdr,trivial⟩ (hprovider (.read (.frame f)) _ hstep)
    by_contra hwire
    obtain ⟨e,he,hd,t,ht⟩ := h.flowing.exists_pumped (h.flowing.running.inLoop hpump .b) (hframes ▸ hwire)
      fun f hf => h.speaking.fits h.flowing.joined.visitor hf
    exact absurd (hhalt _ ⟨hd,fun _ => he,trivial,trivial,rfl,rfl⟩) (by simp [ht])

/-- Where all has come to C it has a session for every client, and the remote of that has been
written all that was read from the client. -/
theorem Emptied.delivered (hemp : s.Emptied) (h : s.Supplied id) (hi : i < s.visitor.sessions.count) :
    ∃ j < s.provider.sessions.count, s.provider.sessions.key j = s.visitor.sessions.key i ∧
      (s.provider.sessions.cell j).socket.written = (s.visitor.sessions.cell i).socket.read ∧
      ((s.visitor.sessions.cell i).halfCloseSend = true →
        (s.provider.sessions.cell j).socket.shutdownSend = true) := by
  have hposted := h.flowing.joined.visitor
  have hpumps := hposted.pumps i hi
  have hsent : (s.visitor.sessions.cell i).sent = (s.visitor.sessions.cell i).submitted := by
    rw [(hposted.shipped i hi).2 h.speaking.unbroken, hemp.held i hi, List.append_nil]
  have hwire : s.visitor.wire.filter (ofPump (s.visitor.sessions.key i)) = (s.visitor.sessions.cell i).submitted :=
    (h.told.pumped i hi).trans hsent
  have hcome : ∀ f ∈ (s.visitor.sessions.cell i).submitted, translate .b f ∈ s.provider.frames := by
    intro f hf
    rw [← hwire] at hf
    rw [hemp.frames]
    exact List.mem_map_of_mem (List.mem_filter.mp hf).1
  obtain ⟨j,hj,hk⟩ := h.serving.known _ (hcome _ hpumps.opened) rfl
  have hkey : s.provider.sessions.key j = s.visitor.sessions.key i := hk
  have htakes := h.serving.takes j hj
  have hplaced := htakes.ordered.placed
  simp only [Node.view_session, SessionState.Placed, hemp.drained j hj] at hplaced
  refine ⟨j,hj,hkey,?_,fun hend => ?_⟩
  · have hpending : (s.provider.view j).pending = none := by simp [hemp.reader]
    have hwritten : (s.provider.sessions.cell j).socket.written = dataOf (s.provider.sessions.key j) s.provider.frames :=
      (htakes.ordered.written_eq htakes.entered hpending hplaced.2).2.2
    rw [hwritten, hkey, hemp.frames, dataOf_translate, ← dataOf_ofPump, hwire, h.told.reads i hi]
  · have hmem := hcome _ ((hpumps.dataEof_mem (by simp [newSessionFrame])).mpr hend)
    have hrecv : (s.provider.sessions.cell j).halfCloseRecv = true := htakes.told (hkey ▸ hmem)
    apply (htakes.thrives.past hrecv).resolve_right
    simp [SessionState.Opening, hemp.drained j hj]

end System

end Msg801.Relay
