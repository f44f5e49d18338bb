import Msg801.Relay.Dismissal

/-! # What the two ends of a session say to each other

Of every session B is told what became of the connect at C, first and once, and what follows
fits it. C is told of a session first, and what the client has sent comes before its end. One
frame keeps no place in this: the `SESSION_CLOSE` of B's reader, which comes at most once.
-/
namespace Msg801.Relay
open Transition

namespace SessionState
variable {u : Uuid} {x y : SessionState} {e : SessionEvent}

/-- What the coroutine has told of its connect is so, and without a remote nothing was written. -/
structure Replied (u : Uuid) (x : SessionState) : Prop where
  refused : sessionErrFrame u ∈ x.submitted → x.remoteConnected = false
  accepted : sessionOkFrame u ∈ x.submitted → x.remoteConnected = true
  unwritten : x.remoteConnected = false → x.socket.written = []

theorem Replied.congr (h : x.Replied u) (hsub : y.submitted = x.submitted) (hc : y.remoteConnected = x.remoteConnected)
    (hw : x.remoteConnected = false → y.socket.written = x.socket.written) : y.Replied u := by
  refine ⟨fun hm => ?_,fun hm => ?_,fun hn => ?_⟩
  · rw [hc]
    exact h.refused (hsub ▸ hm)
  · rw [hc]
    exact h.accepted (hsub ▸ hm)
  · rw [hc] at hn
    exact (hw hn).trans (h.unwritten hn)

theorem Resumes.replied (hr : x.Resumes u e y) (hl : x.Linked) (hs : x.Speaks u) (h : x.Replied u) : y.Replied u := by
  have hfirst : x.pc = .connecting → x.submitted = [] := by
    intro hpc
    cases hs with
    | connecting _ _ hfs => exact hfs
    | refusing w hpc' => cases hpc.symm.trans hpc'
    | refused hpc' => cases hpc.symm.trans hpc'
    | pumping hp =>
      unfold SessionEnd.Pumps at hp
      rw [hpc] at hp
      cases hp
  have hdrain : ∀ {z : SessionState} (bs : List ByteVector), z.submitted = x.submitted → z.remoteConnected = true →
      x.remoteConnected = true → (z.drain bs).Replied u := by
    intro z bs hsub hz hx
    obtain ⟨hc,-⟩ := z.drain_frame bs
    refine h.congr ((z.drain_submitted bs).trans hsub) ((hc.trans hz).trans hx.symm) fun hn => ?_
    cases hx.symm.trans hn
  cases hr with
  | connected hpc =>
    refine ⟨fun hm => ?_,fun _ => rfl,fun hn => by cases hn⟩
    have hm' : sessionErrFrame u ∈ x.submitted ++ [sessionOkFrame u] := hm
    rw [hfirst hpc] at hm'
    cases List.mem_singleton.mp hm'
  | refused hpc =>
    have hc : x.remoteConnected = false := by
      simp only [Linked, hpc] at hl
      exact hl.1
    refine ⟨fun _ => hc,fun hm => ?_,h.unwritten⟩
    have hm' : sessionOkFrame u ∈ x.submitted ++ [sessionErrFrame u] := hm
    rw [hfirst hpc] at hm'
    cases List.mem_singleton.mp hm'
  | answered f w hpc hm =>
    have hc : x.remoteConnected = true := by simpa [Linked, hpc, hm] using hl
    exact hdrain _ rfl hc hc
  | drained rest left hpc =>
    have hc : x.remoteConnected = true := by simpa [Linked, hpc] using hl
    exact hdrain (z := x.onEnd (·.write rest)) left rfl hc hc
  | draining n rest left hpc =>
    have hc : x.remoteConnected = true := by simpa [Linked, hpc] using hl
    refine h.congr rfl rfl fun hn => ?_
    cases hc.symm.trans hn
  | givenUp | failed => exact h.congr rfl rfl fun _ => rfl
  | pumped f =>
    obtain ⟨hsocket,-,-,hsub,-⟩ := x.onSent_frame f
    exact h.congr hsub rfl fun _ => congrArg Socket.written hsocket
  | read r =>
    obtain ⟨-,hsub,-,hsocket,-⟩ := (x.receive r).onRead_frame u r
    have hmethod := SessionEnd.readFrame_method u r
    have hold : ∀ {f : Frame}, f.method = .sessionErr ∨ f.method = .sessionOk →
        f ∈ (x.onEnd fun z => (z.receive r).onRead u r).submitted → f ∈ x.submitted := by
      intro f hf hm
      have hm' : f ∈ x.submitted ++ [SessionEnd.readFrame u r] := hsub ▸ hm
      rcases List.mem_append.mp hm' with hm' | hm'
      · exact hm'
      · rw [List.mem_singleton.mp hm'] at hf
        rcases hmethod with hm | hm | hm <;> simp [hm] at hf
    exact ⟨fun hm => h.refused (hold (.inl rfl) hm),fun hm => h.accepted (hold (.inr rfl) hm),fun hn =>
      (congrArg Socket.written hsocket).trans (h.unwritten hn)⟩

end SessionState

theorem SessionEnd.Pumps.shape {u : Uuid} {first : Frame} {x : SessionEnd} (h : x.Pumps u first) :
    ∃ ds : List ByteVector, x.submitted <+: first :: ds.map (dataFrame u) ++ [dataEofFrame u] := by
  unfold SessionEnd.Pumps at h
  generalize x.pc = pc, x.halfCloseSend = b, x.submitted = fs at h
  cases h with
  | opening | draining => exact ⟨[],List.prefix_append [first] [dataEofFrame u]⟩
  | reading ds | stopped ds => exact ⟨ds,List.prefix_append _ _⟩
  | paying ds d => exact ⟨ds ++ [d],List.prefix_append _ _⟩
  | parting ds | parted ds => exact ⟨ds,List.prefix_rfl⟩

theorem SessionEnd.Pumps.opened {u : Uuid} {first : Frame} {x : SessionEnd} (h : x.Pumps u first) : first ∈ x.submitted := by
  unfold SessionEnd.Pumps at h
  generalize x.pc = pc, x.halfCloseSend = b, x.submitted = fs at h
  cases h <;> simp

namespace Provider
variable {s : Provider} {i : ℕ} {e : ProviderEvent} {u : Uuid} {v : View SessionState}

/-- A session at C with what it has told of its connect; the reader writes to no session
without a remote. -/
structure Replies (u : Uuid) (v : View SessionState) : Prop where
  linked : v.session.Linked
  speaks : v.session.Speaks u
  replied : v.session.Replied u
  idle : v.session.remoteConnected = false → v.pending = none

theorem born_replies (hx : v.session = .connect) (hp : v.pending = none) : Replies u v := by
  refine ⟨hx ▸ ⟨rfl,rfl⟩,hx ▸ .connecting rfl rfl rfl,?_,fun _ => hp⟩
  rw [hx]
  exact ⟨by simp [SessionState.connect],by simp [SessionState.connect],fun _ => rfl⟩

theorem Moves.replied (hm : Moves s i e v) (h : Replies (s.sessions.key i) (s.view i)) :
    v.session.Replied (s.sessions.key i) := by
  have hx : (s.sessions.cell i).Replied (s.sessions.key i) := h.replied
  have hclear : ∀ {x : SessionState}, x.Replied (s.sessions.key i) → ∀ b : Prop, ∀ [Decidable b],
      SessionState.Replied (s.sessions.key i) (if b then x.cutOff else x) := by
    intro x hx b _
    split_ifs
    · rw [SessionState.cutOff]
      split_ifs
      · exact hx.congr rfl rfl fun _ => rfl
      · exact hx
    · exact hx
  cases hm with
  | same | passed => exact hx
  | resumed e x hx' => exact (SessionState.resume_resumes hx').replied h.linked h.speaks hx
  | transmitted => exact hx.congr rfl rfl fun _ => rfl
  | taken f =>
    exact hx.congr (SessionState.onFrame_steady _ f).2.2.1 (SessionState.onFrame_remote _ f).1 fun hn =>
      (SessionState.onFrame_unconnected f hn).2
  | written n rest hr =>
    refine hx.congr rfl rfl fun hn => ?_
    have hnone := h.idle hn
    simp [hr] at hnone
  | cut => exact hclear hx _
  | thrown j rest hr x hx' =>
    have hfailed : x.Replied (s.sessions.key i) := by
      rw [hx']
      split_ifs
      · exact hx.congr rfl rfl fun _ => rfl
      · exact hx
    exact hclear hfailed _

theorem Moves.idle (hm : Moves s i e v) (h : Replies (s.sessions.key i) (s.view i))
    (hn : v.session.remoteConnected = false) : v.pending = none := by
  have hold : (s.sessions.cell i).remoteConnected = false → s.reader.pending i = none := h.idle
  cases hm with
  | same | passed | transmitted => exact hold hn
  | resumed e x hx =>
    apply hold
    cases SessionState.resume_resumes hx with
    | connected => cases hn
    | refused | givenUp | pumped | read | draining | failed => exact hn
    | answered => exact ((s.sessions.cell i).drain_frame _).1.symm.trans hn
    | drained rest left => exact (((s.sessions.cell i).onEnd (·.write rest)).drain_frame left).1.symm.trans hn
  | taken f => exact (SessionState.onFrame_unconnected f ((SessionState.onFrame_remote _ f).1.symm.trans hn)).1
  | written n rest hr =>
    have hnone := hold hn
    simp [hr] at hnone
  | cut r fs hr => simp [hr]
  | thrown => rfl

theorem Moves.replies (hm : Moves s i e v) (h : Replies (s.sessions.key i) (s.view i)) : Replies (s.sessions.key i) v :=
  ⟨hm.linked h.linked,hm.speaks h.speaks,hm.replied h,hm.idle h⟩

end Provider

namespace System
variable {id : MatchId} {s : System}

/-- The frames for a session among those a node has taken, and among those written to A. -/
def framesFor (u : Uuid) (fs : List Frame) : List Frame := fs.filter (visitorKey · = some u)

/-- What B takes for a session begins what the coroutine of that session at C has submitted. -/
theorem Joined.replies_prefix (h : s.Joined id) {j : ℕ} (hj : j < s.provider.sessions.count) :
    framesFor (s.provider.sessions.key j) s.visitor.frames <+: (s.provider.sessions.cell j).submitted := by
  obtain ⟨fs,n,hfs,hr⟩ := h.carried .c
  have htail : s.visitor.frames <+: (s.received id Role.c.opposite).tail := h.down .b
  rw [hr, List.map_congr_left fun f _ => translate_c f, List.map_id'] at htail
  have hnone : framesFor (s.provider.sessions.key j) (List.replicate n eofFrame) = [] :=
    List.filter_eq_nil_iff.mpr fun f hf => by
      rw [List.eq_of_mem_replicate hf]
      simp [eofFrame, visitorKey, UUID_BYTES]
  have hframes := htail.filter (visitorKey · = some (s.provider.sessions.key j))
  rw [List.filter_append] at hframes
  change framesFor _ _ <+: _ ++ framesFor _ _ at hframes
  rw [hnone, List.append_nil] at hframes
  have hwire := hfs.filter (visitorKey · = some (s.provider.sessions.key j))
  change _ <+: s.provider.wire.filter _ at hwire
  rw [h.provider.posted j hj] at hwire
  exact hframes.trans (hwire.trans (h.provider.shipped j hj).1)

theorem ofPump_translate (u : Uuid) (r : Role) (f : Frame) : ofPump u (translate r f) = ofPump u f := by
  rw [translate]
  split_ifs with hm
  · simp [ofPump, visitorKey, hm.1]
  · rfl

/-- What comes to C for a session begins, translated, what its pump at B has submitted. -/
theorem Joined.requests_prefix (h : s.Joined id) (ht : s.visitor.Told) {i : ℕ} (hi : i < s.visitor.sessions.count)
    {gs : List Frame} (hgs : gs <+: (s.received id .c).tail) :
    gs.filter (ofPump (s.visitor.sessions.key i)) <+: (s.visitor.sessions.cell i).submitted.map (translate .b) := by
  obtain ⟨fs,n,hfs,hr⟩ := h.carried .b
  have htail : gs <+: (s.received id Role.b.opposite).tail := hgs
  rw [hr] at htail
  have hnone : (List.replicate n eofFrame).filter (ofPump (s.visitor.sessions.key i)) = [] :=
    List.filter_eq_nil_iff.mpr fun f hf => by
      rw [List.eq_of_mem_replicate hf]
      simp [ofPump, eofFrame, visitorKey, UUID_BYTES]
  have hframes := htail.filter (ofPump (s.visitor.sessions.key i))
  rw [List.filter_append, hnone, List.append_nil, List.filter_map] at hframes
  have hcomp : ofPump (s.visitor.sessions.key i) ∘ translate .b = ofPump (s.visitor.sessions.key i) :=
    funext fun f => ofPump_translate _ .b f
  rw [hcomp] at hframes
  exact hframes.trans ((h.pump_prefix ht hi hfs).map _)

theorem translate_requests (u : Uuid) (ds : List ByteVector) :
    (newSessionFrame u :: ds.map (dataFrame u) ++ [dataEofFrame u]).map (translate .b) =
      ⟨.forwardSession,u⟩ :: ds.map (dataFrame u) ++ [dataEofFrame u] := by
  have hkeeps : ∀ f : Frame, f.method ≠ .newSession → translate .b f = f := fun f hf => if_neg fun h => hf h.1
  have hdata : (ds.map (dataFrame u)).map (translate .b) = ds.map (dataFrame u) := by
    rw [List.map_map]
    exact List.map_congr_left fun d _ => hkeeps _ (by simp [dataFrame])
  rw [List.map_append, List.map_cons, hdata]
  rfl

/-- The first frame C takes for a session is the one it makes the session on. -/
theorem Concluded.forward_first (h : s.Concluded id) {j : ℕ} (hj : j < s.provider.sessions.count) :
    (framesFor (s.provider.sessions.key j) s.provider.frames).head? = some ⟨.forwardSession,s.provider.sessions.key j⟩ := by
  have hjoined := h.requested.joined
  have hsize := hjoined.provider.sized j hj
  obtain ⟨i,hi,hk⟩ := hjoined.requester hj
  obtain ⟨ds,hds⟩ := (hjoined.visitor.pumps i hi).shape
  have hpumped := (hjoined.requests_prefix h.requested.told hi (hjoined.down .c)).trans (hds.map _)
  rw [translate_requests, hk] at hpumped
  change s.provider.frames.filter _ <+: _ at hpumped
  obtain ⟨g,hg,hm,hbody⟩ := hjoined.provider.forwarded j hj
  generalize s.provider.sessions.key j = u at hsize hpumped hbody ⊢
  have hgk : visitorKey g = some u := by
    obtain ⟨m,body⟩ := g
    obtain rfl : body = u := hbody
    exact visitorKey_of_uuid hsize
  cases hfs : framesFor u s.provider.frames with
  | nil => exact absurd (decide_eq_true hgk) (List.filter_eq_nil_iff.mp hfs g hg)
  | cons f rest =>
    obtain ⟨pre,post,hframes,hnone,hfk,-⟩ := List.filter_eq_cons_iff.mp hfs
    have hfk : visitorKey f = some u := of_decide_eq_true hfk
    by_cases hclose : f.method = .sessionClose
    · -- its announcement came before
      have htaken : pre ++ [f] <+: s.provider.frames := ⟨post,by rw [hframes]; simp⟩
      have hpre : pre ++ [f] <+: (s.received id .c).tail := htaken.trans (hjoined.down .c)
      obtain ⟨fs,f',hwire,hmap,hf'⟩ := hjoined.origin hpre fun he => by simp [he, eofFrame] at hclose
      obtain rfl := eq_of_translate hf'.symm (by simp [hclose])
      obtain ⟨k,hk,rfl⟩ := h.dismisses.known f' (hwire.subset (by simp)) hclose
      obtain rfl : s.visitor.sessions.key k = u :=
        Option.some.inj ((visitorKey_of_uuid (hjoined.visitor.sized k hk)).symm.trans hfk)
      have hnew := List.mem_map_of_mem (f := translate .b) (h.announced.behind _ fs hwire)
      refine absurd (decide_eq_true ?_) (hnone _ (hmap ▸ hnew))
      exact visitorKey_of_uuid hsize
    · have hnone' : pre.filter (ofPump u) = [] := List.filter_eq_nil_iff.mpr fun f' hf' hp =>
        hnone f' hf' (decide_eq_true (of_decide_eq_true hp).1)
      have hpump : ofPump u f = true := decide_eq_true ⟨hfk,hclose⟩
      rw [hframes, List.filter_append, hnone', List.nil_append, List.filter_cons_of_pos hpump, List.cons_append,
        List.cons_prefix_cons] at hpumped
      rw [hpumped.1]
      rfl

theorem Concluded.closed_once (h : s.Concluded id) (u : Uuid) : s.provider.frames.count (sessionCloseFrame u) ≤ 1 := by
  obtain ⟨fs,n,hfs,hr⟩ := h.requested.joined.carried .b
  have hframes : s.provider.frames <+: (s.received id Role.b.opposite).tail := h.requested.joined.down .c
  have heof : (List.replicate n eofFrame).count (sessionCloseFrame u) = 0 := by
    rw [List.count_replicate, if_neg (by simp [eofFrame, sessionCloseFrame])]
  calc s.provider.frames.count (sessionCloseFrame u)
      ≤ (s.received id Role.b.opposite).tail.count (sessionCloseFrame u) := hframes.sublist.count_le _
    _ = (fs.map (translate .b)).count (sessionCloseFrame u) := by rw [hr, List.count_append, heof, Nat.add_zero]
    _ ≤ fs.count (sessionCloseFrame u) := by
      rw [List.count, List.countP_map]
      refine List.countP_mono_left fun f _ hf => ?_
      have hf' : translate .b f = sessionCloseFrame u := by simpa using hf
      simpa using eq_of_translate hf' (by simp [sessionCloseFrame])
    _ ≤ s.visitor.wire.count (sessionCloseFrame u) := hfs.sublist.count_le _
    _ ≤ 1 := h.dismisses.once u

/-- What B has taken for a session is so at C: the connect was refused and nothing was
written on either side, or there is a remote, and its payloads and its end come behind. -/
inductive Agrees (u : Uuid) (fs : List Frame) (client : ClientSession) (remote : SessionState) : Prop
  | refused (hfs : fs = [sessionErrFrame u]) (hconn : remote.remoteConnected = false)
      (hremote : remote.socket.written = []) (hclient : client.socket.written = [])
  | accepted (ds : List ByteVector) (hconn : remote.remoteConnected = true)
      (hfs : fs <+: sessionOkFrame u :: ds.map (dataFrame u) ++ [dataEofFrame u])

theorem Joined.agrees (h : s.Joined id) {i j : ℕ} (hi : i < s.visitor.sessions.count) (hj : j < s.provider.sessions.count)
    (hk : s.provider.sessions.key j = s.visitor.sessions.key i)
    (hr : Provider.Replies (s.provider.sessions.key j) (s.provider.view j))
    (hne : framesFor (s.visitor.sessions.key i) s.visitor.frames ≠ []) :
    Agrees (s.visitor.sessions.key i) (framesFor (s.visitor.sessions.key i) s.visitor.frames)
      (s.visitor.sessions.cell i) (s.provider.sessions.cell j) := by
  have hpre := h.replies_prefix hj
  have hreplied : (s.provider.sessions.cell j).Replied (s.provider.sessions.key j) := hr.replied
  have hspeaks : (s.provider.sessions.cell j).Speaks (s.provider.sessions.key j) := hr.speaks
  rw [hk] at hpre hreplied hspeaks
  generalize hu : s.visitor.sessions.key i = u at hpre hreplied hspeaks hne ⊢
  have hrefused (hsub : (s.provider.sessions.cell j).submitted = [sessionErrFrame u]) :
      Agrees u (framesFor u s.visitor.frames) (s.visitor.sessions.cell i) (s.provider.sessions.cell j) := by
    rw [hsub] at hpre
    have hframes : framesFor u s.visitor.frames = [sessionErrFrame u] :=
      hpre.eq_of_length_le (List.length_pos_iff.mpr hne)
    have hconn := hreplied.refused (hsub ▸ List.mem_singleton_self _)
    have hkept : (s.visitor.sessions.cell i).socket.written <+: dataOf u s.visitor.frames :=
      hu ▸ (List.prefix_append _ _).trans (h.visitor.ordered i hi).kept
    rw [← dataOf_filter, show s.visitor.frames.filter (visitorKey · = some u) = [sessionErrFrame u] from hframes,
      dataOf_singleton, payload_of_ne_data _ (by simp [sessionErrFrame])] at hkept
    exact .refused hframes hconn (hreplied.unwritten hconn) (List.prefix_nil.mp hkept)
  cases hspeaks with
  | connecting _ _ hsub =>
    rw [hsub] at hpre
    exact absurd (List.prefix_nil.mp hpre) hne
  | refusing _ _ _ hsub => exact hrefused hsub
  | refused _ _ hsub => exact hrefused hsub
  | pumping hp =>
    obtain ⟨ds,hds⟩ := hp.shape
    exact .accepted ds (hreplied.accepted hp.opened) (hpre.trans hds)

/-- In every run of the three nodes, with any sessions under way, B is told of a session
first what became of its connect at C; where that was refused nothing else comes and
nothing was written on either side, and where it was not the payloads follow and the end
of the remote comes last. C is told of a session first. What else comes are its payloads and
behind them the end of its client, and in any place among or behind these one `SESSION_CLOSE`
at most. -/
theorem sessions_agree {events : List SystemEvent} (hrun : run (step id) {} events = some s)
    (hm : Meets (step id) (Delivers id) {} events) :
    (∀ i < s.visitor.sessions.count, framesFor (s.visitor.sessions.key i) s.visitor.frames = [] ∨
      ∃ j < s.provider.sessions.count, s.provider.sessions.key j = s.visitor.sessions.key i ∧
        Agrees (s.visitor.sessions.key i) (framesFor (s.visitor.sessions.key i) s.visitor.frames)
          (s.visitor.sessions.cell i) (s.provider.sessions.cell j)) ∧
    ∀ j < s.provider.sessions.count,
      (framesFor (s.provider.sessions.key j) s.provider.frames).head? =
        some ⟨.forwardSession,s.provider.sessions.key j⟩ ∧
      s.provider.frames.count (sessionCloseFrame (s.provider.sessions.key j)) ≤ 1 ∧
      ∃ ds : List ByteVector, s.provider.frames.filter (ofPump (s.provider.sessions.key j)) <+:
        ⟨.forwardSession,s.provider.sessions.key j⟩ :: ds.map (dataFrame (s.provider.sessions.key j)) ++
          [dataEofFrame (s.provider.sessions.key j)] := by
  obtain ⟨⟨h,ht⟩,hreplies⟩ := run_requested (P := Provider.Replies) hrun hm (fun _ _ hd => hd)
    (fun hx _ hp _ => Provider.born_replies hx hp) fun _ hp hmv => hmv.replies hp
  have hconcluded := run_concluded hrun hm
  refine ⟨fun i hi => ?_,fun j hj => ⟨hconcluded.forward_first hj,hconcluded.closed_once _,?_⟩⟩
  · by_cases hnone : framesFor (s.visitor.sessions.key i) s.visitor.frames = []
    · exact .inl hnone
    · obtain ⟨g,hg⟩ := List.exists_mem_of_ne_nil _ hnone
      obtain ⟨hmem,hkey⟩ := List.mem_filter.mp hg
      obtain ⟨j,hj,hk⟩ := h.exists_source hmem (of_decide_eq_true hkey)
      exact .inr ⟨j,hj,hk,h.agrees hi hj hk (hreplies j hj) hnone⟩
  · obtain ⟨i,hi,hk⟩ := h.requester hj
    obtain ⟨ds,hds⟩ := (h.visitor.pumps i hi).shape
    refine ⟨ds,?_⟩
    rw [← hk, ← translate_requests]
    exact (h.requests_prefix ht hi (h.down .c)).trans (hds.map _)

/-- The write to the client of the second session fails, and C is told. -/
def unwritable : List SystemEvent :=
  answered.take 39 ++ [.visitor .writeFailed, .visitor .closeWritten, .visitor .closeSent,
    .server (.pair (text "x") (.pump .b (.read (buildFrameBytes .sessionClose uuidT)))),
    .server (.pair (text "x") (.pump .b .writeOk)), .provider (.read (.frame (sessionCloseFrame uuidT)))]

theorem sessions_agree_unwritable : ∃ s, run (step (text "x")) {} unwritable = some s ∧
    (∀ i < 2, ∃ j < s.provider.sessions.count, s.provider.sessions.key j = s.visitor.sessions.key i ∧
      (s.provider.sessions.cell j).remoteConnected = true) ∧
    s.provider.frames.count (sessionCloseFrame uuidT) = 1 ∧
    (framesFor uuidT s.provider.frames).head? = some ⟨.forwardSession,uuidT⟩ := by
  have hend : (run (step (text "x")) {} unwritable).map (fun s => decide (s.visitor.sessions.count = 2 ∧
      s.provider.sessions.count = 2 ∧ s.provider.sessions.key 1 = uuidT ∧
      framesFor (s.visitor.sessions.key 0) s.visitor.frames = [sessionOkFrame uuidS] ∧
      framesFor (s.visitor.sessions.key 1) s.visitor.frames = [sessionOkFrame uuidT,dataFrame uuidT (text "xy")] ∧
      sessionCloseFrame uuidT ∈ s.provider.frames)) = some true := by decide +kernel
  obtain ⟨s,hrun,hs⟩ := Option.map_eq_some_iff.mp hend
  obtain ⟨hi,hj,hkey,hfirst,hsecond,hclose⟩ := of_decide_eq_true hs
  have hm : Meets (step (text "x")) (Delivers (text "x")) {} unwritable := .of_follows (by decide +kernel)
  obtain ⟨htold,htaken⟩ := sessions_agree hrun hm
  obtain ⟨hhead,honce,-⟩ := htaken 1 (by omega)
  rw [hkey] at hhead honce
  refine ⟨s,hrun,fun i hi' => ?_,Nat.le_antisymm honce (List.count_pos_iff.mpr hclose),hhead⟩
  have hframes : ∃ f fs, framesFor (s.visitor.sessions.key i) s.visitor.frames = f :: fs ∧ f.method = .sessionOk := by
    obtain rfl | rfl : i = 0 ∨ i = 1 := by omega
    · exact ⟨_,_,hfirst,rfl⟩
    · exact ⟨_,_,hsecond,rfl⟩
  obtain ⟨f,fs,hfs,hf⟩ := hframes
  rcases htold i (by omega) with hnone | ⟨j,hj,hk,hagrees⟩
  · simp [hfs] at hnone
  · cases hagrees with
    | refused herr =>
      rw [hfs] at herr
      obtain ⟨rfl,-⟩ := List.cons.inj herr
      cases hf
    | accepted _ hconn => exact ⟨j,hj,hk,hconn⟩

end System

end Msg801.Relay
