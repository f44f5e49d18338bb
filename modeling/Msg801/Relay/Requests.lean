import Msg801.Relay.System

/-! # What the clients send

B reads from a client and sends what it has read in frames, A hands them on, and C writes
what they carry to the remote of the session. C has only sessions that B has announced.
-/
namespace Msg801.Relay
open Transition

theorem payload_translate (u : Uuid) (r : Role) (f : Frame) : payload u (translate r f) = payload u f := by
  rw [translate]
  split_ifs with h
  · have hm : f.method ≠ .data := by simp [h.1]
    rw [payload_of_ne_data u hm]
    exact payload_of_ne_data u (by simp)
  · rfl

theorem dataOf_translate (u : Uuid) (r : Role) (fs : List Frame) : dataOf u (fs.map (translate r)) = dataOf u fs := by
  induction fs with
  | nil => rfl
  | cons f fs ih =>
    change payload u (translate r f) ++ dataOf u (fs.map (translate r)) = payload u f ++ dataOf u fs
    rw [payload_translate, ih]

/-- The frames of the coroutine of a session; `SESSION_CLOSE` is sent by the reader. -/
def ofPump (u : Uuid) (f : Frame) : Bool := visitorKey f = some u ∧ f.method ≠ .sessionClose

theorem dataOf_ofPump (u : Uuid) (fs : List Frame) : dataOf u (fs.filter (ofPump u)) = dataOf u fs := by
  induction fs with
  | nil => rfl
  | cons f fs ih =>
    by_cases hf : ofPump u f = true
    · rw [List.filter_cons_of_pos hf]
      exact congrArg (payload u f ++ ·) ih
    · have hnone : payload u f = [] := by
        by_cases hk : visitorKey f = some u
        · have hm : f.method = .sessionClose := by simpa [ofPump, hk] using hf
          exact payload_of_ne_data u (by simp [hm])
        · exact payload_of_visitorKey_ne hk
      rw [List.filter_cons_of_neg hf, ih]
      change dataOf u fs = payload u f ++ dataOf u fs
      rw [hnone, List.nil_append]

namespace SessionEnd
variable {u : Uuid} {x : SessionEnd}

theorem Pumps.ofPump (h : x.Pumps u (newSessionFrame u)) (hu : u.length = UUID_BYTES) {f : Frame}
    (hf : f ∈ x.submitted) : Relay.ofPump u f = true := by
  rcases h.mem hf with rfl | ⟨d,rfl⟩ | rfl
  · exact decide_eq_true ⟨visitorKey_of_uuid hu,by simp [newSessionFrame]⟩
  · exact decide_eq_true ⟨visitorKey_dataFrame hu d,by simp [dataFrame]⟩
  · exact decide_eq_true ⟨visitorKey_of_uuid hu,by simp [dataEofFrame]⟩

/-- The announcement of a session is the first of its frames. -/
theorem Pumps.new_first (h : x.Pumps u (newSessionFrame u)) {pre : List Frame} {g : Frame}
    (hpre : pre ++ [g] <+: x.submitted) (hg : g.method = .newSession) : pre = [] := by
  have hrest : ∃ fs, x.submitted = newSessionFrame u :: fs ∧ ∀ f ∈ fs, f.method ≠ .newSession := by
    unfold SessionEnd.Pumps at h
    generalize x.pc = pc, x.halfCloseSend = b, x.submitted = fs at h hpre ⊢
    cases h <;> refine ⟨_,rfl,fun f hf => ?_⟩ <;> simp at hf <;> grind [dataFrame, dataEofFrame]
  obtain ⟨fs,hfs,hne⟩ := hrest
  cases pre with
  | nil => rfl
  | cons f pre =>
    rw [hfs, List.cons_append, List.cons_prefix_cons] at hpre
    exact absurd hg (hne g (hpre.2.subset (List.mem_append_right _ (List.mem_singleton_self g))))

end SessionEnd

namespace Visitor
variable {s t : Visitor} {e : VisitorEvent} {i : ℕ} {v : View ClientSession}

/-- What B has read from its clients is what their frames carry, and these are written in
their order. -/
structure Told (s : Visitor) : Prop where
  reads : ∀ i < s.sessions.count,
    dataOf (s.sessions.key i) (s.sessions.cell i).submitted = (s.sessions.cell i).socket.read
  pumped : ∀ i < s.sessions.count, s.wire.filter (ofPump (s.sessions.key i)) = (s.sessions.cell i).sent

theorem Moves.sends (hm : Moves s i e v) : v.session.sent = (s.sessions.cell i).sent ∨
    ∃ f, e = .transmit i ∧ (s.sessions.cell i).pc = .sending f false ∧
      v.session.sent = (s.sessions.cell i).sent ++ [f] := by
  rcases hm.coroutine with hsteady | ⟨f,he,hpc,rfl⟩ | ⟨e',x,-,hr,rfl⟩
  · exact .inl hsteady.2.2.2
  · exact .inr ⟨f,he,hpc,rfl⟩
  · apply Or.inl
    cases hr with
    | sent f => exact ((s.sessions.cell i).onSent_frame f).2.2.2.2
    | read r => exact (((s.sessions.cell i).receive r).onRead_frame (s.sessions.key i) r).2.2.1

theorem Posted.pump_keyed (h : s.Posted) (hi : i < s.sessions.count) {f : Frame} (hf : f ∈ (s.sessions.cell i).submitted)
    {u : Uuid} (hk : ofPump u f = true) : s.sessions.key i = u := by
  have hu : visitorKey f = some u := (of_decide_eq_true hk).1
  have hi' : visitorKey f = some (s.sessions.key i) := (of_decide_eq_true ((h.pumps i hi).ofPump (h.sized i hi) hf)).1
  exact Option.some.inj (hi'.symm.trans hu)

theorem Told.step_sent (h : s.Told) (hp : s.Posted) (hd : s.Drifts t e) (hs : s.step e = some t)
    (hi : i < s.sessions.count) : t.wire.filter (ofPump (s.sessions.key i)) = (t.sessions.cell i).sent := by
  rcases step_wire hs with ⟨hw,hne⟩ | ⟨j,g,rfl,hj,hb,hpc,hw,hsessions⟩ | ⟨j,hw,hne⟩ <;> rw [hw]
  · obtain ⟨-,v,hm,hv⟩ := hd.move hi
    rcases hm.sends with hsent | ⟨f,rfl,-⟩
    · rw [h.pumped i hi, hv.session, hsent]
    · exact absurd rfl (hne i)
  · have hg := (hp.holds hj hpc hb).1
    rw [hsessions, List.filter_append, h.pumped i hi]
    by_cases hij : i = j
    · subst hij
      have hkeyed := (hp.pumps i hi).ofPump (hp.sized i hi) hg
      rw [SharedMap.set_cell_self, List.filter_cons_of_pos hkeyed]
      rfl
    · have hother : ¬ofPump (s.sessions.key i) g = true := fun hk =>
        hij (hp.distinct i j hi hj (hp.pump_keyed hj hg hk).symm)
      rw [SharedMap.set_cell_of_ne _ _ hij, List.filter_cons_of_neg hother, List.filter_nil, List.append_nil]
  · obtain ⟨-,v,hm,hv⟩ := hd.move hi
    have hclose : ¬ofPump (s.sessions.key i) (sessionCloseFrame (s.sessions.key j)) = true := by
      simp [ofPump, sessionCloseFrame]
    rw [List.filter_append, List.filter_cons_of_neg hclose, List.filter_nil, List.append_nil, h.pumped i hi, hv.session]
    rcases hm.sends with hsent | ⟨f,rfl,-⟩
    · exact hsent.symm
    · exact absurd rfl (hne i)

/-- Nothing was written for a client that is new. -/
theorem Posted.unwritten_of_born (h : s.Posted) (ht : t.Posted) (hd : s.Drifts t e) (hs : s.step e = some t)
    (hi : i < t.sessions.count) (hb : Born s t i e) : t.wire.filter (ofPump (t.sessions.key i)) = [] := by
  refine List.filter_eq_nil_iff.mpr fun g hg hk => ?_
  rcases h.step_sent hs hg with hm | ⟨j,hj,hsub⟩
  · exact (of_decide_eq_true hk).2 hm
  · have hkey := (hd.move hj).1.trans (h.pump_keyed hj hsub hk)
    have hij := ht.distinct j i (hj.trans_le hd.count) hi hkey
    have hnew := hb.1
    omega

theorem step_told (h : s.Told) (hp : s.Posted) (hsize : s.Sized e) (hs : s.step e = some t) : t.Told := by
  have hd := step_drifts hp.bounded hs
  have hc := hd.carries hp.distinct hsize.1.fresh
  have ht := step_posted hp hsize hs
  refine ⟨fun i hi => ?reads,fun i hi => ?pumped⟩
  all_goals obtain ⟨hi',hk,hm⟩ | hb := hc.view i hi
  case reads.inl =>
    have hread := h.reads i hi'
    rcases hm.reads with ⟨hr,hsub⟩ | ⟨r,-,hr,hsub⟩ <;> rw [Node.view_session] at hr hsub <;> rw [hk, hr, hsub]
    · exact hread
    · rw [dataOf_append, dataOf_singleton, payload_readFrame (hp.sized i hi'), hread]
  case reads.inr =>
    rw [(hb.ordered hsize).2.2]
    change dataOf _ [newSessionFrame (t.sessions.key i)] = []
    rw [dataOf_singleton, payload_of_ne_data _ (by simp [newSessionFrame])]
  case pumped.inl => exact hk ▸ h.step_sent hp hd hs hi'
  case pumped.inr =>
    rw [hp.unwritten_of_born ht hd hs hi hb, (hb.ordered hsize).2.2]
    rfl

end Visitor

/-- A list that goes on with one value only has its last other value before. -/
theorem prefix_of_replicate {α : Type*} {as pre : List α} {a z : α} {n : ℕ}
    (h : pre ++ [a] <+: as ++ List.replicate n z) (ha : a ≠ z) : pre ++ [a] <+: as := by
  rcases List.prefix_or_prefix_of_prefix h (List.prefix_append as _) with hp | ⟨zs,hzs⟩
  · exact hp
  · rcases List.eq_nil_or_concat zs with rfl | ⟨zs',z',rfl⟩
    · rw [List.append_nil] at hzs
      exact hzs ▸ List.prefix_rfl
    · rw [← hzs, List.prefix_append_right_inj, List.concat_eq_append] at h
      rw [List.concat_eq_append, ← List.append_assoc] at hzs
      have hmem := h.subset (List.mem_append_right _ (List.mem_singleton_self z'))
      have hlast := List.singleton_inj.mp (List.append_inj' hzs rfl).2
      exact absurd (hlast.symm.trans (List.eq_of_mem_replicate hmem)) ha

theorem frames_before_eof {u : Uuid} {frames : List Frame} (h : dataEofFrame u ∈ frames) :
    frames.takeWhile (· ≠ dataEofFrame u) ++ [dataEofFrame u] <+: frames := by
  induction frames with
  | nil => cases h
  | cons f frames ih =>
    by_cases hf : f = dataEofFrame u
    · simp [hf]
    · have hmem : dataEofFrame u ∈ frames := (List.mem_cons.mp h).resolve_left (Ne.symm hf)
      simpa [hf] using ih hmem

theorem eq_of_translate {r : Role} {f g : Frame} (h : translate r f = g) (hg : g.method ≠ .forwardSession) : f = g := by
  rw [translate] at h
  split_ifs at h
  · exact absurd (by rw [← h]) hg
  · exact h

namespace System
variable {id : MatchId} {s t : System} {e : SystemEvent}

/-- What A writes to C before the `EOF_` frames is, translated, what B has written. -/
theorem Joined.origin (h : s.Joined id) {pre : List Frame} {g : Frame} (hpre : pre ++ [g] <+: (s.received id .c).tail)
    (hg : g ≠ eofFrame) : ∃ fs f, fs ++ [f] <+: s.visitor.wire ∧ pre = fs.map (translate .b) ∧ g = translate .b f := by
  obtain ⟨all,n,hall,hr⟩ := h.carried .b
  have hmapped : pre ++ [g] <+: all.map (translate .b) := prefix_of_replicate (hr ▸ hpre) hg
  obtain ⟨fs,hfs,hmap⟩ := List.prefix_map_iff.mp hmapped
  obtain ⟨fs,rest,rfl,rfl,hrest⟩ := List.map_eq_append_iff.mp hmap.symm
  obtain ⟨f,rfl,hf⟩ := List.map_eq_singleton_iff.mp hrest
  exact ⟨fs,f,hfs.trans hall,rfl,hf.symm⟩

/-- What B has written for a session begins what its coroutine has submitted. -/
theorem Joined.pump_prefix (h : s.Joined id) (ht : s.visitor.Told) {i : ℕ} (hi : i < s.visitor.sessions.count)
    {fs : List Frame} (hfs : fs <+: s.visitor.wire) :
    fs.filter (ofPump (s.visitor.sessions.key i)) <+: (s.visitor.sessions.cell i).submitted := by
  have hsent := hfs.filter (ofPump (s.visitor.sessions.key i))
  rw [ht.pumped i hi] at hsent
  exact hsent.trans (h.visitor.shipped i hi).1

/-- What the frames of C carry for a session begins what B has read from its client. -/
theorem Joined.requested (h : s.Joined id) (ht : s.visitor.Told) {i : ℕ} (hi : i < s.visitor.sessions.count) :
    dataOf (s.visitor.sessions.key i) s.provider.frames <+: (s.visitor.sessions.cell i).socket.read := by
  obtain ⟨fs,n,hfs,hr⟩ := h.carried .b
  have hframes : s.provider.frames <+: (s.received id Role.b.opposite).tail := h.down .c
  have hnone : dataOf (s.visitor.sessions.key i) (List.replicate n eofFrame) = [] :=
    List.flatMap_eq_nil_iff.mpr fun f hf => by rw [List.eq_of_mem_replicate hf]; exact payload_of_ne_data _ nofun
  have hdata := prefix_dataOf (u := s.visitor.sessions.key i) hframes
  rw [hr, dataOf_append, hnone, List.append_nil, dataOf_translate] at hdata
  have hsubmitted := prefix_dataOf (u := s.visitor.sessions.key i) (h.pump_prefix ht hi hfs)
  rw [dataOf_ofPump, ht.reads i hi] at hsubmitted
  exact hdata.trans hsubmitted

/-- All of it where its `DATA_EOF` has come. -/
theorem Joined.request_eof (h : s.Joined id) (ht : s.visitor.Told) {i : ℕ} (hi : i < s.visitor.sessions.count)
    (hmem : dataEofFrame (s.visitor.sessions.key i) ∈ s.provider.frames) :
    dataBeforeEof (s.visitor.sessions.key i) s.provider.frames = (s.visitor.sessions.cell i).socket.read := by
  obtain ⟨fs,f,hfs,hpre,hf⟩ := h.origin ((frames_before_eof hmem).trans (h.down .c)) (by simp [dataEofFrame, eofFrame])
  obtain rfl := eq_of_translate hf.symm (by simp [dataEofFrame])
  have hkey : ofPump (s.visitor.sessions.key i) (dataEofFrame (s.visitor.sessions.key i)) = true :=
    decide_eq_true ⟨visitorKey_of_uuid (h.visitor.sized i hi),by simp [dataEofFrame]⟩
  have hsent := h.pump_prefix ht hi hfs
  rw [List.filter_append, List.filter_cons_of_pos hkey, List.filter_nil] at hsent
  have hlast := (h.visitor.pumps i hi).eof_last (by simp [newSessionFrame]) hsent rfl
  rw [dataBeforeEof, hpre, dataOf_translate, ← ht.reads i hi, ← hlast, dataOf_append, dataOf_ofPump, dataOf_singleton,
    payload_of_ne_data _ (by simp [dataEofFrame]), List.append_nil]

/-- A session C has was announced by B. -/
theorem Joined.requester (h : s.Joined id) {j : ℕ} (hj : j < s.provider.sessions.count) :
    ∃ i < s.visitor.sessions.count, s.visitor.sessions.key i = s.provider.sessions.key j := by
  obtain ⟨f,hf,hm,hbody⟩ := h.provider.forwarded j hj
  obtain ⟨i,hi,hk⟩ := h.announced ((h.down .c).subset hf) hm
  exact ⟨i,hi,hk.trans hbody⟩

/-- Nothing comes to C for a session before its `FORWARD_SESSION`. -/
theorem Joined.none_before (h : s.Joined id) (ht : s.visitor.Told) {f : Frame}
    (hf : s.provider.frames ++ [f] <+: (s.received id .c).tail) (hm : f.method = .forwardSession) :
    dataOf f.body s.provider.frames = [] := by
  obtain ⟨i,hi,hk⟩ := h.announced (hf.subset (List.mem_append_right _ (List.mem_singleton_self f))) hm
  obtain ⟨fs,g,hfs,hpre,rfl⟩ := h.origin hf fun he => by simp [he, eofFrame] at hm
  have hnew : g.method = .newSession := by
    by_contra hne
    rw [translate, if_neg fun h => hne h.1] at hm
    exact h.not_forward (hfs.subset (List.mem_append_right _ (List.mem_singleton_self g))) hm
  have hbody : (translate .b g).body = g.body := by rw [translate, if_pos ⟨hnew,rfl⟩]
  have hkey : ofPump (s.visitor.sessions.key i) g = true := by
    obtain ⟨m,body⟩ := g
    obtain rfl : s.visitor.sessions.key i = body := hk.trans hbody
    exact decide_eq_true ⟨visitorKey_of_uuid (h.visitor.sized i hi),by simp [show m = .newSession from hnew]⟩
  have hsent := h.pump_prefix ht hi hfs
  rw [List.filter_append, List.filter_cons_of_pos hkey, List.filter_nil] at hsent
  have hnone := (h.visitor.pumps i hi).new_first hsent hnew
  rw [← hk, hpre, dataOf_translate, ← dataOf_ofPump, hnone, dataOf_nil]

/-- What has come through in both directions. -/
structure Requested (id : MatchId) (s : System) : Prop where
  joined : s.Joined id
  told : s.visitor.Told

theorem step_requested (h : s.Requested id) (hd : s.Delivers id e) (hs : s.step id e = some t) : t.Requested id := by
  refine ⟨step_joined h.joined hd hs,?_⟩
  cases e with
  | visitor e =>
    obtain ⟨v,hv,rfl⟩ := Option.map_eq_some_iff.mp hs
    exact Visitor.step_told h.told h.joined.visitor (h.joined.visitor_sized hd) hv
  | server e =>
    obtain ⟨a,-,rfl⟩ := Option.map_eq_some_iff.mp hs
    exact h.told
  | provider e =>
    obtain ⟨p,-,rfl⟩ := Option.map_eq_some_iff.mp hs
    exact h.told

/-- What holds of a session C has just been told of, and is kept by every move, holds of each
of its sessions in a run of the three nodes. -/
theorem run_requested {ok : System → SystemEvent → Prop} {P : Uuid → View SessionState → Prop}
    {events : List SystemEvent} (hrun : run (step id) {} events = some s) (hm : Meets (step id) ok {} events)
    (hok : ∀ s e, ok s e → s.Delivers id e)
    (hborn : ∀ {u v}, v.session = .connect → v.entered = true → v.pending = none → dataOf u v.frames = [] → P u v)
    (hmoves : ∀ {s : System} {j e v}, ok s (.provider e) → P (s.provider.sessions.key j) (s.provider.view j) →
      Provider.Moves s.provider j e v → P (s.provider.sessions.key j) v) :
    s.Requested id ∧ ∀ j < s.provider.sessions.count, P (s.provider.sessions.key j) (s.provider.view j) := by
  let Q : System → Prop := fun s =>
    s.Requested id ∧ ∀ j < s.provider.sessions.count, P (s.provider.sessions.key j) (s.provider.view j)
  have hno : ∀ {p : ℕ → Prop} (i : ℕ), i < 0 → p i := fun i hi => absurd hi (Nat.not_lt_zero i)
  have h0 : Q {} := ⟨⟨empty_joined id,⟨hno,hno⟩⟩,hno⟩
  refine (hm.reach hrun).invariant h0 fun {s t e} hQ ha hs => ?_
  have hd := hok s e ha
  refine ⟨step_requested hQ.1 hd hs,fun j hj => ?_⟩
  cases e with
  | visitor e =>
    obtain ⟨v,-,rfl⟩ := Option.map_eq_some_iff.mp hs
    exact hQ.2 j hj
  | server e =>
    obtain ⟨a,-,rfl⟩ := Option.map_eq_some_iff.mp hs
    exact hQ.2 j hj
  | provider e =>
    obtain ⟨p,hp,rfl⟩ := Option.map_eq_some_iff.mp hs
    have hjoined := hQ.1.joined
    have hc := Provider.step_carries hjoined.provider.distinct (hjoined.provider_sized hd).fresh hp
    obtain ⟨hj',hk,hmv⟩ | ⟨-,f,rfl,hmf,hk,hv⟩ := hc.view j hj
    · exact hk ▸ hmoves ha (hQ.2 j hj') hmv
    · have hnone := hjoined.none_before hQ.1.told hd hmf
      apply hborn <;> simp only [hv]
      rw [hk, dataOf_append, hnone, dataOf_singleton]
      exact payload_of_ne_data _ (by simp [hmf])

/-- C takes a frame for a session with a remote only when the arrival buffer is drained. -/
def Drained (s : System) : SystemEvent → Prop
  | .provider e => s.provider.Drained e
  | _ => True

instance (s : System) (e : SystemEvent) : Decidable (s.Drained e) :=
  match e with
  | .provider (.read (.frame f)) =>
    decidable_of_iff (f.method = .data ∨ f.method = .dataEof → ∀ i < s.provider.sessions.count,
      s.provider.sessions.Entered i → providerKey f = some (s.provider.sessions.key i) →
      (s.provider.sessions.cell i).remoteConnected = true → (s.provider.sessions.cell i).arrivalBuffer = [])
      ⟨fun h hm i he => h hm i he.lt he,fun h hm i _ => h hm i⟩
  | .visitor _ | .server _ | .provider (.read .nullopt) | .provider (.read .thrown) | .provider (.transferred _)
  | .provider .writeFailed | .provider (.session _ _) | .provider (.transmit _) => inferInstanceAs (Decidable True)

/-- In every run of the three nodes in which C finds the arrival buffers drained, the remote
of a session has been written a prefix of what B has read from the client of that session,
and is shut down only when it has been written all of it. -/
theorem requests_delivered {events : List SystemEvent} (hrun : run (step id) {} events = some s)
    (hm : Meets (step id) (fun s e => s.Delivers id e ∧ s.Drained e) {} events) :
    ∀ j < s.provider.sessions.count, ∃ i < s.visitor.sessions.count,
      s.visitor.sessions.key i = s.provider.sessions.key j ∧
      (s.provider.sessions.cell j).socket.written <+: (s.visitor.sessions.cell i).socket.read ∧
      ((s.provider.sessions.cell j).socket.shutdownSend = true →
        (s.provider.sessions.cell j).socket.written = (s.visitor.sessions.cell i).socket.read) := by
  have hborn : ∀ {u : Uuid} {v : View SessionState}, v.session = .connect → v.entered = true → v.pending = none →
      dataOf u v.frames = [] → Provider.Ordered u v := by
    intro u v hx he hp hnone
    constructor <;> simp [hx, hp, hnone, SessionState.connect, SessionState.Placed, SessionState.backlog]
  obtain ⟨⟨h,ht⟩,hordered⟩ := run_requested (P := Provider.Ordered) hrun hm (fun s e => And.left) hborn
    fun hok hp hmv => hmv.ordered hp hok.2
  intro j hj
  obtain ⟨i,hi,hk⟩ := h.requester hj
  have hord := (hordered j hj).inOrder
  have hread := h.requested ht hi
  rw [hk] at hread
  refine ⟨i,hi,hk,hord.1.trans hread,fun hshut => ?_⟩
  have hmem := h.provider.eof j hj (.inr hshut)
  have hall := h.request_eof ht hi (hk ▸ hmem)
  have hback := hord.2.2 hshut
  rw [← hk, hall] at hback
  exact (hord.1.trans hread).eq_of_length_le hback.length_le

/-- The client of the second session sends a byte, the other one a byte and its end. -/
def requested : List SystemEvent :=
  opened ++ second ++ [.visitor (.session 1 (.readSome (.data (text "r")))),
    .visitor (.session 0 (.readSome (.data (text "q")))), .visitor (.transmit 0), .visitor (.transmit 1),
    .visitor (.session 0 .sent), .visitor (.session 0 (.readSome .eof)), .visitor (.transmit 0),
    .server (.pair (text "x") (.pump .b (.read (buildFrameBytes .data (uuidS ++ text "q"))))),
    .server (.pair (text "x") (.pump .b .writeOk)),
    .server (.pair (text "x") (.pump .b (.read (buildFrameBytes .data (uuidT ++ text "r"))))),
    .server (.pair (text "x") (.pump .b .writeOk)),
    .server (.pair (text "x") (.pump .b (.read (buildFrameBytes .dataEof uuidS)))),
    .server (.pair (text "x") (.pump .b .writeOk)), .provider (.read (.frame (dataFrame uuidS (text "q")))),
    .provider (.transferred 1), .provider (.read (.frame (dataFrame uuidT (text "r")))), .provider (.transferred 1),
    .provider (.read (.frame (dataEofFrame uuidS)))]

theorem requests_delivered_requested : ∃ s, run (step (text "x")) {} requested = some s ∧
    (s.provider.sessions.cell 0).socket.shutdownSend = true ∧ (s.provider.sessions.cell 1).socket.written = text "r" ∧
    (∃ i < s.visitor.sessions.count, (s.provider.sessions.cell 0).socket.written = (s.visitor.sessions.cell i).socket.read) ∧
    ∃ i < s.visitor.sessions.count, s.visitor.sessions.key i = uuidT ∧ text "r" <+: (s.visitor.sessions.cell i).socket.read := by
  have hend : (run (step (text "x")) {} requested).map (fun s => decide (s.provider.sessions.count = 2 ∧
      (s.provider.sessions.cell 0).socket.shutdownSend = true ∧ s.provider.sessions.key 1 = uuidT ∧
      (s.provider.sessions.cell 1).socket.written = text "r")) = some true := by decide +kernel
  obtain ⟨s,hrun,hs⟩ := Option.map_eq_some_iff.mp hend
  obtain ⟨hcount,hshut,hkey,hwritten⟩ := of_decide_eq_true hs
  have hm : Meets (step (text "x")) (fun s e => s.Delivers (text "x") e ∧ s.Drained e) {} requested :=
    .of_follows (by decide +kernel)
  obtain ⟨i,hi,-,-,hall⟩ := requests_delivered hrun hm 0 (by omega)
  obtain ⟨k,hk,hkk,hpre,-⟩ := requests_delivered hrun hm 1 (by omega)
  exact ⟨s,hrun,hshut,hwritten,⟨i,hi,hall hshut⟩,k,hk,hkk.trans hkey,hwritten ▸ hpre⟩

end System

end Msg801.Relay
