import Msg801.Relay.System

/-! # What the ends of reads are told as

A read of a pump ends with bytes, with the end of the stream, or with an error. Both pumps
tell an error as the end of the stream, and the far node then shuts its socket down as if the
peer had finished.
-/
namespace Msg801.Relay
open Transition

/-- A read that gives bytes, or finds the end of the stream. -/
def ReadSome.Clean (r : ReadSome) : Prop := r ≠ .error ∧ r ≠ .data []

namespace SessionEnd

/-- The frame that tells the result of a read as it is. -/
def reportFrame (uuid : Uuid) : ReadSome → Frame
  | .data bytes => dataFrame uuid bytes
  | .eof => dataEofFrame uuid
  | .error => sessionCloseFrame uuid

/-- The frame comes from the loop of the pump. -/
def OfPump (f : Frame) : Prop := f.method = .data ∨ f.method = .dataEof ∨ f.method = .sessionClose

instance (f : Frame) : Decidable (OfPump f) := inferInstanceAs (Decidable (_ ∨ _))

/-- What the pump has sent behind the opening of the session. -/
def pumped (x : SessionEnd) : List Frame := x.submitted.filter (OfPump ·)

/-- The pump has told every result of a read as it is, and a session whose last read ended
with an error is marked closed when the pump is at its end. -/
def Reports (x : SessionEnd) (uuid : Uuid) (rs : List ReadSome) : Prop :=
  x.pumped = rs.map (reportFrame uuid) ∧ (.error ∈ rs → x.pc = .ended → x.closed = true)

variable {x : SessionEnd} {u : Uuid} {rs : List ReadSome}

theorem readFrame_ofPump (u : Uuid) (r : ReadSome) : OfPump (readFrame u r) := by
  rcases readFrame_method u r with h | h | h <;> simp [OfPump, h]

/-- The pump sends one frame for each result. -/
theorem pumped_onRead (x : SessionEnd) (u : Uuid) (r : ReadSome) :
    ((x.receive r).onRead u r).pumped = x.pumped ++ [readFrame u r] := by
  obtain ⟨-,hsub,-⟩ := (x.receive r).onRead_frame u r
  rw [pumped, hsub, List.filter_append, List.filter_cons_of_pos (by simpa using readFrame_ofPump u r)]
  rfl

theorem readFrame_eq_reportFrame_iff (u : Uuid) (r : ReadSome) : readFrame u r = reportFrame u r ↔ r.Clean := by
  rcases r with (_ | ⟨b,d⟩) | _ | _
  · simp [readFrame, reportFrame, ReadSome.bytes, ReadSome.Clean, dataFrame]
  · exact iff_of_true rfl ⟨by rintro ⟨⟩,by rintro ⟨⟩⟩
  · exact iff_of_true rfl ⟨by rintro ⟨⟩,by rintro ⟨⟩⟩
  · simp [readFrame, reportFrame, ReadSome.Clean, ReadSome.bytes, sessionCloseFrame]

/-- The results are told as they are exactly when none is an error. -/
theorem reports_iff (h : x.pumped = rs.map (readFrame u)) : x.Reports u rs ↔ ∀ r ∈ rs, r.Clean := by
  rw [Reports, h, List.map_inj_left]
  constructor
  · intro hr r hmem
    exact (readFrame_eq_reportFrame_iff u r).mp (hr.1 r hmem)
  · intro hr
    exact ⟨fun r hmem => (readFrame_eq_reportFrame_iff u r).mpr (hr r hmem),fun herr => absurd rfl (hr _ herr).1⟩

/-- Where no read ended with an error `DATA_EOF` tells the end of the stream. -/
theorem eof_of_pumped (h : x.pumped = rs.map (readFrame u)) (hr : ∀ r ∈ rs, r.Clean) {f : Frame}
    (hf : f ∈ x.submitted) (hm : f.method = .dataEof) : .eof ∈ rs := by
  have hmem : f ∈ x.pumped := List.mem_filter.mpr ⟨hf,by simp [OfPump, hm]⟩
  rw [h] at hmem
  obtain ⟨r,hrs,rfl⟩ := List.mem_map.mp hmem
  rw [(readFrame_eq_reportFrame_iff u r).mpr (hr r hrs)] at hm
  cases r with
  | eof => exact hrs
  | data => cases hm
  | error => cases hm

end SessionEnd

/-- The result a step of a session's coroutine has got from its socket. -/
def SessionEvent.results : SessionEvent → List ReadSome
  | .readSome r => [r]
  | _ => []

namespace Visitor

/-- The results of the reads on the client `i`. -/
def results (i : ℕ) : VisitorEvent → List ReadSome
  | .session j e => if j = i then e.results else []
  | _ => []

variable {s t : Visitor} {e : VisitorEvent} {i : ℕ}

theorem results_eq_nil (h : ∀ r, e ≠ .session i (.readSome r)) : results i e = [] := by
  cases e with
  | session j e =>
    rw [results]
    split_ifs with hj
    · subst hj
      cases e with
      | readSome r => exact absurd rfl (h r)
      | _ => rfl
    · rfl
  | _ => rfl

/-- A step adds to what a pump has sent the frame for the result it has read. -/
theorem step_pumped (hb : s.Bounded) (hs : s.step e = some t) (hi : i < s.sessions.count) :
    (t.sessions.cell i).pumped =
      (s.sessions.cell i).pumped ++ (results i e).map (SessionEnd.readFrame (s.sessions.key i)) := by
  by_cases hread : ∃ r, e = .session i (.readSome r)
  · obtain ⟨r,rfl⟩ := hread
    cases step_turn hs with
    | resumed _ _ x _ hx =>
      rw [onResumed, SharedMap.put_cell_self]
      cases ClientSession.resume_resumes hx with
      | read r hpc =>
        apply (SessionEnd.pumped_onRead (s.sessions.cell i) (s.sessions.key i) r).trans
        simp [results, SessionEvent.results]
  · have hno : ∀ r, e ≠ .session i (.readSome r) := fun r he => hread ⟨r,he⟩
    obtain ⟨-,v,hm,hv⟩ := (step_drifts hb hs).move hi
    have hcell : t.sessions.cell i = v.session := hv.session
    rw [results_eq_nil hno, List.map_nil, List.append_nil, hcell, SessionEnd.pumped, SessionEnd.pumped]
    rcases hm.reads with ⟨-,hsub⟩ | ⟨r,he,-⟩
    · rw [hsub]
    · exact absurd he (hno r)

/-- The pump of every client sends one frame for each result it reads. -/
theorem run_pumped {events : List VisitorEvent} (hrun : run step {} events = some s) {i : ℕ}
    (hi : i < s.sessions.count) : (s.sessions.cell i).pumped =
      (events.flatMap (results i)).map (SessionEnd.readFrame (s.sessions.key i)) := by
  let P : List ReadSome → Visitor → Prop := fun rs s => s.Bounded ∧ (s.sessions.count ≤ i → rs = []) ∧
    (i < s.sessions.count → (s.sessions.cell i).pumped = rs.map (SessionEnd.readFrame (s.sessions.key i)))
  have hall : P (events.flatMap (results i)) s := by
    rw [← outputs_eq_flatMap hrun (results i)]
    have hany : Meets step (fun _ _ => True) {} events := fun _ _ _ _ _ _ => trivial
    refine outputs_invariant (P := P) hrun hany ⟨empty_bounded,fun _ => rfl,nofun⟩ fun {rs s t e} h _ hs => ?_
    obtain ⟨hb,hnew,hold⟩ := h
    have hd := step_drifts hb hs
    have hnone : s.sessions.count ≤ i → results i e = [] := by
      intro hi
      apply results_eq_nil
      rintro r rfl
      exact Nat.not_lt.mpr hi (lt_of_session hs)
    refine ⟨hd.bounded,fun hi => ?_,fun hi => ?_⟩
    · have hi' := hd.count.trans hi
      rw [hnew hi', hnone hi', List.append_nil]
    · by_cases hi' : i < s.sessions.count
      · rw [step_pumped hb hs hi', hold hi', (hd.move hi').1, List.map_append]
      · have hi'' := Nat.le_of_not_lt hi'
        obtain ⟨hlt,-⟩ | ⟨-,u,-,hk,hv⟩ := hd.view i hi
        · exact absurd hlt hi'
        · have hcell : t.sessions.cell i = .accepted u := congrArg View.session hv
          rw [hnew hi'', hnone hi'', hcell]
          rfl
  exact hall.2.2 hi

end Visitor

namespace Provider

/-- The results of the reads on the remote `i`. -/
def results (i : ℕ) : ProviderEvent → List ReadSome
  | .session j e => if j = i then e.results else []
  | _ => []

variable {s t : Provider} {e : ProviderEvent} {i : ℕ}

theorem results_eq_nil (h : ∀ r, e ≠ .session i (.readSome r)) : results i e = [] := by
  cases e with
  | session j e =>
    rw [results]
    split_ifs with hj
    · subst hj
      cases e with
      | readSome r => exact absurd rfl (h r)
      | _ => rfl
    · rfl
  | _ => rfl

theorem step_pumped (hs : s.step e = some t) (hi : i < s.sessions.count) : (t.sessions.cell i).pumped =
    (s.sessions.cell i).pumped ++ (results i e).map (SessionEnd.readFrame (s.sessions.key i)) := by
  by_cases hread : ∃ r, e = .session i (.readSome r)
  · obtain ⟨r,rfl⟩ := hread
    cases step_turn hs with
    | resumed _ _ x _ hx =>
      rw [onResumed, SharedMap.put_cell_self]
      cases SessionState.resume_resumes hx with
      | read r hpc =>
        apply (SessionEnd.pumped_onRead (s.sessions.cell i).toSessionEnd (s.sessions.key i) r).trans
        simp [results, SessionEvent.results]
  · have hno : ∀ r, e ≠ .session i (.readSome r) := fun r he => hread ⟨r,he⟩
    obtain ⟨-,v,hm,hv⟩ := (step_drifts hs).move hi
    have hcell : t.sessions.cell i = v.session := hv.session
    rw [results_eq_nil hno, List.map_nil, List.append_nil, hcell, SessionEnd.pumped, SessionEnd.pumped]
    rcases hm.reads with ⟨-,hsub⟩ | ⟨f,hf,-,-,hsub⟩ | ⟨r,he,-⟩
    · rw [hsub]
    · -- the answer to B is not the pump's
      have hout : ¬SessionEnd.OfPump f := by
        rcases hf with rfl | rfl <;> simp [SessionEnd.OfPump, sessionOkFrame, sessionErrFrame]
      rw [hsub, List.filter_append, List.filter_cons_of_neg (by simpa using hout), List.filter_nil, List.append_nil]
    · exact absurd he (hno r)

/-- The pump of every remote sends one frame for each result it reads. -/
theorem run_pumped {events : List ProviderEvent} (hrun : run step {} events = some s) {i : ℕ}
    (hi : i < s.sessions.count) : (s.sessions.cell i).pumped =
      (events.flatMap (results i)).map (SessionEnd.readFrame (s.sessions.key i)) := by
  let P : List ReadSome → Provider → Prop := fun rs s => (s.sessions.count ≤ i → rs = []) ∧
    (i < s.sessions.count → (s.sessions.cell i).pumped = rs.map (SessionEnd.readFrame (s.sessions.key i)))
  have hall : P (events.flatMap (results i)) s := by
    rw [← outputs_eq_flatMap hrun (results i)]
    have hany : Meets step (fun _ _ => True) {} events := fun _ _ _ _ _ _ => trivial
    refine outputs_invariant (P := P) hrun hany ⟨fun _ => rfl,nofun⟩ fun {rs s t e} h _ hs => ?_
    obtain ⟨hnew,hold⟩ := h
    have hd := step_drifts hs
    have hnone : s.sessions.count ≤ i → results i e = [] := by
      intro hi
      apply results_eq_nil
      rintro r rfl
      exact Nat.not_lt.mpr hi (lt_of_session hs)
    refine ⟨fun hi => ?_,fun hi => ?_⟩
    · have hi' := hd.count.trans hi
      rw [hnew hi', hnone hi', List.append_nil]
    · by_cases hi' : i < s.sessions.count
      · rw [step_pumped hs hi', hold hi', (hd.move hi').1, List.map_append]
      · have hi'' := Nat.le_of_not_lt hi'
        obtain ⟨hlt,-⟩ | ⟨-,f,-,-,hk,hv⟩ := hd.view i hi
        · exact absurd hlt hi'
        · have hcell : t.sessions.cell i = .connect := congrArg View.session hv
          rw [hnew hi'', hnone hi'', hcell]
          rfl
  exact hall.2 hi

end Provider

namespace System
variable {id : MatchId} {s : System} {i j : ℕ}

/-- The steps of B in a run of the three nodes. -/
def ofVisitor : SystemEvent → Option VisitorEvent
  | .visitor e => some e
  | _ => none

/-- The steps of C in a run of the three nodes. -/
def ofProvider : SystemEvent → Option ProviderEvent
  | .provider e => some e
  | _ => none

/-- A run of the three nodes is a run of each. -/
theorem run_nodes {events : List SystemEvent} {s t : System} (hrun : run (step id) s events = some t) :
    run Visitor.step s.visitor (events.filterMap ofVisitor) = some t.visitor ∧
      run Provider.step s.provider (events.filterMap ofProvider) = some t.provider := by
  induction events generalizing s with
  | nil =>
    obtain rfl := Option.some.inj hrun
    exact ⟨rfl,rfl⟩
  | cons e events ih =>
    rw [run_cons, Option.bind_eq_some_iff] at hrun
    obtain ⟨u,hu,hrun⟩ := hrun
    obtain ⟨hv,hp⟩ := ih hrun
    cases e with
    | visitor e =>
      obtain ⟨v,he,rfl⟩ := Option.map_eq_some_iff.mp hu
      exact ⟨by simpa [ofVisitor, he] using hv,hp⟩
    | server e =>
      obtain ⟨a,he,rfl⟩ := Option.map_eq_some_iff.mp hu
      exact ⟨hv,hp⟩
    | provider e =>
      obtain ⟨p,he,rfl⟩ := Option.map_eq_some_iff.mp hu
      exact ⟨hv,by simpa [ofProvider, he] using hp⟩

theorem Joined.client_eof (h : s.Joined id) (hi : i < s.visitor.sessions.count) (hj : j < s.provider.sessions.count)
    (hk : s.provider.sessions.key j = s.visitor.sessions.key i)
    (hshut : (s.provider.sessions.cell j).socket.shutdownSend = true) :
    ∃ f ∈ (s.visitor.sessions.cell i).submitted, f.method = .dataEof := by
  have hmem := h.provider.eof j hj (.inr hshut)
  rcases h.of_received (r := .b) ((h.down .c).subset hmem) with heof | ⟨f,hf,htr⟩
  · cases heof
  · have hfe : f = dataEofFrame (s.provider.sessions.key j) := by
      rw [translate] at htr
      split_ifs at htr
      · cases congrArg Frame.method htr
      · exact htr.symm
    rcases h.visitor.wire f hf with hm | ⟨k,hkc,hsub⟩
    · simp [hfe, dataEofFrame] at hm
    · have hkey : dataEofFrame (s.provider.sessions.key j) = dataEofFrame (s.visitor.sessions.key k) := by
        rcases (h.visitor.pumps k hkc).mem hsub with hn | ⟨d,hn⟩ | hn
        · cases congrArg Frame.method (hfe.symm.trans hn)
        · cases congrArg Frame.method (hfe.symm.trans hn)
        · exact hfe.symm.trans hn
      have hki : k = i := h.visitor.distinct k i hkc hi ((congrArg Frame.body hkey).symm.trans hk)
      exact ⟨f,hki ▸ hsub,by rw [hfe]; rfl⟩

theorem Joined.remote_eof (h : s.Joined id) (hi : i < s.visitor.sessions.count) (hj : j < s.provider.sessions.count)
    (hk : s.provider.sessions.key j = s.visitor.sessions.key i)
    (hshut : (s.visitor.sessions.cell i).socket.shutdownSend = true) :
    ∃ f ∈ (s.provider.sessions.cell j).submitted, f.method = .dataEof := by
  obtain ⟨pre,g,hpre,hg,hkg,-⟩ := (h.visitor.ordered i hi).shut hshut
  have hne : g ≠ eofFrame := by
    rintro rfl
    cases hg
  have hwire := (h.prefix_wire hpre hne).subset (List.mem_append_right _ (List.mem_singleton_self g))
  have hsent : g ∈ (s.provider.sessions.cell j).sent := by
    rw [← h.provider.posted j hj]
    exact List.mem_filter.mpr ⟨hwire,by simpa [hk] using hkg⟩
  exact ⟨g,(h.provider.shipped j hj).1.subset hsent,hg⟩

end System

/-- At both nodes a pump tells the results of its reads as they are exactly when none of them
is an error, and where none is the socket of the far node is shut down only if the stream of
the near one has ended. -/
theorem read_results_told (eventsB : List VisitorEvent) (eventsC : List ProviderEvent)
    (id : MatchId) (events : List SystemEvent) :
    (∀ s, run Visitor.step {} eventsB = some s → ∀ i < s.sessions.count,
      ((s.sessions.cell i).Reports (s.sessions.key i) (eventsB.flatMap (Visitor.results i)) ↔
        ∀ r ∈ eventsB.flatMap (Visitor.results i), r.Clean)) ∧
    (∀ s, run Provider.step {} eventsC = some s → ∀ i < s.sessions.count,
      ((s.sessions.cell i).Reports (s.sessions.key i) (eventsC.flatMap (Provider.results i)) ↔
        ∀ r ∈ eventsC.flatMap (Provider.results i), r.Clean)) ∧
    ∀ s, run (System.step id) {} events = some s → Meets (System.step id) (System.Delivers id) {} events →
      ∀ i < s.visitor.sessions.count, ∀ j < s.provider.sessions.count,
        s.provider.sessions.key j = s.visitor.sessions.key i →
        ((∀ r ∈ (events.filterMap System.ofVisitor).flatMap (Visitor.results i), r.Clean) →
          (s.provider.sessions.cell j).socket.shutdownSend = true →
          .eof ∈ (events.filterMap System.ofVisitor).flatMap (Visitor.results i)) ∧
        ((∀ r ∈ (events.filterMap System.ofProvider).flatMap (Provider.results j), r.Clean) →
          (s.visitor.sessions.cell i).socket.shutdownSend = true →
          .eof ∈ (events.filterMap System.ofProvider).flatMap (Provider.results j)) := by
  refine ⟨fun s hrun i hi => SessionEnd.reports_iff (Visitor.run_pumped hrun hi),
    fun s hrun i hi => SessionEnd.reports_iff (Provider.run_pumped hrun hi),fun s hrun hm i hi j hj hk => ?_⟩
  have h := System.run_joined hrun hm
  obtain ⟨hv,hp⟩ := System.run_nodes hrun
  constructor
  · intro hclean hshut
    obtain ⟨f,hf,hmf⟩ := h.client_eof hi hj hk hshut
    exact SessionEnd.eof_of_pumped (Visitor.run_pumped hv hi) hclean hf hmf
  · intro hclean hshut
    obtain ⟨f,hf,hmf⟩ := h.remote_eof hi hj hk hshut
    exact SessionEnd.eof_of_pumped (Provider.run_pumped hp hj) hclean hf hmf

/-- There are two sessions. The client of the first sends two bytes, and then its stream breaks
off, or ends. -/
def lastRead (r : ReadSome) : List SystemEvent :=
  System.opened ++ System.second ++ [.visitor (.session 0 (.readSome (.data (text "ab")))), .visitor (.transmit 0),
    .visitor (.session 0 .sent), .visitor (.session 0 (.readSome r)), .visitor (.transmit 0),
    .server (.pair (text "x") (.pump .b (.read (buildFrameBytes .data (System.uuidS ++ text "ab"))))),
    .server (.pair (text "x") (.pump .b .writeOk)),
    .server (.pair (text "x") (.pump .b (.read (buildFrameBytes .dataEof System.uuidS)))),
    .server (.pair (text "x") (.pump .b .writeOk)), .provider (.read (.frame (dataFrame System.uuidS (text "ab")))),
    .provider (.transferred 2), .provider (.read (.frame (dataEofFrame System.uuidS)))]

theorem lastRead_shutdown {r : ReadSome} (hr : r = .eof ∨ r = .error) : ∃ s,
    run (System.step (text "x")) {} (lastRead r) = some s ∧
      Meets (System.step (text "x")) (System.Delivers (text "x")) {} (lastRead r) ∧
      0 < s.visitor.sessions.count ∧ 0 < s.provider.sessions.count ∧
      s.provider.sessions.key 0 = s.visitor.sessions.key 0 ∧
      (s.provider.sessions.cell 0).socket.shutdownSend = true := by
  have hend : (run (System.step (text "x")) {} (lastRead r)).map (fun s =>
      (s.visitor.sessions.count,s.provider.sessions.count,s.provider.sessions.key 0,s.visitor.sessions.key 0,
        (s.provider.sessions.cell 0).socket.shutdownSend)) = some (2,2,System.uuidS,System.uuidS,true) := by
    rcases hr with rfl | rfl <;> decide +kernel
  have hm : Meets (System.step (text "x")) (System.Delivers (text "x")) {} (lastRead r) := by
    rcases hr with rfl | rfl <;> exact .of_follows (by decide +kernel)
  obtain ⟨s,hrun,hs⟩ := Option.map_eq_some_iff.mp hend
  obtain ⟨hv,hp,hkp,hkv,hshut⟩ : _ ∧ _ ∧ _ ∧ _ ∧ _ := by simpa only [Prod.mk.injEq] using hs
  exact ⟨s,hrun,hm,by omega,by omega,hkp.trans hkv.symm,hshut⟩

theorem lastRead_results (r : ReadSome) :
    ((lastRead r).filterMap System.ofVisitor).flatMap (Visitor.results 0) = [.data (text "ab"),r] := rfl

theorem read_results_told_eof :
    (∃ s, run Visitor.step {} ((lastRead .eof).filterMap System.ofVisitor) = some s ∧
      (s.sessions.cell 0).Reports (s.sessions.key 0) [.data (text "ab"),.eof]) ∧
    (∃ s, run Provider.step {} ((lastRead .eof).filterMap System.ofProvider) = some s ∧
      (s.sessions.cell 0).Reports (s.sessions.key 0) []) ∧
    .eof ∈ ((lastRead .eof).filterMap System.ofVisitor).flatMap (Visitor.results 0) := by
  obtain ⟨s,hrun,hm,hi,hj,hk,hshut⟩ := lastRead_shutdown (.inl rfl : ReadSome.eof = .eof ∨ ReadSome.eof = .error)
  obtain ⟨hv,hp⟩ := System.run_nodes hrun
  have hclean : ∀ r ∈ ((lastRead .eof).filterMap System.ofVisitor).flatMap (Visitor.results 0), r.Clean := by
    rw [lastRead_results]
    simp [ReadSome.Clean, text]
  obtain ⟨htoldB,htoldC,hfar⟩ := read_results_told ((lastRead .eof).filterMap System.ofVisitor)
    ((lastRead .eof).filterMap System.ofProvider) (text "x") (lastRead .eof)
  exact ⟨⟨_,hv,(htoldB _ hv 0 hi).mpr hclean⟩,⟨_,hp,(htoldC _ hp 0 hj).mpr nofun⟩,
    (hfar s hrun hm 0 hi 0 hj hk).1 hclean hshut⟩

/-- The remote breaks off before it has sent anything. -/
def remoteError : List ProviderEvent :=
  [.read (.frame ⟨.forwardSession,System.uuidS⟩), .session 0 (.connected true), .transmit 0, .session 0 .sent,
    .session 0 (.readSome .error)]

/-- An error on the client is told as the end of its stream, and the remote is shut down; an
error on the remote is told as the end of its stream too. -/
theorem readError_told_eof :
    (∃ s, run (System.step (text "x")) {} (lastRead .error) = some s ∧
      Meets (System.step (text "x")) (System.Delivers (text "x")) {} (lastRead .error) ∧
      0 < s.visitor.sessions.count ∧ 0 < s.provider.sessions.count ∧
      s.provider.sessions.key 0 = s.visitor.sessions.key 0 ∧
      ¬(s.visitor.sessions.cell 0).Reports (s.visitor.sessions.key 0)
        (((lastRead .error).filterMap System.ofVisitor).flatMap (Visitor.results 0)) ∧
      (s.provider.sessions.cell 0).socket.shutdownSend = true ∧
      .eof ∉ ((lastRead .error).filterMap System.ofVisitor).flatMap (Visitor.results 0)) ∧
    ∃ s, run Provider.step {} remoteError = some s ∧ 0 < s.sessions.count ∧
      ¬(s.sessions.cell 0).Reports (s.sessions.key 0) (remoteError.flatMap (Provider.results 0)) := by
  constructor
  · obtain ⟨s,hrun,hm,hi,hj,hk,hshut⟩ :=
      lastRead_shutdown (.inr rfl : ReadSome.error = .eof ∨ ReadSome.error = .error)
    refine ⟨s,hrun,hm,hi,hj,hk,fun hrep => ?_,hshut,by rw [lastRead_results]; decide⟩
    have hclean := (SessionEnd.reports_iff (Visitor.run_pumped (System.run_nodes hrun).1 hi)).mp hrep
    exact (hclean .error (by rw [lastRead_results]; decide)).1 rfl
  · obtain ⟨s,hrun,hi⟩ : ∃ s, run Provider.step {} remoteError = some s ∧ 0 < s.sessions.count := ⟨_,rfl,by decide⟩
    refine ⟨s,hrun,hi,fun hrep => ?_⟩
    have hclean := (SessionEnd.reports_iff (Provider.run_pumped hrun hi)).mp hrep
    exact (hclean .error (by decide)).1 rfl

end Msg801.Relay
