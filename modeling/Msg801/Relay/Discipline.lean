import Msg801.Relay.Script

/-! # What is sent for a session, and the finality of its close

The frames of a session come from its coroutine and, at B, from the reader. Once the session
is closed neither is to send anything more or to write to the socket; the coroutine looks at
the flag `closed` only at the head of its loop.
-/
namespace Msg801.Relay
open Transition

/-- An opening frame, payloads, at most one `DATA_EOF` and at most one `SESSION_CLOSE`. -/
def Disciplined (u : Uuid) (first : Frame) (fs : List Frame) : Prop :=
  ∃ (ds : List ByteVector) (eof close : List Frame), eof <+: [dataEofFrame u] ∧ close <+: [sessionCloseFrame u] ∧
    fs = first :: ds.map (dataFrame u) ++ eof ++ close

theorem SessionEnd.Pumps.disciplined {u : Uuid} {first : Frame} {x : SessionEnd} (h : x.Pumps u first)
    {close : List Frame} (hc : close <+: [sessionCloseFrame u]) : Disciplined u first (x.submitted ++ close) := by
  unfold SessionEnd.Pumps at h
  generalize x.pc = pc, x.halfCloseSend = b, x.submitted = fs at h
  cases h with
  | opening | draining => exact ⟨[],[],close,List.nil_prefix,hc,rfl⟩
  | reading ds | stopped ds => exact ⟨ds,[],close,List.nil_prefix,hc,by simp⟩
  | paying ds d => exact ⟨ds ++ [d],[],close,List.nil_prefix,hc,by simp⟩
  | parting ds | parted ds => exact ⟨ds,[dataEofFrame u],close,List.prefix_rfl,hc,rfl⟩

/-- Behind every step that closes a session nothing is submitted for it and nothing is
written to its socket. -/
def CloseIsFinal {σ α : Type*} (step : σ → α → Option σ) (submits : σ → α → List Frame)
    (written : σ → ByteVector) (closes : σ → α → Prop) (init : σ) (events : List α) : Prop :=
  ∀ pre e post, events = pre ++ e :: post → ∀ s t, run step init pre = some s → step s e = some t →
    closes s e → ∀ mid v, mid <+: post → run step t mid = some v →
      outputs step submits t mid = [] ∧ written v = written t

/-- Closing is final where it leads to states in which nothing is submitted and written. -/
theorem closeIsFinal_of {σ α : Type*} {step : σ → α → Option σ} {submits : σ → α → List Frame}
    {written : σ → ByteVector} {closes ok : σ → α → Prop} {init s : σ} {events : List α} {I F : σ → Prop}
    (hrun : run step init events = some s) (hm : Meets step ok init events) (h0 : I init)
    (hI : ∀ {s t e}, I s → ok s e → step s e = some t → I t)
    (hcloses : ∀ {s t e}, I s → ok s e → closes s e → step s e = some t → F t)
    (hF : ∀ {s t e}, I s → F s → ok s e → step s e = some t → F t ∧ submits s e = [] ∧ written t = written s) :
    CloseIsFinal step submits written closes init events := by
  rintro pre e post rfl s t hs ht hc mid v ⟨rest,rfl⟩ hv
  have hIs : I s := (hm.of_append.reach hs).invariant h0 hI
  have hok : ok s e := hm pre e (mid ++ rest) rfl s hs
  have hmt : Meets step ok t mid := by
    have hpre : run step init (pre ++ [e]) = some t := run_append_some.mpr ⟨s,hs,by simp [ht]⟩
    have hm' : Meets step ok init ((pre ++ [e]) ++ (mid ++ rest)) := by simpa using hm
    exact (hm'.of_append_right hpre).of_append
  have hall := outputs_invariant (o := submits) (P := fun h v => h = [] ∧ I v ∧ F v ∧ written v = written t)
    hv hmt ⟨rfl,hI hIs hok ht,hcloses hIs hok hc ht,rfl⟩ fun {h u w a} ⟨hh,hIu,hFu,hw⟩ ha hstep => by
      obtain ⟨hFw,hsub,hw'⟩ := hF hIu hFu ha hstep
      exact ⟨by rw [hh, hsub]; rfl,hI hIu ha hstep,hFw,hw'.trans hw⟩
  exact ⟨hall.1,hall.2.2.2⟩

namespace Visitor

/-- What a step gives to `aconn_write` for the session `i`. -/
def submits (i : ℕ) (s : Visitor) : VisitorEvent → List Frame
  | .accept uuid => if i = s.sessions.count then [newSessionFrame uuid] else []
  | .writeFailed => if (s.reader.pending i).isSome then [sessionCloseFrame (s.sessions.key i)] else []
  | .session j (.readSome r) => if j = i then [SessionEnd.readFrame (s.sessions.key i) r] else []
  | _ => []

/-- The session is closed by a frame the reader takes for it. -/
def Processes (i : ℕ) (s : Visitor) : VisitorEvent → Prop
  | .read (.frame f) => (f.method = .sessionErr ∨ f.method = .sessionClose) ∧ s.sessions.Entered i ∧
    visitorKey f = some (s.sessions.key i)
  | _ => False

/-- `SESSION_CLOSE` or `SESSION_ERR` is sent or processed for the session. -/
def Closes (i : ℕ) (s : Visitor) (e : VisitorEvent) : Prop :=
  (∃ f ∈ s.submits i e, f.method = .sessionErr ∨ f.method = .sessionClose) ∨ s.Processes i e

/-- No pump is in its read when its session is closed, and none comes back to its loop
while the reader sends `SESSION_CLOSE` for it; the acceptor does not fail while the reader
works on a session, and identifiers are new. -/
def Quiet (s : Visitor) : VisitorEvent → Prop
  | .accept uuid => s.sessions.Fresh uuid
  | .acceptFailed => ∀ i, s.reader.pending i = none ∧ s.reader.isClosing i = false
  | .read (.frame f) => ∀ i, s.Processes i (.read (.frame f)) → (s.sessions.cell i).pc ≠ .reading
  | .writeFailed => ∀ i, (s.reader.pending i).isSome = true → (s.sessions.cell i).pc ≠ .reading
  | .session i .sent => s.reader.isClosing i = true →
    (s.sessions.cell i).closed = true ∨ (s.sessions.cell i).halfCloseSend = true
  | _ => True

/-- Neither coroutine will do anything for the session but come to its end. -/
structure Final (v : View ClientSession) : Prop where
  pending : v.pending = none
  away : v.session.pc ≠ .reading
  entered : v.entered = true → v.closing = true
  finished : v.session.closed = true ∨ v.session.pc = .ended ∨ v.entered = true

/-- What has been submitted for the session comes from its pump, and behind that from the
reader; the session the reader writes to is in the table or over. -/
structure Kept (h : List Frame) (u : Uuid) (v : View ClientSession) : Prop where
  pumps : v.session.Pumps u (newSessionFrame u)
  held : v.pending.isSome = true → v.entered = true ∨ v.session.pc = .ended
  submitted : h = v.session.submitted ∨ h = v.session.submitted ++ [sessionCloseFrame u] ∧ Final v

variable {s t : Visitor} {e : VisitorEvent} {i : ℕ} {v : View ClientSession}

theorem Kept.disciplined {h : List Frame} {u : Uuid} (hk : Kept h u v) : Disciplined u (newSessionFrame u) h := by
  rcases hk.submitted with rfl | ⟨rfl,-⟩
  · simpa using hk.pumps.disciplined List.nil_prefix
  · exact hk.pumps.disciplined List.prefix_rfl

/-- A pump that has met the end of its socket sends `DATA_EOF` and no more. -/
theorem parting_of_closeSend {u : Uuid} {x : ClientSession} (h : x.Pumps u (newSessionFrame u)) {f : Frame} {w : Bool}
    (hpc : x.pc = .sending f w) (hs : x.halfCloseSend = true) : f = dataEofFrame u := by
  unfold SessionEnd.Pumps at h
  rw [hpc, hs] at h
  generalize x.submitted = fs at h
  cases h
  rfl

theorem Moves.final (hm : Moves s i e v) (hf : Final (s.view i)) (hq : s.Quiet e)
    (hx : (s.sessions.cell i).Pumps (s.sessions.key i) (newSessionFrame (s.sessions.key i))) :
    Final v ∧ v.session.socket.written = (s.sessions.cell i).socket.written := by
  obtain ⟨hpending,haway,hentered,hover⟩ := hf
  simp only [Node.view_pending, Node.view_session, Node.view_entered, Node.view_closing,
    decide_eq_true_eq] at hpending haway hentered hover
  have hpresent : ∀ {P : Prop}, s.reader.isClosing i = false → s.sessions.Entered i → P := fun hc he =>
    absurd (hc.symm.trans (hentered he)) Bool.false_ne_true
  cases hm with
  | same => exact ⟨⟨hpending,haway,by simpa using hentered,by simpa using hover⟩,rfl⟩
  | passed => exact ⟨⟨hpending,haway,by simpa using hentered,by simpa using hover⟩,rfl⟩
  | resumed e x hr =>
    cases ClientSession.resume_resumes hr with
    | read r hpc => exact absurd hpc haway
    | sent f w hpc =>
      have hended : ((s.sessions.cell i).onSent f).pc = .ended := by
        have hcase : (s.sessions.cell i).closed = true ∨ (s.sessions.cell i).halfCloseSend = true := by
          rcases hover with hc | hend | he
          · exact .inl hc
          · cases hpc.symm.trans hend
          · exact hq (hentered he)
        rcases hcase with hc | hs
        · rcases (s.sessions.cell i).onSent_pc f with hend | ⟨-,-,hopen⟩
          · exact hend
          · cases hc.symm.trans hopen
        · rw [parting_of_closeSend hx hpc hs]
          rfl
      refine ⟨⟨hpending,?_,fun he => ?_,.inr (.inl hended)⟩,?_⟩
      · simp [hended]
      · exact hentered (of_decide_eq_true (Bool.and_eq_true_iff.mp he).1)
      · exact congrArg Socket.written ((s.sessions.cell i).onSent_frame f).1
  | transmitted f hpc =>
    refine ⟨⟨hpending,nofun,by simpa using hentered,?_⟩,rfl⟩
    rcases hover with hc | hend | he
    · exact .inl hc
    · cases hpc.symm.trans hend
    · exact .inr (.inr (decide_eq_true he))
  | taken f hr he => exact hpresent (by simp [hr]) he
  | written n rest hr => simp [hr] at hpending
  | failed rest hr => simp [hr] at hpending
  | dismissed w hr he => exact ⟨⟨hpending,haway,nofun,.inl rfl⟩,rfl⟩
  | staled w hr he =>
    refine ⟨⟨hpending,haway,?_,?_⟩,rfl⟩
    · simp [he]
    · exact hover.imp id fun h => .inl (h.resolve_right he)
  | cut r fs hr =>
    have he : ¬s.sessions.Entered i := hpresent (by simp [hr])
    rw [if_neg he]
    exact ⟨⟨hpending,haway,nofun,hover.imp id fun h => .inl (h.resolve_right he)⟩,rfl⟩
  | shut =>
    have he : ¬s.sessions.Entered i := hpresent (hq i).2
    rw [if_neg he]
    exact ⟨⟨hpending,haway,nofun,hover.imp id fun h => .inl (h.resolve_right he)⟩,rfl⟩

theorem submits_of_final (hf : Final (s.view i)) (hi : i < s.sessions.count) (hs : s.step e = some t) :
    s.submits i e = [] := by
  cases e with
  | accept => exact if_neg (Nat.ne_of_lt hi)
  | writeFailed =>
    have hp : s.reader.pending i = none := hf.pending
    simp [submits, hp]
  | session j e =>
    cases e with
    | readSome r =>
      apply if_neg
      rintro rfl
      cases step_turn hs with
      | resumed _ _ x _ hx =>
        cases ClientSession.resume_resumes hx with
        | read _ hpc => exact hf.away hpc
    | _ => rfl
  | _ => rfl

theorem step_submitted (hb : s.Bounded) (hi : i < s.sessions.count) (hs : s.step e = some t) :
    (t.sessions.cell i).submitted = (s.sessions.cell i).submitted ++
      if e = .writeFailed then [] else s.submits i e := by
  by_cases hj : ∃ e', e = .session i e'
  · obtain ⟨e',rfl⟩ := hj
    cases step_turn hs with
    | resumed _ _ x _ hx =>
      rw [if_neg (by rintro ⟨⟩), onResumed, SharedMap.put_cell_self]
      cases ClientSession.resume_resumes hx with
      | sent f => exact ((s.sessions.cell i).onSent_frame f).2.2.2.1.trans (List.append_nil _).symm
      | read r =>
        simp only [submits, if_true]
        exact (((s.sessions.cell i).receive r).onRead_frame _ r).2.1
  · have hnone : (if e = .writeFailed then [] else s.submits i e) = [] := by
      cases e with
      | accept => simp [submits, Nat.ne_of_lt hi]
      | session j e =>
        have hji : j ≠ i := fun hji => hj ⟨e,by rw [hji]⟩
        cases e <;> simp [submits, hji]
      | _ => rfl
    rw [hnone, List.append_nil]
    obtain ⟨-,v,hm,hv⟩ := (step_drifts hb hs).move hi
    rw [hv.session]
    rcases hm.coroutine with hsteady | ⟨f,-,-,rfl⟩ | ⟨e',x,rfl,-⟩
    · exact hsteady.2.2.1
    · rfl
    · exact absurd ⟨e',rfl⟩ hj

theorem step_writeFailed (hp : (s.reader.pending i).isSome = true) (hs : s.step .writeFailed = some t) :
    t.view i = { s.view i with
      session := (s.sessions.cell i).fail
      pending := none
      closing := true } := by
  cases step_turn hs with
  | failed j rest hr =>
    obtain rfl : j = i := by
      by_contra hji
      simp [hr, ReaderPc.pending_of_ne hji] at hp
    ext <;> simp

/-- The reader writes only to a session that is in the table or over. -/
theorem Moves.held (hm : Moves s i e v) (hq : s.Quiet e)
    (h : (s.reader.pending i).isSome = true → s.sessions.Entered i ∨ (s.sessions.cell i).pc = .ended)
    (hp : v.pending.isSome = true) : v.entered = true ∨ v.session.pc = .ended := by
  cases hm with
  | same | passed => exact (h hp).imp decide_eq_true id
  | written n rest hr => exact (h (by simp [hr])).imp decide_eq_true id
  | transmitted f hpc =>
    rcases h hp with he | hend
    · exact .inl (decide_eq_true he)
    · cases hpc.symm.trans hend
  | resumed e x hx =>
    rcases h hp with he | hend
    · by_cases hover : x.pc = .ended ∧ x.closed = true
      · exact .inr hover.1
      · exact .inl (by simp [he, hover])
    · cases ClientSession.resume_resumes hx with
      | sent f w hpc => cases hpc.symm.trans hend
      | read r hpc => cases hpc.symm.trans hend
  | taken f hr he =>
    dsimp only at hp ⊢
    rw [ClientSession.onFrame] at hp ⊢
    split at hp
    · cases hp
    · exact .inl rfl
    · dsimp only at hp
      split_ifs at hp <;> cases hp
    · cases hp
    · cases hp
  | failed => cases hp
  | dismissed w hr | staled w hr => simp [hr] at hp
  | cut r fs hr => simp [hr] at hp
  | shut => simp [(hq i).1] at hp

/-- What was submitted for the session so far is kept track of. -/
structure Ledger (i : ℕ) (h : List Frame) (s : Visitor) : Prop where
  bounded : s.Bounded
  distinct : s.sessions.Distinct
  kept : i < s.sessions.count → Kept h (s.sessions.key i) (s.view i)
  unborn : s.sessions.count ≤ i → h = []

theorem Quiet.fresh (hq : s.Quiet e) : s.Fresh e := by
  cases e <;> first | exact hq | trivial

/-- A step with what it submits goes into the ledger of a session. -/
theorem Kept.step {h : List Frame} (hk : Kept h (s.sessions.key i) (s.view i)) (hb : s.Bounded)
    (hq : s.Quiet e) (hi : i < s.sessions.count) (hs : s.step e = some t) (hm : Moves s i e (t.view i)) :
    Kept (h ++ s.submits i e) (s.sessions.key i) (t.view i) := by
  have hheld : (s.reader.pending i).isSome = true → s.sessions.Entered i ∨ (s.sessions.cell i).pc = .ended := by
    simpa using hk.held
  refine ⟨hm.pumps rfl hk.pumps,hm.held hq hheld,?_⟩
  by_cases hfail : e = .writeFailed ∧ (s.reader.pending i).isSome = true
  · obtain ⟨rfl,hp⟩ := hfail
    have hsub : h = (s.sessions.cell i).submitted := by
      rcases hk.submitted with hsub | ⟨-,hf⟩
      · exact hsub
      · simp [show s.reader.pending i = none from hf.pending] at hp
    refine .inr ⟨by simp [submits, hp, hsub, step_writeFailed hp hs, SessionEnd.fail],?_⟩
    rw [step_writeFailed hp hs]
    exact ⟨rfl,hq i hp,fun _ => rfl,.inr ((hheld hp).symm.imp id fun he => decide_eq_true he)⟩
  · have hsub : (t.sessions.cell i).submitted = (s.sessions.cell i).submitted ++ s.submits i e := by
      rw [step_submitted hb hi hs]
      split_ifs with hwf
      · have hp : ¬(s.reader.pending i).isSome = true := fun hp => hfail ⟨hwf,hp⟩
        simp [hwf, submits, hp]
      · rfl
    rcases hk.submitted with rfl | ⟨rfl,hf⟩
    · exact .inl hsub.symm
    · refine .inr ⟨?_,(hm.final hf hq hk.pumps).1⟩
      rw [submits_of_final hf hi hs, List.append_nil] at hsub ⊢
      exact congrArg (· ++ _) hsub.symm

theorem step_ledger {h : List Frame} (hl : Ledger i h s) (hq : s.Quiet e) (hs : s.step e = some t) :
    Ledger i (h ++ s.submits i e) t := by
  have hd := step_drifts hl.bounded hs
  have hc := hd.carries hl.distinct hq.fresh
  by_cases hi : i < s.sessions.count
  · refine ⟨hc.bounded,hc.distinct,fun hi' => ?_,fun hi' => absurd (hi.trans_le hd.count) (Nat.not_lt_of_le hi')⟩
    obtain ⟨-,hkey,hm⟩ | ⟨rfl,-⟩ := hc.view i hi'
    · rw [hkey]
      exact (hl.kept hi).step hl.bounded hq hi hs hm
    · exact absurd hi (Nat.lt_irrefl _)
  · obtain rfl := hl.unborn (Nat.le_of_not_lt hi)
    refine ⟨hc.bounded,hc.distinct,fun hi' => ?_,fun hi' => ?_⟩
    · obtain ⟨hi'',-⟩ | ⟨rfl,u,rfl,hkey,hv⟩ := hc.view i hi'
      · exact absurd hi'' hi
      · rw [hkey, hv]
        simp only [submits, if_true, List.nil_append]
        exact ⟨.opening false,nofun,.inl rfl⟩
    · have hpending : s.reader.pending i = none := (hl.bounded i (Nat.le_of_not_lt hi)).1
      cases e with
      | accept u =>
        apply if_neg
        rintro rfl
        cases step_turn hs with
        | accepted => exact absurd hi' (Nat.not_succ_le_self _)
      | writeFailed => simp [submits, hpending]
      | session j e =>
        have hji : j ≠ i := by
          rintro rfl
          exact hi (lt_of_session hs)
        cases e <;> simp [submits, hji]
      | _ => rfl

theorem final_of_closes {h : List Frame} (hl : Ledger i h s) (hq : s.Quiet e) (hc : s.Closes i e)
    (hi : i < s.sessions.count) (hs : s.step e = some t) : Final (t.view i) := by
  have hk := hl.kept hi
  rcases hc with ⟨f,hf,hm⟩ | hp
  · cases e with
    | accept => simp [submits, Nat.ne_of_lt hi] at hf
    | writeFailed =>
      have hp : (s.reader.pending i).isSome = true := by
        by_contra hp
        simp [submits, hp] at hf
      have hheld : s.sessions.Entered i ∨ (s.sessions.cell i).pc = .ended := by simpa using hk.held hp
      rw [step_writeFailed hp hs]
      exact ⟨rfl,hq i hp,fun _ => rfl,.inr (hheld.symm.imp id fun he => decide_eq_true he)⟩
    | session j e =>
      cases e with
      | readSome r =>
        by_cases hji : j = i
        · subst hji
          obtain rfl : f = SessionEnd.readFrame (s.sessions.key j) r := by simpa [submits] using hf
          rcases SessionEnd.readFrame_cases (s.sessions.key j) r with hr | ⟨d,-,-,hr⟩ <;>
            simp [hr, dataEofFrame, dataFrame] at hm
        · simp [submits, hji] at hf
      | _ => simp [submits] at hf
    | _ => simp [submits] at hf
  · cases e with
    | read r =>
      cases r with
      | frame f =>
        obtain ⟨hm,he,hkey⟩ := id hp
        have hne : f.method ≠ .eof := by rcases hm with hm | hm <;> simp [hm]
        rw [(step_taken hs hne he hkey).2]
        have haway : (s.sessions.cell i).pc ≠ .reading := hq i hp
        rcases hm with hm | hm <;> simp only [ClientSession.onFrame, hm] <;>
          exact ⟨rfl,haway,by rintro ⟨⟩,.inl rfl⟩
      | _ => exact hp.elim
    | _ => exact hp.elim

theorem empty_ledger (i : ℕ) : Ledger i [] {} :=
  ⟨empty_bounded,fun i _ hi => absurd hi (Nat.not_lt_zero i),fun hi => absurd hi (Nat.not_lt_zero i),fun _ => rfl⟩

theorem Closes.lt {h : List Frame} (hl : Ledger i h s) (hs : s.step e = some t) (hc : s.Closes i e) :
    i < s.sessions.count := by
  by_contra hi
  have hpending : s.reader.pending i = none := (hl.bounded i (Nat.le_of_not_lt hi)).1
  rcases hc with ⟨f,hf,hm⟩ | hp
  · cases e with
    | accept u =>
      by_cases hi' : i = s.sessions.count
      · obtain rfl : f = newSessionFrame u := by simpa [submits, hi'] using hf
        simp [newSessionFrame] at hm
      · simp [submits, hi'] at hf
    | writeFailed => simp [submits, hpending] at hf
    | session j e =>
      have hji : j ≠ i := by
        rintro rfl
        exact hi (lt_of_session hs)
      cases e <;> simp [submits, hji] at hf
    | _ => simp [submits] at hf
  · cases e with
    | read r =>
      cases r with
      | frame f => exact hi hp.2.1.lt
      | _ => exact hp
    | _ => exact hp

/-- The frames and the close of a client's session in a run that is quiet. -/
theorem run_discipline {events : List VisitorEvent} (hrun : run step {} events = some s)
    (hm : Meets step Quiet {} events) (i : ℕ) :
    (i < s.sessions.count → Disciplined (s.sessions.key i) (newSessionFrame (s.sessions.key i))
      (outputs step (submits i) {} events)) ∧
    CloseIsFinal step (submits i) (fun s => (s.sessions.cell i).socket.written) (Closes i) {} events := by
  constructor
  · intro hi
    exact ((outputs_invariant (o := submits i) hrun hm (empty_ledger i) step_ledger).kept hi).disciplined
  · refine closeIsFinal_of (I := fun s => ∃ h, Ledger i h s)
      (F := fun s => i < s.sessions.count ∧ Final (s.view i)) hrun hm ⟨[],empty_ledger i⟩
      (fun ⟨h,hl⟩ hq hs => ⟨_,step_ledger hl hq hs⟩) ?_ ?_
    · rintro s t e ⟨h,hl⟩ hq hc hs
      have hi := hc.lt hl hs
      exact ⟨hi.trans_le (step_drifts hl.bounded hs).count,final_of_closes hl hq hc hi hs⟩
    · rintro s t e ⟨h,hl⟩ ⟨hi,hf⟩ hq hs
      have hd := step_drifts hl.bounded hs
      obtain ⟨-,-,hmv⟩ | ⟨rfl,-⟩ := (hd.carries hl.distinct hq.fresh).view i (hi.trans_le hd.count)
      · obtain ⟨hf',hw⟩ := hmv.final hf hq (hl.kept hi).pumps
        exact ⟨⟨hi.trans_le hd.count,hf'⟩,submits_of_final hf hi hs,hw⟩
      · exact absurd hi (Nat.lt_irrefl _)

end Visitor

end Msg801.Relay
