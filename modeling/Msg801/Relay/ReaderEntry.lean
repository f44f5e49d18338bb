import Msg801.Relay.Visitor

/-! # The entry the reader of B holds

On a payload the reader of B finds the entry of its session, and uses it again behind the
write to the client and the write of `SESSION_CLOSE`. Whoever takes the entry out of the
table in the meantime leaves the reader with an entry that is gone.
-/
namespace Msg801.Relay
open Transition

/-- The coroutine of a client comes to its end and erases its entry. -/
def ClientSession.Leaves (x : ClientSession) (e : SessionEvent) : Prop :=
  e = .sent ∧ ∃ f w, x.pc = .sending f w ∧
    (x.closed = true ∨ f.method = .sessionClose ∨ f.method = .dataEof ∧ x.halfCloseRecv = true)

theorem SessionEnd.onSent_leaves (x : SessionEnd) (f : Frame) :
    ((x.onSent f).pc = .ended ∧ (x.onSent f).closed = true) ↔
      (x.closed = true ∨ f.method = .sessionClose ∨ f.method = .dataEof ∧ x.halfCloseRecv = true) := by
  unfold onSent
  split
  case h_1 hm =>
    cases hr : x.halfCloseRecv <;> simp [hm, suspend, markClosed]
  case h_2 hm => simp [hm, giveUp, suspend, markClosed]
  case h_3 heof hclose =>
    have heof' : f.method ≠ .dataEof := heof
    have hclose' : f.method ≠ .sessionClose := hclose
    cases hc : x.closed <;> simp [heof', hclose', loop, suspend, hc]

theorem ClientSession.leaves_iff {x y : ClientSession} {u : Uuid} {e : SessionEvent}
    (h : x.resume u e = some y) : (y.pc = .ended ∧ y.closed = true) ↔ x.Leaves e := by
  cases ClientSession.resume_resumes h with
  | sent f w hpc =>
    rw [SessionEnd.onSent_leaves]
    constructor
    · intro hf
      exact ⟨rfl,f,w,hpc,hf⟩
    · rintro ⟨-,g,v,hg,hf⟩
      obtain ⟨rfl,-⟩ := SessionPc.sending.inj (hpc.symm.trans hg)
      exact hf
  | read r hpc =>
    have hsend := ((x.receive r).onRead_frame u r).1
    constructor
    · rintro ⟨hend,-⟩
      rw [hsend] at hend
      cases hend
    · rintro ⟨he,-⟩
      cases he

/-- A session to whose client the reader goes on to write stays in the table. -/
theorem ClientSession.onFrame_write (x : ClientSession) (f : Frame) {data : ByteVector}
    (h : (x.onFrame f).write = some data) : (x.onFrame f).erase = false := by
  rw [onFrame] at h ⊢
  split at h
  case h_2 => rfl
  case h_3 =>
    dsimp only at h
    split_ifs at h
  all_goals cases h

namespace Visitor

/-- The table still leads to the session whose entry the reader uses next. -/
def EntryHeld (s : Visitor) : Prop := ∀ i w, s.reader = .closing i w → s.sessions.Entered i

/-- The step takes the entry of a session out of the table: the accept loop comes to its end
and clears it, a coroutine comes to its end and erases the identifier, or a new client gets it. -/
def TakesOut (s : Visitor) (i : ℕ) : VisitorEvent → Prop
  | .accept uuid => uuid = s.sessions.key i
  | .acceptFailed => True
  | .session j e => s.sessions.key j = s.sessions.key i ∧ ClientSession.Leaves (s.sessions.cell j) e
  | _ => False

/-- The write to a client that is under way fails, before the reader takes another frame. -/
def WriteFails (post : List VisitorEvent) : Prop :=
  ∃ mid rest, post = mid ++ .writeFailed :: rest ∧ ∀ r, .read r ∉ mid

/-- No step of the run takes out the entry of a session while the reader writes its
`SESSION_CLOSE`, or while it writes to its client and that write then fails. -/
def KeepsEntries (events : List VisitorEvent) : Prop :=
  ∀ pre e post s i, events = pre ++ e :: post → run step {} pre = some s → s.TakesOut i e →
    (∀ w, s.reader ≠ .closing i w) ∧ ∀ rest, s.reader = .writing i rest → ¬WriteFails post

variable {s t : Visitor} {e : VisitorEvent}

/-- Where the entry is gone the reader resumes from the write of `SESSION_CLOSE` to use it
all the same. -/
theorem entryHeld_iff : s.EntryHeld ↔ ∀ t, s.step .closeSent = some t → t.reader ≠ .stale := by
  constructor
  · intro h t hs
    cases step_turn hs with
    | dismissed => simp
    | staled i w hr he => exact absurd (h i w hr) he
  · intro h i w hr
    by_contra he
    have hs : s.step .closeSent = some { s with
        reader := .stale
        broken := s.broken || !w } := by
      simp only [step, hr, if_neg he]
    exact h _ hs rfl

theorem entryHeld_of_reader (h : ∀ i w, s.reader ≠ .closing i w) : s.EntryHeld :=
  fun i w hr => absurd hr (h i w)

theorem resumed_entered_iff {i j : ℕ} {e : SessionEvent} {x : ClientSession}
    (hx : (s.sessions.cell j).resume (s.sessions.key j) e = some x) :
    (s.onResumed j e x).sessions.Entered i ↔ s.sessions.Entered i ∧
      (s.sessions.key j = s.sessions.key i → ¬ClientSession.Leaves (s.sessions.cell j) e) := by
  rw [onResumed, SharedMap.put_entered, decide_eq_true_iff, ClientSession.leaves_iff hx]
  exact and_congr_right fun _ => ⟨fun h hk hl => h hl hk.symm,fun h hl hk => h hk.symm hl⟩

/-- A step that takes out an entry leaves the reader where it was. -/
theorem TakesOut.reader {i : ℕ} (h : s.TakesOut i e) (hs : s.step e = some t) : t.reader = s.reader := by
  cases step_turn hs with
  | accepted | unaccepted | resumed => rfl
  | _ => exact h.elim

theorem TakesOut.not_entered {i : ℕ} (h : s.TakesOut i e) (hi : i < s.sessions.count) (hs : s.step e = some t) :
    ¬t.sessions.Entered i := by
  cases step_turn hs with
  | accepted uuid =>
    obtain rfl : uuid = s.sessions.key i := h
    intro he
    have hself := SharedMap.insert_entered_self s.sessions (s.sessions.key i) (.accepted (s.sessions.key i))
    have hkey : (s.sessions.insert (s.sessions.key i) (.accepted (s.sessions.key i))).key i =
        (s.sessions.insert (s.sessions.key i) (.accepted (s.sessions.key i))).key s.sessions.count := by
      rw [SharedMap.insert_key_of_lt _ _ _ hi, SharedMap.insert_key_self]
    exact absurd (he.unique hself hkey) (Nat.ne_of_lt hi)
  | unaccepted => exact SharedMap.not_clear_entered _ _ _
  | resumed j e x hj hx =>
    obtain ⟨hk,hl⟩ := h
    exact fun he => ((resumed_entered_iff hx).mp he).2 hk hl
  | _ => exact h.elim

/-- The reader is in the write to the client of a session, or writes its `SESSION_CLOSE`. -/
def WorksOn (s : Visitor) (i : ℕ) : Prop := (∃ rest, s.reader = .writing i rest) ∨ ∃ w, s.reader = .closing i w

theorem Bounded.lt_of_worksOn (hb : s.Bounded) {i : ℕ} (hw : s.WorksOn i) : i < s.sessions.count := by
  rcases hw with ⟨rest,hr⟩ | ⟨w,hr⟩
  · exact hb.lt_of_writing hr
  · exact hb.lt_of_closing hr

theorem WorksOn.not_reading {i : ℕ} (h : s.WorksOn i) : s.reader ≠ .reading := by
  rcases h with ⟨rest,hr⟩ | ⟨w,hr⟩ <;> simp [hr]

/-- While the reader works on a session its entry stays, or is taken out by one of the
others, or the reader erases it and is done. -/
theorem step_entered {i : ℕ} (hb : s.Bounded) (hw : s.WorksOn i) (he : s.sessions.Entered i) (hs : s.step e = some t) :
    t.sessions.Entered i ∨ s.TakesOut i e ∨ t.reader = .reading := by
  have hi := hb.lt_of_worksOn hw
  cases step_turn hs with
  | accepted uuid =>
    by_cases hk : uuid = s.sessions.key i
    · exact .inr (.inl hk)
    · exact .inl ((SharedMap.insert_entered_of_ne _ (Ne.symm hk) hi).mpr he)
  | unaccepted => exact .inr (.inl trivial)
  | eof _ hr | lost _ hr | taken _ _ hr | passed _ hr => exact absurd hr hw.not_reading
  | written | failed | closeWritten | staled | transmitted => exact .inl he
  | dismissed => exact .inr (.inr rfl)
  | resumed j e x hj hx =>
    by_cases hout : s.sessions.key j = s.sessions.key i ∧ ClientSession.Leaves (s.sessions.cell j) e
    · exact .inr (.inl hout)
    · exact .inl ((resumed_entered_iff hx).mpr ⟨he,fun hk hl => hout ⟨hk,hl⟩⟩)

/-- The reader writes to a session it has just found in the table, or was writing to before. -/
theorem writing_of_step {i : ℕ} {rest : ByteVector} (hs : s.step e = some t) (hr : t.reader = .writing i rest) :
    (∃ f, e = .read (.frame f) ∧ s.sessions.Entered i ∧ visitorKey f = some (s.sessions.key i) ∧ f ∈ t.frames) ∧
      t.sessions.Entered i ∨
      (∀ r, e ≠ .read r) ∧ ∃ rest', s.reader = .writing i rest' := by
  cases step_turn hs with
  | accepted | unaccepted | resumed | transmitted => exact .inr ⟨nofun,rest,hr⟩
  | eof | lost => cases hr
  | taken f j hrj hm he hk =>
    obtain ⟨rfl,hw⟩ := ReaderPc.next_eq_writing.mp hr
    have hf : f ∈ s.frames ++ [f] := List.mem_append_right _ (List.mem_singleton_self f)
    exact .inl ⟨⟨f,rfl,he,hk,hf⟩,(SharedMap.put_entered_self _ _).mpr ⟨he,ClientSession.onFrame_write _ f hw⟩⟩
  | passed f hrj => cases hrj.symm.trans hr
  | written n j rest' hrj =>
    obtain ⟨rfl,-⟩ := ReaderPc.next_eq_writing.mp hr
    exact .inr ⟨nofun,rest',hrj⟩
  | failed | closeWritten | dismissed | staled => cases hr

theorem closing_of_step {i : ℕ} {w : Bool} (hs : s.step e = some t) (hr : t.reader = .closing i w) :
    (∃ w', s.reader = .closing i w') ∨ e = .writeFailed ∧ ∃ rest, s.reader = .writing i rest := by
  cases step_turn hs with
  | accepted | unaccepted | resumed | transmitted => exact .inl ⟨w,hr⟩
  | eof | lost => cases hr
  | taken f j | written n j => exact absurd hr (ReaderPc.next_ne_closing _ _ _ _)
  | passed f hrj => cases hrj.symm.trans hr
  | failed j rest hrj =>
    obtain ⟨rfl,-⟩ := ReaderPc.closing.inj hr
    exact .inr ⟨rfl,rest,hrj⟩
  | closeWritten j hrj =>
    obtain ⟨rfl,-⟩ := ReaderPc.closing.inj hr
    exact .inl ⟨false,hrj⟩
  | dismissed | staled => cases hr

theorem stale_of_step (hs : s.step e = some t) (hr : t.reader = .stale) : s.reader = .stale ∨ ¬s.EntryHeld := by
  cases step_turn hs with
  | accepted | unaccepted | resumed | transmitted => exact .inl hr
  | eof | lost | failed | closeWritten | dismissed => cases hr
  | taken f j | written n j => exact absurd hr (ReaderPc.next_ne_stale _ _)
  | passed f hrj => cases hrj.symm.trans hr
  | staled i w hrj he => exact .inr fun h => he (h i w hrj)

/-- As long as the reader takes no frame, it works on no other session, and an entry that is
gone does not come back. -/
theorem run_gone {i : ℕ} {mid : List VisitorEvent} (hread : ∀ r, .read r ∉ mid) (hrun : run step s mid = some t)
    (hb : s.Bounded) (hi : i < s.sessions.count) (hgone : ¬s.sessions.Entered i)
    (hr : ∀ j rest, s.reader = .writing j rest → j = i) :
    ¬t.sessions.Entered i ∧ ∀ j rest, t.reader = .writing j rest → j = i := by
  have hmeets : Meets step (fun _ e => ∀ r, e ≠ .read r) s mid := by
    rintro pre e post rfl u - r rfl
    exact hread r (by simp)
  let P : Visitor → Prop := fun u =>
    u.Bounded ∧ i < u.sessions.count ∧ ¬u.sessions.Entered i ∧ ∀ j rest, u.reader = .writing j rest → j = i
  have hall : P t := by
    refine (hmeets.reach hrun).invariant (P := P) ⟨hb,hi,hgone,hr⟩ ?_
    rintro u v e ⟨hb,hi,hgone,hr⟩ hne hs
    have hd := step_drifts hb hs
    obtain ⟨-,w,hm,hw⟩ := hd.move hi
    refine ⟨hd.bounded,hi.trans_le hd.count,fun he => hgone (hm.entered_of (hw.entered he)),fun j rest hrj => ?_⟩
    obtain ⟨⟨f,rfl,-⟩,-⟩ | ⟨-,rest',hrj'⟩ := writing_of_step hs hrj
    · exact absurd rfl (hne _)
    · exact hr j rest' hrj'
  exact hall.2.2

/-- The entry of the session whose client the reader writes to was taken out during that write. -/
def Torn (events : List VisitorEvent) (i : ℕ) : Prop :=
  ∃ pre e mid s rest, events = pre ++ e :: mid ∧ (∀ r, .read r ∉ mid) ∧ run step {} pre = some s ∧
    s.reader = .writing i rest ∧ s.TakesOut i e

theorem Torn.concat {events : List VisitorEvent} {i : ℕ} (h : Torn events i) (he : ∀ r, e ≠ .read r) :
    Torn (events ++ [e]) i := by
  obtain ⟨pre,e',mid,s,rest,rfl,hmid,hrun,hr,hout⟩ := h
  refine ⟨pre,e',mid ++ [e],s,rest,by simp,fun r hmem => ?_,hrun,hr,hout⟩
  rcases List.mem_append.mp hmem with hmem | hmem
  · exact hmid r hmem
  · exact he r (List.mem_singleton.mp hmem).symm

/-- What a run that keeps the entries comes to: the reader's entry is in the table, but for
the one of a client whose write will not fail. -/
structure Safe (events : List VisitorEvent) (s : Visitor) : Prop where
  bounded : s.Bounded
  held : s.EntryHeld
  fresh : s.reader ≠ .stale
  writing : ∀ i rest, s.reader = .writing i rest → s.sessions.Entered i ∨ Torn events i

theorem KeepsEntries.of_append {pre post : List VisitorEvent} (h : KeepsEntries (pre ++ post)) : KeepsEntries pre := by
  rintro l e r s i rfl hs hout
  obtain ⟨hc,hw⟩ := h l e (r ++ post) s i (by simp) hs hout
  refine ⟨hc,fun rest hr => ?_⟩
  rintro ⟨mid,more,rfl,hmid⟩
  exact hw rest hr ⟨mid,more ++ post,by simp,hmid⟩

/-- What is taken out while the reader waits for a frame is not in its hands. -/
theorem KeepsEntries.of_reading {events : List VisitorEvent}
    (h : Meets step (fun s e => s.reader = .reading ∨ ∀ i, ¬s.TakesOut i e) {} events) : KeepsEntries events := by
  intro pre e post s i he hs hout
  rcases h pre e post he s hs with hr | hn
  · simp [hr]
  · exact absurd hout (hn i)

theorem Safe.step {events : List VisitorEvent} (h : Safe events s) (hrun : run Visitor.step {} events = some s)
    (hk : KeepsEntries (events ++ [e])) (hs : s.step e = some t) : Safe (events ++ [e]) t := by
  refine ⟨(step_drifts h.bounded hs).bounded,fun i w hr => ?_,fun hstale => ?_,fun i rest hr => ?_⟩
  · obtain ⟨w',hr'⟩ | ⟨rfl,rest,hr'⟩ := closing_of_step hs hr
    · obtain he | hout | hdone := step_entered h.bounded (.inr ⟨w',hr'⟩) (h.held i w' hr') hs
      · exact he
      · exact absurd hr' ((hk events e [] s i rfl hrun hout).1 w')
      · cases hdone.symm.trans hr
    · rcases h.writing i rest hr' with he | ⟨pre,e',mid,u,rest',rfl,hmid,hu,hru,hout⟩
      · obtain he | hout | hdone := step_entered h.bounded (.inl ⟨rest,hr'⟩) he hs
        · exact he
        · exact hout.elim
        · cases hdone.symm.trans hr
      · exact absurd ⟨mid,[],rfl,hmid⟩ ((hk pre e' (mid ++ [.writeFailed]) u i (by simp) hu hout).2 rest' hru)
  · rcases stale_of_step hs hstale with hr | hn
    · exact h.fresh hr
    · exact hn h.held
  · obtain ⟨-,he⟩ | ⟨hne,rest',hr'⟩ := writing_of_step hs hr
    · exact .inl he
    · rcases h.writing i rest' hr' with he | htorn
      · obtain he | hout | hdone := step_entered h.bounded (.inl ⟨rest',hr'⟩) he hs
        · exact .inl he
        · exact .inr ⟨events,e,[],s,rest',rfl,by simp,hrun,hr',hout⟩
        · cases hdone.symm.trans hr
      · exact .inr (htorn.concat hne)

theorem KeepsEntries.safe {events : List VisitorEvent} (hk : KeepsEntries events) (hrun : run step {} events = some s) :
    Safe events s := by
  induction events using List.reverseRecOn generalizing s with
  | nil =>
    obtain rfl := Option.some.inj hrun
    exact ⟨empty_bounded,entryHeld_of_reader (by simp),by simp,by simp⟩
  | append_singleton events e ih =>
    obtain ⟨u,hu,hs⟩ := run_append_some.mp hrun
    exact (ih hk.of_append hu).step hu hk (by simpa using hs)

/-- Where every state holds its entries, none was taken out of the reader's hands. -/
theorem keepsEntries_of_held {events : List VisitorEvent} (hrun : run step {} events = some s)
    (h : ∀ pre t, pre <+: events → run step {} pre = some t → t.EntryHeld) : KeepsEntries events := by
  rintro pre e post u i rfl hu hout
  obtain ⟨t,ht,hpost⟩ := run_append_some.mp ((pre.append_cons e post) ▸ hrun)
  obtain ⟨u',hu',hs⟩ := run_append_some.mp ht
  obtain rfl := Option.some.inj (hu'.symm.trans hu)
  replace hs : u'.step e = some t := by simpa using hs
  have hb : u'.Bounded := run_invariant hu empty_bounded fun hb hs => (step_drifts hb hs).bounded
  have hreader := hout.reader hs
  refine ⟨fun w hr => ?_,fun rest hr => ?_⟩
  · have hgone := hout.not_entered (hb.lt_of_closing hr) hs
    exact hgone (h _ t ⟨post,by simp⟩ ht i w (hreader.trans hr))
  · rintro ⟨mid,more,rfl,hmid⟩
    have hgone := hout.not_entered (hb.lt_of_writing hr) hs
    have hd := step_drifts hb hs
    obtain ⟨v,hv,hrest⟩ := run_append_some.mp hpost
    obtain ⟨x,hx,-⟩ := Option.bind_eq_some_iff.mp hrest
    obtain ⟨hgone,hr⟩ := run_gone hmid hv hd.bounded ((hb.lt_of_writing hr).trans_le hd.count) hgone fun j rest' hrj =>
      (ReaderPc.writing.inj ((hrj.symm.trans hreader).trans hr)).1
    have hfails : run step {} (pre ++ e :: (mid ++ [.writeFailed])) = some x := by
      rw [List.append_cons, ← List.append_assoc]
      exact run_append_some.mpr ⟨v,run_append_some.mpr ⟨t,ht,hv⟩,by simpa using hx⟩
    cases step_turn hx with
    | failed j rest' hrj =>
      obtain rfl := hr j rest' hrj
      exact hgone (h _ _ ⟨more,by simp⟩ hfails j false rfl)

/-- In a run the reader never uses an entry that has left the table exactly when no step
takes one out behind its writes. -/
theorem entryHeld_iff_keepsEntries {events : List VisitorEvent} {s : Visitor} (hrun : run step {} events = some s) :
    (∀ pre t, pre <+: events → run step {} pre = some t → t.EntryHeld ∧ t.reader ≠ .stale) ↔ KeepsEntries events := by
  constructor
  · intro h
    exact keepsEntries_of_held hrun fun pre t hp ht => (h pre t hp ht).1
  · rintro hk pre t ⟨post,rfl⟩ ht
    have hsafe := hk.of_append.safe ht
    exact ⟨hsafe.held,hsafe.fresh⟩

def uuidE : Uuid := text "9c5b94b1-35ad-49bb-b118-8e8fc24abf80"

/-- A client whose write fails while its session is in the table. -/
def writeFails : List VisitorEvent :=
  [.accept uuidE, .transmit 0, .session 0 .sent, .read (.frame (dataFrame uuidE (text "a"))), .writeFailed,
    .closeWritten, .closeSent]

theorem entryHeld_writeFails : ∃ s, run step {} writeFails = some s ∧ s.EntryHeld ∧ s.reader ≠ .stale := by
  obtain ⟨s,hrun⟩ : ∃ s, run step {} writeFails = some s := ⟨_,rfl⟩
  have hm : KeepsEntries writeFails := by
    refine .of_reading (.cons (.inl rfl) rfl (.cons (.inl rfl) rfl (.cons (.inl rfl) rfl (.cons (.inl rfl) rfl
      (.cons (.inr fun _ => id) rfl (.cons (.inr fun _ => id) rfl (.cons (.inr fun _ => id) rfl (.nil _))))))))
  exact ⟨s,hrun,(entryHeld_iff_keepsEntries hrun).mpr hm writeFails s List.prefix_rfl hrun⟩

/-- The accept loop ends while the reader writes to a client, and closes it. -/
def acceptFails : List VisitorEvent :=
  [.accept uuidE, .transmit 0, .session 0 .sent, .read (.frame (dataFrame uuidE (text "a"))), .acceptFailed,
    .writeFailed, .closeWritten]

/-- The write fails on the closed socket, and the reader goes on to use the erased entry. -/
theorem acceptFails_stale : ∃ s t, run step {} acceptFails = some s ∧ ¬s.EntryHeld ∧
    s.step .closeSent = some t ∧ t.reader = .stale := by
  obtain ⟨s,hrun,hr,he⟩ : ∃ s, run step {} acceptFails = some s ∧ s.reader = .closing 0 true ∧
      ¬s.sessions.Entered 0 := ⟨_,rfl,rfl,by decide⟩
  have hheld : ¬s.EntryHeld := fun h => he (h 0 true hr)
  obtain ⟨t,ht,hstale⟩ : ∃ t, s.step .closeSent = some t ∧ t.reader = .stale := by
    simpa using mt entryHeld_iff.mpr hheld
  exact ⟨s,t,hrun,hheld,ht,hstale⟩

end Visitor

end Msg801.Relay
