import Msg801.Relay.ReaderEntry
import Msg801.Relay.Requests

/-! # The `SESSION_CLOSE` frames of B

The reader of B writes `SESSION_CLOSE` for a session whose client could not be written to.
It does so once for a session, and behind the announcement of it.
-/
namespace Msg801.Relay
open Transition

namespace Visitor
variable {s t : Visitor} {e : VisitorEvent} {i : ℕ}

/-- The reader has written its `SESSION_CLOSE` for the session, or will never write to its
client again. -/
def DoneWith (s : Visitor) (i : ℕ) : Prop :=
  s.reader = .closing i true ∨ ¬s.sessions.Entered i ∧ ¬s.WorksOn i

theorem DoneWith.step (hb : s.Bounded) (hi : i < s.sessions.count) (h : s.DoneWith i) (hs : s.step e = some t) :
    t.DoneWith i := by
  rcases h with hr | ⟨hgone,hidle⟩
  · cases step_turn hs with
    | accepted | unaccepted | resumed | transmitted => exact .inl hr
    | eof _ hr' | lost _ hr' | taken _ _ hr' | passed _ hr' | written _ _ _ hr' | failed _ _ hr' | closeWritten _ hr' =>
      cases hr'.symm.trans hr
    | dismissed j w hr' he =>
      obtain ⟨rfl,-⟩ := ReaderPc.closing.inj (hr'.symm.trans hr)
      exact .inr ⟨by simp [SharedMap.put_entered_self],by simp [WorksOn]⟩
    | staled j w hr' he =>
      obtain ⟨rfl,-⟩ := ReaderPc.closing.inj (hr'.symm.trans hr)
      exact .inr ⟨he,by simp [WorksOn]⟩
  · obtain ⟨-,v,hm,hv⟩ := (step_drifts hb hs).move hi
    have hgone' : ¬t.sessions.Entered i := fun he => hgone (hm.entered_of (hv.entered he))
    refine .inr ⟨hgone',?_⟩
    rintro (⟨rest,hr⟩ | ⟨w,hr⟩)
    · rcases writing_of_step hs hr with ⟨-,he⟩ | ⟨-,rest',hr'⟩
      · exact hgone' he
      · exact hidle (.inl ⟨rest',hr'⟩)
    · rcases closing_of_step hs hr with ⟨w',hr'⟩ | ⟨-,rest,hr'⟩
      · exact hidle (.inr ⟨w',hr'⟩)
      · exact hidle (.inl ⟨rest,hr'⟩)

/-- B writes one `SESSION_CLOSE` for a session, and the reader is then done with it. -/
structure Dismisses (s : Visitor) : Prop where
  known : ∀ f ∈ s.wire, f.method = .sessionClose → ∃ i < s.sessions.count, f = sessionCloseFrame (s.sessions.key i)
  once : ∀ u, s.wire.count (sessionCloseFrame u) ≤ 1
  spent : ∀ i < s.sessions.count, sessionCloseFrame (s.sessions.key i) ∈ s.wire → s.DoneWith i

/-- The `SESSION_CLOSE` that is being written is the first for its session. -/
theorem Dismisses.unwritten (h : s.Dismisses) (hb : s.Bounded) (hr : s.reader = .closing i false) :
    sessionCloseFrame (s.sessions.key i) ∉ s.wire := by
  intro hmem
  rcases h.spent i (hb.lt_of_closing hr) hmem with hr' | ⟨-,hidle⟩
  · cases hr.symm.trans hr'
  · exact hidle (.inr ⟨false,hr⟩)

/-- What a step adds to the `SESSION_CLOSE` frames. -/
theorem Posted.closes (hp : s.Posted) (hs : s.step e = some t) : t.wire = s.wire ∨
    (∃ f, f.method ≠ .sessionClose ∧ t.wire = s.wire ++ [f]) ∨
    ∃ i, s.reader = .closing i false ∧ t.reader = .closing i true ∧
      t.wire = s.wire ++ [sessionCloseFrame (s.sessions.key i)] := by
  cases step_turn hs with
  | closeWritten i hr => exact .inr (.inr ⟨i,hr,rfl,rfl⟩)
  | transmitted i f hi hb hpc =>
    have hpump := (hp.pumps i hi).ofPump (hp.sized i hi) (hp.holds hi hpc hb).1
    exact .inr (.inl ⟨f,(of_decide_eq_true hpump).2,rfl⟩)
  | _ => exact .inl rfl

theorem step_dismisses (h : s.Dismisses) (hp : s.Posted) (hsize : s.Sized e) (hs : s.step e = some t) : t.Dismisses := by
  have hd := step_drifts hp.bounded hs
  have hc := hd.carries hp.distinct hsize.1.fresh
  -- a session of B keeps its identifier, and a new one has none that was dismissed
  have hkept : ∀ i < t.sessions.count, sessionCloseFrame (t.sessions.key i) ∈ s.wire → i < s.sessions.count := by
    intro i hi hmem
    obtain ⟨j,hj,hk⟩ := h.known _ hmem rfl
    have hkeys : t.sessions.key i = t.sessions.key j := (Frame.mk.inj hk).2.trans (hd.move hj).1.symm
    exact hc.distinct i j hi (hj.trans_le hd.count) hkeys ▸ hj
  have hspent : ∀ i < t.sessions.count, sessionCloseFrame (t.sessions.key i) ∈ s.wire → t.DoneWith i := by
    intro i hi hmem
    have hi' := hkept i hi hmem
    rw [(hd.move hi').1] at hmem
    exact (h.spent i hi' hmem).step hp.bounded hi' hs
  have hknown : ∀ f ∈ s.wire, f.method = .sessionClose → ∃ i < t.sessions.count, f = sessionCloseFrame (t.sessions.key i) := by
    intro f hf hm
    obtain ⟨i,hi,rfl⟩ := h.known f hf hm
    exact ⟨i,hi.trans_le hd.count,by rw [(hd.move hi).1]⟩
  rcases hp.closes hs with hw | ⟨f,hf,hw⟩ | ⟨i,hr,hr',hw⟩
  · exact ⟨hw ▸ hknown,hw ▸ h.once,hw ▸ hspent⟩
  · have hne : ∀ u, sessionCloseFrame u ≠ f := by
      rintro u rfl
      exact hf rfl
    refine ⟨fun g hg hm => ?_,fun u => ?_,fun i hi hmem => ?_⟩
    · rw [hw] at hg
      rcases List.mem_append.mp hg with hg | hg
      · exact hknown g hg hm
      · exact absurd (List.mem_singleton.mp hg ▸ hm) hf
    · rw [hw, List.count_append, List.count_singleton, if_neg (by simpa using (hne u).symm)]
      exact h.once u
    · rw [hw] at hmem
      rcases List.mem_append.mp hmem with hmem | hmem
      · exact hspent i hi hmem
      · exact absurd (List.mem_singleton.mp hmem) (hne _)
  · have hi := hp.bounded.lt_of_closing hr
    have hkey := (hd.move hi).1
    have hfirst := h.unwritten hp.bounded hr
    refine ⟨fun g hg hm => ?_,fun u => ?_,fun j hj hmem => ?_⟩
    · rw [hw] at hg
      rcases List.mem_append.mp hg with hg | hg
      · exact hknown g hg hm
      · exact ⟨i,hi.trans_le hd.count,by rw [hkey]; exact List.mem_singleton.mp hg⟩
    · rw [hw, List.count_append, List.count_singleton]
      split_ifs with hu
      · rw [← eq_of_beq hu, List.count_eq_zero_of_not_mem hfirst]
      · exact h.once u
    · rw [hw] at hmem
      rcases List.mem_append.mp hmem with hmem | hmem
      · exact hspent j hj hmem
      · have hkeys : t.sessions.key j = t.sessions.key i := (Frame.mk.inj (List.mem_singleton.mp hmem)).2.trans hkey.symm
        exact hc.distinct j i hj (hi.trans_le hd.count) hkeys ▸ .inl hr'

/-- The reader works on announced sessions, so that what it dismisses was announced. -/
structure Announced (s : Visitor) : Prop where
  working : ∀ i, s.WorksOn i → newSessionFrame (s.sessions.key i) ∈ s.wire
  behind : ∀ u pre, pre ++ [sessionCloseFrame u] <+: s.wire → newSessionFrame u ∈ pre

/-- A step keeps the order of the two frames where what the reader takes was announced. -/
theorem step_announced (h : s.Announced) (hp : s.Posted) (hs : s.step e = some t)
    (htaken : ∀ i < s.sessions.count, ∀ f ∈ t.frames, visitorKey f = some (s.sessions.key i) →
      newSessionFrame (s.sessions.key i) ∈ t.wire) : t.Announced := by
  have hd := step_drifts hp.bounded hs
  have hwire : s.wire <+: t.wire := by
    rcases hp.closes hs with hw | ⟨f,-,hw⟩ | ⟨i,-,-,hw⟩ <;> rw [hw]
    · exact List.prefix_append _ _
    · exact List.prefix_append _ _
  have hold : ∀ i, s.WorksOn i → newSessionFrame (t.sessions.key i) ∈ t.wire := by
    intro i hw
    rw [(hd.move (hp.bounded.lt_of_worksOn hw)).1]
    exact hwire.subset (h.working i hw)
  refine ⟨?_,fun u pre hpre => ?_⟩
  · rintro i (⟨rest,hr⟩ | ⟨w,hr⟩)
    · rcases writing_of_step hs hr with ⟨⟨f,-,he,hk,hf⟩,-⟩ | ⟨-,rest',hr'⟩
      · rw [(hd.move he.lt).1]
        exact htaken i he.lt f hf hk
      · exact hold i (.inl ⟨rest',hr'⟩)
    · rcases closing_of_step hs hr with ⟨w',hr'⟩ | ⟨-,rest,hr'⟩
      · exact hold i (.inr ⟨w',hr'⟩)
      · exact hold i (.inl ⟨rest,hr'⟩)
  · rcases hp.closes hs with hw | ⟨f,hf,hw⟩ | ⟨i,hr,-,hw⟩
    · exact h.behind u pre (hw ▸ hpre)
    · rw [hw, List.prefix_concat_iff] at hpre
      rcases hpre with heq | hpre
      · have hlast := (List.append_inj' heq rfl).2
        exact absurd (List.singleton_inj.mp hlast ▸ rfl) hf
      · exact h.behind u pre hpre
    · rw [hw, List.prefix_concat_iff] at hpre
      rcases hpre with heq | hpre
      · obtain ⟨rfl,hlast⟩ := List.append_inj' heq rfl
        obtain rfl : u = s.sessions.key i := (Frame.mk.inj (List.singleton_inj.mp hlast)).2
        exact h.working i (.inr ⟨false,hr⟩)
      · exact h.behind u pre hpre

end Visitor

namespace System
variable {id : MatchId} {s t : System} {e : SystemEvent}

/-- B has written the announcement of every session C has. -/
theorem Joined.new_written (h : s.Joined id) {j : ℕ} (hj : j < s.provider.sessions.count) :
    newSessionFrame (s.provider.sessions.key j) ∈ s.visitor.wire := by
  obtain ⟨g,hg,hm,hbody⟩ := h.provider.forwarded j hj
  rcases h.of_received (r := .b) ((h.down .c).subset hg) with rfl | ⟨f,hf,rfl⟩
  · cases hm
  · have hnew : f.method = .newSession := by
      by_contra hne
      rw [translate, if_neg fun h => hne h.1] at hm
      exact h.not_forward hf hm
    rw [translate, if_pos ⟨hnew,rfl⟩] at hbody
    obtain ⟨m,body⟩ := f
    obtain rfl : m = .newSession := hnew
    obtain rfl : body = s.provider.sessions.key j := hbody
    exact hf

/-- What has come through in both directions, with the order of the two frames of B. -/
structure Concluded (id : MatchId) (s : System) : Prop where
  requested : s.Requested id
  dismisses : s.visitor.Dismisses
  announced : s.visitor.Announced

theorem step_concluded (h : s.Concluded id) (hd : s.Delivers id e) (hs : s.step id e = some t) : t.Concluded id := by
  have ht := step_requested h.requested hd hs
  have hjoined := h.requested.joined
  cases e with
  | visitor e =>
    obtain ⟨v,hv,rfl⟩ := Option.map_eq_some_iff.mp hs
    refine ⟨ht,Visitor.step_dismisses h.dismisses hjoined.visitor (hjoined.visitor_sized hd) hv,
      Visitor.step_announced h.announced hjoined.visitor hv fun i hi f hf hk => ?_⟩
    obtain ⟨j,hj,hkj⟩ := ht.joined.exists_source hf hk
    exact hkj ▸ ht.joined.new_written hj
  | server e =>
    obtain ⟨a,-,rfl⟩ := Option.map_eq_some_iff.mp hs
    exact ⟨ht,h.dismisses,h.announced⟩
  | provider e =>
    obtain ⟨p,-,rfl⟩ := Option.map_eq_some_iff.mp hs
    exact ⟨ht,h.dismisses,h.announced⟩

theorem run_concluded {events : List SystemEvent} (hrun : run (step id) {} events = some s)
    (hm : Meets (step id) (Delivers id) {} events) : s.Concluded id := by
  have hno : ∀ {p : ℕ → Prop} (i : ℕ), i < 0 → p i := fun i hi => absurd hi (Nat.not_lt_zero i)
  have hidle : ∀ i, ¬({} : Visitor).WorksOn i := by simp [Visitor.WorksOn]
  refine (hm.reach hrun).invariant ⟨⟨empty_joined id,⟨hno,hno⟩⟩,⟨nofun,fun _ => Nat.zero_le _,hno⟩,
    ⟨fun i hw => absurd hw (hidle i),fun u pre hpre => ?_⟩⟩ step_concluded
  have hnil := List.prefix_nil.mp hpre
  simp at hnil

end System

end Msg801.Relay
