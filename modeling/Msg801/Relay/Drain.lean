import Msg801.Relay.Flow

/-! # No reply stays on the way

As long as no write fails and no connection between the nodes ends, what C has read from its
remotes comes to the clients: C, A and B come to an end with it by themselves, in whatever
order they go on.
-/
namespace Msg801.Relay
open Transition

theorem ClientSession.write_le {x : ClientSession} {f : Frame} {data : ByteVector} (h : (x.onFrame f).write = some data) :
    data.length ≤ f.body.length := by
  rw [ClientSession.onFrame] at h
  split at h
  case h_2 =>
    dsimp only at h
    split_ifs at h
    obtain rfl := Option.some.inj h
    simp
  case h_3 =>
    dsimp only at h
    split_ifs at h
  all_goals cases h

namespace System
variable {id : MatchId} {s t : System} {e : SystemEvent} {i j : ℕ}

/-- The steps that bring the frames of C to the clients. -/
def Onward (id : MatchId) (s : System) (e : SystemEvent) : Prop :=
  s.Delivers id e ∧ Holds id s e ∧
    match e with
    | .provider (.transmit _) | .visitor (.read _) | .visitor (.transferred _) => True
    | .server (.pair id' (.pump r _)) => id' = id ∧ r = .c
    | _ => False

/-- All that C has submitted has come to B, and is written. -/
structure Settled (s : System) : Prop where
  held : ∀ j < s.provider.sessions.count, (s.provider.sessions.cell j).held = []
  frames : s.visitor.frames = s.provider.wire
  reader : s.visitor.reader = .reading

/-- An upper bound of the steps that are left. -/
def remaining (id : MatchId) (s : System) : ℕ :=
  s.provider.sessions.total (fun x => load 7 x.held) + s.inTransit id .c + s.visitor.reader.backlog

/-- A frame weighs more on its way than what B makes of it. -/
theorem Flowing.visitor_lowers (h : s.Flowing id) {e : VisitorEvent} (ha : Onward id s (.visitor e)) {v : Visitor}
    (hv : s.visitor.step e = some v) :
    load 4 ((s.received id .b).tail.drop v.frames.length) + v.reader.backlog <
      load 4 ((s.received id .b).tail.drop s.visitor.frames.length) + s.visitor.reader.backlog := by
  obtain ⟨hd,ho,hon⟩ := ha
  cases Visitor.step_turn hv with
  | eof f hr hm =>
    have hf := hd.subset (List.mem_append_right _ (List.mem_singleton_self f))
    exact absurd hm (h.joined.wire_ne_eof .c (h.down_c.subset hf))
  | lost r _ hn =>
    cases r with
    | frame f => exact absurd rfl (hn f)
    | nullopt | thrown => exact ho.elim
  | taken f i hr =>
    have hnext : (ReaderPc.next i ((s.visitor.sessions.cell i).onFrame f).write).backlog ≤ f.body.length + 1 :=
      ReaderPc.backlog_next_le fun _ hw => Nat.succ_le_succ (ClientSession.write_le hw)
    change _ + (ReaderPc.next i ((s.visitor.sessions.cell i).onFrame f).write).backlog < _
    rw [load_drop_next hd]
    exact Nat.lt_add_right _ (by simp only [Node.dispatch]; omega)
  | passed f hr =>
    rw [load_drop_next hd, hr]
    simp only [ReaderPc.backlog]
    omega
  | written n i rest hr hn =>
    rw [hr]
    exact Nat.add_lt_add_left (ReaderPc.backlog_written hn) _
  | _ => exact hon.elim

/-- Every step onward leaves fewer. -/
theorem Flowing.step_lowers (h : s.Flowing id) (ha : Onward id s e) (hs : step id s e = some t) :
    remaining id t < remaining id s := by
  cases e with
  | visitor e =>
    obtain ⟨v,hv,rfl⟩ := Option.map_eq_some_iff.mp hs
    have hlt := h.visitor_lowers ha hv
    simp only [remaining, inTransit, received, wire, frames, Role.opposite] at hlt ⊢
    omega
  | server e =>
    obtain ⟨hd,ho,hon⟩ := ha
    cases e with
    | pair id' e =>
      cases e with
      | pump r e =>
        obtain ⟨rfl,rfl⟩ := hon
        obtain ⟨hv,hp,hlt⟩ := h.pump_lowers hd (ho rfl) hs
        rw [remaining, remaining, hv, hp]
        omega
      | disconnect => exact hon.elim
    | _ => exact hon.elim
  | provider e =>
    obtain ⟨p,hp,rfl⟩ := Option.map_eq_some_iff.mp hs
    cases Provider.step_turn hp with
    | transmitted j f hj hb hpc =>
      have htotal := s.provider.sessions.total_set (fun x => load 7 x.held) ((s.provider.sessions.cell j).onEnd (·.transmit f)) hj
      have hdrop := load_drop_concat (k := 6) (h.joined.up .c).length_le f
      simp only [SessionEnd.held, hpc, SessionState.onEnd, SessionEnd.transmit, load_nil, load_singleton] at htotal
      simp only [remaining, inTransit, received, wire, frames, SessionEnd.held, SessionState.onEnd, SessionEnd.transmit] at hdrop ⊢
      omega
    | _ => exact ha.2.2.elim

/-- The reader can write what it has for a client. -/
theorem Flowing.exists_transferred (h : s.Flowing id) (hr : s.visitor.reader ≠ .reading) :
    ∃ n v, s.visitor.step (.transferred n) = some v := by
  obtain ⟨i,hi,rest,hw⟩ := h.serving.reader.resolve_left hr
  have htakes := h.serving.takes i hi
  obtain ⟨-,he,hrecv⟩ := htakes.pending rest (by simp [hw])
  have hopen : (s.visitor.sessions.cell i).socket.isOpen = true := htakes.isOpen he
  have hshut : (s.visitor.sessions.cell i).socket.shutdownSend = false := by
    rw [← Bool.not_eq_true]
    intro hs
    exact absurd ((htakes.shut.mp hs).symm.trans hrecv) (by simp)
  have hlive : s.visitor.Live i := .inl (of_decide_eq_true he)
  have hstep : s.visitor.step (.transferred rest.length) = some { s.visitor with
      sessions := s.visitor.sessions.set i ((s.visitor.sessions.cell i).write (rest.take rest.length))
      reader := .next i (if rest.length = rest.length then none else some (rest.drop rest.length)) } := by
    rw [Visitor.step, hw]
    exact if_pos (SessionEnd.canTransfer_all rest hlive hopen hshut)
  exact ⟨rest.length,_,hstep⟩

/-- As long as not all has come to the clients there is a step onward. -/
theorem Flowing.progress (h : s.Flowing id) (hn : ¬s.Settled) : ¬Halted (step id) (Onward id) s := by
  intro hhalt
  have hvisitor : ∀ e v, s.visitor.step e = some v → ¬Onward id s (.visitor e) := fun e v hv ha =>
    absurd (hhalt _ ha) (by simp [step, hv])
  apply hn
  have hreader : s.visitor.reader = .reading := by
    by_contra hr
    obtain ⟨n,v,hv⟩ := h.exists_transferred hr
    exact hvisitor (.transferred n) v hv ⟨trivial,trivial,trivial⟩
  refine ⟨fun j hj => ?_,?_,hreader⟩
  · by_contra hheld
    obtain ⟨f,hpc⟩ := SessionEnd.exists_held hheld
    have hnone := hhalt (.provider (.transmit j)) ⟨trivial,trivial,trivial⟩
    simp [step, Provider.step, hpc, hj, h.unbroken] at hnone
  · have hframes : s.visitor.frames = (s.received id .b).tail := by
      obtain ⟨fs,hfs⟩ := h.joined.down .b
      change s.visitor.frames ++ fs = (s.received id .b).tail at hfs
      cases fs with
      | nil => simpa using hfs
      | cons f fs =>
        have hd : s.visitor.frames ++ [f] <+: (s.received id .b).tail := ⟨fs,by simpa using hfs⟩
        have hstep : s.visitor.step (.read (.frame f)) = some (s.visitor.onFrame f) := by rw [Visitor.step, if_pos hreader]
        exact absurd ⟨hd,trivial,trivial⟩ (hvisitor (.read (.frame f)) _ hstep)
    by_contra hwire
    have hloop : Pair.InLoop ((s.server.pairOf id).pump .c) := by
      refine h.running.pump.elim (fun hidle => absurd ?_ hwire) fun hloop => hloop .c
      -- before the pumps start C has been told of no session, and has nothing to say
      have hnone : s.provider.wire = [] := by
        by_contra hne
        obtain ⟨f,hf⟩ := List.exists_mem_of_ne_nil _ hne
        obtain ⟨j,hj,-⟩ := h.joined.provider.keyed f hf
        obtain ⟨g,hg,-⟩ := h.joined.provider.forwarded j hj
        have hmem : g ∈ (s.received id Role.b.opposite).tail := (h.joined.down .c).subset hg
        rw [h.joined.untold (hidle .b)] at hmem
        cases hmem
      rw [hnone, hframes]
      exact h.joined.untold (hidle .c)
    have hne : (s.received id .b).tail ≠ s.provider.wire.map (translate .c) := by
      rw [map_translate_c, ← hframes]
      exact hwire
    obtain ⟨e,he,hd,t,ht⟩ := h.exists_pumped hloop hne fun f hf => by
      obtain ⟨j,hj,-,hsub⟩ := h.joined.exists_submitted hf
      exact h.short j hj f hsub
    exact absurd (hhalt _ ⟨hd,fun _ => he,rfl,rfl⟩) (by simp [ht])

/-- What is as it was, when frames have come through. -/
structure Kept (s t : System) : Prop where
  visitor : ∀ i < s.visitor.sessions.count, i < t.visitor.sessions.count ∧
    t.visitor.sessions.key i = s.visitor.sessions.key i
  provider : ∀ j < s.provider.sessions.count, j < t.provider.sessions.count ∧
    t.provider.sessions.key j = s.provider.sessions.key j ∧
    (t.provider.sessions.cell j).socket.read = (s.provider.sessions.cell j).socket.read ∧
    (t.provider.sessions.cell j).halfCloseSend = (s.provider.sessions.cell j).halfCloseSend

theorem Kept.refl (s : System) : Kept s s := ⟨fun _ hi => ⟨hi,rfl⟩,fun _ hj => ⟨hj,rfl,rfl,rfl⟩⟩

theorem step_kept {r : System} (hk : Kept r s) (h : s.Flowing id) (ha : Onward id s e) (hs : step id s e = some t) :
    Kept r t := by
  obtain ⟨-,-,hon⟩ := ha
  cases e with
  | visitor e =>
    obtain ⟨v,hv,rfl⟩ := Option.map_eq_some_iff.mp hs
    have hd := Visitor.step_drifts h.joined.visitor.bounded hv
    refine ⟨fun i hi => ?_,hk.provider⟩
    obtain ⟨hi',hkey⟩ := hk.visitor i hi
    exact ⟨hi'.trans_le hd.count,(hd.move hi').1.trans hkey⟩
  | server e =>
    obtain ⟨a,-,rfl⟩ := Option.map_eq_some_iff.mp hs
    exact ⟨hk.visitor,hk.provider⟩
  | provider e =>
    obtain ⟨p,hp,rfl⟩ := Option.map_eq_some_iff.mp hs
    refine ⟨hk.visitor,fun j hj => ?_⟩
    obtain ⟨hj',hkey,hread,hsend⟩ := hk.provider j hj
    cases Provider.step_turn hp with
    | transmitted i f =>
      refine ⟨hj',hkey,?_,?_⟩ <;> by_cases hij : j = i
      · subst hij
        simpa [SessionState.onEnd, SessionEnd.transmit] using hread
      · simpa [SharedMap.set_cell_of_ne _ _ hij] using hread
      · subst hij
        simpa [SessionState.onEnd, SessionEnd.transmit] using hsend
      · simpa [SharedMap.set_cell_of_ne _ _ hij] using hsend
    | _ => exact hon.elim

/-- Where all has come to B the client has been written all that was read from its remote. -/
theorem Settled.delivered (hset : s.Settled) (h : s.Flowing id) (hi : i < s.visitor.sessions.count)
    (hj : j < s.provider.sessions.count) (hk : s.provider.sessions.key j = s.visitor.sessions.key i) :
    (s.visitor.sessions.cell i).socket.written = (s.provider.sessions.cell j).socket.read ∧
      ((s.provider.sessions.cell j).halfCloseSend = true →
        (s.visitor.sessions.cell i).socket.shutdownSend = true) := by
  have htakes := h.serving.takes i hi
  have hordered := h.joined.visitor.ordered i hi
  have hspeaks := h.joined.provider.speaks j hj
  have hsent : (s.provider.sessions.cell j).sent = (s.provider.sessions.cell j).submitted := by
    rw [(h.joined.provider.shipped j hj).2 h.unbroken, hset.held j hj, List.append_nil]
  have hdata : dataOf (s.visitor.sessions.key i) s.visitor.frames = (s.provider.sessions.cell j).socket.read := by
    rw [hset.frames, ← hk, ← dataOf_filter, h.joined.provider.posted j hj, hsent, h.joined.provider.reads j hj]
  have hdismissed : Visitor.Dismissed (s.visitor.sessions.key i) s.visitor.frames →
      (s.provider.sessions.cell j).submitted = [sessionErrFrame (s.provider.sessions.key j)] := by
    rintro (⟨f,hf,hm,hkf⟩ | ⟨f,hf,hm,hkf⟩) <;>
      rcases hspeaks.mem (h.joined.submitted_of_wire hj (hset.frames ▸ hf) (hk ▸ hkf)) with
        ⟨rfl,hall⟩ | rfl | ⟨d,rfl⟩ | rfl <;>
      first | exact hall | cases hm
  constructor
  · cases he : (s.visitor.view i).entered with
    | true => simpa [hset.reader, hdata] using hordered.whole he htakes.idle
    | false =>
      rcases htakes.gone he with hrecv | hdis
      · obtain ⟨pre,g,hpre,hg,hkg,hw⟩ := hordered.shut (htakes.shut.mpr hrecv)
        rw [← hk] at hkg hw
        exact hw.trans (h.joined.data_eof hj hpre hg hkg)
      · have hnone : (s.provider.sessions.cell j).socket.read = [] := by
          rw [← h.joined.provider.reads j hj, hdismissed hdis, dataOf_singleton]
          exact payload_of_ne_data _ (by simp [sessionErrFrame])
        have hkept : (s.visitor.sessions.cell i).socket.written <+: dataOf (s.visitor.sessions.key i) s.visitor.frames :=
          (List.prefix_append _ _).trans hordered.kept
        rw [hdata, hnone] at hkept
        rw [hnone, List.prefix_nil.mp hkept]
  · intro hsend
    have hmem : dataEofFrame (s.provider.sessions.key j) ∈ (s.provider.sessions.cell j).submitted := by
      cases hspeaks with
      | connecting _ hs | refusing _ _ hs | refused _ hs => cases hs.symm.trans hsend
      | pumping hp => exact (hp.dataEof_mem (by simp [sessionOkFrame])).mpr hsend
    have htold : Visitor.Received .dataEof (s.visitor.sessions.key i) s.visitor.frames := by
      have hwire := hmem
      rw [← hsent, ← h.joined.provider.posted j hj, ← hset.frames] at hwire
      obtain ⟨hf,hkf⟩ := List.mem_filter.mp hwire
      exact ⟨_,hf,rfl,hk ▸ of_decide_eq_true hkf⟩
    rcases htakes.told htold with hrecv | hdis
    · exact htakes.shut.mpr hrecv
    · rw [hdismissed hdis] at hmem
      cases List.mem_singleton.mp hmem

/-- In every run without a failure, whatever B, A and C have come to, they come to an end with
what C has read from its remotes by themselves, with nothing more read from a socket and in
whatever order they go on, after a bounded number of steps; and then of every session the
client has been written all of it, and has been shut down if the remote has ended. -/
theorem replies_drain {events : List SystemEvent} (hrun : run (step id) {} events = some s)
    (hm : Meets (step id) (fun s e => Delivers id s e ∧ Holds id s e) {} events) :
    (∃ more t, run (step id) s more = some t ∧ Meets (step id) (Onward id) s more ∧ Halted (step id) (Onward id) t) ∧
    ∀ more t, run (step id) s more = some t → Meets (step id) (Onward id) s more →
      more.length ≤ remaining id s ∧ (Halted (step id) (Onward id) t →
        ∀ i < s.visitor.sessions.count, ∀ j < s.provider.sessions.count,
          s.provider.sessions.key j = s.visitor.sessions.key i →
          (t.visitor.sessions.cell i).socket.written = (s.provider.sessions.cell j).socket.read ∧
            (t.provider.sessions.cell j).socket.read = (s.provider.sessions.cell j).socket.read ∧
            ((s.provider.sessions.cell j).halfCloseSend = true →
              (t.visitor.sessions.cell i).socket.shutdownSend = true)) := by
  have hflow : s.Flowing id := (hm.reach hrun).invariant (empty_flowing id) fun h ha hs => step_flowing h ha.1 ha.2 hs
  have hstep : ∀ {t u : System} {e : SystemEvent}, t.Flowing id ∧ Kept s t → Onward id t e → step id t e = some u →
      (u.Flowing id ∧ Kept s u) ∧ remaining id u < remaining id t := fun h ha hs =>
    ⟨⟨step_flowing h.1 ha.1 ha.2.1 hs,step_kept h.2 h.1 ha hs⟩,h.1.step_lowers ha hs⟩
  refine ⟨exists_halted (remaining id) ⟨hflow,.refl s⟩ hstep,fun more t hmore hon => ?_⟩
  obtain ⟨⟨h,hkept⟩,hle⟩ := hon.length_add_le (remaining id) hmore ⟨hflow,.refl s⟩ hstep
  refine ⟨by omega,fun hhalt i hi j hj hk => ?_⟩
  have hset : t.Settled := by_contra fun hn => h.progress hn hhalt
  obtain ⟨hi',hki⟩ := hkept.visitor i hi
  obtain ⟨hj',hkj,hread,hsend⟩ := hkept.provider j hj
  obtain ⟨hwritten,hshut⟩ := hset.delivered h hi' hj' (hkj.trans (hk.trans hki.symm))
  exact ⟨hwritten.trans hread,hread,fun hs => hshut (hsend.trans hs)⟩

/-- Both remotes have sent and nothing has come to the clients yet, and C holds the end of
the first remote. -/
def ending : List SystemEvent :=
  answered.take 37 ++ [.provider (.session 0 .sent), .provider (.session 0 (.readSome .eof))]

theorem replies_drain_ending : ∃ s more t, run (step (text "x")) {} ending = some s ∧
    (∀ i < 2, (s.visitor.sessions.cell i).socket.written = []) ∧ run (step (text "x")) s more = some t ∧
    Meets (step (text "x")) (Onward (text "x")) s more ∧ more.length ≤ remaining (text "x") s ∧
    (t.visitor.sessions.cell 0).socket.written = text "ab" ∧ (t.visitor.sessions.cell 1).socket.written = text "xy" ∧
    (t.visitor.sessions.cell 0).socket.shutdownSend = true := by
  have hend : (run (step (text "x")) {} ending).map (fun s => decide (s.visitor.sessions.count = 2 ∧
      s.provider.sessions.count = 2 ∧ s.provider.sessions.key 0 = s.visitor.sessions.key 0 ∧
      s.provider.sessions.key 1 = s.visitor.sessions.key 1 ∧ (s.visitor.sessions.cell 0).socket.written = [] ∧
      (s.visitor.sessions.cell 1).socket.written = [] ∧ (s.provider.sessions.cell 0).socket.read = text "ab" ∧
      (s.provider.sessions.cell 1).socket.read = text "xy" ∧ (s.provider.sessions.cell 0).halfCloseSend = true)) =
        some true := by decide +kernel
  have hm : Meets (step (text "x")) (fun s e => Delivers (text "x") s e ∧ Holds (text "x") s e) {} ending :=
    .of_follows (by decide +kernel)
  obtain ⟨s,hrun,hs⟩ := Option.map_eq_some_iff.mp hend
  obtain ⟨hi,hj,hk,hk',hwritten,hwritten',hread,hread',hsend⟩ := of_decide_eq_true hs
  obtain ⟨⟨more,t,hmore,hon,hhalt⟩,hall⟩ := replies_drain hrun hm
  obtain ⟨hle,hdone⟩ := hall more t hmore hon
  obtain ⟨hfirst,-,hshut⟩ := hdone hhalt 0 (by omega) 0 (by omega) hk
  obtain ⟨hsecond,-⟩ := hdone hhalt 1 (by omega) 1 (by omega) hk'
  refine ⟨s,more,t,hrun,fun i hi => ?_,hmore,hon,hle,hfirst.trans hread,hsecond.trans hread',hshut hsend⟩
  obtain rfl | rfl : i = 0 ∨ i = 1 := by omega
  · exact hwritten
  · exact hwritten'

end System

end Msg801.Relay
