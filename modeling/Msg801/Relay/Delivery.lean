import Msg801.Relay.ArrivalOrder
import Msg801.Relay.Visitor

/-! # The order in which a client is written to

At B the reader alone writes to the client of a session, one payload after the other, so
that the client is sent what the frames carry in their order, and is shut down behind all
that came before the `DATA_EOF`.
-/
namespace Msg801.Relay
open Transition

theorem prefix_dataOf {u : Uuid} {as bs : List Frame} (h : as <+: bs) : dataOf u as <+: dataOf u bs := by
  obtain ⟨cs,rfl⟩ := h
  rw [dataOf_append]
  exact List.prefix_append _ _

theorem payload_of_visitorKey_ne {u : Uuid} {f : Frame} (h : visitorKey f ≠ some u) : payload u f = [] := by
  rw [payload]
  split_ifs with hf
  · obtain ⟨-,hlen,rfl⟩ := hf
    exact absurd (by simp [visitorKey, Nat.not_lt.mpr hlen]) h
  · rfl

theorem payload_of_visitorKey {u : Uuid} {f : Frame} (hm : f.method = .data) (hk : visitorKey f = some u) :
    payload u f = f.body.drop UUID_BYTES := by
  rw [visitorKey] at hk
  split_ifs at hk with hlen
  exact if_pos ⟨hm,Nat.not_lt.mp hlen,Option.some.inj hk⟩

namespace Visitor

/-- A new identifier has been given to no session, and no frame was for it. -/
def InSequence (s : Visitor) : VisitorEvent → Prop
  | .accept uuid => s.sessions.Fresh uuid ∧ ∀ g ∈ s.frames, visitorKey g ≠ some uuid
  | _ => True

/-- What the client of a session has been sent and the reader has still to write is what the
frames carry, all of it as long as the session is in the table and no write has failed. -/
structure Ordered (u : Uuid) (v : View ClientSession) : Prop where
  kept : v.session.socket.written ++ v.pending.getD [] <+: dataOf u v.frames
  whole : v.entered = true → v.closing = false →
    v.session.socket.written ++ v.pending.getD [] = dataOf u v.frames
  shut : v.session.socket.shutdownSend = true → ∃ pre g, pre ++ [g] <+: v.frames ∧ g.method = .dataEof ∧
    visitorKey g = some u ∧ v.session.socket.written = dataOf u pre

variable {s t : Visitor} {e : VisitorEvent} {i : ℕ} {u : Uuid} {v w : View ClientSession}

theorem InSequence.fresh (hq : s.InSequence e) : s.Fresh e := by
  cases e with
  | accept => exact hq.1
  | _ => trivial

/-- What is neither read nor written, and no new entry, leaves the order as it is. -/
theorem Ordered.congr (h : Ordered u v) (hw : w.session.socket.written = v.session.socket.written)
    (hs : w.session.socket.shutdownSend = v.session.socket.shutdownSend) (hp : w.pending = v.pending)
    (hf : w.frames = v.frames) (he : w.entered = true → v.entered = true)
    (hc : w.entered = true → w.closing = false → v.closing = false) : Ordered u w := by
  refine ⟨?_,fun h₁ h₂ => ?_,fun h₁ => ?_⟩
  · rw [hw, hp, hf]
    exact h.kept
  · rw [hw, hp, hf]
    exact h.whole (he h₁) (hc h₁ h₂)
  · rw [hw, hf]
    exact h.shut (hs ▸ h₁)

theorem Ordered.frames (h : Ordered u v) (fs : List Frame)
    (hfs : v.entered = true → ∀ f ∈ fs, payload u f = []) : Ordered u { v with frames := v.frames ++ fs } := by
  refine ⟨?_,fun h₁ h₂ => ?_,fun h₁ => ?_⟩
  · exact h.kept.trans (prefix_dataOf (List.prefix_append _ _))
  · have hnone : dataOf u fs = [] := List.flatMap_eq_nil_iff.mpr (hfs h₁)
    rw [dataOf_append, hnone, List.append_nil]
    exact h.whole h₁ h₂
  · obtain ⟨pre,g,hp,hg⟩ := h.shut h₁
    exact ⟨pre,g,hp.trans (List.prefix_append _ _),hg⟩

theorem Ordered.taken (h : Ordered u v) (he : v.entered = true) (hp : v.pending = none) (hc : v.closing = false)
    {f : Frame} (hk : visitorKey f = some u) : Ordered u { v with
      session := (v.session.onFrame f).session
      entered := !(v.session.onFrame f).erase
      pending := (v.session.onFrame f).write
      frames := v.frames ++ [f] } := by
  have hwhole : v.session.socket.written = dataOf u v.frames := by simpa [hp] using h.whole he hc
  have hnone : f.method ≠ .data → dataOf u (v.frames ++ [f]) = dataOf u v.frames := fun hm => by
    rw [dataOf_append, dataOf_singleton, payload_of_ne_data u hm, List.append_nil]
  have hshut : v.session.socket.shutdownSend = true → ∃ pre g, pre ++ [g] <+: v.frames ++ [f] ∧
      g.method = .dataEof ∧ visitorKey g = some u ∧ v.session.socket.written = dataOf u pre := by
    intro hs
    obtain ⟨pre,g,hpre,hg⟩ := h.shut hs
    exact ⟨pre,g,hpre.trans (List.prefix_append _ _),hg⟩
  have hsame : f.method ≠ .data → ∀ {x : ClientSession} {b : Bool}, x.socket.written = v.session.socket.written →
      x.socket.shutdownSend = v.session.socket.shutdownSend → Ordered u { v with
        session := x
        entered := b
        pending := none
        frames := v.frames ++ [f] } := by
    intro hm x b hw hs
    refine ⟨?_,fun _ _ => ?_,fun h₁ => ?_⟩
    · simp [hnone hm, hw, hwhole]
    · simp [hnone hm, hw, hwhole]
    · rw [hw]
      exact hshut (hs ▸ h₁)
  cases hm : f.method
  case data =>
    have hdata : dataOf u (v.frames ++ [f]) = v.session.socket.written ++ f.body.drop UUID_BYTES := by
      rw [dataOf_append, dataOf_singleton, payload_of_visitorKey hm hk, hwhole]
    have hwrite : (if (f.body.drop UUID_BYTES).length > 0 then some (f.body.drop UUID_BYTES) else none).getD [] =
        f.body.drop UUID_BYTES := by
      split_ifs with hlen
      · rfl
      · exact (List.length_eq_zero_iff.mp (Nat.eq_zero_of_not_pos hlen)).symm
    rw [ClientSession.onFrame, hm]
    dsimp only
    refine ⟨?_,fun _ _ => ?_,hshut⟩
    · simp only [hwrite, hdata, List.prefix_rfl]
    · rw [hwrite, hdata]
  case dataEof =>
    have hgot : dataOf u (v.frames ++ [f]) = dataOf u v.frames := hnone (by simp [hm])
    have hend : Ordered u { v with
        session := v.session.recvEof.shutdown
        pending := none
        frames := v.frames ++ [f] } := by
      refine ⟨?_,fun _ _ => ?_,fun _ => ⟨v.frames,f,List.prefix_rfl,hm,hk,hwhole⟩⟩
      · simp [SessionEnd.recvEof, SessionEnd.shutdown, hgot, hwhole]
      · simp [SessionEnd.recvEof, SessionEnd.shutdown, hgot, hwhole]
    rw [ClientSession.onFrame, hm]
    dsimp only
    split_ifs
    · exact hend.congr rfl rfl rfl rfl (fun _ => he) fun _ _ => hc
    · exact hend.congr rfl rfl rfl rfl (fun _ => he) fun _ _ => hc
  all_goals
    rw [ClientSession.onFrame, hm]
    exact hsame (by simp [hm]) rfl rfl

theorem Ordered.written (h : Ordered u v) {live : Prop} {rest : ByteVector} {n : ℕ} (hp : v.pending = some rest)
    (hn : CanTransfer live v.session rest n) : Ordered u { v with
      session := v.session.write (rest.take n)
      pending := if n = rest.length then none else some (rest.drop n) } := by
  have hrest : rest.take n ++ (if n = rest.length then none else some (rest.drop n)).getD [] = rest := by
    split_ifs with hlen
    · rw [hlen, List.take_length, Option.getD_none, List.append_nil]
    · exact List.take_append_drop n rest
  have hsum : v.session.socket.written ++ rest.take n ++
      (if n = rest.length then none else some (rest.drop n)).getD [] = v.session.socket.written ++ v.pending.getD [] := by
    rw [List.append_assoc, hrest, hp, Option.getD_some]
  refine ⟨?_,fun h₁ h₂ => ?_,fun h₁ => ?_⟩
  · change v.session.socket.written ++ rest.take n ++ _ <+: _
    rw [hsum]
    exact h.kept
  · change v.session.socket.written ++ rest.take n ++ _ = _
    rw [hsum]
    exact h.whole h₁ h₂
  · -- a socket that is shut down takes no more than an empty write
    obtain ⟨rfl,rfl⟩ | ⟨-,-,-,-,hopen⟩ := hn
    · obtain ⟨pre,g,hpre,hg,hk,hwritten⟩ := h.shut h₁
      exact ⟨pre,g,hpre,hg,hk,by simpa [SessionEnd.write] using hwritten⟩
    · exact absurd (hopen.symm.trans h₁) Bool.false_ne_true

theorem Moves.ordered (hm : Moves s i e v) (h : Ordered (s.sessions.key i) (s.view i)) :
    Ordered (s.sessions.key i) v := by
  cases hm with
  | same => exact h
  | resumed e x hx =>
    have hsocket : x.socket.written = (s.sessions.cell i).socket.written ∧
        x.socket.shutdownSend = (s.sessions.cell i).socket.shutdownSend := by
      cases ClientSession.resume_resumes hx with
      | sent f =>
        rw [((s.sessions.cell i).onSent_frame f).1]
        exact ⟨rfl,rfl⟩
      | read r =>
        rw [(((s.sessions.cell i).receive r).onRead_frame (s.sessions.key i) r).2.2.2.1]
        exact ⟨rfl,rfl⟩
    exact h.congr hsocket.1 hsocket.2 rfl rfl (fun he => (Bool.and_eq_true_iff.mp he).1) fun _ => id
  | transmitted => exact h.congr rfl rfl rfl rfl id fun _ => id
  | passed f hr hm hk =>
    apply h.frames [f]
    intro he g hg
    obtain rfl := List.mem_singleton.mp hg
    exact payload_of_visitorKey_ne (hk (of_decide_eq_true he))
  | taken f hr he hm hk => exact h.taken (decide_eq_true he) (by simp [hr]) (by simp [hr]) hk
  | written n rest hr hn => exact h.written (by simp [hr]) hn
  | failed rest hr =>
    refine ⟨?_,nofun,h.shut⟩
    have hkept := h.kept
    rw [Option.getD_none, List.append_nil]
    exact (List.prefix_append _ _).trans hkept
  | dismissed onWire hr he => exact h.congr rfl rfl rfl rfl nofun nofun
  | staled onWire hr he =>
    refine h.congr rfl rfl rfl rfl id fun he' => absurd (of_decide_eq_true he') he
  | cut r fs hr hfs =>
    have hsame := h.frames fs fun _ f hf => payload_of_ne_data _ (by simp [hfs f hf])
    refine hsame.congr ?_ ?_ rfl rfl nofun nofun <;> dsimp only <;> split_ifs <;> rfl
  | shut =>
    refine h.congr ?_ ?_ rfl rfl nofun nofun <;> dsimp only <;> split_ifs <;> rfl

end Visitor

end Msg801.Relay
