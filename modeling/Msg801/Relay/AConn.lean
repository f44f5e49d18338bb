import Mathlib.Data.List.Nodup
import Msg801.Lib.Transition
import Msg801.Relay.Frame

/-! # Concurrent writes on the connection to the matcher

Every coroutine of a node writes its frames with `aconn_write`. The strand orders the
handlers but is free while a write is pending, so several writes can be under way, each a
series of partial transfers. Bytes on the socket are recorded with the call they are from.
-/
namespace Msg801.Relay
open Transition

/-- How far a call of `aconn_write` has come: posted to the strand, in `async_write` with
`done` of its frame transferred and `rest` not, or over. -/
inductive WriteState where
  | posted
  | writing (done rest : ByteVector)
  | returned
  deriving DecidableEq

/-- The connection, the calls of `aconn_write` in the order they were made, and what they
have put on the socket. A socket that failed transfers nothing more. -/
structure AConn where
  calls : List (Method × ByteVector) := []
  writes : ℕ → WriteState := fun _ => .posted
  sent : List (ℕ × Byte) := []
  broken : Bool := false

inductive AConnEvent where
  | aconnWrite (method : Method) (body : ByteVector)
  | posted (call : ℕ) (ec : Bool)
  | asyncWriteSome (call n : ℕ)
  | asyncWriteError (call : ℕ)
  deriving DecidableEq

namespace AConn

def setWrite (c : AConn) (i : ℕ) (w : WriteState) : AConn :=
  { c with writes := Function.update c.writes i w }

/-- The handlers of `aconn_write` and of the write it awaits. -/
def step (c : AConn) : AConnEvent → Option AConn
  | .aconnWrite method body => some { c with calls := c.calls ++ [(method,body)] }
  | .posted i ec =>
    match c.calls[i]?, c.writes i with
    | some (method,body), .posted =>
      some (c.setWrite i (if ec then .returned else .writing [] (buildFrameBytes method body)))
    | _, _ => none
  | .asyncWriteSome i n =>
    match c.writes i with
    | .writing done rest =>
      if 0 < n ∧ n ≤ rest.length ∧ c.broken = false then
        some { c.setWrite i (if n = rest.length then .returned
            else .writing (done ++ rest.take n) (rest.drop n)) with
          sent := c.sent ++ (rest.take n).map (Prod.mk i) }
      else none
    | _ => none
  | .asyncWriteError i =>
    match c.writes i with
    | .writing _ _ => some { c.setWrite i .returned with broken := true }
    | _ => none

/-- The frame of a call. -/
def frame (c : AConn) (i : ℕ) : ByteVector :=
  (c.calls[i]?.map fun call => buildFrameBytes call.1 call.2).getD []

/-- The frame of a call, every byte with the call. -/
def tagged (c : AConn) (i : ℕ) : List (ℕ × Byte) := (c.frame i).map (Prod.mk i)

/-- What is on the socket begins a sequence of whole frames of different calls. -/
def Atomic (c : AConn) : Prop :=
  ∃ order : List ℕ, order.Nodup ∧ (∀ i ∈ order, i < c.calls.length) ∧
    c.sent <+: order.flatMap c.tagged

/-- The bytes on the socket begin a concatenation of whole frames. -/
def BytesAtomic (c : AConn) : Prop :=
  ∃ order : List ℕ, order.Nodup ∧ (∀ i ∈ order, i < c.calls.length) ∧
    c.sent.map Prod.snd <+: order.flatMap c.frame

theorem Atomic.bytes {c : AConn} (h : c.Atomic) : c.BytesAtomic := by
  obtain ⟨order,hn,hl,hp⟩ := h
  refine ⟨order,hn,hl,?_⟩
  have hmap : (order.flatMap c.tagged).map Prod.snd = order.flatMap c.frame := by
    rw [List.map_flatMap]
    congr
    funext i
    simp [tagged, Function.comp_def]
  rw [← hmap]
  exact hp.map Prod.snd

/-- A frame has been cut short: some of it is on the socket and some is not. -/
def Cut (c : AConn) (i : ℕ) : Prop := ∃ done rest, c.writes i = .writing done rest ∧ done ≠ []

/-- Bytes of a frame are transferred only while no other frame is cut short. -/
def Alone (c : AConn) : AConnEvent → Prop
  | .asyncWriteSome i _ => ∀ j, j ≠ i → ¬c.Cut j
  | _ => True

theorem frame_append {c : AConn} {i : ℕ} (h : i < c.calls.length) (call : Method × ByteVector) :
    frame { c with calls := c.calls ++ [call] } i = c.frame i := by
  simp [frame, List.getElem?_append_left h]

theorem flatMap_tagged_append {c : AConn} {order : List ℕ} (h : ∀ i ∈ order, i < c.calls.length)
    (call : Method × ByteVector) :
    order.flatMap (tagged { c with calls := c.calls ++ [call] }) = order.flatMap c.tagged :=
  List.flatMap_congr fun i hi => by rw [tagged, frame_append (h i hi), tagged]

/-- The calls that are over in the order their frames are on the socket, and behind them
the part of the one frame that is cut short, if there is one. -/
structure Ordered (c : AConn) (order : List ℕ) (part : List (ℕ × Byte)) : Prop where
  nodup : order.Nodup
  finished : ∀ i ∈ order, i < c.calls.length ∧ c.writes i = .returned
  pending : ∀ i done rest, c.writes i = .writing done rest →
    i < c.calls.length ∧ done ++ rest = c.frame i ∧ rest ≠ []
  sent : c.sent = order.flatMap c.tagged ++ part
  part : (∀ i, ¬c.Cut i) ∧ part = [] ∨ ∃ i done rest, c.writes i = .writing done rest ∧
    done ≠ [] ∧ part = done.map (Prod.mk i) ∧ ∀ j, j ≠ i → ¬c.Cut j

/-- Two calls whose first short write lets the second frame in between. -/
def overlapping : List AConnEvent :=
  [.aconnWrite .dataEof (text "01234567-89ab-4cde-8f01-23456789abcd"),
    .aconnWrite .dataEof (text "76543210-ba98-4edc-810f-dcba98765432"),
    .posted 0 false, .posted 1 false, .asyncWriteSome 0 4, .asyncWriteSome 1 41]

/-- What holds as long as bytes are only transferred while no other frame is cut short. -/
def Inv (c : AConn) : Prop :=
  c.Atomic ∧ (c.broken = false → ∃ order part, c.Ordered order part)

theorem Ordered.atomic {c : AConn} {order : List ℕ} {part : List (ℕ × Byte)}
    (h : c.Ordered order part) : c.Atomic := by
  obtain ⟨-,hpart⟩ | ⟨i,done,rest,hw,-,hpart,-⟩ := h.part
  · refine ⟨order,h.nodup,fun i hi => (h.finished i hi).1,?_⟩
    have hsent : c.sent = order.flatMap c.tagged := by rw [h.sent, hpart, List.append_nil]
    exact hsent ▸ List.prefix_rfl
  · obtain ⟨hi,hf,-⟩ := h.pending i done rest hw
    have hnot : i ∉ order := fun hmem => by
      have := (h.finished i hmem).2
      rw [hw] at this
      cases this
    refine ⟨order ++ [i],?_,?_,?_⟩
    · refine List.nodup_append.mpr ⟨h.nodup,List.nodup_singleton i,fun j hj k hk hjk => hnot ?_⟩
      rwa [← List.mem_singleton.mp hk, ← hjk]
    · intro j hj
      rcases List.mem_append.mp hj with hj | hj
      · exact (h.finished j hj).1
      · exact List.mem_singleton.mp hj ▸ hi
    · rw [h.sent, hpart, List.flatMap_append, List.flatMap_singleton, List.prefix_append_right_inj,
        tagged, ← hf, List.map_append]
      exact List.prefix_append _ _

/-- What one write has put on the socket when no other frame is cut short. -/
theorem Ordered.sent_of_alone {c : AConn} {order : List ℕ} {part : List (ℕ × Byte)}
    (h : c.Ordered order part) {i : ℕ} {done rest : ByteVector} (hw : c.writes i = .writing done rest)
    (ha : ∀ j, j ≠ i → ¬c.Cut j) : part = done.map (Prod.mk i) := by
  obtain ⟨hnone,hpart⟩ | ⟨j,done',rest',hw',hne,hpart,-⟩ := h.part
  · have hdone : done = [] := by
      by_contra hne
      exact hnone i ⟨done,rest,hw,hne⟩
    rw [hpart, hdone, List.map_nil]
  · have hji : j = i := by
      by_contra hji
      exact ha j hji ⟨done',rest',hw',hne⟩
    subst hji
    rw [hw] at hw'
    cases hw'
    exact hpart

@[simp] theorem setWrite_self (c : AConn) (i : ℕ) (w : WriteState) :
    (c.setWrite i w).writes i = w := by simp [setWrite]

theorem setWrite_of_ne (c : AConn) {i j : ℕ} (h : j ≠ i) (w : WriteState) :
    (c.setWrite i w).writes j = c.writes j := by simp [setWrite, h]

/-- A write that is not over in the record and has nothing on the socket can change freely. -/
theorem Ordered.setWrite {c : AConn} {order : List ℕ} {part : List (ℕ × Byte)}
    (h : c.Ordered order part) {i : ℕ} (hp : c.writes i = .posted) {w : WriteState}
    (hw : w = .posted ∨ w = .returned ∨ i < c.calls.length ∧ w = .writing [] (c.frame i) ∧ c.frame i ≠ []) :
    (c.setWrite i w).Ordered order part := by
  have hcut : ∀ j, (c.setWrite i w).Cut j → j ≠ i ∧ c.Cut j := by
    rintro j ⟨done,rest,hj,hne⟩
    by_cases hji : j = i
    · subst hji
      rw [setWrite_self] at hj
      rcases hw with rfl | rfl | ⟨-,rfl,-⟩ <;> simp_all
    · rw [setWrite_of_ne c hji] at hj
      exact ⟨hji,done,rest,hj,hne⟩
  constructor
  case nodup => exact h.nodup
  case finished =>
    intro j hj
    have hji : j ≠ i := by
      rintro rfl
      have := (h.finished j hj).2
      rw [hp] at this
      cases this
    rw [setWrite_of_ne c hji]
    exact h.finished j hj
  case pending =>
    intro j done rest hj
    by_cases hji : j = i
    · subst hji
      rw [setWrite_self] at hj
      rcases hw with rfl | rfl | ⟨hlen,rfl,hne⟩
      · cases hj
      · cases hj
      · cases hj
        exact ⟨hlen,rfl,hne⟩
    · rw [setWrite_of_ne c hji] at hj
      exact h.pending j done rest hj
  case sent => exact h.sent
  case part =>
    obtain ⟨hnone,hpart⟩ | ⟨j,done,rest,hj,hne,hpart,hothers⟩ := h.part
    · exact .inl ⟨fun j hj => hnone j (hcut j hj).2,hpart⟩
    · have hji : j ≠ i := by
        rintro rfl
        rw [hp] at hj
        cases hj
      refine .inr ⟨j,done,rest,by rwa [setWrite_of_ne c hji],hne,hpart,fun k hk hc => ?_⟩
      exact hothers k hk (hcut k hc).2

theorem atomic_congr {c c' : AConn} (h : c.Atomic) (hc : c'.calls = c.calls) (hs : c'.sent = c.sent) :
    c'.Atomic := by
  have hf : c'.tagged = c.tagged := funext fun i => by rw [tagged, frame, hc]; rfl
  obtain ⟨order,hn,hl,hp⟩ := h
  refine ⟨order,hn,?_,?_⟩
  · rwa [hc]
  · rwa [hf, hs]

theorem Inv.aconnWrite {c : AConn} (h : c.Inv) (call : Method × ByteVector) :
    Inv { c with calls := c.calls ++ [call] } := by
  have hlen : ∀ i, i < c.calls.length → i < (c.calls ++ [call]).length := fun i hi => by
    simp only [List.length_append]
    omega
  obtain ⟨⟨order,hn,hl,hp⟩,ho⟩ := h
  refine ⟨⟨order,hn,fun i hi => hlen i (hl i hi),?_⟩,fun hb => ?_⟩
  · rw [flatMap_tagged_append hl call]
    exact hp
  · obtain ⟨order,part,h⟩ := ho hb
    refine ⟨order,part,h.nodup,fun i hi => ⟨hlen i (h.finished i hi).1,(h.finished i hi).2⟩,?_,?_,h.part⟩
    · intro i done rest hw
      obtain ⟨hi,hf,hr⟩ := h.pending i done rest hw
      exact ⟨hlen i hi,by rw [frame_append hi, hf],hr⟩
    · rw [flatMap_tagged_append (fun i hi => (h.finished i hi).1) call]
      exact h.sent

/-- Transferring the rest of a frame, alone, ends its call. -/
theorem Ordered.transferAll {c : AConn} {order : List ℕ} {part : List (ℕ × Byte)}
    (h : c.Ordered order part) {i : ℕ} {done rest : ByteVector} (hw : c.writes i = .writing done rest)
    (ha : ∀ j, j ≠ i → ¬c.Cut j) :
    Ordered { c.setWrite i .returned with sent := c.sent ++ rest.map (Prod.mk i) } (order ++ [i]) [] := by
  have hpart := h.sent_of_alone hw ha
  obtain ⟨hi,hf,hr⟩ := h.pending i done rest hw
  have hnot : ∀ j ∈ order, j ≠ i := by
    rintro j hj rfl
    have := (h.finished j hj).2
    rw [hw] at this
    cases this
  have hne : ∀ {j done' rest'}, (c.setWrite i .returned).writes j = .writing done' rest' → j ≠ i := by
    rintro j _ _ hj rfl
    rw [setWrite_self] at hj
    cases hj
  constructor
  case nodup =>
    exact List.nodup_append.mpr ⟨h.nodup,List.nodup_singleton i,fun j hj k hk hjk =>
      hnot j hj (hjk.trans (List.mem_singleton.mp hk))⟩
  case finished =>
    intro j hj
    rcases List.mem_append.mp hj with hj | hj
    · have := setWrite_of_ne c (hnot j hj) .returned
      exact ⟨(h.finished j hj).1,this.trans (h.finished j hj).2⟩
    · obtain rfl := List.mem_singleton.mp hj
      exact ⟨hi,setWrite_self c j .returned⟩
  case pending =>
    intro j done' rest' hj
    exact h.pending j done' rest' ((setWrite_of_ne c (hne hj) .returned).symm.trans hj)
  case sent =>
    have htag : c.tagged i = done.map (Prod.mk i) ++ rest.map (Prod.mk i) := by
      rw [tagged, ← hf, List.map_append]
    change c.sent ++ rest.map (Prod.mk i) = (order ++ [i]).flatMap c.tagged ++ []
    rw [h.sent, hpart, List.flatMap_append, List.flatMap_singleton, htag, List.append_nil,
      List.append_assoc]
  case part =>
    refine .inl ⟨?_,rfl⟩
    rintro j ⟨done',rest',hj,hd⟩
    exact ha j (hne hj) ⟨done',rest',(setWrite_of_ne c (hne hj) .returned).symm.trans hj,hd⟩

theorem Ordered.transferSome {c : AConn} {order : List ℕ} {part : List (ℕ × Byte)}
    (h : c.Ordered order part) {i : ℕ} {done now rest : ByteVector}
    (hw : c.writes i = .writing done (now ++ rest)) (hnow : now ≠ []) (hrest : rest ≠ [])
    (ha : ∀ j, j ≠ i → ¬c.Cut j) :
    Ordered { c.setWrite i (.writing (done ++ now) rest) with
      sent := c.sent ++ now.map (Prod.mk i) } order ((done ++ now).map (Prod.mk i)) := by
  have hpart := h.sent_of_alone hw ha
  obtain ⟨hi,hf,hr⟩ := h.pending i done (now ++ rest) hw
  have hnot : ∀ j ∈ order, j ≠ i := by
    rintro j hj rfl
    have := (h.finished j hj).2
    rw [hw] at this
    cases this
  constructor
  case nodup => exact h.nodup
  case finished =>
    intro j hj
    have := setWrite_of_ne c (hnot j hj) (.writing (done ++ now) rest)
    exact ⟨(h.finished j hj).1,this.trans (h.finished j hj).2⟩
  case pending =>
    intro j done' rest' hj
    change (c.setWrite i (.writing (done ++ now) rest)).writes j = _ at hj
    by_cases hji : j = i
    · subst hji
      rw [setWrite_self] at hj
      cases hj
      exact ⟨hi,by rw [List.append_assoc]; exact hf,hrest⟩
    · rw [setWrite_of_ne c hji] at hj
      exact h.pending j done' rest' hj
  case sent =>
    change c.sent ++ now.map (Prod.mk i) = order.flatMap c.tagged ++ (done ++ now).map (Prod.mk i)
    rw [h.sent, hpart, List.map_append, List.append_assoc]
  case part =>
    refine .inr ⟨i,done ++ now,rest,setWrite_self c i _,by simp [hnow],rfl,?_⟩
    rintro j hji ⟨done',rest',hj,hd⟩
    exact ha j hji ⟨done',rest',(setWrite_of_ne c hji _).symm.trans hj,hd⟩

theorem step_inv {c c' : AConn} {e : AConnEvent} (h : c.Inv) (ha : c.Alone e)
    (hs : c.step e = some c') : c'.Inv := by
  cases e with
  | aconnWrite method body =>
    obtain rfl := Option.some.inj hs
    exact h.aconnWrite (method,body)
  | posted i ec =>
    rw [step] at hs
    cases hc : c.calls[i]? with
    | none => simp [hc] at hs
    | some call =>
      cases hw : c.writes i <;> simp only [hc, hw] at hs
      case posted =>
        obtain rfl := Option.some.inj hs
        have hlen : i < c.calls.length := (List.getElem?_eq_some_iff.mp hc).1
        have hframe : c.frame i = buildFrameBytes call.1 call.2 := by simp [frame, hc]
        refine ⟨atomic_congr h.1 rfl rfl,fun hb => ?_⟩
        obtain ⟨order,part,ho⟩ := h.2 hb
        refine ⟨order,part,ho.setWrite hw ?_⟩
        cases ec with
        | true => exact .inr (.inl rfl)
        | false =>
          refine .inr (.inr ⟨hlen,by rw [hframe]; rfl,?_⟩)
          rw [hframe]
          exact buildFrameBytes_ne_nil _ _
      all_goals cases hs
  | asyncWriteSome i n =>
    rw [step] at hs
    cases hw : c.writes i <;> simp only [hw] at hs
    case writing done rest =>
      split_ifs at hs with hn hall
      all_goals
        obtain ⟨hpos,hle,hb⟩ := hn
        obtain ⟨order,part,ho⟩ := h.2 hb
        obtain rfl := Option.some.inj hs
      · subst hall
        have := ho.transferAll hw ha
        rw [List.take_length]
        exact ⟨this.atomic,fun _ => ⟨_,_,this⟩⟩
      · have hsplit : c.writes i = .writing done (rest.take n ++ rest.drop n) := by
          rw [hw, List.take_append_drop]
        have hnow : rest.take n ≠ [] := List.ne_nil_of_length_pos (by simp only [List.length_take]; omega)
        have hrest : rest.drop n ≠ [] := List.ne_nil_of_length_pos (by simp only [List.length_drop]; omega)
        have := ho.transferSome hsplit hnow hrest ha
        exact ⟨this.atomic,fun _ => ⟨_,_,this⟩⟩
    all_goals cases hs
  | asyncWriteError i =>
    rw [step] at hs
    cases hw : c.writes i <;> simp only [hw] at hs
    case writing done rest =>
      obtain rfl := Option.some.inj hs
      exact ⟨atomic_congr h.1 rfl rfl,fun hb => absurd hb (by simp)⟩
    all_goals cases hs

theorem fresh_inv : Inv {} := by
  have ho : Ordered {} [] [] := by
    refine ⟨List.nodup_nil,by simp,fun i done rest h => ?_,rfl,.inl ⟨?_,rfl⟩⟩
    · cases h
    · rintro i ⟨done,rest,h,-⟩
      cases h
  exact ⟨ho.atomic,fun _ => ⟨_,_,ho⟩⟩

theorem run_inv {events : List AConnEvent} {c : AConn} (hm : Meets step Alone {} events)
    (hr : run step {} events = some c) : c.Inv :=
  (hm.reach hr).invariant fresh_inv fun h ha hs => step_inv h ha hs

theorem frame_ne_nil {c : AConn} {i : ℕ} (h : i < c.calls.length) : c.frame i ≠ [] := by
  rw [frame, List.getElem?_eq_getElem h]
  exact buildFrameBytes_ne_nil _ _

/-- A sequence of frames that begins with bytes of a call begins with its frame. -/
theorem cons_of_prefix {c : AConn} {order : List ℕ} {i : ℕ} {b : Byte} {x : List (ℕ × Byte)}
    (hne : ∀ j ∈ order, j < c.calls.length) (h : (i,b) :: x <+: order.flatMap c.tagged) :
    ∃ more, order = i :: more := by
  cases order with
  | nil => simp at h
  | cons j order =>
    obtain ⟨a,as,hf⟩ := List.exists_cons_of_ne_nil (frame_ne_nil (hne j (by simp)))
    rw [List.flatMap_cons, tagged, hf, List.map_cons, List.cons_append, List.cons_prefix_cons] at h
    exact ⟨order,by rw [(Prod.mk.inj h.1).1]⟩

/-- Whole frames at the front of two sequences are the same ones. -/
theorem prefix_of_flatMap_tagged {c : AConn} {order order' : List ℕ} {x : List (ℕ × Byte)}
    (hlt : ∀ i ∈ order, i < c.calls.length) (hlt' : ∀ i ∈ order', i < c.calls.length)
    (h : order.flatMap c.tagged ++ x <+: order'.flatMap c.tagged) :
    ∃ more, order' = order ++ more ∧ x <+: more.flatMap c.tagged := by
  induction order generalizing order' with
  | nil => exact ⟨order',rfl,by simpa using h⟩
  | cons i order ih =>
    obtain ⟨b,bs,hf⟩ := List.exists_cons_of_ne_nil (frame_ne_nil (hlt i (by simp)))
    have hi : c.tagged i = (i,b) :: bs.map (Prod.mk i) := by rw [tagged, hf]; rfl
    obtain ⟨more,rfl⟩ := cons_of_prefix hlt' (by
      rw [List.flatMap_cons, hi] at h
      exact h)
    rw [List.flatMap_cons, List.flatMap_cons, List.append_assoc, List.prefix_append_right_inj] at h
    obtain ⟨rest,rfl,hx⟩ := ih (fun j hj => hlt j (by simp [hj])) (fun j hj => hlt' j (by simp [hj])) h
    exact ⟨rest,rfl,hx⟩

/-- Bytes of a second frame behind a frame that is cut short are in no sequence of frames. -/
theorem not_atomic_of_intrusion {c c' : AConn} {i n : ℕ} (h : c.Inv) (ha : ¬c.Alone (.asyncWriteSome i n))
    (hs : c.step (.asyncWriteSome i n) = some c') : ¬c'.Atomic := by
  obtain ⟨j,hji,hcut⟩ : ∃ j, j ≠ i ∧ c.Cut j := by simpa [Alone] using ha
  rw [step] at hs
  cases hw : c.writes i <;> simp only [hw] at hs
  case writing done rest =>
    split_ifs at hs with hn
    all_goals
      obtain ⟨hpos,hle,hb⟩ := hn
      obtain ⟨order,part,ho⟩ := h.2 hb
      obtain ⟨hnone,-⟩ | ⟨k,done',rest',hk,hne,hpart,hothers⟩ := ho.part
      · exact absurd hcut (hnone j)
      have hjk : j = k := by
        by_contra hjk
        exact hothers j hjk hcut
      subst hjk
      obtain ⟨hlen,hframe,hrest⟩ := ho.pending j done' rest' hk
      obtain ⟨b,bs,hbs⟩ := List.exists_cons_of_ne_nil (List.ne_nil_of_length_pos
        (show 0 < (rest.take n).length by simp only [List.length_take]; omega))
      obtain rfl := Option.some.inj hs
      rintro ⟨order',-,hlt',hp⟩
      change c.sent ++ (rest.take n).map (Prod.mk i) <+: order'.flatMap c.tagged at hp
      rw [ho.sent, hpart, hbs, List.append_assoc] at hp
      obtain ⟨more,rfl,hx⟩ := prefix_of_flatMap_tagged (fun i hi => (ho.finished i hi).1) hlt' hp
      obtain ⟨d,ds,rfl⟩ := List.exists_cons_of_ne_nil hne
      obtain ⟨r,rs,rfl⟩ := List.exists_cons_of_ne_nil hrest
      obtain ⟨more,rfl⟩ := cons_of_prefix (fun k hk => hlt' k (by simp [hk])) hx
      rw [List.flatMap_cons, tagged, ← hframe, List.map_append, List.append_assoc,
        List.prefix_append_right_inj, List.map_cons, List.map_cons, List.cons_append,
        List.cons_prefix_cons] at hx
      exact hji (Prod.mk.inj hx.1).1.symm
  all_goals cases hs

/-- In a run the frames on the socket are whole and apart at every moment exactly when bytes
are only transferred while no other frame is cut short. -/
theorem frames_atomic {events : List AConnEvent} {c : AConn} (hrun : run step {} events = some c) :
    ((∀ pre t, pre <+: events → run step {} pre = some t → t.Atomic) ↔
      Meets step Alone {} events) ∧
    (Meets step Alone {} events →
      ∀ pre t, pre <+: events → run step {} pre = some t → t.BytesAtomic) := by
  have hforward : Meets step Alone {} events → ∀ pre t, pre <+: events →
      run step {} pre = some t → t.Atomic := by
    rintro hm pre t ⟨post,rfl⟩ ht
    exact (run_inv hm.of_append ht).1
  refine ⟨⟨fun hall => ?_,hforward⟩,fun hm pre t hp ht => (hforward hm pre t hp ht).bytes⟩
  clear hforward
  induction events using List.reverseRecOn generalizing c with
  | nil => exact Meets.nil _
  | append_singleton events e ih =>
    obtain ⟨t,ht,he⟩ := run_append_some.mp hrun
    have hm := ih ht fun pre u hp hu => hall pre u (hp.trans (List.prefix_append _ _)) hu
    apply hm.concat
    intro u hu
    have hinv := run_inv hm hu
    obtain rfl := Option.some.inj (hu.symm.trans ht)
    have hstep : u.step e = some c := by simpa using he
    by_contra hn
    cases e with
    | asyncWriteSome i n =>
      exact not_atomic_of_intrusion hinv hn hstep (hall _ c List.prefix_rfl hrun)
    | aconnWrite | posted | asyncWriteError => exact hn trivial

/-- Two calls one of which is cut short while the other has not been started. -/
def apart : List AConnEvent :=
  [.aconnWrite .dataEof (text "01234567-89ab-4cde-8f01-23456789abcd"),
    .aconnWrite .dataEof (text "76543210-ba98-4edc-810f-dcba98765432"),
    .posted 0 false, .asyncWriteSome 0 4]

theorem frames_atomic_apart : ∃ c, run step {} apart = some c ∧ c.BytesAtomic := by
  obtain ⟨c,hrun⟩ : ∃ c, run step {} apart = some c := ⟨_,rfl⟩
  have halone : ∀ j, j ≠ 0 → ¬Cut (AConn.setWrite {} 0 (.writing [] (buildFrameBytes .dataEof
      (text "01234567-89ab-4cde-8f01-23456789abcd")))) j := by
    rintro j hj ⟨done,rest,hw,-⟩
    rw [setWrite_of_ne _ hj] at hw
    cases hw
  have hm : Meets step Alone {} apart :=
    .cons trivial rfl (.cons trivial rfl (.cons trivial rfl (.cons halone rfl (.nil _))))
  exact ⟨c,hrun,(frames_atomic hrun).2 hm apart c List.prefix_rfl hrun⟩

/-- The second frame stands behind four bytes of the first. -/
theorem overlapping_not_atomic : ∃ c, run step {} overlapping = some c ∧ ¬c.BytesAtomic := by
  obtain ⟨c,hrun,hlen,hframe,hsent⟩ : ∃ c, run step {} overlapping = some c ∧ c.calls.length = 2 ∧
      (∀ i < 2, (c.frame i).take 5 = [0, 0, 0, 37, 0x11]) ∧
      (c.sent.map Prod.snd).take 5 = [0, 0, 0, 37, 0] := ⟨_,rfl,rfl,by decide +kernel,by decide +kernel⟩
  refine ⟨c,hrun,?_⟩
  rintro ⟨order,-,hlt,hp⟩
  have hp5 := (List.take_prefix 5 _).trans hp
  rw [hsent] at hp5
  cases order with
  | nil => simp at hp5
  | cons i order =>
    have hi := hframe i (hlen ▸ hlt i (by simp))
    have hf5 : (c.frame i).take 5 <+: (i :: order).flatMap c.frame :=
      (List.take_prefix 5 _).trans (by rw [List.flatMap_cons]; exact List.prefix_append _ _)
    rw [hi] at hf5
    have := List.prefix_of_prefix_length_le hp5 hf5 (by simp)
    revert this
    decide

end AConn

end Msg801.Relay
