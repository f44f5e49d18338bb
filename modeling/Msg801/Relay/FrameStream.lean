import Msg801.Relay.AConn
import Msg801.Relay.Codec

/-! # A connection and the coroutine that reads from it

On one side the calls of `aconn_write` put their frames on the socket piece by piece, on the
other `read_frame` takes them off in pieces of its own. As long as no frame gets between the
pieces of another, the reader is given the frames that were written, in the order in which
they were.
-/
namespace Msg801.Relay
open Transition BigEndian Framing

/-- Where the loop around `read_frame` is suspended: in the `async_read` of the header or of
the payload, with what that has taken so far. -/
inductive FramePc where
  | header (hdr : ByteVector)
  | payload (len : ℕ) (payload : ByteVector)
  | ended (last : ReadFrame)
  deriving DecidableEq

/-- A coroutine that reads one frame after the other. -/
structure FrameReader where
  pc : FramePc := .header []
  frames : List Frame := []

/-- A part of an `async_read`: some of the bytes it waits for, or an error. -/
inductive ReadPart where
  | some (bytes : ByteVector)
  | failed
  deriving DecidableEq

namespace FrameReader

/-- `read_frame` from one partial read to the next. -/
def step (r : FrameReader) : ReadPart → Option FrameReader
  | .some bytes =>
    match r.pc with
    | .header hdr =>
      let hdr := hdr ++ bytes
      if bytes = [] ∨ 4 < hdr.length then none
      else if hdr.length < 4 then some { r with pc := .header hdr }
      else
        let len := (word hdr).toNat
        if len < 1 then some { r with pc := .ended .nullopt } else some { r with pc := .payload len [] }
    | .payload len payload =>
      let payload := payload ++ bytes
      if bytes = [] ∨ len < payload.length then none
      else if payload.length < len then some { r with pc := .payload len payload }
      else some
        { pc := .header []
          frames := r.frames ++ [⟨.ofByte (payload.getD 0 0),payload.drop 1⟩] }
    | .ended _ => none
  | .failed =>
    match r.pc with
    | .header _ => some { r with pc := .ended .nullopt }
    | .payload _ _ => some { r with pc := .ended .thrown }
    | .ended _ => none

/-- What the reader has of a frame that is not whole yet. -/
def Pending (r : FrameReader) (part : ByteVector) : Prop :=
  match r.pc with
  | .header hdr => part = hdr ∧ hdr.length < 4
  | .payload len payload => ∃ hdr, part = hdr ++ payload ∧ hdr.length = 4 ∧ (word hdr).toNat = len ∧
    1 ≤ len ∧ payload.length < len
  | .ended _ => True

/-- The bytes taken are those of the frames that were read and of the one under way. -/
def Reading (r : FrameReader) (taken : ByteVector) : Prop :=
  (∀ f ∈ r.frames, f.Fits) ∧ ∃ part, taken = r.frames.flatMap Frame.bytes ++ part ∧ r.Pending part

variable {r r' : FrameReader} {taken bytes : ByteVector}

/-- The header and the payload are a frame. -/
theorem bytes_of_payload {hdr payload : ByteVector} (hh : hdr.length = 4) (hp : 1 ≤ payload.length)
    (hw : (word hdr).toNat = payload.length) :
    Frame.Fits ⟨.ofByte (payload.getD 0 0),payload.drop 1⟩ ∧
      Frame.bytes ⟨.ofByte (payload.getD 0 0),payload.drop 1⟩ = hdr ++ payload := by
  have hword : word (hdr ++ payload) = word hdr := word_append (by omega) payload
  have hhead : frameHead (hdr ++ payload) =
      .frame ⟨.ofByte (payload.getD 0 0),payload.drop 1⟩ (hdr ++ payload).length := by
    have hlen : (hdr ++ payload).length = 4 + payload.length := by rw [List.length_append, hh]
    unfold frameHead
    rw [hword, hw, hlen, if_neg (by omega), if_neg (by omega), if_neg (by omega)]
    have hmethod : (hdr ++ payload).getD 4 0 = payload.getD 0 0 := by
      rw [List.getD_append_right _ _ _ _ (by omega), hh]
    have hbody : ((hdr ++ payload).drop 5).take (payload.length - 1) = payload.drop 1 := by
      rw [List.drop_append, List.drop_eq_nil_of_le (by omega), List.nil_append, hh]
      exact List.take_of_length_le (by simp)
    rw [hmethod, hbody]
  obtain ⟨hfits,hbytes⟩ := frameHead_frame hhead
  exact ⟨hfits,hbytes.trans (List.take_length)⟩

theorem step_reading (h : r.Reading taken) (hs : r.step (.some bytes) = some r') : r'.Reading (taken ++ bytes) := by
  obtain ⟨hfits,part,rfl,hpending⟩ := h
  have hnext : ∀ {pc part'}, part ++ bytes = part' → ({ r with pc := pc } : FrameReader).Pending part' →
      ({ r with pc := pc } : FrameReader).Reading (r.frames.flatMap Frame.bytes ++ part ++ bytes) := by
    rintro pc part' rfl hp
    exact ⟨hfits,_,List.append_assoc _ _ _,hp⟩
  rw [step] at hs
  cases hpc : r.pc <;> simp only [hpc] at hs <;> simp only [Pending, hpc] at hpending
  case header hdr =>
    obtain ⟨rfl,hlt⟩ := hpending
    split_ifs at hs with hstop hshort hzero <;> obtain rfl := Option.some.inj hs
    · exact hnext rfl ⟨rfl,hshort⟩
    · exact hnext rfl trivial
    · refine hnext rfl ⟨part ++ bytes,(List.append_nil _).symm,?_,rfl,?_,?_⟩
      · omega
      · omega
      · simp only [List.length_nil]
        omega
  case payload len payload =>
    obtain ⟨hdr,rfl,hh,hw,hone,hlt⟩ := hpending
    split_ifs at hs with hstop hshort <;> obtain rfl := Option.some.inj hs
    · exact hnext (List.append_assoc _ _ _) ⟨hdr,rfl,hh,hw,hone,hshort⟩
    · have hlen : (payload ++ bytes).length = len := by omega
      obtain ⟨hf,hb⟩ := bytes_of_payload hh (by omega) (hw.trans hlen.symm)
      refine ⟨fun f hf' => ?_,[],?_,rfl,by simp⟩
      · rcases List.mem_append.mp hf' with hf' | hf'
        · exact hfits f hf'
        · exact List.mem_singleton.mp hf' ▸ hf
      · rw [List.flatMap_append, List.flatMap_singleton, hb, List.append_nil]
        simp only [List.append_assoc]
  case ended => cases hs

theorem step_failed (h : r.Reading taken) (hs : r.step .failed = some r') : r'.Reading taken := by
  obtain ⟨hfits,part,hpart,-⟩ := h
  rw [step] at hs
  cases hpc : r.pc <;> simp only [hpc] at hs
  case ended => cases hs
  all_goals
    obtain rfl := Option.some.inj hs
    exact ⟨hfits,part,hpart,trivial⟩

/-- What is under way is no whole frame. -/
theorem Pending.not_whole {part : ByteVector} (h : r.Pending part) (hpc : ∀ last, r.pc ≠ .ended last) {f : Frame}
    (hf : f.Fits) : ¬f.bytes <+: part := by
  intro hp
  have hlen := hp.length_le
  rw [f.length_bytes] at hlen
  cases hr : r.pc <;> simp only [Pending, hr] at h
  case header hdr =>
    obtain ⟨rfl,hlt⟩ := h
    omega
  case payload len payload =>
    obtain ⟨hdr,rfl,hh,hw,-,hlt⟩ := h
    have hword : (word (hdr ++ payload)).toNat = 1 + f.body.length := by
      obtain ⟨more,hmore⟩ := hp
      rw [← hmore, f.bytes_eq, List.append_assoc, word_append (by rw [octets_length]), word_octets, hf.toNat]
    rw [word_append (by omega), hw] at hword
    rw [List.length_append] at hlen
    omega
  case ended last => exact hpc last hr

/-- The reader stops at a frame only when its header says that there is none. -/
theorem step_unended (h : r.Reading taken) (hs : r.step (.some bytes) = some r') {last : ReadFrame}
    (hend : r'.pc = .ended last) :
    ∃ hdr, taken ++ bytes = r'.frames.flatMap Frame.bytes ++ hdr ∧ hdr.length = 4 ∧ (word hdr).toNat = 0 := by
  obtain ⟨-,part,rfl,hpending⟩ := h
  rw [step] at hs
  cases hpc : r.pc <;> simp only [hpc] at hs <;> simp only [Pending, hpc] at hpending
  case header hdr =>
    obtain ⟨rfl,hlt⟩ := hpending
    split_ifs at hs with hstop hshort hzero <;> obtain rfl := Option.some.inj hs
    · cases hend
    · exact ⟨part ++ bytes,List.append_assoc _ _ _,by omega,by omega⟩
    · cases hend
  case payload =>
    split_ifs at hs <;> obtain rfl := Option.some.inj hs <;> cases hend
  case ended => cases hs

end FrameReader

/-- Frames at the front of a sequence of frames are the first of them. -/
theorem prefix_of_flatMap_bytes {fs gs : List Frame} {rest : ByteVector} (hf : ∀ f ∈ fs, f.Fits) (hg : ∀ g ∈ gs, g.Fits)
    (h : fs.flatMap Frame.bytes ++ rest <+: gs.flatMap Frame.bytes) :
    ∃ more, gs = fs ++ more ∧ rest <+: more.flatMap Frame.bytes := by
  induction fs generalizing gs with
  | nil => exact ⟨gs,rfl,h⟩
  | cons f fs ih =>
    cases gs with
    | nil =>
      have hlen := h.length_le
      simp only [List.flatMap_cons, List.length_append, f.length_bytes, List.flatMap_nil, List.length_nil] at hlen
      omega
    | cons g gs =>
      obtain ⟨r,hr⟩ := h
      simp only [List.flatMap_cons, List.append_assoc] at hr
      obtain ⟨he,hrest⟩ := frameGrammar_encodes.cancel (f := ⟨f,hf f (by simp)⟩)
        (show _ = Frame.bytes (Subtype.val ⟨g,hg g (by simp)⟩) ++ _ from hr)
      obtain rfl : f = g := congrArg Subtype.val he
      have hgs : ∀ g' ∈ gs, g'.Fits := fun g' hg' => hg g' (List.mem_cons_of_mem _ hg')
      obtain ⟨more,rfl,hmore⟩ := ih (fun f' hf' => hf f' (List.mem_cons_of_mem _ hf')) hgs
        ⟨r,by rw [List.append_assoc, hrest]⟩
      exact ⟨more,rfl,hmore⟩

namespace AConn
variable {c c' : AConn} {e : AConnEvent} {order : List ℕ} {part : List (ℕ × Byte)}

/-- The frame of a call, before it is made bytes. -/
def called (c : AConn) (i : ℕ) : Frame := (c.calls[i]?.map fun call => ⟨call.1,call.2⟩).getD eofFrame

theorem frame_called {i : ℕ} (hi : i < c.calls.length) : c.frame i = (c.called i).bytes := by
  simp [frame, called, List.getElem?_eq_getElem hi, Frame.bytes]

/-- The call whose last bytes are transferred. -/
def finishes (c : AConn) : AConnEvent → List ℕ
  | .asyncWriteSome i n =>
    match c.writes i with
    | .writing _ rest => if n = rest.length then [i] else []
    | _ => []
  | _ => []

theorem step_calls (hs : c.step e = some c') : c'.calls = c.calls ∨
    ∃ m body, e = .aconnWrite m body ∧ c'.calls = c.calls ++ [(m,body)] := by
  cases e with
  | aconnWrite m body =>
    obtain rfl := Option.some.inj hs
    exact .inr ⟨m,body,rfl,rfl⟩
  | posted i ec =>
    apply Or.inl
    simp only [step] at hs
    split at hs <;> simp at hs
    rw [← hs, setWrite]
  | asyncWriteSome i n =>
    apply Or.inl
    simp only [step] at hs
    split at hs <;> simp at hs
    rw [← hs.2, setWrite]
  | asyncWriteError i =>
    apply Or.inl
    simp only [step] at hs
    split at hs <;> simp at hs
    rw [← hs, setWrite]

theorem step_called (hs : c.step e = some c') {i : ℕ} (hi : i < c.calls.length) :
    i < c'.calls.length ∧ c'.called i = c.called i := by
  rcases step_calls hs with hc | ⟨m,body,-,hc⟩
  · exact ⟨hc ▸ hi,by rw [called, hc, called]⟩
  · refine ⟨?_,?_⟩
    · rw [hc, List.length_append]
      exact Nat.lt_add_right _ hi
    · rw [called, called, hc, List.getElem?_append_left hi]

/-- A connection that has failed takes no more bytes. -/
theorem step_sent (hs : c.step e = some c') : c'.sent = c.sent ∧ c.finishes e = [] ∧ (c'.broken = false → c.broken = false) ∨
    c.sent <+: c'.sent ∧ c.broken = false ∧ c'.broken = false := by
  cases e with
  | aconnWrite m body =>
    obtain rfl := Option.some.inj hs
    exact .inl ⟨rfl,rfl,fun h => h⟩
  | posted i ec =>
    simp only [step] at hs
    split at hs <;> simp at hs
    subst hs
    exact .inl ⟨rfl,rfl,fun h => h⟩
  | asyncWriteSome i n =>
    simp only [step] at hs
    split at hs <;> simp at hs
    obtain ⟨⟨-,-,hb⟩,rfl⟩ := hs
    exact .inr ⟨List.prefix_append _ _,hb,hb⟩
  | asyncWriteError i =>
    simp only [step] at hs
    split at hs <;> simp at hs
    subst hs
    exact .inl ⟨rfl,rfl,fun h => by cases h⟩

/-- One step, with the calls that are over in the order their frames were written. -/
theorem Ordered.step (h : c.Ordered order part) (ha : c.Alone e) (hs : c.step e = some c') (hb : c'.broken = false) :
    ∃ part', c'.Ordered (order ++ c.finishes e) part' := by
  cases e with
  | aconnWrite m body =>
    obtain rfl := Option.some.inj hs
    have hlen : ∀ i, i < c.calls.length → i < (c.calls ++ [(m,body)]).length := fun i hi => by
      rw [List.length_append]
      exact Nat.lt_add_right _ hi
    change ∃ part', Ordered _ (order ++ []) part'
    rw [List.append_nil]
    refine ⟨part,h.nodup,fun i hi => ⟨hlen i (h.finished i hi).1,(h.finished i hi).2⟩,?_,?_,h.part⟩
    · intro i done rest hw
      obtain ⟨hi,hf,hr⟩ := h.pending i done rest hw
      exact ⟨hlen i hi,by rw [frame_append hi, hf],hr⟩
    · rw [flatMap_tagged_append (fun i hi => (h.finished i hi).1)]
      exact h.sent
  | posted i ec =>
    change ∃ part', Ordered _ (order ++ []) part'
    rw [List.append_nil]
    rw [AConn.step] at hs
    cases hc : c.calls[i]? with
    | none => simp [hc] at hs
    | some call =>
      cases hw : c.writes i <;> simp only [hc, hw] at hs
      case posted =>
        obtain rfl := Option.some.inj hs
        have hlen : i < c.calls.length := (List.getElem?_eq_some_iff.mp hc).1
        have hframe : c.frame i = buildFrameBytes call.1 call.2 := by simp [frame, hc]
        refine ⟨part,h.setWrite hw ?_⟩
        cases ec with
        | true => exact .inr (.inl rfl)
        | false =>
          refine .inr (.inr ⟨hlen,by rw [hframe]; rfl,?_⟩)
          rw [hframe]
          exact buildFrameBytes_ne_nil _ _
      all_goals cases hs
  | asyncWriteSome i n =>
    rw [AConn.step] at hs
    cases hw : c.writes i <;> simp only [hw] at hs
    case writing done rest =>
      rw [finishes, hw]
      split_ifs at hs with hn hall <;> obtain rfl := Option.some.inj hs
      · subst hall
        rw [List.take_length]
        simp only [if_true]
        exact ⟨[],h.transferAll hw ha⟩
      · have hsplit : c.writes i = .writing done (rest.take n ++ rest.drop n) := by
          rw [hw, List.take_append_drop]
        have hnow : rest.take n ≠ [] := List.ne_nil_of_length_pos (by simp only [List.length_take]; omega)
        have hrest : rest.drop n ≠ [] := List.ne_nil_of_length_pos (by simp only [List.length_drop]; omega)
        simp only [if_neg hall, List.append_nil]
        exact ⟨_,h.transferSome hsplit hnow hrest ha⟩
    all_goals cases hs
  | asyncWriteError i =>
    rw [AConn.step] at hs
    cases hw : c.writes i <;> simp only [hw] at hs
    case writing =>
      obtain rfl := Option.some.inj hs
      cases hb
    all_goals cases hs

/-- The bytes on the socket are frames, and a part of one more. -/
theorem Ordered.stream (h : c.Ordered order part) : c.sent.map Prod.snd = order.flatMap c.frame ∨
    ∃ i < c.calls.length, c.Cut i ∧ c.sent.map Prod.snd <+: (order ++ [i]).flatMap c.frame ∧
      c.sent.map Prod.snd ≠ (order ++ [i]).flatMap c.frame := by
  have hmap : (order.flatMap c.tagged).map Prod.snd = order.flatMap c.frame := by
    rw [List.map_flatMap]
    congr
    funext i
    simp [tagged, Function.comp_def]
  have hsent : c.sent.map Prod.snd = order.flatMap c.frame ++ part.map Prod.snd := by
    rw [h.sent, List.map_append, hmap]
  rcases h.part with ⟨-,rfl⟩ | ⟨i,done,rest,hw,hstarted,rfl,-⟩
  · exact .inl (by simpa using hsent)
  · obtain ⟨hi,hf,hne⟩ := h.pending i done rest hw
    have hdone : (done.map (Prod.mk i)).map Prod.snd = done := by simp [Function.comp_def]
    rw [hdone] at hsent
    refine .inr ⟨i,hi,⟨done,rest,hw,hstarted⟩,?_⟩
    rw [hsent, List.flatMap_append, List.flatMap_singleton, ← hf, ← List.append_assoc]
    refine ⟨List.prefix_append _ _,fun he => hne ?_⟩
    simpa using he

end AConn

/-- A connection, the calls whose frames have been written in their order, and the coroutine
that reads from the other end, with the number of bytes it has taken. -/
structure FrameStream where
  conn : AConn := {}
  written : List ℕ := []
  reader : FrameReader := {}
  taken : ℕ := 0

inductive FrameStreamEvent where
  | write (e : AConnEvent)
  | readSome (n : ℕ)
  | readFailed
  deriving DecidableEq

namespace FrameStream

def step (s : FrameStream) : FrameStreamEvent → Option FrameStream
  | .write e => (s.conn.step e).map fun c => { s with
      conn := c
      written := s.written ++ s.conn.finishes e }
  | .readSome n =>
    let bytes := ((s.conn.sent.drop s.taken).take n).map Prod.snd
    if bytes.length = n then
      (s.reader.step (.some bytes)).map fun r => { s with
        reader := r
        taken := s.taken + n }
    else none
  | .readFailed => (s.reader.step .failed).map fun r => { s with reader := r }

/-- No frame gets between the pieces of another, and every body fits its length. -/
def Whole (s : FrameStream) : FrameStreamEvent → Prop
  | .write e => s.conn.Alone e ∧ ∀ m body, e = .aconnWrite m body → Frame.Fits ⟨m,body⟩
  | _ => True

/-- The frames that were written, in their order. -/
def wire (s : FrameStream) : List Frame := s.written.map s.conn.called

/-- The bytes that were transferred. -/
def bytes (s : FrameStream) : ByteVector := s.conn.sent.map Prod.snd

/-- The bytes on the socket are the frames that were written, and at most a part of one more;
the reader has taken the first of them. -/
structure Carried (s : FrameStream) : Prop where
  fits : ∀ i < s.conn.calls.length, (s.conn.called i).Fits
  nodup : s.written.Nodup
  lt : ∀ i ∈ s.written, i < s.conn.calls.length
  ordered : s.conn.broken = false → ∃ part, s.conn.Ordered s.written part
  stream : s.bytes = s.wire.flatMap Frame.bytes ∨ ∃ i < s.conn.calls.length,
    s.bytes <+: (s.wire ++ [s.conn.called i]).flatMap Frame.bytes ∧
    s.bytes ≠ (s.wire ++ [s.conn.called i]).flatMap Frame.bytes
  taken : s.taken ≤ s.bytes.length
  reading : s.reader.Reading (s.bytes.take s.taken)

variable {s t : FrameStream} {e : FrameStreamEvent}

theorem Carried.fits_wire (h : s.Carried) : ∀ f ∈ s.wire, f.Fits := by
  intro f hf
  obtain ⟨i,hi,rfl⟩ := List.mem_map.mp hf
  exact h.fits i (h.lt i hi)

/-- A part of the stream is the first of the frames written, and what is there of the next. -/
theorem Carried.frames (h : s.Carried) {fs : List Frame} {rest : ByteVector} (hf : ∀ f ∈ fs, f.Fits)
    (hp : fs.flatMap Frame.bytes ++ rest <+: s.bytes) : fs <+: s.wire ∧
      ∃ more : List Frame, (∀ f ∈ more, f.Fits) ∧ rest <+: more.flatMap Frame.bytes := by
  rcases h.stream with hs | ⟨i,hi,hs,hne⟩
  · obtain ⟨more,hmore,hrest⟩ := prefix_of_flatMap_bytes hf h.fits_wire (hs ▸ hp)
    refine ⟨hmore ▸ List.prefix_append _ _,more,fun f hf' => h.fits_wire f ?_,hrest⟩
    exact hmore ▸ List.mem_append_right _ hf'
  · have hall : ∀ f ∈ s.wire ++ [s.conn.called i], f.Fits := by
      intro f hf'
      rcases List.mem_append.mp hf' with hf' | hf'
      · exact h.fits_wire f hf'
      · exact List.mem_singleton.mp hf' ▸ h.fits i hi
    obtain ⟨more,hmore,hrest⟩ := prefix_of_flatMap_bytes hf hall (hp.trans hs)
    refine ⟨?_,more,fun f hf' => hall f (hmore ▸ List.mem_append_right _ hf'),hrest⟩
    rcases List.eq_nil_or_concat more with rfl | ⟨more,g,rfl⟩
    · -- the last frame is not whole yet
      rw [List.append_nil] at hmore
      have hlen := (List.prefix_append _ rest).trans hp
      rw [← hmore] at hlen
      exact absurd (hs.eq_of_length_le hlen.length_le) hne
    · rw [List.concat_eq_append, ← List.append_assoc] at hmore
      exact (List.append_inj' hmore rfl).1 ▸ List.prefix_append _ _

theorem Carried.read_prefix (h : s.Carried) : s.reader.frames <+: s.wire := by
  obtain ⟨hfits,part,hpart,-⟩ := h.reading
  exact (h.frames hfits (hpart ▸ List.take_prefix _ _)).1

theorem called_map {c c' : AConn} {e : AConnEvent} (hs : c.step e = some c') {order : List ℕ}
    (hlt : ∀ i ∈ order, i < c.calls.length) : order.map c'.called = order.map c.called :=
  List.map_congr_left fun i hi => (AConn.step_called hs (hlt i hi)).2

theorem stream_of_ordered {c : AConn} {order : List ℕ} {part : List (ℕ × Byte)} (h : c.Ordered order part) :
    c.sent.map Prod.snd = (order.map c.called).flatMap Frame.bytes ∨ ∃ i < c.calls.length, c.Cut i ∧
      c.sent.map Prod.snd <+: (order.map c.called ++ [c.called i]).flatMap Frame.bytes ∧
      c.sent.map Prod.snd ≠ (order.map c.called ++ [c.called i]).flatMap Frame.bytes := by
  have hbytes : ∀ {is : List ℕ}, (∀ i ∈ is, i < c.calls.length) →
      is.flatMap c.frame = (is.map c.called).flatMap Frame.bytes := by
    intro is his
    rw [List.flatMap_map]
    exact List.flatMap_congr fun i hi => AConn.frame_called (his i hi)
  have hlt : ∀ i ∈ order, i < c.calls.length := fun i hi => (h.finished i hi).1
  rcases h.stream with hs | ⟨i,hi,hcut,hs,hne⟩
  · exact .inl (hs.trans (hbytes hlt))
  · have hall : ∀ j ∈ order ++ [i], j < c.calls.length := by
      intro j hj
      rcases List.mem_append.mp hj with hj | hj
      · exact hlt j hj
      · exact List.mem_singleton.mp hj ▸ hi
    rw [hbytes hall, List.map_append, List.map_singleton] at hs hne
    exact .inr ⟨i,hi,hcut,hs,hne⟩

theorem Carried.write (h : s.Carried) {e : AConnEvent} (ha : s.Whole (.write e)) {c : AConn} (hs : s.conn.step e = some c) :
    Carried { s with
      conn := c
      written := s.written ++ s.conn.finishes e } := by
  have hfits : ∀ i < c.calls.length, (c.called i).Fits := by
    intro i hi
    by_cases hold : i < s.conn.calls.length
    · rw [(AConn.step_called hs hold).2]
      exact h.fits i hold
    · rcases AConn.step_calls hs with hc | ⟨m,body,rfl,hc⟩
      · exact absurd (hc ▸ hi) hold
      · have hlast : i = s.conn.calls.length := by
          rw [hc, List.length_append, List.length_singleton] at hi
          omega
        have hcalled : c.called i = ⟨m,body⟩ := by simp [AConn.called, hc, hlast]
        rw [hcalled]
        exact ha.2 m body rfl
  have hpre : s.conn.sent <+: c.sent := by
    rcases AConn.step_sent hs with ⟨hsent,-⟩ | ⟨hsent,-⟩
    · exact hsent ▸ List.prefix_rfl
    · exact hsent
  have hbytes : s.bytes <+: c.sent.map Prod.snd := hpre.map Prod.snd
  have htaken : s.taken ≤ (c.sent.map Prod.snd).length := h.taken.trans hbytes.length_le
  have hreading : s.reader.Reading ((c.sent.map Prod.snd).take s.taken) := by
    obtain ⟨more,hmore⟩ := hbytes
    rw [← hmore, List.take_append_of_le_length h.taken]
    exact h.reading
  cases hb : c.broken with
  | false =>
    have hopen : s.conn.broken = false := by
      rcases AConn.step_sent hs with ⟨-,-,hb'⟩ | ⟨-,hb',-⟩
      · exact hb' hb
      · exact hb'
    obtain ⟨part,ho⟩ := h.ordered hopen
    obtain ⟨part',ho'⟩ := ho.step ha.1 hs hb
    refine ⟨hfits,ho'.nodup,fun i hi => (ho'.finished i hi).1,fun _ => ⟨part',ho'⟩,?_,htaken,hreading⟩
    apply (stream_of_ordered ho').imp_right
    rintro ⟨i,hi,-,hs⟩
    exact ⟨i,hi,hs⟩
  | true =>
    obtain ⟨hsent,hnone⟩ : c.sent = s.conn.sent ∧ s.conn.finishes e = [] := by
      rcases AConn.step_sent hs with ⟨hsent,hnone,-⟩ | ⟨-,-,hb'⟩
      · exact ⟨hsent,hnone⟩
      · cases hb.symm.trans hb'
    rw [hnone, List.append_nil]
    have hbroken : c.broken ≠ false := by simp [hb]
    refine ⟨hfits,h.nodup,fun i hi => (AConn.step_called hs (h.lt i hi)).1,fun hb' => absurd hb' hbroken,?_,htaken,
      hreading⟩
    have hsame : (⟨c,s.written,s.reader,s.taken⟩ : FrameStream).wire = s.wire := called_map hs h.lt
    rw [hsame, bytes, hsent]
    refine h.stream.imp_right ?_
    rintro ⟨i,hi,hp⟩
    obtain ⟨hi',hcalled⟩ := AConn.step_called hs hi
    exact ⟨i,hi',hcalled ▸ hp⟩

theorem step_carried (h : s.Carried) (ha : s.Whole e) (hs : s.step e = some t) : t.Carried := by
  cases e with
  | write e =>
    obtain ⟨c,hc,rfl⟩ := Option.map_eq_some_iff.mp hs
    exact h.write ha hc
  | readSome n =>
    simp only [step] at hs
    split_ifs at hs with hn
    obtain ⟨r,hr,rfl⟩ := Option.map_eq_some_iff.mp hs
    have htake : s.bytes.take (s.taken + n) = s.bytes.take s.taken ++
        ((s.conn.sent.drop s.taken).take n).map Prod.snd := by
      rw [List.take_add, bytes, List.map_take, List.map_drop]
    refine ⟨h.fits,h.nodup,h.lt,h.ordered,h.stream,?_,?_⟩
    · have hlen := hn.ge
      simp only [List.length_map, List.length_take, List.length_drop] at hlen
      have htaken := h.taken
      simp only [bytes, List.length_map] at htaken ⊢
      omega
    · change r.Reading (s.bytes.take (s.taken + n))
      rw [htake]
      exact FrameReader.step_reading h.reading hr
  | readFailed =>
    obtain ⟨r,hr,rfl⟩ := Option.map_eq_some_iff.mp hs
    exact ⟨h.fits,h.nodup,h.lt,h.ordered,h.stream,h.taken,FrameReader.step_failed h.reading hr⟩

/-- What is written stays written, and what is called for later comes behind it. -/
theorem step_written (hs : s.step e = some t) : s.written <+: t.written := by
  cases e with
  | write e =>
    obtain ⟨c,-,rfl⟩ := Option.map_eq_some_iff.mp hs
    exact List.prefix_append _ _
  | readSome n =>
    simp only [step] at hs
    split_ifs at hs
    obtain ⟨r,-,rfl⟩ := Option.map_eq_some_iff.mp hs
    exact List.prefix_rfl
  | readFailed =>
    obtain ⟨r,-,rfl⟩ := Option.map_eq_some_iff.mp hs
    exact List.prefix_rfl

/-- No header on the stream says that there is no frame. -/
theorem Carried.unended (h : s.Carried) (hu : ∀ last, s.reader.pc ≠ .ended last) (hn : e ≠ .readFailed)
    (ha : s.Whole e) (hs : s.step e = some t) : ∀ last, t.reader.pc ≠ .ended last := by
  have ht := step_carried h ha hs
  cases e with
  | write e =>
    obtain ⟨c,-,rfl⟩ := Option.map_eq_some_iff.mp hs
    exact hu
  | readSome n =>
    simp only [step] at hs
    split_ifs at hs with hlen
    obtain ⟨r,hr,rfl⟩ := Option.map_eq_some_iff.mp hs
    intro last hend
    obtain ⟨hdr,hall,hh,hzero⟩ := FrameReader.step_unended h.reading hr hend
    have hstream : r.frames.flatMap Frame.bytes ++ hdr <+: s.bytes := by
      rw [← hall, bytes, ← List.map_take, ← List.map_append, ← List.take_add]
      exact (List.take_prefix _ _).map Prod.snd
    obtain ⟨-,more,hfits,hrest⟩ := ht.frames ht.reading.1 hstream
    cases more with
    | nil =>
      have hshort := hrest.length_le
      simp only [List.flatMap_nil, List.length_nil] at hshort
      omega
    | cons f more =>
      obtain ⟨rest,hcat⟩ := hrest
      have hword : word hdr = UInt32.ofNat (1 + f.body.length) := by
        have hfront := congrArg word hcat
        rwa [word_append (by omega), List.flatMap_cons, f.bytes_eq, List.append_assoc,
          word_append (by rw [octets_length]), word_octets] at hfront
      rw [hword, (hfits f (by simp)).toNat] at hzero
      omega
  | readFailed => exact absurd rfl hn

/-- When all of the stream has been taken, and no frame is cut short, all frames are read. -/
theorem Carried.read_all (h : s.Carried) (hu : ∀ last, s.reader.pc ≠ .ended last) (ht : s.taken = s.conn.sent.length)
    (hb : s.conn.broken = false) (hcut : ∀ i, ¬s.conn.Cut i) : s.reader.frames = s.wire := by
  obtain ⟨part,ho⟩ := h.ordered hb
  have hsent : s.bytes = s.wire.flatMap Frame.bytes := by
    apply (stream_of_ordered ho).resolve_right
    rintro ⟨i,-,hi,-⟩
    exact hcut i hi
  obtain ⟨hfits,part,hpart,hpending⟩ := h.reading
  have hall : s.bytes.take s.taken = s.bytes := List.take_of_length_le (by simp [bytes, ht])
  rw [hall, hsent] at hpart
  have hpre : s.reader.frames.flatMap Frame.bytes ++ part <+: s.wire.flatMap Frame.bytes := hpart ▸ List.prefix_rfl
  obtain ⟨more,hmore,-⟩ := prefix_of_flatMap_bytes hfits h.fits_wire hpre
  cases more with
  | nil => rw [hmore, List.append_nil]
  | cons f more =>
    have hf : f.Fits := h.fits_wire f (hmore ▸ List.mem_append_right _ (by simp))
    have hsame : (f :: more).flatMap Frame.bytes = part := by
      rw [hmore, List.flatMap_append] at hpart
      exact List.append_cancel_left hpart
    exact absurd (hsame ▸ List.prefix_append _ _) (hpending.not_whole hu hf)

theorem empty_carried : Carried {} := by
  have hordered : AConn.Ordered {} [] [] := by
    refine ⟨List.nodup_nil,by simp,fun i done rest h => (by cases h),rfl,.inl ⟨?_,rfl⟩⟩
    rintro i ⟨done,rest,h,-⟩
    cases h
  exact ⟨fun i hi => absurd hi (Nat.not_lt_zero i),List.nodup_nil,by simp,fun _ => ⟨[],hordered⟩,.inl rfl,le_rfl,by simp,
    [],rfl,rfl,by simp⟩

theorem run_carried {events : List FrameStreamEvent} (hrun : run step {} events = some s)
    (hm : Meets step Whole {} events) : s.Carried :=
  (hm.reach hrun).invariant empty_carried step_carried

/-- In every run in which no frame gets between the pieces of another and the bodies fit,
however the bytes are cut up on both sides, the frames the reader has been given are the
first of those written, each call's once; what was written before a call was made comes
before its frame. Unless a read fails the reader never stops, and when it has taken all there
is and no frame is cut short it has been given all of them. -/
theorem frames_delivered {events : List FrameStreamEvent} (hrun : run step {} events = some s)
    (hm : Meets step Whole {} events) :
    s.reader.frames <+: s.wire ∧ s.written.Nodup ∧ (∀ i ∈ s.written, i < s.conn.calls.length) ∧
    (∀ pre t, pre <+: events → run step {} pre = some t →
      t.written <+: s.written ∧ ∀ i ∈ t.written, i < t.conn.calls.length) ∧
    ((∀ e ∈ events, e ≠ .readFailed) → (∀ last, s.reader.pc ≠ .ended last) ∧
      (s.taken = s.conn.sent.length → s.conn.broken = false → (∀ i, ¬s.conn.Cut i) → s.reader.frames = s.wire)) := by
  have h := run_carried hrun hm
  refine ⟨h.read_prefix,h.nodup,h.lt,?_,fun hn => ?_⟩
  · rintro pre t ⟨post,rfl⟩ ht
    obtain ⟨u,hu,hrest⟩ := run_append_some.mp hrun
    obtain rfl := Option.some.inj (ht.symm.trans hu)
    refine ⟨?_,(run_carried ht hm.of_append).lt⟩
    exact run_invariant (P := fun u => t.written <+: u.written) hrest List.prefix_rfl fun hp hs =>
      hp.trans (step_written hs)
  · have hquiet : Meets step (fun s e => s.Whole e ∧ e ≠ .readFailed) {} events := fun pre e post he t ht =>
      ⟨hm pre e post he t ht,hn e (he ▸ List.mem_append_right _ (List.mem_cons_self ..))⟩
    have hboth : s.Carried ∧ ∀ last, s.reader.pc ≠ .ended last :=
      (hquiet.reach hrun).invariant (P := fun s => s.Carried ∧ ∀ last, s.reader.pc ≠ .ended last)
        ⟨empty_carried,fun last hl => by cases hl⟩ fun hp ha hs =>
          ⟨step_carried hp.1 ha.1 hs,hp.1.unended hp.2 ha.2 ha.1 hs⟩
    exact ⟨hboth.2,fun ht hb hcut => h.read_all hboth.2 ht hb hcut⟩

/-- One frame, written in two pieces and read in three. -/
def inPieces : List FrameStreamEvent :=
  [.write (.aconnWrite .data (text "ab")), .write (.posted 0 false), .write (.asyncWriteSome 0 3), .readSome 2,
    .write (.asyncWriteSome 0 4), .readSome 2, .readSome 3]

theorem frames_delivered_inPieces : ∃ s, run step {} inPieces = some s ∧ s.reader.frames = [⟨.data,text "ab"⟩] ∧
    s.reader.frames <+: s.wire := by
  obtain ⟨s,hrun,hread⟩ : ∃ s, run step {} inPieces = some s ∧ s.reader.frames = [⟨.data,text "ab"⟩] :=
    ⟨_,rfl,by decide +kernel⟩
  have halone : ∀ {c : AConn}, (∀ j, j ≠ 0 → c.writes j = .posted) → ∀ j, j ≠ 0 → ¬c.Cut j := by
    rintro c hc j hj ⟨done,rest,hw,-⟩
    cases (hc j hj).symm.trans hw
  have hother : ∀ {e : AConnEvent}, (∀ m body, e ≠ .aconnWrite m body) → ∀ m body, e = .aconnWrite m body →
      Frame.Fits ⟨m,body⟩ := fun hn m body he => absurd he (hn m body)
  have hfits : ∀ m body, AConnEvent.aconnWrite .data (text "ab") = .aconnWrite m body → Frame.Fits ⟨m,body⟩ := by
    rintro m body he
    obtain ⟨rfl,rfl⟩ := AConnEvent.aconnWrite.inj he
    unfold Frame.Fits
    decide
  have hm : Meets step Whole {} inPieces := by
    refine .cons ⟨trivial,hfits⟩ rfl (.cons ⟨trivial,hother (by simp)⟩ rfl (.cons ⟨halone ?_,hother (by simp)⟩ rfl
      (.cons trivial rfl (.cons ⟨halone ?_,hother (by simp)⟩ rfl (.cons trivial rfl (.cons trivial rfl (.nil _)))))))
    · exact fun j hj => Function.update_of_ne hj _ _
    · exact fun j hj => (Function.update_of_ne hj _ _).trans (Function.update_of_ne hj _ _)
  exact ⟨s,hrun,hread,(frames_delivered hrun hm).1⟩

end FrameStream

end Msg801.Relay
