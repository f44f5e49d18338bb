import Msg801.Relay.Codec
import Msg801.Relay.Conversation
import Msg801.Relay.HalfOpen

/-! # Runs without a failure

No connection between the nodes ends, no write on them fails, and B can accept clients and
write to them. Then both pumps of A stay in their loops, and whoever has to write can.
-/
namespace Msg801.Relay
open Transition

namespace ReaderPc

/-- What the reader has in its hands, and that it has to write it. -/
def backlog : ReaderPc → ℕ
  | .writing _ rest => rest.length + 1
  | _ => 0

theorem backlog_next_le {i k : ℕ} {w : Option ByteVector} (h : ∀ data, w = some data → data.length + 1 ≤ k) :
    (next i w).backlog ≤ k := by
  cases w with
  | none => exact Nat.zero_le _
  | some data => exact h data rfl

theorem backlog_written {i n : ℕ} {live : Prop} {x : SessionEnd} {rest : ByteVector}
    (hn : CanTransfer live x rest n) :
    (next i (if n = rest.length then none else some (rest.drop n))).backlog < (writing i rest).backlog := by
  split_ifs with hlen
  · exact Nat.succ_pos _
  · obtain ⟨rfl,rfl⟩ | ⟨hpos,hle,-⟩ := hn
    · exact absurd rfl hlen
    · simp only [next, backlog, List.length_drop]
      omega

/-- The reader reads, or writes to one of `n` sessions. -/
def Serves (n : ℕ) (r : ReaderPc) : Prop := r = .reading ∨ ∃ i < n, ∃ rest, r = .writing i rest

theorem serves_next {i n : ℕ} (hi : i < n) (w : Option ByteVector) : (next i w).Serves n := by
  cases w with
  | none => exact .inl rfl
  | some rest => exact .inr ⟨i,hi,rest,rfl⟩

theorem Serves.mono {m n : ℕ} {r : ReaderPc} (h : r.Serves m) (hn : m ≤ n) : r.Serves n := by
  rcases h with hr | ⟨i,hi,hr⟩
  · exact .inl hr
  · exact .inr ⟨i,hi.trans_le hn,hr⟩

theorem Serves.lt {i n : ℕ} {r : ReaderPc} {rest : ByteVector} (h : r.Serves n) (hr : r = .writing i rest) :
    i < n := by
  rcases h with hr' | ⟨j,hj,rest',hr'⟩
  · cases hr.symm.trans hr'
  · obtain ⟨rfl,-⟩ := writing.inj (hr.symm.trans hr')
    exact hj

theorem Serves.not_closing {i n : ℕ} {r : ReaderPc} (h : r.Serves n) (w : Bool) : r ≠ .closing i w := by
  intro hr
  rcases h with hr' | ⟨j,-,rest,hr'⟩ <;> cases hr.symm.trans hr'

end ReaderPc

theorem SessionEnd.canTransfer_all {live : Prop} {x : SessionEnd} (rest : ByteVector) (hlive : live)
    (hopen : x.socket.isOpen = true) (hshut : x.socket.shutdownSend = false) : CanTransfer live x rest rest.length := by
  cases rest with
  | nil => exact .inl ⟨rfl,rfl⟩
  | cons b rest => exact .inr ⟨Nat.succ_pos _,le_rfl,hlive,hopen,hshut⟩

theorem SessionEnd.exists_held {x : SessionEnd} (h : x.held ≠ []) : ∃ f, x.pc = .sending f false := by
  rw [held] at h
  split at h
  case h_1 f hpc => exact ⟨f,hpc⟩
  case h_2 => exact absurd rfl h

theorem exists_frame {input : ByteSpan} (h : frameRead input ≠ []) :
    ∃ f, (readFrame input).1 = .frame f ∧ frameRead input = [f] := by
  rw [frameRead] at h ⊢
  split at h
  case h_1 f hf => exact ⟨f,hf,rfl⟩
  case h_2 => exact absurd rfl h

/-- A read that gives a frame, or a write that does not fail. -/
def PumpEvent.Smooth : PumpEvent → Prop
  | .read input => frameRead input ≠ []
  | .writeOk => True
  | .writeFail => False

instance (e : PumpEvent) : Decidable e.Smooth :=
  match e with
  | .read _ => inferInstanceAs (Decidable (_ ≠ _))
  | .writeOk => inferInstanceAs (Decidable True)
  | .writeFail => inferInstanceAs (Decidable False)

def PairEvent.Smooth : PairEvent → Prop
  | .pump _ e => e.Smooth
  | .disconnect _ => True

instance (e : PairEvent) : Decidable e.Smooth :=
  match e with
  | .pump _ e => inferInstanceAs (Decidable e.Smooth)
  | .disconnect _ => inferInstanceAs (Decidable True)

namespace Pair
variable {p q : Pair} {r : Role} {e : PairEvent}

/-- Where a pump is before its pair is complete, and then as long as it stays in its loop. -/
def InLoop (pc : PumpPc) : Prop := pc = .reading true ∨ ∃ f, pc = .forwarding f true

/-- Both sockets are open, and both pumps are in their loops or neither has started. -/
structure Running (p : Pair) : Prop where
  isOpen : ∀ r, (p.peer r).isOpen = true
  pump : (∀ r, p.pump r = .idle) ∨ ∀ r, InLoop (p.pump r)

theorem Running.inLoop (h : p.Running) (hr : p.pump r ≠ .idle) (t : Role) : InLoop (p.pump t) :=
  (h.pump.resolve_left fun hidle => hr (hidle r)) t

theorem Running.setPump (h : p.Running) (hr : p.pump r ≠ .idle) {pc : PumpPc} (hpc : InLoop pc) :
    (p.setPump r pc).Running := by
  refine ⟨h.isOpen,.inr fun t => ?_⟩
  obtain rfl | rfl := t.eq_or_eq_opposite r
  · rwa [setPump_self]
  · rw [setPump_opposite]
    exact h.inLoop hr _

theorem Running.setPeer (h : p.Running) {s : Peer} (hs : s.isOpen = true) : (p.setPeer r s).Running := by
  refine ⟨fun t => ?_,h.pump⟩
  obtain rfl | rfl := t.eq_or_eq_opposite r
  · rwa [setPeer_self]
  · rw [setPeer_opposite]
    exact h.isOpen _

/-- A pump that reads takes the frame that has come. -/
theorem pump_frame {input : ByteVector} {f : Frame} (hpc : p.pump r = .reading true)
    (hf : (readFrame input).1 = .frame f) : p.pumpOneWay r (.read input) = some (p.onFrame r f) := by
  have hcut : ¬CutOff input := by
    rintro (hlen | hthrown)
    · simp [readFrame, hlen] at hf
    · cases hf.symm.trans hthrown
  simp [pumpOneWay, hpc, hcut, hf]

/-- A pump that reads frames other than `EOF_` and whose writes succeed stays in its loop. -/
theorem step_running (h : p.Running) (he : e.Smooth) (hm : ∀ r, ∀ f ∈ framesRead r e, f.method ≠ .eof)
    (hs : p.step e = some q) : q.Running := by
  cases e with
  | disconnect r =>
    rw [step] at hs
    split_ifs at hs
    obtain rfl := Option.some.inj hs
    exact h.setPeer (h.isOpen r)
  | pump r e =>
    have hnot : p.pump r ≠ .idle := fun hidle => by simp [step, pumpOneWay, hidle] at hs
    rw [step] at hs
    cases e with
    | read input =>
      obtain ⟨f,hf,hread⟩ := exists_frame he
      have hne : f.method ≠ .eof := hm r f (by simp [framesRead, hread])
      rcases h.inLoop hnot r with hpc | ⟨g,hpc⟩
      · rw [pump_frame hpc hf, onFrame, if_neg hne, h.isOpen] at hs
        obtain rfl := Option.some.inj hs
        exact h.setPump hnot (.inr ⟨_,rfl⟩)
      · simp [pumpOneWay, hpc] at hs
    | writeOk =>
      rcases h.inLoop hnot r with hpc | ⟨g,hpc⟩ <;> simp only [pumpOneWay, hpc] at hs
      · cases hs
      · obtain rfl := Option.some.inj hs
        have hd : (p.deliver r.opposite g).Running := h.setPeer (h.isOpen _)
        rw [nextRead, hd.isOpen]
        exact hd.setPump hnot (.inl rfl)
    | writeFail => exact he.elim

/-- What the pump has in its hands, as it is to be written. -/
def hand (p : Pair) (r : Role) : List Frame :=
  match p.pump r with
  | .forwarding f _ => [f]
  | _ => []

/-- A pump that runs has written all it has read, but for what it has in its hands. -/
theorem Running.conveyed (h : p.Running) {fs : List Frame} (hc : Conveys r (p.pump r) fs (p.peer r.opposite).received) :
    (p.peer r.opposite).received.tail ++ p.hand r = fs.map (translate r) := by
  rw [hand]
  by_cases hidle : p.pump r = .idle
  · rw [hidle] at hc ⊢
    obtain ⟨rfl,hgs | hgs⟩ := hc.idle <;> rw [hgs] <;> rfl
  · rcases h.inLoop hidle r with hpc | ⟨g,hpc⟩ <;> rw [hpc] at hc ⊢ <;>
      generalize (p.peer r.opposite).received = gs at hc ⊢ <;> cases hc
    case inl.reading => simp
    case inr.forwarding => simp
    case inl.left hpc' => simp at hpc'
    case inr.left hpc' => simp at hpc'

end Pair

namespace Server
variable {s t : Server} {e : ServerEvent} {id : MatchId}

/-- The pumps of the pair meet no failure. -/
def Smooth (id : MatchId) : ServerEvent → Prop
  | .pair id' e => id' = id → e.Smooth
  | _ => True

instance (id : MatchId) (e : ServerEvent) : Decidable (Smooth id e) :=
  match e with
  | .pair _ _ => inferInstanceAs (Decidable (_ → _))
  | .accept | .disconnect _ | .register _ _ | .writeOk _ | .writeFail _ => inferInstanceAs (Decidable True)

theorem seat_running {m : Match} (h : m.pair.Running) (i : ℕ) (r : Role) : (s.seat i r m).pair.Running :=
  h.setPeer rfl

theorem spawn_running {m : Match} (h : m.pair.Running) : (spawn m).pair.Running := by
  refine ⟨h.isOpen,.inr fun r => .inl ?_⟩
  have hb := h.isOpen .b
  have hc := h.isOpen .c
  cases r <;> simp [spawn, Pair.nextRead, Pair.setPump, hb, hc]

theorem step_running (h : (s.pairOf id).Running) (he : Smooth id e)
    (hm : ∀ r, ∀ f ∈ framesRead id r e, f.method ≠ .eof) (hs : s.step e = some t) : (t.pairOf id).Running := by
  have hmatch : ∀ {id' : MatchId} {m m' : Match} {i : ℕ} {pc : RegistrationPc}, s.pairs id' = some m →
      (m.pair.Running → m'.pair.Running) → (((s.setMatch id' m').setPc i pc).pairOf id).Running := by
    intro id' m m' i pc hm' hkeep
    by_cases hid : id = id'
    · subst hid
      rw [setMatch_pairOf_self]
      exact hkeep (pairOf_eq hm' ▸ h)
    · rwa [setMatch_pairOf_of_ne hid]
  cases step_turn hs with
  | accept | disconnect | ignore | refused | lost => exact h
  | enroll i input id' r hi hr =>
    rw [enroll]
    split
    case isTrue hsome =>
      obtain ⟨j,hj⟩ := Option.isSome_iff_exists.mp hsome
      obtain ⟨m,hm',-⟩ := (getD_slot s id' r j).mp hj
      rw [hm', Option.getD_some]
      exact hmatch hm' fun h' => h'
    case isFalse =>
      by_cases hid : id = id'
      · subst hid
        rw [pairOf, setPc_pairs, letIn_self, Option.getD_some]
        exact seat_running h i r
      · rwa [pairOf, setPc_pairs, letIn_of_ne _ _ _ _ _ hid]
  | toldB i id' m hi hm' => exact hmatch hm' fun h' => h'.setPeer (h'.isOpen _)
  | toldC i id' m hi hm' => exact hmatch hm' fun h' => spawn_running (h'.setPeer (h'.isOpen _))
  | pair id' e m p hm' hp =>
    by_cases hid : id = id'
    · subst hid
      have hpair : (s.setMatch id { m with pair := p }).pairOf id = p := pairOf_eq (setMatch_self _ _ _)
      rw [hpair]
      refine Pair.step_running (pairOf_eq hm' ▸ h) (he rfl) (fun r f hf => hm r f ?_) hp
      rwa [framesRead, if_pos rfl]
    · rwa [pairOf, setMatch_of_ne _ _ _ hid]

theorem fresh_running (id : MatchId) : (({} : Server).pairOf id).Running := ⟨fun _ => rfl,.inl fun _ => rfl⟩

end Server

namespace Visitor
variable {s t : Visitor} {e : VisitorEvent} {i : ℕ} {u : Uuid} {v : View ClientSession}

/-- The acceptor does not fail, nor does the connection to A or a write to a client. -/
def Calm : VisitorEvent → Prop
  | .acceptFailed | .writeFailed | .read .nullopt | .read .thrown => False
  | _ => True

instance (e : VisitorEvent) : Decidable (Calm e) :=
  match e with
  | .acceptFailed | .writeFailed | .read .nullopt | .read .thrown => inferInstanceAs (Decidable False)
  | .accept _ | .read (.frame _) | .transferred _ | .closeWritten | .closeSent | .session _ _ | .transmit _ =>
    inferInstanceAs (Decidable True)

/-- The session was refused or closed by C. -/
def Dismissed (u : Uuid) (frames : List Frame) : Prop := Received .sessionErr u frames ∨ Received .sessionClose u frames

theorem Dismissed.append {frames : List Frame} (h : Dismissed u frames) (fs : List Frame) : Dismissed u (frames ++ fs) :=
  h.imp (·.append fs) (·.append fs)

/-- A session to whose client nothing has failed: it can be written to until `DATA_EOF` has
come, and it leaves the table only then, or when C has dismissed it. -/
structure Takes (u : Uuid) (v : View ClientSession) : Prop where
  isOpen : v.entered = true → v.session.socket.isOpen = true
  shut : v.session.socket.shutdownSend = true ↔ v.session.halfCloseRecv = true
  recv : v.session.halfCloseRecv = true → Received .dataEof u v.frames
  told : Received .dataEof u v.frames → v.session.halfCloseRecv = true ∨ Dismissed u v.frames
  closed : v.entered = true → v.session.closed = true → v.session.halfCloseRecv = true
  gone : v.entered = false → v.session.halfCloseRecv = true ∨ Dismissed u v.frames
  pending : ∀ rest, v.pending = some rest → rest ≠ [] ∧ v.entered = true ∧ v.session.halfCloseRecv = false
  idle : v.closing = false

/-- The pump changes nothing for the reader but that a session at its end leaves the table. -/
theorem Takes.resumed (h : Takes u v) (hp : v.session.Pumps u (newSessionFrame u)) {e : SessionEvent}
    {x : ClientSession} (hx : ClientSession.Resumes u v.session e x) {b : Bool}
    (hb : b = (v.entered && !(x.pc = .ended ∧ x.closed : Bool))) : Takes u { v with
      session := x
      entered := b } := by
  obtain ⟨hsocket,hshut,hrecv,hclosed⟩ : x.socket.isOpen = v.session.socket.isOpen ∧
      x.socket.shutdownSend = v.session.socket.shutdownSend ∧ x.halfCloseRecv = v.session.halfCloseRecv ∧
      (x.closed = true → v.session.closed = true ∨ v.session.halfCloseRecv = true) := by
    cases hx with
    | sent f w hpc =>
      obtain ⟨hsock,hr,-⟩ := v.session.onSent_frame f
      refine ⟨by rw [hsock],by rw [hsock],hr,fun hc => ?_⟩
      rcases hp.sent hpc (by simp [newSessionFrame]) with ⟨-,-,hsent⟩ | ⟨-,hsent⟩ <;> rw [hsent] at hc
      · split_ifs at hc with hrecv
        · exact .inr hrecv
        · exact .inl hc
      · exact .inl hc
    | read r hpc =>
      obtain ⟨-,-,-,hsock,hc,hr⟩ := (v.session.receive r).onRead_frame u r
      refine ⟨by rw [hsock]; rfl,by rw [hsock]; rfl,hr,fun hc' => .inl (hc.symm.trans hc')⟩
  have hleft : v.entered = true → x.closed = true → x.halfCloseRecv = true := fun he hc =>
    hrecv.trans ((hclosed hc).elim (h.closed he) fun hr => hr)
  have hentered : b = true → v.entered = true := by
    rintro rfl
    exact (Bool.and_eq_true_iff.mp hb.symm).1
  constructor <;> simp only [hsocket, hshut, hrecv]
  case isOpen => exact fun he => h.isOpen (hentered he)
  case shut => exact h.shut
  case recv => exact h.recv
  case told => exact h.told
  case closed => exact fun he hc => hrecv.symm.trans (hleft (hentered he) hc)
  case gone =>
    intro hn
    cases he : v.entered with
    | false => exact h.gone he
    | true =>
      have hend : x.pc = .ended ∧ x.closed = true := by simpa [he, hn] using hb
      exact .inl (hrecv.symm.trans (hleft he hend.2))
  case pending =>
    intro rest hrest
    obtain ⟨hne,he,hr⟩ := h.pending rest hrest
    refine ⟨hne,?_,hr⟩
    have hopen : x.closed = false := by
      rw [← Bool.not_eq_true]
      intro hc
      exact absurd ((hrecv.symm.trans (hleft he hc)).symm.trans hr) (by simp)
    rw [hb, he, hopen]
    simp
  case idle => exact h.idle

/-- A frame for a session in the table, where no payload comes behind `DATA_EOF`. -/
theorem Takes.taken (h : Takes u v) (he : v.entered = true) {f : Frame} (hk : visitorKey f = some u)
    (hlate : f.method = .data → ¬Received .dataEof u v.frames) : Takes u { v with
      session := (v.session.onFrame f).session
      entered := !(v.session.onFrame f).erase
      pending := (v.session.onFrame f).write
      frames := v.frames ++ [f] } := by
  have htaken : ∀ {m : Method}, f.method = m → Received m u (v.frames ++ [f]) := fun hm =>
    ⟨f,List.mem_append_right _ (List.mem_singleton_self f),hm,hk⟩
  have htold : f.method ≠ .dataEof → Received .dataEof u (v.frames ++ [f]) →
      v.session.halfCloseRecv = true ∨ Dismissed u (v.frames ++ [f]) := fun hm hr =>
    (h.told ((received_append_singleton (.inl hm)).mp hr)).imp_right fun hd => hd.append [f]
  have hsame : f.method ≠ .dataEof → ∀ {w : Option ByteVector},
      (∀ rest, w = some rest → rest ≠ [] ∧ v.session.halfCloseRecv = false) → Takes u { v with
        entered := true
        pending := w
        frames := v.frames ++ [f] } := by
    intro hm w hw
    exact ⟨fun _ => h.isOpen he,h.shut,fun hr => (h.recv hr).append [f],htold hm,fun _ => h.closed he,by rintro ⟨⟩,
      fun rest hrest => ⟨(hw rest hrest).1,rfl,(hw rest hrest).2⟩,h.idle⟩
  have hclose : f.method = .sessionErr ∨ f.method = .sessionClose → Takes u { v with
      session := v.session.markClosed.close
      entered := false
      pending := none
      frames := v.frames ++ [f] } := by
    intro hm
    have hd : Dismissed u (v.frames ++ [f]) := hm.imp htaken htaken
    exact ⟨by rintro ⟨⟩,h.shut,fun hr => (h.recv hr).append [f],fun _ => .inr hd,by rintro ⟨⟩,fun _ => .inr hd,
      by rintro _ ⟨⟩,h.idle⟩
  cases hm : f.method
  case sessionErr =>
    simp only [ClientSession.onFrame, hm]
    exact hclose (.inl hm)
  case sessionClose =>
    simp only [ClientSession.onFrame, hm]
    exact hclose (.inr hm)
  case data =>
    simp only [ClientSession.onFrame, hm]
    refine hsame (by simp [hm]) fun rest hrest => ?_
    split_ifs at hrest with hlen
    obtain rfl := Option.some.inj hrest
    refine ⟨List.length_pos_iff.mp hlen,?_⟩
    rw [← Bool.not_eq_true]
    intro hr
    exact hlate hm (h.recv hr)
  case dataEof =>
    have hend : ∀ {x : ClientSession} {b : Bool}, x.socket.isOpen = v.session.socket.isOpen →
        x.socket.shutdownSend = true → x.halfCloseRecv = true → Takes u { v with
          session := x
          entered := b
          pending := none
          frames := v.frames ++ [f] } := by
      intro x b ho hs hr
      exact ⟨fun _ => ho.trans (h.isOpen he),iff_of_true hs hr,fun _ => htaken hm,fun _ => .inl hr,fun _ _ => hr,
        fun _ => .inl hr,by rintro _ ⟨⟩,h.idle⟩
    simp only [ClientSession.onFrame, hm]
    split_ifs
    · exact hend rfl rfl rfl
    · exact hend rfl rfl rfl
  all_goals
    simp only [ClientSession.onFrame, hm]
    exact hsame (by simp [hm]) (by rintro _ ⟨⟩)

/-- What a calm step means to a session whose client can be written to. -/
theorem Moves.takes (hm : Moves s i e v) (h : Takes (s.sessions.key i) (s.view i))
    (hp : (s.sessions.cell i).Pumps (s.sessions.key i) (newSessionFrame (s.sessions.key i))) (hcalm : Calm e)
    (hlost : v.lost = false) (hlate : ∀ f, e = .read (.frame f) → f.method = .data →
      visitorKey f = some (s.sessions.key i) → ¬Received .dataEof (s.sessions.key i) s.frames) :
    Takes (s.sessions.key i) v := by
  have hclosing : s.reader.isClosing i = false := h.idle
  cases hm with
  | same => exact h
  | resumed e x hx => exact h.resumed hp (ClientSession.resume_resumes hx) rfl
  | transmitted f hpc => exact ⟨h.isOpen,h.shut,h.recv,h.told,h.closed,h.gone,h.pending,h.idle⟩
  | passed f hr hm hk =>
    refine ⟨h.isOpen,h.shut,fun hr => (h.recv hr).append [f],fun hr => ?_,h.closed,
      fun hn => (h.gone hn).imp_right fun hd => hd.append [f],h.pending,h.idle⟩
    by_cases he : s.sessions.Entered i
    · exact (h.told ((received_append_singleton (.inr (hk he))).mp hr)).imp_right fun hd => hd.append [f]
    · exact (h.gone (decide_eq_false he)).imp_right fun hd => hd.append [f]
  | taken f hr he hm hk => exact h.taken (decide_eq_true he) hk fun hd => hlate f rfl hd hk
  | written n rest hr hn =>
    refine ⟨h.isOpen,h.shut,h.recv,h.told,h.closed,h.gone,fun left hleft => ?_,h.idle⟩
    obtain ⟨-,he,hrecv⟩ := h.pending rest (by simp [hr])
    refine ⟨?_,he,hrecv⟩
    dsimp only at hleft
    split_ifs at hleft with hlen
    obtain rfl := Option.some.inj hleft
    have hle : n ≤ rest.length := by
      rcases hn with ⟨rfl,rfl⟩ | ⟨-,hle,-⟩
      · exact Nat.zero_le _
      · exact hle
    rw [← List.length_pos_iff, List.length_drop]
    omega
  | failed => exact hcalm.elim
  | dismissed w hr => simp [hr] at hclosing
  | staled w hr => simp [hr] at hclosing
  | cut => cases hlost
  | shut => exact hcalm.elim

/-- B in a run without a failure: its reader reads, or writes to a client. -/
structure Serving (s : Visitor) : Prop where
  lost : s.lost = false
  takes : ∀ i < s.sessions.count, Takes (s.sessions.key i) (s.view i)
  reader : s.reader.Serves s.sessions.count

theorem Serving.stays (h : s.Serving) (hcalm : Calm e) (heof : ∀ f, e = .read (.frame f) → f.method ≠ .eof)
    (hs : s.step e = some t) : t.lost = false ∧ t.reader.Serves t.sessions.count := by
  cases step_turn hs with
  | accepted => exact ⟨h.lost,h.reader.mono (Nat.le_succ _)⟩
  | unaccepted | failed => exact hcalm.elim
  | eof f _ hm => exact absurd hm (heof f rfl)
  | lost r _ hn =>
    cases r with
    | frame f => exact absurd rfl (hn f)
    | nullopt | thrown => exact hcalm.elim
  | taken f i _ _ he =>
    refine ⟨h.lost,ReaderPc.serves_next ?_ _⟩
    simpa [Node.dispatch] using he.lt
  | passed | transmitted => exact ⟨h.lost,h.reader⟩
  | written n i rest hr => exact ⟨h.lost,ReaderPc.serves_next (h.reader.lt hr) _⟩
  | closeWritten _ hr | dismissed _ _ hr | staled _ _ hr => exact absurd hr (h.reader.not_closing _)
  | resumed i e x =>
    refine ⟨h.lost,?_⟩
    simpa [onResumed] using h.reader

theorem accepted_takes {frames : List Frame} (hnone : ¬Received .dataEof u frames) : Takes u
    { session := ClientSession.accepted u
      entered := true
      frames := frames
      lost := false } :=
  ⟨fun _ => rfl,iff_of_false Bool.false_ne_true Bool.false_ne_true,by rintro ⟨⟩,fun hr => absurd hr hnone,
    by rintro _ ⟨⟩,by rintro ⟨⟩,by rintro _ ⟨⟩,rfl⟩

theorem step_serving (h : s.Serving) (hp : s.Posted) (hsize : s.Sized e) (hcalm : Calm e)
    (heof : ∀ f, e = .read (.frame f) → f.method ≠ .eof)
    (hlate : ∀ f u, e = .read (.frame f) → f.method = .data → visitorKey f = some u → ¬Received .dataEof u s.frames)
    (hs : s.step e = some t) : t.Serving := by
  have hc := (step_drifts hp.bounded hs).carries hp.distinct hsize.1.fresh
  obtain ⟨hlost,hreader⟩ := h.stays hcalm heof hs
  refine ⟨hlost,fun i hi => ?_,hreader⟩
  obtain ⟨hi',hk,hm⟩ | ⟨-,u,rfl,hk,hv⟩ := hc.view i hi
  · rw [hk]
    exact hm.takes (h.takes i hi') (hp.pumps i hi') hcalm hlost fun f hf hd hkf => hlate f _ hf hd hkf
  · rw [hk, hv, h.lost]
    apply accepted_takes
    rintro ⟨g,hg,-,hkey⟩
    exact hsize.1.2 g hg hkey

end Visitor

/-- A read takes no more than the buffer holds, so that the frame it leads to can be sent. -/
theorem SessionEnd.readFrame_fits {u : Uuid} {x : SessionEnd} {r : ReadSome} (hu : u.length = UUID_BYTES)
    (hr : x.CanRead r) : (readFrame u r).Fits := by
  rcases readFrame_cases u r with hf | ⟨d,rfl,-,hf⟩ <;> rw [hf, Frame.Fits]
  · simp [dataEofFrame, buildUuidBody, hu, UUID_BYTES]
  · have hd : d.length ≤ bufSize := by
      rcases hr with hr | ⟨-,hlen⟩
      · cases hr
      · exact hlen
    simp only [dataFrame, buildUuidDataBody, List.length_append, hu, UUID_BYTES]
    rw [bufSize] at hd
    omega

theorem SessionState.Speaks.mem {u : Uuid} {x : SessionState} (h : x.Speaks u) {f : Frame} (hf : f ∈ x.submitted) :
    f = sessionErrFrame u ∧ x.submitted = [sessionErrFrame u] ∨ f = sessionOkFrame u ∨ (∃ d, f = dataFrame u d) ∨
      f = dataEofFrame u := by
  cases h with
  | connecting _ _ hfs => simp [hfs] at hf
  | refusing _ _ _ hfs | refused _ _ hfs => exact .inl ⟨List.mem_singleton.mp (hfs ▸ hf),hfs⟩
  | pumping hp => exact .inr (hp.mem hf)

namespace Provider
variable {s t : Provider} {e : ProviderEvent} {i : ℕ}

/-- All that the coroutines of C give to `aconn_write` can be told in a length of 32 bits. -/
def Short (s : Provider) : Prop := ∀ i < s.sessions.count, ∀ f ∈ (s.sessions.cell i).submitted, f.Fits

theorem step_short (h : s.Short) (hp : s.Posted) (hsize : s.Sized e) (hs : s.step e = some t) : t.Short := by
  have hc := step_carries hp.distinct hsize.fresh hs
  intro i hi f hf
  obtain ⟨hi',hk,hm⟩ | ⟨-,g,-,-,-,hv⟩ := hc.view i hi
  · have hadded : ∀ g : Frame, g.Fits → (t.sessions.cell i).submitted = (s.sessions.cell i).submitted ++ [g] →
        f.Fits := by
      intro g hg hsub
      rw [hsub] at hf
      rcases List.mem_append.mp hf with hf | hf
      · exact h i hi' f hf
      · exact List.mem_singleton.mp hf ▸ hg
    rcases hm.reads with ⟨-,hsub⟩ | ⟨g,hg,-,-,hsub⟩ | ⟨r,rfl,-,hsub⟩
    · exact h i hi' f (hsub ▸ hf)
    · refine hadded g ?_ hsub
      rcases hg with rfl | rfl <;>
        simp [Frame.Fits, sessionOkFrame, sessionErrFrame, buildUuidBody, hp.sized i hi', UUID_BYTES]
    · cases step_turn hs with
      | resumed _ _ x _ hx =>
        cases SessionState.resume_resumes hx with
        | read _ _ hr => exact hadded _ (SessionEnd.readFrame_fits (hp.sized i hi') hr) hsub
  · have hcell : t.sessions.cell i = .connect := congrArg View.session hv
    rw [hcell] at hf
    cases hf

end Provider

namespace System
variable {id : MatchId} {s t : System} {e : SystemEvent} {u : Uuid} {i j : ℕ}

/-- No connection between the nodes ends, no write on them fails, and B can accept clients
and write to them. -/
def Holds (id : MatchId) (s : System) : SystemEvent → Prop
  | .visitor e => Visitor.Calm e
  | .server e => Server.Smooth id e
  | .provider (.session j .sent) => (s.provider.sessions.cell j).unwritten = false
  | .provider _ => True

instance (id : MatchId) (s : System) (e : SystemEvent) : Decidable (Holds id s e) :=
  match e with
  | .visitor _ => inferInstanceAs (Decidable (Visitor.Calm _))
  | .server _ => inferInstanceAs (Decidable (Server.Smooth _ _))
  | .provider (.session _ .sent) => inferInstanceAs (Decidable (_ = _))
  | .provider (.session _ (.connected _)) | .provider (.session _ (.readSome _)) | .provider (.session _ (.transferred _))
  | .provider (.session _ .writeFailed) | .provider (.read _) | .provider (.transferred _) | .provider .writeFailed
  | .provider (.transmit _) => inferInstanceAs (Decidable True)

/-- What C has written to A for a session is what its coroutine has submitted. -/
theorem Joined.submitted_of_wire (h : s.Joined id) (hj : j < s.provider.sessions.count) {f : Frame}
    (hf : f ∈ s.provider.wire) (hk : visitorKey f = some (s.provider.sessions.key j)) :
    f ∈ (s.provider.sessions.cell j).submitted := by
  apply (h.provider.shipped j hj).1.subset
  rw [← h.provider.posted j hj]
  exact List.mem_filter.mpr ⟨hf,by simpa using hk⟩

theorem Joined.exists_submitted (h : s.Joined id) {f : Frame} (hf : f ∈ s.provider.wire) :
    ∃ j < s.provider.sessions.count, visitorKey f = some (s.provider.sessions.key j) ∧
      f ∈ (s.provider.sessions.cell j).submitted := by
  obtain ⟨j,hj,hk⟩ := h.provider.keyed f hf
  exact ⟨j,hj,hk,h.submitted_of_wire hj hf hk⟩

/-- Neither node says `EOF_`. -/
theorem Joined.wire_ne_eof (h : s.Joined id) (r : Role) {f : Frame} (hf : f ∈ s.wire r) : f.method ≠ .eof := by
  cases r with
  | b =>
    rcases h.visitor.wire f hf with hm | ⟨i,hi,hsub⟩
    · simp [hm]
    · rcases (h.visitor.pumps i hi).mem hsub with rfl | ⟨d,rfl⟩ | rfl <;>
        simp [newSessionFrame, dataFrame, dataEofFrame]
  | c =>
    obtain ⟨j,hj,-,hsub⟩ := h.exists_submitted hf
    rcases (h.provider.speaks j hj).mem hsub with ⟨rfl,-⟩ | rfl | ⟨d,rfl⟩ | rfl <;>
      simp [sessionErrFrame, sessionOkFrame, dataFrame, dataEofFrame]

/-- What is so in every state of a run without a failure. -/
structure Flowing (id : MatchId) (s : System) : Prop where
  joined : s.Joined id
  running : (s.server.pairOf id).Running
  unbroken : s.provider.broken = false
  short : s.provider.Short
  serving : s.visitor.Serving

theorem map_translate_c (fs : List Frame) : fs.map (translate .c) = fs :=
  (List.map_congr_left fun f _ => translate_c f).trans (List.map_id' fs)

theorem Joined.untold (h : s.Joined id) {r : Role} (hidle : (s.server.pairOf id).pump r = .idle) :
    (s.received id r.opposite).tail = [] := by
  obtain ⟨-,hgs | hgs⟩ := (hidle ▸ (h.ledger r).conveys).idle <;> rw [received, hgs] <;> rfl

theorem Flowing.relayed (h : s.Flowing id) (r : Role) :
    (s.received id r.opposite).tail ++ (s.server.pairOf id).hand r = (s.read r).map (translate r) :=
  h.running.conveyed (h.joined.ledger r).conveys

theorem Flowing.down (h : s.Flowing id) (r : Role) : (s.received id r.opposite).tail <+: (s.wire r).map (translate r) := by
  have hread : (s.received id r.opposite).tail <+: (s.read r).map (translate r) := h.relayed r ▸ List.prefix_append _ _
  exact hread.trans ((h.joined.up r).map _)

theorem Flowing.down_c (h : s.Flowing id) : (s.received id .b).tail <+: s.provider.wire :=
  map_translate_c s.provider.wire ▸ h.down .c

/-- What C has read from a remote is told before its `DATA_EOF`. -/
theorem Flowing.not_late (h : s.Flowing id) {f : Frame} (hd : s.visitor.frames ++ [f] <+: (s.received id .b).tail)
    {u : Uuid} (hk : visitorKey f = some u) : ¬Visitor.Received .dataEof u s.visitor.frames := by
  rintro ⟨g,hg,hmg,hkg⟩
  have hwire := hd.trans h.down_c
  obtain ⟨j,hj,hkj,-⟩ := h.joined.exists_submitted
    (hwire.subset (List.mem_append_right _ (List.mem_singleton_self f)))
  obtain rfl : u = s.provider.sessions.key j := Option.some.inj (hk.symm.trans hkj)
  have hsub := (hwire.filter (visitorKey · = some (s.provider.sessions.key j))).trans
    (h.joined.provider.posted j hj ▸ (h.joined.provider.shipped j hj).1)
  rw [List.filter_append, List.filter_cons_of_pos (by simpa using hk), List.filter_nil] at hsub
  have hmem : g ∈ s.visitor.frames.filter (visitorKey · = some (s.provider.sessions.key j)) :=
    List.mem_filter.mpr ⟨hg,by simpa using hkg⟩
  obtain ⟨pre,post,hsplit⟩ := List.append_of_mem hmem
  rw [hsplit] at hsub
  have hpre : pre ++ [g] <+: (s.provider.sessions.cell j).submitted :=
    List.IsPrefix.trans ⟨post ++ [f],by simp⟩ hsub
  have hall := (h.joined.provider.speaks j hj).eof_last hpre hmg
  have hlen := hsub.length_le
  simp [← hall] at hlen

theorem step_flowing (h : s.Flowing id) (hd : s.Delivers id e) (ho : Holds id s e) (hs : step id s e = some t) :
    t.Flowing id := by
  have hjoined := step_joined h.joined hd hs
  cases e with
  | visitor e =>
    obtain ⟨v,hv,rfl⟩ := Option.map_eq_some_iff.mp hs
    refine ⟨hjoined,h.running,h.unbroken,h.short,
      Visitor.step_serving h.serving h.joined.visitor (h.joined.visitor_sized hd) ho ?_ ?_ hv⟩
    · rintro f rfl
      exact h.joined.wire_ne_eof .c (h.down_c.subset (hd.subset (List.mem_append_right _ (List.mem_singleton_self f))))
    · rintro f u rfl - hk
      exact h.not_late hd hk
  | server e =>
    obtain ⟨a,ha,rfl⟩ := Option.map_eq_some_iff.mp hs
    refine ⟨hjoined,Server.step_running h.running ho (fun r f hf => ?_) ha,h.unbroken,h.short,h.serving⟩
    exact h.joined.wire_ne_eof r ((hd r).subset (List.mem_append_right _ hf))
  | provider e =>
    obtain ⟨p,hp,rfl⟩ := Option.map_eq_some_iff.mp hs
    refine ⟨hjoined,h.running,?_,Provider.step_short h.short h.joined.provider (h.joined.provider_sized hd) hp,h.serving⟩
    change p.broken = false
    cases Provider.step_turn hp with
    | resumed i e x =>
      refine Bool.or_eq_false_iff.mpr ⟨h.unbroken,?_⟩
      cases e with
      | sent => exact ho
      | _ => rfl
    | _ => exact h.unbroken

theorem empty_flowing (id : MatchId) : ({} : System).Flowing id := by
  refine ⟨empty_joined id,Server.fresh_running id,rfl,?_,rfl,?_,.inl rfl⟩ <;>
    exact fun i hi => absurd hi (Nat.not_lt_zero i)

/-- What the frames weigh, each `k` more than its body. -/
def load (k : ℕ) (fs : List Frame) : ℕ := (fs.map fun f => f.body.length + k).sum

@[simp] theorem load_nil (k : ℕ) : load k [] = 0 := rfl

@[simp] theorem load_singleton (k : ℕ) (f : Frame) : load k [f] = f.body.length + k := by simp [load]

theorem load_append (k : ℕ) (fs gs : List Frame) : load k (fs ++ gs) = load k fs + load k gs := by simp [load]

theorem load_drop_next {k : ℕ} {pre fs : List Frame} {f : Frame} (h : pre ++ [f] <+: fs) :
    load k (fs.drop pre.length) = f.body.length + k + load k (fs.drop (pre ++ [f]).length) := by
  obtain ⟨rest,rfl⟩ := h
  rw [List.drop_left, List.append_assoc, List.drop_left, load_append, load_singleton]

theorem load_drop_concat {k n : ℕ} {fs : List Frame} (h : n ≤ fs.length) (f : Frame) :
    load k ((fs ++ [f]).drop n) = load k (fs.drop n) + (f.body.length + k) := by
  rw [List.drop_append_of_le_length h, load_append, load_singleton]

/-- What is on the way from one node to the other, weighed the more the longer its way. -/
def inTransit (id : MatchId) (s : System) (r : Role) : ℕ :=
  load 6 ((s.wire r).drop (s.read r).length) + load 5 ((s.server.pairOf id).hand r) +
    load 4 ((s.received id r.opposite).tail.drop (s.frames r.opposite).length)

theorem step_pump {r : Role} {e : PumpEvent} (hs : step id s (.server (.pair id (.pump r e))) = some t) :
    ∃ q, (s.server.pairOf id).pumpOneWay r e = some q ∧ t.server.pairOf id = q ∧ t.visitor = s.visitor ∧
      t.provider = s.provider ∧ ∀ u, t.read u = s.read u ++ Pair.framesRead u (.pump r e) := by
  obtain ⟨a,ha,rfl⟩ := Option.map_eq_some_iff.mp hs
  cases Server.step_turn ha with
  | refused _ _ he => rcases he with he | he <;> cases he
  | pair _ _ m q hm hq =>
    refine ⟨q,Server.pairOf_eq hm ▸ hq,Server.pairOf_eq (Server.setMatch_self _ _ _),rfl,rfl,fun u => ?_⟩
    simp [Server.framesRead]

theorem exists_pump {r : Role} {e : PumpEvent} {q : Pair} (hq : (s.server.pairOf id).pumpOneWay r e = some q) :
    ∃ t, step id s (.server (.pair id (.pump r e))) = some t := by
  cases hm : s.server.pairs id with
  | none => simp [Server.pairOf, hm, Pair.pumpOneWay] at hq
  | some m =>
    rw [Server.pairOf_eq hm] at hq
    have hstep : s.server.step (.pair id (.pump r e)) = some (s.server.setMatch id { m with pair := q }) := by
      simp [Server.step, hm, Pair.step, hq]
    exact ⟨_,congrArg (Option.map _) hstep⟩

/-- A pump that meets no failure brings on what is on its way. -/
theorem Flowing.pump_lowers (h : s.Flowing id) {r : Role} {e : PumpEvent}
    (hd : s.Delivers id (.server (.pair id (.pump r e)))) (ho : e.Smooth)
    (hs : step id s (.server (.pair id (.pump r e))) = some t) :
    t.visitor = s.visitor ∧ t.provider = s.provider ∧ t.inTransit id r < s.inTransit id r := by
  have ht := step_flowing h hd (fun _ => ho) hs
  obtain ⟨q,hq,hpair,hv,hp,hread⟩ := step_pump hs
  refine ⟨hv,hp,?_⟩
  have hwire : t.wire r = s.wire r := by cases r <;> simp [wire, hv, hp]
  have hframes : t.frames r.opposite = s.frames r.opposite := by cases r <;> simp [frames, Role.opposite, hv, hp]
  have hnot : (s.server.pairOf id).pump r ≠ .idle := fun hidle => by simp [Pair.pumpOneWay, hidle] at hq
  -- A has written what it has read but for what is in its hands, before the step and behind it
  have hcarried := ht.relayed r
  rw [hread, List.map_append, ← h.relayed r] at hcarried
  rw [inTransit, inTransit, hwire, hframes, hread]
  rcases h.running.inLoop hnot r with hpc | ⟨g,hpc⟩
  · have hbefore : (s.server.pairOf id).hand r = [] := by rw [Pair.hand, hpc]
    cases e with
    | writeOk => simp [Pair.pumpOneWay, hpc] at hq
    | writeFail => exact ho.elim
    | read input =>
      obtain ⟨f,hf,hfr⟩ := exists_frame ho
      have hpre : s.read r ++ [f] <+: s.wire r := by simpa [Server.framesRead, Pair.framesRead, hfr] using hd r
      have hne := h.joined.wire_ne_eof r (hpre.subset (List.mem_append_right _ (List.mem_singleton_self f)))
      rw [Pair.pump_frame hpc hf] at hq
      obtain rfl := Option.some.inj hq
      have hafter : (t.server.pairOf id).hand r = [translate r f] := by
        rw [hpair, Pair.hand, Pair.onFrame, if_neg hne, Pair.setPump_self]
      have hbody : (translate r f).body.length = f.body.length := by
        rw [translate]
        split_ifs <;> rfl
      rw [hafter, hbefore, List.append_nil, Pair.framesRead, if_pos rfl, hfr] at hcarried
      rw [hafter, hbefore, List.append_cancel_right hcarried, Pair.framesRead, if_pos rfl, hfr, load_drop_next hpre,
        load_singleton, hbody, load_nil]
      omega
  · have hbefore : (s.server.pairOf id).hand r = [g] := by rw [Pair.hand, hpc]
    cases e with
    | read input => simp [Pair.pumpOneWay, hpc] at hq
    | writeFail => exact ho.elim
    | writeOk =>
      simp only [Pair.pumpOneWay, hpc] at hq
      obtain rfl := Option.some.inj hq
      have hafter : (t.server.pairOf id).hand r = [] := by
        rw [hpair, Pair.hand, Pair.nextRead, Pair.setPump_self]
      rw [hafter, hbefore, Pair.framesRead_writeOk, List.map_nil, List.append_nil, List.append_nil] at hcarried
      rw [hafter, hbefore, hcarried, Pair.framesRead_writeOk, List.append_nil,
        load_drop_concat (h.joined.down r.opposite).length_le, load_singleton, load_nil]
      omega

/-- As long as something is on its way through A its pump can go on. -/
theorem Flowing.exists_pumped (h : s.Flowing id) {r : Role} (hloop : Pair.InLoop ((s.server.pairOf id).pump r))
    (hne : (s.received id r.opposite).tail ≠ (s.wire r).map (translate r)) (hfits : ∀ f ∈ s.wire r, f.Fits) :
    ∃ e, e.Smooth ∧ s.Delivers id (.server (.pair id (.pump r e))) ∧
      ∃ t, step id s (.server (.pair id (.pump r e))) = some t := by
  have hrelayed := h.relayed r
  rcases hloop with hpc | ⟨g,hpc⟩
  · rw [Pair.hand, hpc, List.append_nil] at hrelayed
    obtain ⟨fs,hfs⟩ := h.joined.up r
    cases fs with
    | nil => exact absurd (by rw [hrelayed, ← hfs, List.append_nil]) hne
    | cons f fs =>
      have hlen : f.body.length ≤ 2 ^ 32 - 2 := hfits f (hfs ▸ List.mem_append_right _ List.mem_cons_self)
      have hshort : f.body.length < 2 ^ 32 - 1 := by omega
      have hf : (readFrame f.bytes).1 = .frame f := by
        have happ := readFrame_buildFrameBytes f.method hshort []
        rw [List.append_nil] at happ
        exact congrArg Prod.fst happ
      refine ⟨.read f.bytes,by simp [PumpEvent.Smooth, frameRead, hf],fun u => ?_,exists_pump (Pair.pump_frame hpc hf)⟩
      rw [Server.framesRead, if_pos rfl, Pair.framesRead]
      split_ifs with hru
      · subst hru
        exact ⟨fs,by simpa [frameRead, hf] using hfs⟩
      · simpa using h.joined.up u
  · have hstep : (s.server.pairOf id).pumpOneWay r .writeOk =
        some (((s.server.pairOf id).deliver r.opposite g).nextRead r) := by
      simp [Pair.pumpOneWay, hpc]
    exact ⟨.writeOk,trivial,fun u => by simpa [Server.framesRead] using h.joined.up u,exists_pump hstep⟩

end System

end Msg801.Relay
