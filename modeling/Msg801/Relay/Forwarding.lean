import Mathlib.Data.List.Nodup
import Msg801.Relay.Server

/-! # What the matcher forwards

Each pump of a pair copies the frames of one peer to the other. The frames of a pair are its
own, and its pumps are spawned once.
-/
namespace Msg801.Relay
open Transition

/-- The frame a read gives, if it gives one. -/
def frameRead (input : ByteSpan) : List Frame :=
  match (readFrame input).1 with
  | .frame f => [f]
  | _ => []

namespace Pair

/-- The frames a step reads from the peer `r`. -/
def framesRead (r : Role) : PairEvent → List Frame
  | .pump t (.read input) => if t = r then frameRead input else []
  | _ => []

@[simp] theorem framesRead_writeOk (r t : Role) : framesRead r (.pump t .writeOk) = [] := rfl
@[simp] theorem framesRead_writeFail (r t : Role) : framesRead r (.pump t .writeFail) = [] := rfl
@[simp] theorem framesRead_disconnect (r t : Role) : framesRead r (.disconnect t) = [] := rfl

/-- What the other peer has been written, by where the pump of `r` is and what it has read. -/
inductive Conveys (r : Role) : PumpPc → List Frame → List Frame → Prop
  | untold : Conveys r .idle [] []
  | told : Conveys r .idle [] [readyFrame]
  | reading (live : Bool) (fs : List Frame) :
      Conveys r (.reading live) fs (readyFrame :: fs.map (translate r))
  | forwarding (live : Bool) (fs : List Frame) (f : Frame) :
      Conveys r (.forwarding (translate r f) live) (fs ++ [f]) (readyFrame :: fs.map (translate r))
  | passing (live : Bool) (fs : List Frame) (f : Frame) :
      Conveys r (.passingEof live) (fs ++ [f]) (readyFrame :: fs.map (translate r))
  | left (pc : PumpPc) (hpc : pc = .ended ∨ ∃ live, pc = .tearingDown live) (fs gs : List Frame) (n : ℕ) :
      Conveys r pc (fs ++ gs) (readyFrame :: fs.map (translate r) ++ List.replicate n eofFrame)

variable {p q : Pair} {r : Role} {e : PumpEvent} {h gs : List Frame}

/-- A peer has got nothing, or `READY`, a prefix of what was read, and `EOF_` frames. -/
theorem Conveys.received {pc : PumpPc} (hc : Conveys r pc h gs) : gs = [] ∨
    ∃ fs n, fs <+: h ∧ gs = readyFrame :: fs.map (translate r) ++ List.replicate n eofFrame := by
  cases hc with
  | untold => exact .inl rfl
  | told => exact .inr ⟨[],0,List.prefix_rfl,rfl⟩
  | reading live => exact .inr ⟨h,0,List.prefix_rfl,(List.append_nil _).symm⟩
  | forwarding live fs f => exact .inr ⟨fs,0,List.prefix_append _ _,(List.append_nil _).symm⟩
  | passing live fs f => exact .inr ⟨fs,0,List.prefix_append _ _,(List.append_nil _).symm⟩
  | left pc hpc fs g n => exact .inr ⟨fs,n,List.prefix_append _ _,rfl⟩

theorem Conveys.idle (hc : Conveys r .idle h gs) : h = [] ∧ (gs = [] ∨ gs = [readyFrame]) := by
  cases hc with
  | untold => exact ⟨rfl,.inl rfl⟩
  | told => exact ⟨rfl,.inr rfl⟩
  | left pc hpc => simp at hpc

/-- The pump leaves its loop; a frame it has read is not written. -/
theorem Conveys.leave {pc : PumpPc} (hc : Conveys r pc h gs) (hne : pc ≠ .idle) (fs : List Frame) :
    Conveys r ((p.leaveLoop r).pump r) (h ++ fs) gs := by
  have hpc : (p.leaveLoop r).pump r = .ended ∨ ∃ live, (p.leaveLoop r).pump r = .tearingDown live := by
    rw [leaveLoop]
    split
    · exact .inl (setPump_self _ _ _)
    · exact .inr ⟨_,setPump_self _ _ _⟩
  have hleft : ∀ {fs gs : List Frame}, Conveys r ((p.leaveLoop r).pump r) (fs ++ gs)
      (readyFrame :: fs.map (translate r)) := by
    intro fs gs
    simpa using Conveys.left (r := r) _ hpc fs gs 0
  cases hc with
  | untold | told => exact absurd rfl hne
  | reading live => exact hleft
  | forwarding live fs' f | passing live fs' f =>
    rw [List.append_assoc]
    exact hleft
  | left pc' hpc' fs' gs' n =>
    rw [List.append_assoc]
    exact .left _ hpc fs' (gs' ++ fs) n

theorem leaveLoop_peer (p : Pair) (r : Role) : (p.leaveLoop r).peer = p.peer := by
  rw [leaveLoop]
  split <;> rfl

/-- What the pump of `r` does between two suspensions. -/
theorem Turn.conveys (ht : p.Turn r e q) (hne : p.pump r ≠ .idle)
    (hc : Conveys r (p.pump r) h (p.peer r.opposite).received) :
    Conveys r (q.pump r) (h ++ framesRead r (.pump r e)) (q.peer r.opposite).received := by
  cases ht with
  | frame input f hpc hf =>
    have hread : framesRead r (.pump r (.read input)) = [f] := by simp [framesRead, frameRead, hf]
    rw [hread]
    rw [hpc] at hc
    generalize hgs : (p.peer r.opposite).received = gs at hc
    cases hc with
    | left pc' hpc' => simp at hpc'
    | reading live =>
      rw [onFrame]
      split
      · rw [setPump_self]
        change Conveys r _ _ (p.peer r.opposite).received
        rw [hgs]
        exact .passing _ h f
      · rw [setPump_self]
        change Conveys r _ _ (p.peer r.opposite).received
        rw [hgs]
        exact .forwarding _ h f
  | leave e hpc =>
    rw [leaveLoop_peer]
    exact hc.leave hne _
  | forwarded f hpc =>
    rw [hpc] at hc
    generalize hgs : (p.peer r.opposite).received = gs at hc
    cases hc with
    | left pc' hpc' => simp at hpc'
    | forwarding live fs f =>
      have hreceived : (((p.deliver r.opposite (translate r f)).nextRead r).peer r.opposite).received =
          readyFrame :: (fs ++ [f]).map (translate r) := by
        simp [nextRead, setPump, deliver, hgs]
      rw [hreceived, nextRead, setPump_self, framesRead_writeOk, List.append_nil]
      exact .reading _ _
  | passed hpc =>
    rw [hpc] at hc
    generalize hgs : (p.peer r.opposite).received = gs at hc
    cases hc with
    | left pc' hpc' => simp at hpc'
    | passing live fs f =>
      have hreceived : ((p.passOn r).peer r.opposite).received =
          readyFrame :: fs.map (translate r) ++ List.replicate 1 eofFrame := by
        simp [passOn, hgs]
      rw [leaveLoop_peer, hreceived, framesRead_writeOk]
      have hleft : Conveys r .ended (fs ++ [f]) (readyFrame :: fs.map (translate r) ++ List.replicate 1 eofFrame) :=
        .left _ (.inl rfl) fs [f] 1
      exact hleft.leave (by simp) []
  | torn hpc =>
    rw [hpc] at hc
    generalize hgs : (p.peer r.opposite).received = gs at hc
    cases hc with
    | left pc' hpc' fs gs n =>
      have hreceived : (((p.tearDown r).setPump r .ended).peer r.opposite).received =
          readyFrame :: fs.map (translate r) ++ List.replicate (n + 1) eofFrame := by
        simp [setPump, tearDown, hgs, List.replicate_succ']
      rw [hreceived, setPump_self, framesRead_writeOk, List.append_nil]
      exact .left _ (.inl rfl) fs gs (n + 1)
  | lost live hpc =>
    rw [hpc] at hc
    rw [setPump_self, framesRead_writeFail, List.append_nil]
    change Conveys r _ _ (p.peer r.opposite).received
    generalize (p.peer r.opposite).received = gs at hc ⊢
    cases hc with
    | left pc' hpc' fs gs n => exact .left _ (.inl rfl) fs gs n

/-- A pump touches neither the other pump nor what its own peer has got. -/
theorem Turn.apart (ht : p.Turn r.opposite e q) :
    q.pump r = p.pump r ∧ (q.peer r.opposite).received = (p.peer r.opposite).received := by
  have hset : ∀ (p : Pair) (pc : PumpPc), (p.setPump r.opposite pc).pump r = p.pump r := fun p pc => by
    simp [setPump]
  have hleave : ∀ p : Pair, (p.leaveLoop r.opposite).pump r = p.pump r := fun p => by
    rw [leaveLoop]
    split <;> exact hset _ _
  cases ht with
  | frame input f hpc hf =>
    rw [onFrame]
    split <;> exact ⟨hset _ _,rfl⟩
  | leave e hpc => exact ⟨hleave p,by rw [leaveLoop_peer]⟩
  | forwarded f hpc => exact ⟨hset _ _,by simp [nextRead, setPump, deliver]⟩
  | passed hpc => exact ⟨hleave _,by simp [leaveLoop_peer, passOn]⟩
  | torn hpc => exact ⟨hset _ _,by simp [setPump, tearDown]⟩
  | lost live hpc => exact ⟨hset _ _,rfl⟩

theorem step_conveys {e : PairEvent} (hs : p.step e = some q)
    (hc : Conveys r (p.pump r) h (p.peer r.opposite).received) :
    Conveys r (q.pump r) (h ++ framesRead r e) (q.peer r.opposite).received := by
  cases e with
  | disconnect t =>
    rw [step] at hs
    split_ifs at hs
    obtain rfl := Option.some.inj hs
    have hreceived : ((p.setPeer t { p.peer t with gone := true }).peer r.opposite).received =
        (p.peer r.opposite).received := by
      rcases r.opposite.eq_or_eq_opposite t with ht | ht <;> rw [ht] <;> simp
    rw [hreceived, framesRead_disconnect, List.append_nil]
    exact hc
  | pump t e =>
    rcases t.eq_or_eq_opposite r with rfl | rfl
    · by_cases hne : p.pump t = .idle
      · simp [step, pumpOneWay, hne] at hs
      · exact (pump_turn hs).conveys hne hc
    · obtain ⟨hpump,hreceived⟩ := (pump_turn hs).apart
      have hread : framesRead r (.pump r.opposite e) = [] := by
        cases e <;> simp [framesRead]
      rw [hpump, hreceived, hread, List.append_nil]
      exact hc

end Pair

namespace Server

/-- The frames a step reads from the peer of the role registered under the identifier. -/
def framesRead (id : MatchId) (r : Role) : ServerEvent → List Frame
  | .pair id' e => if id' = id then Pair.framesRead r e else []
  | _ => []

/-- The connection whose registration spawns the pumps of the pair. -/
def spawns (id : MatchId) (s : Server) : ServerEvent → List ℕ
  | .writeOk i => if (s.connection i).pc = .readying id .c then [i] else []
  | _ => []

/-- What the peer of a registration has got is nothing, or `READY` and in their order the
first of the frames read from the other peer of its pair, and behind them only `EOF_` frames. -/
def Forwarded (g : Registration) (read received : List Frame) : Prop :=
  received = [] ∨ ∃ fs n, fs <+: read ∧
    received = readyFrame :: fs.map (translate g.role.opposite) ++ List.replicate n eofFrame

/-- How far the registrations have come. Peers are registered once, one registration at most
tells a pair, and the pumps of a pair are idle until both peers have been told. -/
structure Staged (s : Server) : Prop where
  places : (s.registered.map fun g => (g.id,g.role)).Nodup
  connections : (s.registered.map (·.connection)).Nodup
  once : ∀ g ∈ s.registered, (s.connection g.connection).pc ≠ .reading
  sole : ∀ {i j id r r'}, (s.connection i).pc = .readying id r → (s.connection j).pc = .readying id r' → i = j
  telling : ∀ {i id r m}, (s.connection i).pc = .readying id r → s.pairs id = some m →
    (∀ t, m.pair.pump t = .idle) ∧ ∀ t, (m.pair.peer t).received = [] ∨ t = .b ∧ r = .c
  vacant : ∀ {id m}, s.pairs id = some m → ¬m.Full →
    ∀ t, m.pair.pump t = .idle ∧ (m.pair.peer t).received = []

variable {s t : Server} {e : ServerEvent} {id : MatchId} {r : Role}

theorem setMatch_of_eq {m : Match} (hm : s.pairs id = some m) : s.setMatch id m = s := by
  rw [setMatch, ← hm, Function.update_eq_self]

/-- A coroutine that has told no pair, or goes on to tell none. -/
theorem Staged.setPc (h : s.Staged) {i : ℕ} {pc : RegistrationPc} (hr : pc ≠ .reading)
    (hpc : ∀ id r, pc ≠ .readying id r) : (s.setPc i pc).Staged := by
  have hother : ∀ {j id r}, ((s.setPc i pc).connection j).pc = .readying id r →
      (s.connection j).pc = .readying id r := by
    intro j id r hj
    by_cases hji : j = i
    · subst hji
      rw [setPc_self] at hj
      exact absurd hj (hpc id r)
    · rwa [setPc_of_ne s i pc hji] at hj
  refine ⟨h.places,h.connections,fun g hg => ?_,fun hi hj => h.sole (hother hi) (hother hj),
    fun hi hm => h.telling (hother hi) hm,h.vacant⟩
  by_cases hgi : g.connection = i
  · rwa [hgi, setPc_self]
  · rw [setPc_of_ne s i pc hgi]
    exact h.once g hg

/-- A peer is let into a pair whose other peer has not been told anything. -/
theorem Staged.letIn (h : s.Staged) (hinv : s.Inv) {i : ℕ} (hi : (s.connection i).pc = .reading) {m : Match}
    (hfree : ((s.pairs id).getD {}).slot r = none)
    (hm : ∀ t, m.pair.pump t = .idle ∧ (m.pair.peer t).received = []) {pc : RegistrationPc} (hne : pc ≠ .reading)
    (hpc : ∀ id' r', pc = .readying id' r' → id' = id) : ((s.letIn i id r m).setPc i pc).Staged := by
  have hseat : ∀ t, (s.seat i r m).pair.pump t = .idle ∧ ((s.seat i r m).pair.peer t).received = [] := by
    intro t
    refine ⟨(hm t).1,?_⟩
    rcases t.eq_or_eq_opposite r with rfl | rfl
    · simp [seat]
    · simpa [seat] using (hm r.opposite).2
  have htold : ∀ {j id' r'}, (((s.letIn i id r m).setPc i pc).connection j).pc = .readying id' r' →
      j = i ∧ id' = id ∨ j ≠ i ∧ id' ≠ id ∧ (s.connection j).pc = .readying id' r' := by
    intro j id' r' hj
    by_cases hji : j = i
    · subst hji
      rw [setPc_self] at hj
      exact .inl ⟨rfl,hpc id' r' hj⟩
    · rw [setPc_of_ne _ i _ hji] at hj
      exact .inr ⟨hji,hinv.ne_of_free hfree hj,hj⟩
  refine ⟨?_,?_,fun g hg => ?_,fun hj hk => ?_,fun {j id' r' m'} hj hm' => ?_,fun {id' m'} hm' hfull => ?_⟩
  · change ((s.registered ++ [Registration.mk i id r]).map fun g => (g.id,g.role)).Nodup
    rw [List.map_append, List.map_singleton, ← List.concat_eq_append, List.nodup_concat]
    refine ⟨fun hmem => ?_,h.places⟩
    obtain ⟨g,hg,hgr⟩ := List.mem_map.mp hmem
    obtain ⟨hid,hrole⟩ := Prod.mk.inj hgr
    have htaken := (hinv.taken_iff id r).mpr ⟨g,hg,hid,hrole⟩
    simp [hfree] at htaken
  · change ((s.registered ++ [Registration.mk i id r]).map (·.connection)).Nodup
    rw [List.map_append, List.map_singleton, ← List.concat_eq_append, List.nodup_concat]
    refine ⟨fun hmem => ?_,h.connections⟩
    obtain ⟨g,hg,hgi⟩ := List.mem_map.mp hmem
    exact h.once g hg (hgi ▸ hi)
  · rcases List.mem_append.mp hg with hg | hg
    · have hgi : g.connection ≠ i := fun hgi => h.once g hg (hgi ▸ hi)
      rw [setPc_of_ne _ i _ hgi]
      exact h.once g hg
    · rw [List.mem_singleton.mp hg, setPc_self]
      exact hne
  · rcases htold hj with ⟨rfl,rfl⟩ | ⟨-,hne',hj⟩
    · rcases htold hk with ⟨rfl,-⟩ | ⟨-,hne',-⟩
      · rfl
      · exact absurd rfl hne'
    · rcases htold hk with ⟨-,rfl⟩ | ⟨-,-,hk⟩
      · exact absurd rfl hne'
      · exact h.sole hj hk
  · rw [setPc_pairs] at hm'
    rcases htold hj with ⟨-,rfl⟩ | ⟨-,hne',hj⟩
    · rw [letIn_self] at hm'
      obtain rfl := Option.some.inj hm'
      exact ⟨fun t => (hseat t).1,fun t => .inl (hseat t).2⟩
    · rw [letIn_of_ne s i id r m hne'] at hm'
      exact h.telling hj hm'
  · rw [setPc_pairs] at hm'
    by_cases hid : id' = id
    · subst hid
      rw [letIn_self] at hm'
      obtain rfl := Option.some.inj hm'
      exact hseat
    · rw [letIn_of_ne s i id r m hid] at hm'
      exact h.vacant hm' hfull

/-- A pair with a free slot, or none. -/
theorem Staged.vacant_getD (h : s.Staged) (hfree : ((s.pairs id).getD {}).slot r = none) (t : Role) :
    ((s.pairs id).getD {}).pair.pump t = .idle ∧ (((s.pairs id).getD {}).pair.peer t).received = [] := by
  cases hm : s.pairs id with
  | none => exact ⟨rfl,rfl⟩
  | some m =>
    rw [hm, Option.getD_some] at hfree
    refine h.vacant hm (fun hfull => ?_) t
    obtain ⟨hb,hc⟩ := hfull
    cases r <;> simp_all

theorem Staged.enroll (h : s.Staged) (hinv : s.Inv) {i : ℕ} (hi : (s.connection i).pc = .reading)
    (id : MatchId) (r : Role) : (s.enroll i id r).Staged := by
  rw [Server.enroll]
  split
  case isTrue hs =>
    obtain ⟨j,hj⟩ := Option.isSome_iff_exists.mp hs
    obtain ⟨m,hm,-⟩ := (getD_slot s id r j).mp hj
    rw [hm, Option.getD_some, setMatch_of_eq hm]
    exact h.setPc (by simp) (by simp)
  case isFalse hs =>
    have hfree : ((s.pairs id).getD {}).slot r = none := by simpa using hs
    refine h.letIn hinv hi hfree (h.vacant_getD hfree) ?_ fun id' r' hr => ?_
    · split_ifs <;> rintro ⟨⟩
    · split_ifs at hr
      exact (RegistrationPc.readying.inj hr).1.symm

/-- In a pair whose pumps are idle peers can only disconnect. -/
theorem step_idle {p q : Pair} {e : PairEvent} (hs : p.step e = some q) (hp : ∀ t, p.pump t = .idle) :
    (∀ t, q.pump t = .idle) ∧ ∀ t, (q.peer t).received = (p.peer t).received := by
  cases e with
  | disconnect r =>
    rw [Pair.step] at hs
    split_ifs at hs
    obtain rfl := Option.some.inj hs
    refine ⟨hp,fun t => ?_⟩
    rcases t.eq_or_eq_opposite r with rfl | rfl <;> simp
  | pump r e => simp [Pair.step, Pair.pumpOneWay, hp] at hs

/-- A pair that is in use, or that stays as it is but for a peer that goes. -/
theorem Staged.setMatch (h : s.Staged) {m m' : Match} (hm : s.pairs id = some m) (hslot : m'.slot = m.slot)
    (hidle : (∀ t, m.pair.pump t = .idle) → (∀ t, m'.pair.pump t = .idle) ∧
      ∀ t, (m'.pair.peer t).received = (m.pair.peer t).received) : (s.setMatch id m').Staged := by
  refine ⟨h.places,h.connections,h.once,h.sole,fun {i id' r m₁} hi hm₁ => ?_,fun {id' m₁} hm₁ hfull => ?_⟩
  · by_cases hid : id' = id
    · subst hid
      rw [setMatch_self] at hm₁
      obtain rfl := Option.some.inj hm₁
      obtain ⟨hp,hreceived⟩ := h.telling hi hm
      obtain ⟨hp',hreceived'⟩ := hidle hp
      exact ⟨hp',fun t => hreceived' t ▸ hreceived t⟩
    · rw [setMatch_of_ne s id m' hid] at hm₁
      exact h.telling hi hm₁
  · by_cases hid : id' = id
    · subst hid
      rw [setMatch_self] at hm₁
      obtain rfl := Option.some.inj hm₁
      have hvacant := h.vacant hm fun hm => hfull (by rwa [Match.Full, hslot])
      obtain ⟨hp',hreceived'⟩ := hidle fun t => (hvacant t).1
      intro t
      exact ⟨hp' t,(hreceived' t).trans (hvacant t).2⟩
    · rw [setMatch_of_ne s id m' hid] at hm₁
      exact h.vacant hm₁ hfull

/-- The registration of a full pair has told its peers, or one of them. -/
theorem Staged.tell (h : s.Staged) (hinv : s.Inv) {i : ℕ} {m m' : Match}
    (hi : (s.connection i).pc = .readying id r) (hm : s.pairs id = some m) (hslot : m'.slot = m.slot)
    {pc : RegistrationPc} (hpc : pc = .done ∨ pc = .readying id .c ∧ m'.pair.pump = m.pair.pump ∧
      m'.pair.peer .c = m.pair.peer .c) : ((s.setMatch id m').setPc i pc).Staged := by
  have hfull : m'.Full := by
    obtain ⟨m₁,hm₁,hfull,-⟩ := hinv.tells i id r hi
    obtain rfl := Option.some.inj (hm₁.symm.trans hm)
    rwa [Match.Full, hslot]
  have htold : ∀ {j id' r'}, (((s.setMatch id m').setPc i pc).connection j).pc = .readying id' r' →
      j = i ∧ id' = id ∧ r' = .c ∧ pc = .readying id .c ∨ j ≠ i ∧ (s.connection j).pc = .readying id' r' := by
    intro j id' r' hj
    by_cases hji : j = i
    · subst hji
      rw [setPc_self] at hj
      rcases hpc with hpc | ⟨hpc,-⟩
      · cases hpc.symm.trans hj
      · obtain ⟨rfl,rfl⟩ := RegistrationPc.readying.inj (hpc.symm.trans hj)
        exact .inl ⟨rfl,rfl,rfl,hpc⟩
    · rw [setPc_of_ne _ i _ hji] at hj
      exact .inr ⟨hji,hj⟩
  refine ⟨h.places,h.connections,fun g hg => ?_,fun hj hk => ?_,fun {j id' r' m₁} hj hm₁ => ?_,fun {id' m₁} hm₁ hno => ?_⟩
  · by_cases hgi : g.connection = i
    · rw [hgi, setPc_self]
      rcases hpc with rfl | ⟨rfl,-⟩ <;> rintro ⟨⟩
    · rw [setPc_of_ne _ i _ hgi]
      exact h.once g hg
  · rcases htold hj with ⟨rfl,rfl,-⟩ | ⟨-,hj'⟩
    · rcases htold hk with ⟨rfl,-⟩ | ⟨-,hk'⟩
      · rfl
      · exact h.sole hi hk'
    · rcases htold hk with ⟨rfl,rfl,-⟩ | ⟨-,hk'⟩
      · exact h.sole hj' hi
      · exact h.sole hj' hk'
  · rw [setPc_pairs] at hm₁
    rcases htold hj with ⟨rfl,rfl,rfl,hj'⟩ | ⟨hji,hj'⟩
    · rw [setMatch_self] at hm₁
      obtain rfl := Option.some.inj hm₁
      obtain hdone | ⟨-,hpump,hpeer⟩ := hpc
      · cases hdone.symm.trans hj'
      · obtain ⟨hp,hreceived⟩ := h.telling hi hm
        refine ⟨fun t => hpump ▸ hp t,fun t => ?_⟩
        cases t with
        | b => exact .inr ⟨rfl,rfl⟩
        | c => exact .inl (hpeer ▸ (hreceived .c).resolve_right (by simp))
    · have hid : id' ≠ id := by
        rintro rfl
        exact hji (h.sole hj' hi)
      rw [setMatch_of_ne s id m' hid] at hm₁
      exact h.telling hj' hm₁
  · rw [setPc_pairs] at hm₁
    by_cases hid : id' = id
    · subst hid
      rw [setMatch_self] at hm₁
      obtain rfl := Option.some.inj hm₁
      exact absurd hfull hno
    · rw [setMatch_of_ne s id m' hid] at hm₁
      exact h.vacant hm₁ hno

theorem Turn.staged (ht : s.Turn e t) (hinv : s.Inv) (h : s.Staged) : t.Staged := by
  cases ht with
  | accept => exact ⟨h.places,h.connections,h.once,h.sole,h.telling,h.vacant⟩
  | disconnect i =>
    have hpc : ∀ j, (Function.update s.connection i { s.connection i with gone := true } j).pc =
        (s.connection j).pc := by
      intro j
      by_cases hji : j = i
      · subst hji
        simp
      · simp [hji]
    exact ⟨h.places,h.connections,fun g hg => hpc _ ▸ h.once g hg,
      fun hi hj => h.sole ((hpc _).symm.trans hi) ((hpc _).symm.trans hj),
      fun hi hm => h.telling ((hpc _).symm.trans hi) hm,h.vacant⟩
  | enroll i input id r hi hr => exact h.enroll hinv hi id r
  | ignore i input hi hr => exact h.setPc nofun nofun
  | refused i e he hi => exact h.setPc nofun nofun
  | toldB i id m hi hm =>
    have hslot : ({ m with pair := m.pair.deliver .b readyFrame } : Match).slot = m.slot := rfl
    exact h.tell hinv hi hm hslot (.inr ⟨rfl,rfl,by simp [Pair.deliver, Pair.setPeer]⟩)
  | toldC i id m hi hm =>
    have hslot : (spawn { m with pair := m.pair.deliver .c readyFrame }).slot = m.slot := rfl
    exact h.tell hinv hi hm hslot (.inl rfl)
  | lost i id r m hi hm hgone => exact h.setPc nofun nofun
  | pair id e m p hm hp => exact h.setMatch hm rfl (step_idle hp)

theorem fresh_staged : Staged {} := by
  refine ⟨List.nodup_nil,List.nodup_nil,nofun,nofun,nofun,nofun⟩

theorem step_staged (hinv : s.Inv) (h : s.Staged) (hs : s.step e = some t) : t.Staged :=
  (step_turn hs).staged hinv h

/-- The peers and pumps of an identifier. -/
def pairOf (s : Server) (id : MatchId) : Pair := ((s.pairs id).getD {}).pair

theorem pairOf_eq {m : Match} (hm : s.pairs id = some m) : s.pairOf id = m.pair := by
  rw [pairOf, hm, Option.getD_some]

theorem setMatch_pairOf_of_ne {id' : MatchId} (h : id ≠ id') (m : Match) (i : ℕ) (pc : RegistrationPc) :
    ((s.setMatch id' m).setPc i pc).pairOf id = s.pairOf id := by
  rw [pairOf, setPc_pairs, setMatch_of_ne s id' m h]
  rfl

theorem setMatch_pairOf_self (s : Server) (id : MatchId) (m : Match) (i : ℕ) (pc : RegistrationPc) :
    ((s.setMatch id m).setPc i pc).pairOf id = m.pair := by
  rw [pairOf, setPc_pairs, setMatch_self, Option.getD_some]

/-- The books of one direction of a pair, with the frames read in a run up to `s`. -/
structure Ledger (id : MatchId) (r : Role) (h : List Frame) (s : Server) : Prop where
  inv : s.Inv
  staged : s.Staged
  conveys : Pair.Conveys r ((s.pairOf id).pump r) h ((s.pairOf id).peer r.opposite).received

theorem Ledger.idle {h : List Frame} (hl : Ledger id r h s) (hidle : (s.pairOf id).pump r = .idle) :
    h = [] ∧ (((s.pairOf id).peer r.opposite).received = [] ∨
      ((s.pairOf id).peer r.opposite).received = [readyFrame]) := by
  have hc := hl.conveys
  rw [hidle] at hc
  exact hc.idle

theorem enroll_conveys {h : List Frame} (hl : Ledger id r h s) (i : ℕ) (id' : MatchId) (r' : Role) :
    Pair.Conveys r (((s.enroll i id' r').pairOf id).pump r) h
      (((s.enroll i id' r').pairOf id).peer r.opposite).received := by
  rw [enroll]
  split
  case isTrue hsome =>
    obtain ⟨j,hj⟩ := Option.isSome_iff_exists.mp hsome
    obtain ⟨m,hm,-⟩ := (getD_slot s id' r' j).mp hj
    rw [hm, Option.getD_some, setMatch_of_eq hm]
    exact hl.conveys
  case isFalse hnone =>
    have hfree : ((s.pairs id').getD {}).slot r' = none := by simpa using hnone
    by_cases hid : id = id'
    · subst hid
      have hvacant := hl.staged.vacant_getD hfree
      have hreceived : ((s.seat i r' ((s.pairs id).getD {})).pair.peer r.opposite).received = [] := by
        rcases r.opposite.eq_or_eq_opposite r' with hr | hr <;> rw [hr]
        · simp [seat]
        · simpa [seat] using (hvacant r'.opposite).2
      have hpump : (s.seat i r' ((s.pairs id).getD {})).pair.pump r = .idle := (hvacant r).1
      rw [pairOf, setPc_pairs, letIn_self, Option.getD_some, hreceived, hpump, (hl.idle (hvacant r).1).1]
      exact .untold
    · rw [pairOf, setPc_pairs, letIn_of_ne _ _ _ _ _ hid]
      exact hl.conveys

theorem toldB_conveys {h : List Frame} (hl : Ledger id r h s) {i : ℕ} {m : Match}
    (hi : (s.connection i).pc = .readying id .b) (hm : s.pairs id = some m) :
    Pair.Conveys r ((m.pair.deliver .b readyFrame).pump r) h ((m.pair.deliver .b readyFrame).peer r.opposite).received := by
  obtain ⟨hpump,hnone⟩ := hl.staged.telling hi hm
  obtain ⟨rfl,hreceived⟩ := hl.idle (pairOf_eq hm ▸ hpump r)
  rw [pairOf_eq hm] at hreceived
  change Pair.Conveys r (m.pair.pump r) [] _
  rw [hpump r]
  cases r with
  | b =>
    have hother : ((m.pair.deliver .b readyFrame).peer Role.b.opposite).received =
        (m.pair.peer Role.b.opposite).received := by
      simp [Pair.deliver]
    rw [hother]
    rcases hreceived with hr | hr <;> rw [hr]
    · exact .untold
    · exact .told
  | c =>
    have hself : ((m.pair.deliver .b readyFrame).peer Role.c.opposite).received = [readyFrame] := by
      have hb := (hnone .b).resolve_right (by simp)
      simp [Pair.deliver, Pair.setPeer, Role.opposite, hb]
    rw [hself]
    exact .told

theorem toldC_conveys {h : List Frame} (hl : Ledger id r h s) {i : ℕ} {m : Match}
    (hi : (s.connection i).pc = .readying id .c) (hm : s.pairs id = some m) :
    Pair.Conveys r ((spawn { m with pair := m.pair.deliver .c readyFrame }).pair.pump r) h
      ((spawn { m with pair := m.pair.deliver .c readyFrame }).pair.peer r.opposite).received := by
  obtain ⟨hpump,hnone⟩ := hl.staged.telling hi hm
  obtain ⟨rfl,hreceived⟩ := hl.idle (pairOf_eq hm ▸ hpump r)
  rw [pairOf_eq hm] at hreceived
  have hread : ∃ live, (spawn { m with pair := m.pair.deliver .c readyFrame }).pair.pump r = .reading live := by
    cases r with
    | b => exact ⟨_,Pair.setPump_opposite _ .c _⟩
    | c => exact ⟨_,Pair.setPump_self _ .c _⟩
  obtain ⟨live,hlive⟩ := hread
  have hready : ((spawn { m with pair := m.pair.deliver .c readyFrame }).pair.peer r.opposite).received = [readyFrame] := by
    change ((m.pair.deliver .c readyFrame).peer r.opposite).received = _
    cases r with
    | b =>
      have hc := (hnone .c).resolve_right nofun
      simp [Pair.deliver, Pair.setPeer, Role.opposite, hc]
    | c =>
      obtain ⟨m',hm',-,hb⟩ := hl.inv.tells i id .c hi
      obtain rfl := Option.some.inj (hm'.symm.trans hm)
      have hb := hb rfl
      rcases hreceived with hr | hr
      · rw [Role.opposite] at hr
        simp [hr] at hb
      · simpa [Pair.deliver, Pair.setPeer, Role.opposite] using hr
  rw [hlive, hready]
  exact .reading live []

theorem step_ledger {h : List Frame} (hl : Ledger id r h s) (hs : s.step e = some t) :
    Ledger id r (h ++ framesRead id r e) t := by
  refine ⟨step_inv hl.inv hs,step_staged hl.inv hl.staged hs,?_⟩
  have hsame : framesRead id r e = [] → t.pairOf id = s.pairOf id →
      Pair.Conveys r ((t.pairOf id).pump r) (h ++ framesRead id r e) ((t.pairOf id).peer r.opposite).received := by
    intro hread hpair
    rw [hread, List.append_nil, hpair]
    exact hl.conveys
  cases step_turn hs with
  | accept => exact hsame rfl rfl
  | disconnect i => exact hsame rfl rfl
  | ignore i input hi hr => exact hsame rfl rfl
  | refused i e he hi => exact hsame (by rcases he with rfl | rfl <;> rfl) rfl
  | lost i id' r' m hi hm hgone => exact hsame rfl rfl
  | enroll i input id' r' hi hr =>
    have hread : framesRead id r (.register i input) = [] := rfl
    rw [hread, List.append_nil]
    exact enroll_conveys hl i id' r'
  | toldB i id' m hi hm =>
    by_cases hid : id = id'
    · subst hid
      have hread : framesRead id r (.writeOk i) = [] := rfl
      rw [hread, List.append_nil, setMatch_pairOf_self]
      exact toldB_conveys hl hi hm
    · exact hsame rfl (setMatch_pairOf_of_ne hid _ _ _)
  | toldC i id' m hi hm =>
    by_cases hid : id = id'
    · subst hid
      have hread : framesRead id r (.writeOk i) = [] := rfl
      rw [hread, List.append_nil, setMatch_pairOf_self]
      exact toldC_conveys hl hi hm
    · exact hsame rfl (setMatch_pairOf_of_ne hid _ _ _)
  | pair id' e m p hm hp =>
    by_cases hid : id = id'
    · subst hid
      have hread : framesRead id r (.pair id e) = Pair.framesRead r e := if_pos rfl
      have hpair : (s.setMatch id { m with pair := p }).pairOf id = p := pairOf_eq (setMatch_self _ _ _)
      rw [hread, hpair]
      exact Pair.step_conveys hp (pairOf_eq hm ▸ hl.conveys)
    · apply hsame (if_neg (Ne.symm hid))
      rw [pairOf, setMatch_of_ne _ _ _ hid, pairOf]

theorem Ledger.received {h : List Frame} (hl : Ledger id r h s) (hs : s.step e = some t) (r' : Role) :
    ((s.pairOf id).peer r').received <+: ((t.pairOf id).peer r').received := by
  have hgrows : ∀ {id' : MatchId} {m m' : Match} {i : ℕ} {pc : RegistrationPc}, s.pairs id' = some m →
      m.pair.Grows m'.pair → ((s.pairOf id).peer r').received <+:
        ((((s.setMatch id' m').setPc i pc).pairOf id).peer r').received := by
    intro id' m m' i pc hm hg
    by_cases hid : id = id'
    · subst hid
      rw [setMatch_pairOf_self, pairOf_eq hm]
      exact hg.received r'
    · simp only [setMatch_pairOf_of_ne hid, List.prefix_rfl]
  cases step_turn hs with
  | accept | disconnect | ignore | refused | lost => exact List.prefix_rfl
  | enroll i input id' r₁ hi hr =>
    rw [enroll]
    split
    case isTrue hsome =>
      obtain ⟨j,hj⟩ := Option.isSome_iff_exists.mp hsome
      obtain ⟨m,hm,-⟩ := (getD_slot s id' r₁ j).mp hj
      rw [hm, Option.getD_some]
      exact hgrows hm (.refl _)
    case isFalse hnone =>
      have hfree : ((s.pairs id').getD {}).slot r₁ = none := by simpa using hnone
      by_cases hid : id = id'
      · subst hid
        have hempty : ((s.pairOf id).peer r').received = [] := (hl.staged.vacant_getD hfree r').2
        rw [hempty]
        exact List.nil_prefix
      · simp only [pairOf, setPc_pairs, letIn_of_ne _ _ _ _ _ hid, List.prefix_rfl]
  | toldB i id' m hi hm => exact hgrows hm (deliver_grows _ _ _)
  | toldC i id' m hi hm =>
    exact hgrows hm ((deliver_grows _ _ _).trans (spawn_grows { m with pair := m.pair.deliver .c readyFrame }))
  | pair id' e m p hm hp =>
    by_cases hid : id = id'
    · subst hid
      rw [pairOf_eq hm, pairOf_eq (setMatch_self _ _ _)]
      exact (Pair.step_grows hp).received r'
    · simp only [pairOf, setMatch_of_ne _ _ _ hid, List.prefix_rfl]

/-- A full pair that no registration is telling. -/
def Done (s : Server) (id : MatchId) : Prop :=
  (∀ i r, (s.connection i).pc ≠ .readying id r) ∧ ∃ m, s.pairs id = some m ∧ m.Full

theorem Done.setPc (h : s.Done id) {i : ℕ} {pc : RegistrationPc} (hpc : ∀ r, pc ≠ .readying id r) :
    (s.setPc i pc).Done id := by
  refine ⟨fun j r hj => ?_,h.2⟩
  by_cases hji : j = i
  · subst hji
    rw [setPc_self] at hj
    exact hpc r hj
  · rw [setPc_of_ne s i pc hji] at hj
    exact h.1 j r hj

theorem Done.setMatch (h : s.Done id) {id' : MatchId} {m m' : Match} (hm : s.pairs id' = some m)
    (hslot : m'.slot = m.slot) : (s.setMatch id' m').Done id := by
  refine ⟨h.1,?_⟩
  obtain ⟨m₁,hm₁,hfull⟩ := h.2
  by_cases hid : id = id'
  · subst hid
    obtain rfl := Option.some.inj (hm₁.symm.trans hm)
    exact ⟨m',setMatch_self _ _ _,by rwa [Match.Full, hslot]⟩
  · exact ⟨m₁,by rwa [setMatch_of_ne _ _ _ hid],hfull⟩

/-- No registration comes to a pair that is full. -/
theorem Done.enroll (h : s.Done id) (i : ℕ) (id' : MatchId) (r : Role) : (s.enroll i id' r).Done id := by
  rw [Server.enroll]
  split
  case isTrue hsome =>
    obtain ⟨j,hj⟩ := Option.isSome_iff_exists.mp hsome
    obtain ⟨m,hm,-⟩ := (getD_slot s id' r j).mp hj
    rw [hm, Option.getD_some, setMatch_of_eq hm]
    exact h.setPc (by simp)
  case isFalse hnone =>
    obtain ⟨m,hm,hfull⟩ := h.2
    have hid : id ≠ id' := by
      rintro rfl
      rw [hm, Option.getD_some] at hnone
      obtain ⟨hb,hc⟩ := hfull
      cases r <;> simp_all
    have hin : (s.letIn i id' r ((s.pairs id').getD {})).Done id :=
      ⟨h.1,m,by rwa [letIn_of_ne _ _ _ _ _ hid],hfull⟩
    apply hin.setPc
    intro r' hr'
    split_ifs at hr'
    exact hid (RegistrationPc.readying.inj hr').1.symm

theorem Turn.done (ht : s.Turn e t) (h : s.Done id) : t.Done id := by
  cases ht with
  | accept => exact h
  | disconnect i =>
    refine ⟨fun j r hj => h.1 j r ?_,h.2⟩
    by_cases hji : j = i
    · subst hji
      simpa using hj
    · simpa [hji] using hj
  | enroll i input id' r hi hr => exact h.enroll i id' r
  | ignore i input hi hr => exact h.setPc nofun
  | refused i e he hi => exact h.setPc nofun
  | toldB i id' m hi hm =>
    have hslot : ({ m with pair := m.pair.deliver .b readyFrame } : Match).slot = m.slot := rfl
    apply (h.setMatch hm hslot).setPc
    intro r hr
    rw [(RegistrationPc.readying.inj hr).1] at hi
    exact h.1 i .b hi
  | toldC i id' m hi hm =>
    have hslot : (spawn { m with pair := m.pair.deliver .c readyFrame }).slot = m.slot := rfl
    exact (h.setMatch hm hslot).setPc nofun
  | lost i id' r m hi hm hgone => exact h.setPc nofun
  | pair id' e m p hm hp => exact h.setMatch hm rfl

/-- The pumps of a pair are spawned when both its peers have been told, and never again. -/
structure Tally (id : MatchId) (h : List ℕ) (s : Server) : Prop where
  inv : s.Inv
  staged : s.Staged
  once : h = [] ∨ h.length = 1 ∧ s.Done id

theorem step_tally {h : List ℕ} (hl : Tally id h s) (hs : s.step e = some t) :
    Tally id (h ++ spawns id s e) t := by
  refine ⟨step_inv hl.inv hs,step_staged hl.inv hl.staged hs,?_⟩
  by_cases hcall : ∃ i, e = .writeOk i ∧ (s.connection i).pc = .readying id .c
  · obtain ⟨i,rfl,hi⟩ := hcall
    have hempty : h = [] := hl.once.resolve_right fun hd => hd.2.1 i .c hi
    subst hempty
    have hspawns : spawns id s (.writeOk i) = [i] := if_pos hi
    refine .inr ⟨by simp [hspawns],?_⟩
    obtain ⟨m,hm,hfull,-⟩ := hl.inv.tells i id .c hi
    cases step_turn hs with
    | refused _ _ he hi' =>
      obtain rfl := ServerEvent.writeOk.inj (he.resolve_right nofun)
      cases hi.symm.trans hi'
    | toldB _ _ _ hi' => cases hi.symm.trans hi'
    | toldC _ id' m' hi' hm' =>
      obtain ⟨rfl,-⟩ := RegistrationPc.readying.inj (hi.symm.trans hi')
      obtain rfl := Option.some.inj (hm.symm.trans hm')
      refine ⟨fun j r hj => ?_,_,setMatch_self _ _ _,hfull⟩
      by_cases hji : j = i
      · subst hji
        rw [setPc_self] at hj
        cases hj
      · rw [setPc_of_ne _ i _ hji] at hj
        exact hji (hl.staged.sole hj hi)
  · have hspawns : spawns id s e = [] := by
      cases e with
      | writeOk i => exact if_neg fun hi => hcall ⟨i,rfl,hi⟩
      | _ => rfl
    rw [hspawns, List.append_nil]
    exact hl.once.imp_right fun hd => ⟨hd.1,(step_turn hs).done hd.2⟩

/-- Frames are only read from a peer that is registered, with the other one registered too. -/
theorem Ledger.registered {h : List Frame} (hl : Ledger id r h s) (hne : h ≠ []) (t : Role) :
    ∃ g ∈ s.registered, g.id = id ∧ g.role = t := by
  rw [← hl.inv.taken_iff id t, ← Bool.not_eq_false, Option.isSome_eq_false_iff, Option.isNone_iff_eq_none]
  intro hfree
  exact hne (hl.idle (hl.staged.vacant_getD hfree r).1).1

/-- In every run one `B` and one `C` at most are let in under an identifier, no connection
twice, and their pumps are spawned once at most. Every peer is in its slot, and has got what
was read from the peer of the other role and the same identifier. -/
theorem matched_and_forwarded {events : List ServerEvent} {s : Server} (hrun : run step {} events = some s) :
    ((s.registered.map fun g => (g.id,g.role)).Nodup ∧ (s.registered.map (·.connection)).Nodup) ∧
    (∀ id, (outputs step (spawns id) {} events).length ≤ 1) ∧
    ∀ g ∈ s.registered, ∃ m, s.pairs g.id = some m ∧ m.slot g.role = some g.connection ∧
      Forwarded g (events.flatMap (framesRead g.id g.role.opposite)) (m.pair.peer g.role).received ∧
      (events.flatMap (framesRead g.id g.role.opposite) ≠ [] →
        ∃ g' ∈ s.registered, g'.id = g.id ∧ g'.role = g.role.opposite) := by
  have hany : Meets step (fun _ _ => True) {} events := fun _ _ _ _ _ _ => trivial
  have htally : ∀ id, Tally id (outputs step (spawns id) {} events) s := fun id =>
    outputs_invariant hrun hany ⟨fresh_inv,fresh_staged,.inl rfl⟩ fun hl _ hs => step_tally hl hs
  have hledger : ∀ id r, Ledger id r (events.flatMap (framesRead id r)) s := by
    intro id r
    rw [← outputs_eq_flatMap hrun (framesRead id r)]
    exact outputs_invariant hrun hany ⟨fresh_inv,fresh_staged,.untold⟩ fun hl _ hs => step_ledger hl hs
  refine ⟨⟨(htally []).staged.places,(htally []).staged.connections⟩,fun id => ?_,fun g hg => ?_⟩
  · rcases (htally id).once with h | ⟨h,-⟩
    · simp [h]
    · exact h.le
  · have hl := hledger g.id g.role.opposite
    obtain ⟨m,hm,hslot⟩ := (hl.inv.slots g.id g.role g.connection).mpr hg
    refine ⟨m,hm,hslot,?_,fun hne => hl.registered hne _⟩
    have hc := hl.conveys
    rw [pairOf_eq hm, Role.opposite_opposite] at hc
    exact hc.received

/-- `REGISTER` with the body `"x C"`. -/
def registerXC : ByteVector := buildFrameBytes .register (text "x C")

/-- Two peers are paired, and what the one asks for reaches the other. -/
def paired : List ServerEvent :=
  [.accept, .accept, .register 0 registerXB, .register 1 registerXC, .writeOk 1, .writeOk 1,
    .pair (text "x") (.pump .b (.read (buildFrameBytes .newSession (text "u")))), .pair (text "x") (.pump .b .writeOk)]

theorem matched_and_forwarded_paired : ∃ s, run step {} paired = some s ∧ s.registered = [⟨0,text "x",.b⟩,⟨1,text "x",.c⟩] ∧
    (∃ m, s.pairs (text "x") = some m ∧ (m.pair.peer .c).received = [readyFrame,⟨.forwardSession,text "u"⟩]) ∧
    ∃ m, s.pairs (text "x") = some m ∧
      Forwarded ⟨1,text "x",.c⟩ (paired.flatMap (framesRead (text "x") .b)) (m.pair.peer .c).received := by
  obtain ⟨s,hrun,hreg,hm⟩ : ∃ s, run step {} paired = some s ∧ s.registered = [⟨0,text "x",.b⟩,⟨1,text "x",.c⟩] ∧
      ∃ m, s.pairs (text "x") = some m ∧ (m.pair.peer .c).received = [readyFrame,⟨.forwardSession,text "u"⟩] :=
    ⟨_,rfl,rfl,_,rfl,rfl⟩
  obtain ⟨m,hm',-,hf,-⟩ := (matched_and_forwarded hrun).2.2 ⟨1,text "x",.c⟩ (by simp [hreg])
  exact ⟨s,hrun,hreg,hm,m,hm',hf⟩

end Server

end Msg801.Relay
