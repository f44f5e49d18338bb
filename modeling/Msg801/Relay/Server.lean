import Mathlib.Data.List.Basic
import Msg801.Relay.Matcher

/-! # Registration at the matcher

Every connection has a coroutine that reads one `REGISTER` frame, puts the peer into the
slot of its identifier and role, and, when both slots are full, tells the peers and spawns
the pumps. The coroutines, the pumps and the peers' disconnects interleave.
-/
namespace Msg801.Relay
open Transition

/-- The identifier two peers meet under. -/
abbrev MatchId := ByteVector

/-- `"id B"` or `"id C"`. -/
def parseRegister (body : ByteSpan) : Option (MatchId × Role) :=
  match body.idxOf? 32 with
  | none => none
  | some sp =>
    if sp + 2 > body.length then none
    else if body.getD (sp + 1) 0 = 66 then some (body.take sp,.b)
    else if body.getD (sp + 1) 0 = 67 then some (body.take sp,.c)
    else none

/-- Where the registration of a connection is suspended: reading its frame, writing the
refusal, or writing `READY` to one peer of its pair. -/
inductive RegistrationPc where
  | reading
  | refusing
  | readying (id : MatchId) (r : Role)
  | done
  deriving DecidableEq

/-- A connection before its socket is moved into a peer. -/
structure Connection where
  pc : RegistrationPc := .reading
  gone : Bool := false

/-- The peers registered under one identifier, by connection, with their sockets and pumps. -/
structure Match where
  slot : Role → Option ℕ := fun _ => none
  pair : Pair := {}

/-- Both slots of a pair are taken. -/
def Match.Full (m : Match) : Prop := (m.slot .b).isSome ∧ (m.slot .c).isSome

instance (m : Match) : Decidable m.Full := inferInstanceAs (Decidable (_ ∧ _))

structure Registration where
  connection : ℕ
  id : MatchId
  role : Role
  deriving DecidableEq

/-- The connections accepted so far, the map of pairs, and the registrations that were let in. -/
structure Server where
  accepted : ℕ := 0
  connection : ℕ → Connection := fun _ => {}
  pairs : MatchId → Option Match := fun _ => none
  registered : List Registration := []

inductive ServerEvent where
  | accept
  | disconnect (i : ℕ)
  | register (i : ℕ) (input : ByteVector)
  | writeOk (i : ℕ)
  | writeFail (i : ℕ)
  | pair (id : MatchId) (e : PairEvent)
  deriving DecidableEq

def readyFrame : Frame := ⟨.ready,[]⟩

/-- What a connection asks for with its first bytes, if it asks properly. -/
def registration (input : ByteSpan) : Option (MatchId × Role) :=
  match (readFrame input).1 with
  | .frame f => if f.method = .register then parseRegister f.body else none
  | _ => none

namespace Server

def setPc (s : Server) (i : ℕ) (pc : RegistrationPc) : Server :=
  { s with connection := Function.update s.connection i { s.connection i with pc := pc } }

def setMatch (s : Server) (id : MatchId) (m : Match) : Server :=
  { s with pairs := Function.update s.pairs id (some m) }

/-- The peer behind the connection `i` in the slot `r`. -/
def seat (s : Server) (i : ℕ) (r : Role) (m : Match) : Match where
  slot := Function.update m.slot r (some i)
  pair := m.pair.setPeer r { gone := (s.connection i).gone }

def letIn (s : Server) (i : ℕ) (id : MatchId) (r : Role) (m : Match) : Server :=
  { s.setMatch id (s.seat i r m) with registered := s.registered ++ [Registration.mk i id r] }

/-- A peer that registers properly: refused when the slot is taken, else put into it. -/
def enroll (s : Server) (i : ℕ) (id : MatchId) (r : Role) : Server :=
  let m := (s.pairs id).getD {}
  if (m.slot r).isSome then (s.setMatch id m).setPc i .refusing
  else
    (s.letIn i id r m).setPc i (if (s.seat i r m).Full then .readying id .b else .done)

/-- The peers of a pair have been told, and both pumps start to read. -/
def spawn (m : Match) : Match :=
  { m with pair := (m.pair.nextRead .b).nextRead .c }

def step (s : Server) : ServerEvent → Option Server
  | .accept => some { s with accepted := s.accepted + 1 }
  | .disconnect i =>
    if i < s.accepted ∧ ((s.connection i).pc = .reading ∨ (s.connection i).pc = .refusing) then
      some { s with connection := Function.update s.connection i { s.connection i with gone := true } }
    else none
  | .register i input =>
    if i < s.accepted ∧ (s.connection i).pc = .reading ∧ (CutOff input → (s.connection i).gone) then
      match registration input with
      | some (id,r) => some (s.enroll i id r)
      | none => some (s.setPc i .done)
    else none
  | .writeOk i =>
    match (s.connection i).pc with
    | .refusing => some (s.setPc i .done)
    | .readying id r =>
      match s.pairs id with
      | none => none
      | some m =>
        let told : Match := { m with pair := m.pair.deliver r readyFrame }
        match r with
        | .b => some ((s.setMatch id told).setPc i (.readying id .c))
        | .c => some ((s.setMatch id (spawn told)).setPc i .done)
    | _ => none
  | .writeFail i =>
    match (s.connection i).pc with
    | .refusing => some (s.setPc i .done)
    | .readying id r =>
      match s.pairs id with
      | none => none
      -- a write fails only when the other end is gone, and leaves the coroutine
      | some m => if (m.pair.peer r).gone then some (s.setPc i .done) else none
    | _ => none
  | .pair id e =>
    match s.pairs id with
    | none => none
    | some m => (m.pair.step e).map fun p => s.setMatch id { m with pair := p }

/-- The peer of a registration is still connected. -/
def Connected (s : Server) (g : Registration) : Prop :=
  ∃ m, s.pairs g.id = some m ∧ (m.pair.peer g.role).isOpen = true ∧ (m.pair.peer g.role).gone = false

/-- The step refuses the connection `i` as a duplicate. -/
def Refuses (s : Server) (i : ℕ) (e : ServerEvent) : Prop :=
  (s.connection i).pc = .reading ∧ ∃ t, s.step e = some t ∧ (t.connection i).pc = .refusing

/-- A registration finds no earlier one with its identifier and role whose peer has gone. -/
def Fresh (s : Server) : ServerEvent → Prop
  | .register _ input => ∀ id r, registration input = some (id,r) →
    ∀ g ∈ s.registered, g.id = id → g.role = r → s.Connected g
  | _ => True

/-- A refusal is due to an earlier peer with the same identifier and role, still connected. -/
def Justified (s : Server) (e : ServerEvent) : Prop :=
  ∀ i, s.Refuses i e → ∃ id r input, e = .register i input ∧ registration input = some (id,r) ∧
    ∃ g ∈ s.registered, g.id = id ∧ g.role = r ∧ s.Connected g

/-- Once both peers of a pair are in and connected, and no registration is still telling
them, both have been told and both pumps have been started. -/
def Served (s : Server) : Prop :=
  ∀ id m, s.pairs id = some m → (∀ r, (m.slot r).isSome ∧ (m.pair.peer r).gone = false) →
    (∃ i r, (s.connection i).pc = .readying id r) ∨
    ∀ r, readyFrame ∈ (m.pair.peer r).received ∧ m.pair.pump r ≠ .idle

/-- Both peers have been told and both pumps started, or one of the peers has gone. -/
def Settled (m : Match) : Prop :=
  (∀ r, readyFrame ∈ (m.pair.peer r).received ∧ m.pair.pump r ≠ .idle) ∨
    ∃ r, (m.pair.peer r).gone = true

/-- The pair a registration is telling is full, and `b` is told before `c`. -/
def Tells (s : Server) (id : MatchId) (r : Role) : Prop :=
  ∃ m, s.pairs id = some m ∧ m.Full ∧ (r = .c → readyFrame ∈ (m.pair.peer .b).received)

theorem Settled.mono {m m' : Match} (h : Settled m) (hg : m.pair.Grows m'.pair) : Settled m' := by
  obtain hserved | ⟨r,hgone⟩ := h
  · exact .inl fun r => ⟨(hg.received r).subset (hserved r).1,hg.pump r (hserved r).2⟩
  · exact .inr ⟨r,hg.gone r hgone⟩

/-- The slots hold the registrations that were let in, and every full pair is being told or
settled. -/
structure Inv (s : Server) : Prop where
  slots : ∀ id r j, (∃ m, s.pairs id = some m ∧ m.slot r = some j) ↔
    Registration.mk j id r ∈ s.registered
  tells : ∀ i id r, (s.connection i).pc = .readying id r → s.Tells id r
  settled : ∀ id m, s.pairs id = some m → m.Full →
    (∃ i r, (s.connection i).pc = .readying id r) ∨ Settled m

theorem fresh_inv : Inv {} := ⟨by simp,by simp,by simp⟩

section Updates
variable (s : Server) (i : ℕ) (id : MatchId) (r : Role) (pc : RegistrationPc) (m : Match)

theorem getD_slot (j : ℕ) :
    ((s.pairs id).getD {}).slot r = some j ↔ ∃ m, s.pairs id = some m ∧ m.slot r = some j := by
  cases s.pairs id <;> simp

@[simp] theorem setPc_pairs : (s.setPc i pc).pairs = s.pairs := rfl
@[simp] theorem setPc_registered : (s.setPc i pc).registered = s.registered := rfl
@[simp] theorem setPc_self : ((s.setPc i pc).connection i).pc = pc := by simp [setPc]
theorem setPc_of_ne {j : ℕ} (h : j ≠ i) : (s.setPc i pc).connection j = s.connection j := by
  simp [setPc, h]

@[simp] theorem setMatch_self : (s.setMatch id m).pairs id = some m := by simp [setMatch]
theorem setMatch_of_ne {id' : MatchId} (h : id' ≠ id) :
    (s.setMatch id m).pairs id' = s.pairs id' := by simp [setMatch, h]
@[simp] theorem setMatch_registered : (s.setMatch id m).registered = s.registered := rfl
@[simp] theorem setMatch_connection : (s.setMatch id m).connection = s.connection := rfl

@[simp] theorem letIn_self : (s.letIn i id r m).pairs id = some (s.seat i r m) := by simp [letIn]
theorem letIn_of_ne {id' : MatchId} (h : id' ≠ id) :
    (s.letIn i id r m).pairs id' = s.pairs id' := by simp [letIn, setMatch, h]

end Updates

/-- A coroutine moves on: what it tells next can be told, and what it told is settled. -/
theorem Inv.setPc {s : Server} (h : s.Inv) {i : ℕ} {pc : RegistrationPc}
    (ht : ∀ id r, pc = .readying id r → s.Tells id r)
    (hi : ∀ id r, (s.connection i).pc = .readying id r →
      (∃ r', pc = .readying id r') ∨ ∀ m, s.pairs id = some m → Settled m) : (s.setPc i pc).Inv := by
  refine ⟨h.slots,fun j id r hj => ?_,fun id m hm hfull => ?_⟩
  · by_cases hji : j = i
    · subst hji
      exact ht id r (by simpa using hj)
    · exact h.tells j id r (by rwa [setPc_of_ne s i pc hji] at hj)
  · obtain ⟨j,r,hj⟩ | hdone := h.settled id m hm hfull
    · by_cases hji : j = i
      · subst hji
        obtain ⟨r',hr'⟩ | hdone := hi id r hj
        · exact .inl ⟨j,r',by rw [setPc_self, hr']⟩
        · exact .inr (hdone m hm)
      · exact .inl ⟨j,r,by rwa [setPc_of_ne s i pc hji]⟩
    · exact .inr hdone

/-- A pair that only grows, its slots as they were. -/
theorem Inv.setMatch {s : Server} (h : s.Inv) {id : MatchId} {m m' : Match} (hm : s.pairs id = some m)
    (hslot : m'.slot = m.slot) (hg : m.pair.Grows m'.pair) : (s.setMatch id m').Inv := by
  have hfull : m'.Full ↔ m.Full := by rw [Match.Full, Match.Full, hslot]
  refine ⟨fun id' r j => ?_,fun i id' r hi => ?_,fun id' m₁ hm₁ hm₁full => ?_⟩
  · rw [setMatch_registered, ← h.slots id' r j]
    by_cases hid : id' = id
    · subst hid
      simp [hm, hslot]
    · simp [setMatch_of_ne s id m' hid]
  · obtain ⟨m₁,hm₁,hm₁full,htold⟩ := h.tells i id' r hi
    by_cases hid : id' = id
    · subst hid
      obtain rfl := Option.some.inj (hm₁.symm.trans hm)
      exact ⟨m',setMatch_self _ _ _,hfull.mpr hm₁full,fun hr => (hg.received _).subset (htold hr)⟩
    · exact ⟨m₁,by rwa [setMatch_of_ne s id m' hid],hm₁full,htold⟩
  · by_cases hid : id' = id
    · subst hid
      rw [setMatch_self] at hm₁
      obtain rfl := Option.some.inj hm₁
      exact (h.settled id' m hm (hfull.mp hm₁full)).imp_right (·.mono hg)
    · rw [setMatch_of_ne s id m' hid] at hm₁
      exact h.settled id' m₁ hm₁ hm₁full

/-- A free slot is taken, and the registration recorded. -/
theorem Inv.letIn_slots {s : Server} (h : s.Inv) (i : ℕ) {id : MatchId} {r : Role} {m : Match}
    (hm : ∀ r j, m.slot r = some j ↔ ∃ m, s.pairs id = some m ∧ m.slot r = some j)
    (hfree : m.slot r = none) (id' : MatchId) (r' : Role) (j : ℕ) :
    (∃ m', (s.letIn i id r m).pairs id' = some m' ∧ m'.slot r' = some j) ↔
      Registration.mk j id' r' ∈ (s.letIn i id r m).registered := by
  change _ ↔ _ ∈ s.registered ++ [Registration.mk i id r]
  rw [List.mem_append, List.mem_singleton, Registration.mk.injEq, ← h.slots id' r' j]
  by_cases hid : id' = id
  case neg => simp [letIn_of_ne s i id r m hid, hid]
  subst hid
  rw [← hm r' j]
  by_cases hr : r' = r
  · subst hr
    simp [hfree, seat, eq_comm]
  · simp [seat, hr]

/-- A pair that is being told has no free slot. -/
theorem Inv.ne_of_free {s : Server} (h : s.Inv) {id id' : MatchId} {r r' : Role} {j : ℕ}
    (hfree : ((s.pairs id).getD {}).slot r = none) (hj : (s.connection j).pc = .readying id' r') :
    id' ≠ id := by
  rintro rfl
  obtain ⟨m,hm,⟨hb,hc⟩,-⟩ := h.tells j id' r' hj
  rw [hm, Option.getD_some] at hfree
  cases r <;> simp_all

theorem Inv.enroll {s : Server} (h : s.Inv) {i : ℕ} (hi : (s.connection i).pc = .reading)
    (id : MatchId) (r : Role) : (s.enroll i id r).Inv := by
  rw [Server.enroll]
  split
  case isTrue hs =>
    obtain ⟨j,hj⟩ := Option.isSome_iff_exists.mp hs
    obtain ⟨m,hm,-⟩ := (getD_slot s id r j).mp hj
    rw [hm, Option.getD_some]
    exact (h.setMatch hm rfl (.refl _)).setPc (by simp) (by simp [hi])
  case isFalse hs =>
    have hfree : ((s.pairs id).getD {}).slot r = none := by simpa using hs
    refine ⟨h.letIn_slots i (getD_slot s id) hfree,fun j id' r' hj => ?_,fun id' m hm hfull => ?_⟩
    · by_cases hji : j = i
      · subst hji
        rw [setPc_self] at hj
        split_ifs at hj with hfull
        obtain ⟨rfl,rfl⟩ := RegistrationPc.readying.inj hj
        exact ⟨_,letIn_self _ _ _ _ _,hfull,by simp⟩
      · rw [setPc_of_ne _ i _ hji] at hj
        obtain ⟨m,hm,htold⟩ := h.tells j id' r' hj
        exact ⟨m,by rwa [setPc_pairs, letIn_of_ne s i id r _ (h.ne_of_free hfree hj)],htold⟩
    · rw [setPc_pairs] at hm
      by_cases hid : id' = id
      · subst hid
        rw [letIn_self] at hm
        obtain rfl := Option.some.inj hm
        exact .inl ⟨i,.b,by rw [setPc_self, if_pos hfull]⟩
      · rw [letIn_of_ne s i id r _ hid] at hm
        obtain ⟨j,r',hj⟩ | hdone := h.settled id' m hm hfull
        · have hji : j ≠ i := by
            rintro rfl
            simp [hi] at hj
          exact .inl ⟨j,r',by rwa [setPc_of_ne _ i _ hji]⟩
        · exact .inr hdone

/-- What a step can do. -/
inductive Turn (s : Server) : ServerEvent → Server → Prop
  | accept : Turn s .accept { s with accepted := s.accepted + 1 }
  | disconnect (i : ℕ) : Turn s (.disconnect i) { s with
      connection := Function.update s.connection i { s.connection i with gone := true } }
  | enroll (i : ℕ) (input : ByteVector) (id : MatchId) (r : Role) (hi : (s.connection i).pc = .reading)
      (hr : registration input = some (id,r)) : Turn s (.register i input) (s.enroll i id r)
  | ignore (i : ℕ) (input : ByteVector) (hi : (s.connection i).pc = .reading)
      (hr : registration input = none) : Turn s (.register i input) (s.setPc i .done)
  | refused (i : ℕ) (e : ServerEvent) (he : e = .writeOk i ∨ e = .writeFail i)
      (hi : (s.connection i).pc = .refusing) : Turn s e (s.setPc i .done)
  | toldB (i : ℕ) (id : MatchId) (m : Match) (hi : (s.connection i).pc = .readying id .b)
      (hm : s.pairs id = some m) : Turn s (.writeOk i)
        ((s.setMatch id { m with pair := m.pair.deliver .b readyFrame }).setPc i (.readying id .c))
  | toldC (i : ℕ) (id : MatchId) (m : Match) (hi : (s.connection i).pc = .readying id .c)
      (hm : s.pairs id = some m) : Turn s (.writeOk i)
        ((s.setMatch id (spawn { m with pair := m.pair.deliver .c readyFrame })).setPc i .done)
  | lost (i : ℕ) (id : MatchId) (r : Role) (m : Match) (hi : (s.connection i).pc = .readying id r)
      (hm : s.pairs id = some m) (hgone : (m.pair.peer r).gone = true) :
      Turn s (.writeFail i) (s.setPc i .done)
  | pair (id : MatchId) (e : PairEvent) (m : Match) (p : Pair) (hm : s.pairs id = some m)
      (hp : m.pair.step e = some p) : Turn s (.pair id e) (s.setMatch id { m with pair := p })

theorem step_turn {s t : Server} {e : ServerEvent} (hs : s.step e = some t) : s.Turn e t := by
  cases e with
  | accept =>
    obtain rfl := Option.some.inj hs
    exact .accept
  | disconnect i =>
    rw [step] at hs
    split_ifs at hs
    obtain rfl := Option.some.inj hs
    exact .disconnect i
  | register i input =>
    rw [step] at hs
    split_ifs at hs with hi
    cases hr : registration input <;> simp only [hr] at hs <;> obtain rfl := Option.some.inj hs
    · exact .ignore i input hi.2.1 hr
    · exact .enroll i input _ _ hi.2.1 hr
  | writeOk i =>
    cases hi : (s.connection i).pc <;> simp only [step, hi] at hs
    case refusing =>
      obtain rfl := Option.some.inj hs
      exact .refused i _ (.inl rfl) hi
    case readying id r =>
      cases hm : s.pairs id <;> simp only [hm] at hs
      case none => cases hs
      case some m =>
        cases r <;> obtain rfl := Option.some.inj hs
        · exact .toldB i id m hi hm
        · exact .toldC i id m hi hm
    all_goals cases hs
  | writeFail i =>
    cases hi : (s.connection i).pc <;> simp only [step, hi] at hs
    case refusing =>
      obtain rfl := Option.some.inj hs
      exact .refused i _ (.inr rfl) hi
    case readying id r =>
      cases hm : s.pairs id <;> simp only [hm] at hs
      case none => cases hs
      case some m =>
        split_ifs at hs with hgone
        obtain rfl := Option.some.inj hs
        exact .lost i id r m hi hm hgone
    all_goals cases hs
  | pair id e =>
    cases hm : s.pairs id <;> simp only [step, hm] at hs
    case none => cases hs
    case some m =>
      obtain ⟨p,hp,rfl⟩ := Option.map_eq_some_iff.mp hs
      exact .pair id e m p hm hp

theorem deliver_grows (p : Pair) (r : Role) (f : Frame) : p.Grows (p.deliver r f) :=
  p.grows_setPeer r (List.prefix_append _ _) fun hgone => hgone

theorem spawn_grows (m : Match) : m.pair.Grows (spawn m).pair :=
  (m.pair.grows_setPump .b (by simp)).trans (Pair.grows_setPump _ .c (by simp))

theorem Turn.inv {s t : Server} {e : ServerEvent} (ht : s.Turn e t) (h : s.Inv) : t.Inv := by
  cases ht with
  | accept => exact ⟨h.slots,h.tells,h.settled⟩
  | disconnect i =>
    have hpc : ∀ j, (Function.update s.connection i { s.connection i with gone := true } j).pc =
        (s.connection j).pc := by
      intro j
      by_cases hji : j = i
      · subst hji
        simp
      · simp [hji]
    refine ⟨h.slots,fun j id r hj => h.tells j id r ((hpc j).symm.trans hj),fun id m hm hfull => ?_⟩
    exact (h.settled id m hm hfull).imp_left fun ⟨j,r,hj⟩ => ⟨j,r,(hpc j).trans hj⟩
  | enroll i input id r hi hr => exact h.enroll hi id r
  | ignore i input hi hr => exact h.setPc (by simp) (by simp [hi])
  | refused i e he hi => exact h.setPc (by simp) (by simp [hi])
  | toldB i id m hi hm =>
    have hfull : m.Full := by
      obtain ⟨m',hm',hfull,-⟩ := h.tells i id _ hi
      obtain rfl := Option.some.inj (hm'.symm.trans hm)
      exact hfull
    have htold : (s.setMatch id { m with pair := m.pair.deliver .b readyFrame }).Inv :=
      h.setMatch hm rfl (deliver_grows _ _ _)
    refine htold.setPc (fun id' r' hr => ?_) fun id' r' hr => .inl ?_
    · obtain ⟨rfl,rfl⟩ := RegistrationPc.readying.inj hr
      exact ⟨_,setMatch_self _ _ _,hfull,fun _ => by simp [Pair.deliver]⟩
    · exact ⟨.c,by rw [(RegistrationPc.readying.inj (hi.symm.trans hr)).1]⟩
  | toldC i id m hi hm =>
    obtain ⟨m',hm',-,htold⟩ := h.tells i id _ hi
    obtain rfl := Option.some.inj (hm'.symm.trans hm)
    have hspawned : (s.setMatch id (spawn { m' with pair := m'.pair.deliver .c readyFrame })).Inv :=
      h.setMatch hm rfl ((deliver_grows _ _ _).trans (spawn_grows { m' with pair := _ }))
    refine hspawned.setPc (by simp) fun id' r' hr => .inr fun m hm' => .inl ?_
    obtain rfl := (RegistrationPc.readying.inj (hi.symm.trans hr)).1
    obtain rfl := Option.some.inj ((setMatch_self _ _ _).symm.trans hm')
    refine (Role.forall_iff .b).mpr ⟨⟨?_,?_⟩,?_,?_⟩
    · exact htold rfl
    · simp [spawn, Pair.nextRead, Pair.setPump]
    · simp [spawn, Pair.nextRead, Pair.setPump, Pair.deliver, Role.opposite]
    · simp [spawn, Pair.nextRead, Pair.setPump, Role.opposite]
  | lost i id r m hi hm hgone =>
    refine h.setPc (by simp) fun id' r' hr => .inr fun m' hm' => .inr ⟨r,?_⟩
    obtain rfl := (RegistrationPc.readying.inj (hi.symm.trans hr)).1
    obtain rfl := Option.some.inj (hm'.symm.trans hm)
    exact hgone
  | pair id e m p hm hp => exact h.setMatch hm rfl (Pair.step_grows hp)

theorem step_inv {s t : Server} {e : ServerEvent} (h : s.Inv) (hs : s.step e = some t) : t.Inv :=
  (step_turn hs).inv h

theorem Inv.served {s : Server} (h : s.Inv) : s.Served := by
  intro id m hm hboth
  obtain htelling | hdone | ⟨r,hgone⟩ := h.settled id m hm ⟨(hboth .b).1,(hboth .c).1⟩
  · exact .inl htelling
  · exact .inr hdone
  · simp [(hboth r).2] at hgone

/-- Only a coroutine that goes on to refuse its peer is found refusing. -/
theorem setPc_refusing {s : Server} {i j : ℕ} {pc : RegistrationPc} (hi : (s.connection i).pc = .reading)
    (h : ((s.setPc j pc).connection i).pc = .refusing) : j = i ∧ pc = .refusing := by
  by_cases hij : i = j
  · subst hij
    exact ⟨rfl,by simpa using h⟩
  · rw [setPc_of_ne s j pc hij, hi] at h
    cases h

theorem refuses_iff {s t : Server} {e : ServerEvent} (hs : s.step e = some t) (i : ℕ) :
    s.Refuses i e ↔ ∃ input id r, e = .register i input ∧ registration input = some (id,r) ∧
      (((s.pairs id).getD {}).slot r).isSome = true := by
  constructor
  · rintro ⟨hi,t',ht',hpc⟩
    obtain rfl := Option.some.inj (hs.symm.trans ht')
    cases step_turn hs with
    | accept => simp [hi] at hpc
    | disconnect j =>
      by_cases hij : i = j
      · subst hij
        simp [hi] at hpc
      · simp [hij, hi] at hpc
    | enroll j input id r hj hr =>
      rw [enroll] at hpc
      split at hpc
      case isTrue htaken =>
        obtain ⟨rfl,-⟩ := setPc_refusing (s := s.setMatch id _) hi hpc
        exact ⟨input,id,r,rfl,hr,htaken⟩
      case isFalse =>
        have := (setPc_refusing (s := s.letIn j id r _) hi hpc).2
        split_ifs at this
    | ignore j input hj hr => cases (setPc_refusing hi hpc).2
    | refused j e he hj => cases (setPc_refusing hi hpc).2
    | toldB j id m hj hm => cases (setPc_refusing (s := s.setMatch id _) hi hpc).2
    | toldC j id m hj hm => cases (setPc_refusing (s := s.setMatch id _) hi hpc).2
    | lost j id r m hj hm hgone => cases (setPc_refusing hi hpc).2
    | pair id e m p hm hp => simp [hi] at hpc
  · rintro ⟨input,id,r,rfl,hr,htaken⟩
    cases step_turn hs with
    | ignore _ _ hi hr' => rw [hr] at hr'; cases hr'
    | refused _ _ he hi => cases he <;> contradiction
    | enroll _ _ id' r' hi hr' =>
      obtain ⟨rfl,rfl⟩ := Prod.mk.inj (Option.some.inj (hr.symm.trans hr'))
      exact ⟨hi,_,hs,by rw [enroll, if_pos htaken, setPc_self]⟩

theorem Inv.taken_iff {s : Server} (h : s.Inv) (id : MatchId) (r : Role) :
    (((s.pairs id).getD {}).slot r).isSome = true ↔ ∃ g ∈ s.registered, g.id = id ∧ g.role = r := by
  rw [Option.isSome_iff_exists]
  constructor
  · rintro ⟨j,hj⟩
    exact ⟨_,(h.slots id r j).mp ((getD_slot s id r j).mp hj),rfl,rfl⟩
  · rintro ⟨g,hg,rfl,rfl⟩
    exact ⟨g.connection,(getD_slot s g.id g.role _).mpr ((h.slots _ _ _).mpr hg)⟩

theorem Inv.unique {s : Server} (h : s.Inv) {g g' : Registration} (hg : g ∈ s.registered)
    (hg' : g' ∈ s.registered) (hid : g.id = g'.id) (hr : g.role = g'.role) : g = g' := by
  obtain ⟨i,id,r⟩ := g
  obtain ⟨j,id',r'⟩ := g'
  obtain rfl : id = id' := hid
  obtain rfl : r = r' := hr
  obtain ⟨m,hm,hi⟩ := (h.slots id r i).mpr hg
  obtain ⟨m',hm',hj⟩ := (h.slots id r j).mpr hg'
  obtain rfl := Option.some.inj (hm.symm.trans hm')
  rw [Option.some.inj (hi.symm.trans hj)]

theorem Inv.justified_iff {s t : Server} {e : ServerEvent} (h : s.Inv) (hs : s.step e = some t) :
    s.Justified e ↔ s.Fresh e := by
  constructor
  · intro hj
    cases e with
    | register i input =>
      intro id r hr g hg hid hrole
      have hrefuses := (refuses_iff hs i).mpr
        ⟨input,id,r,rfl,hr,(h.taken_iff id r).mpr ⟨g,hg,hid,hrole⟩⟩
      obtain ⟨id',r',input',he,hr',g',hg',hid',hrole',hconn⟩ := hj i hrefuses
      obtain rfl := (ServerEvent.register.inj he).2
      obtain ⟨rfl,rfl⟩ := Prod.mk.inj (Option.some.inj (hr.symm.trans hr'))
      rwa [h.unique hg hg' (hid.trans hid'.symm) (hrole.trans hrole'.symm)]
    | _ => trivial
  · intro hf i hrefuses
    obtain ⟨input,id,r,rfl,hr,htaken⟩ := (refuses_iff hs i).mp hrefuses
    obtain ⟨g,hg,hid,hrole⟩ := (h.taken_iff id r).mp htaken
    exact ⟨id,r,input,rfl,hr,g,hg,hid,hrole,hf id r hr g hg hid hrole⟩

/-- Every refusal is justified, and every pair of two live peers is served, exactly when
no peer registers behind one that has gone. -/
theorem slots_freed_iff_fresh {events : List ServerEvent} {s : Server}
    (hrun : run step {} events = some s) :
    (Meets step Justified {} events ∧
      ∀ pre t, pre <+: events → run step {} pre = some t → t.Served) ↔ Meets step Fresh {} events := by
  have hiff : Meets step Justified {} events ↔ Meets step Fresh {} events :=
    Meets.congr hrun fresh_inv step_inv Inv.justified_iff
  refine ⟨fun h => hiff.mp h.1,fun hm => ⟨hiff.mpr hm,fun pre t _ ht => ?_⟩⟩
  exact (run_invariant ht fresh_inv step_inv).served

/-- `REGISTER` with the body `"x B"`. -/
def registerXB : ByteVector := buildFrameBytes .register (text "x B")

/-- A peer registers, and a second one with the same identifier and role is refused. -/
def twice : List ServerEvent := [.accept, .register 0 registerXB, .accept, .register 1 registerXB]

theorem slots_freed_iff_fresh_twice : ∃ s, run step {} twice = some s ∧
    (s.connection 1).pc = .refusing ∧ Meets step Justified {} twice := by
  obtain ⟨s,hrun,hpc⟩ : ∃ s, run step {} twice = some s ∧ (s.connection 1).pc = .refusing :=
    ⟨_,rfl,by decide +kernel⟩
  have hfresh : Meets step Fresh {} twice := by
    refine .cons trivial rfl (.cons (by simp [Fresh]) rfl (.cons trivial rfl (.cons ?_ rfl (.nil _))))
    intro id r _ g hg _ _
    obtain rfl := List.mem_singleton.mp hg
    exact ⟨_,rfl,rfl,rfl⟩
  exact ⟨s,hrun,hpc,((slots_freed_iff_fresh hrun).mpr hfresh).1⟩

/-- The peer that registered first goes away before the second comes. -/
def reconnecting : List ServerEvent :=
  [.accept, .register 0 registerXB, .pair (text "x") (.disconnect .b), .accept, .register 1 registerXB]

/-- The second peer is refused, with nobody connected. -/
theorem reconnecting_refused : ∃ s, run step {} reconnecting = some s ∧
    ¬Meets step Justified {} reconnecting := by
  obtain ⟨t,s,ht,hs,hpc,hpc',hreg,hgone⟩ : ∃ t s, run step {} (reconnecting.take 4) = some t ∧
      t.step (.register 1 registerXB) = some s ∧ (t.connection 1).pc = .reading ∧
      (s.connection 1).pc = .refusing ∧ t.registered = [⟨0,text "x",.b⟩] ∧
      ∃ m, t.pairs (text "x") = some m ∧ (m.pair.peer .b).gone = true :=
    ⟨_,_,rfl,rfl,by decide +kernel,by decide +kernel,rfl,_,rfl,rfl⟩
  obtain ⟨m,hm,hgone⟩ := hgone
  refine ⟨s,run_append_some.mpr ⟨t,ht,by simp [hs]⟩,fun hmeets => ?_⟩
  have hj := hmeets (reconnecting.take 4) _ [] rfl t ht
  obtain ⟨id,r,input,-,-,g,hg,-,-,m',hm',-,hlive⟩ := hj 1 ⟨hpc,s,hs,hpc'⟩
  rw [hreg] at hg
  obtain rfl := List.mem_singleton.mp hg
  obtain rfl := Option.some.inj (hm.symm.trans hm')
  simp [hgone] at hlive

end Server

end Msg801.Relay
