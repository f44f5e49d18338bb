import Mathlib.Data.List.Nodup
import Msg801.Tunnel.AcceptLoop
import Msg801.Tunnel.SessionPair

/-! # The records of the tunnel

The accept loop writes a record for every client it accepts, the stat loop of a session one
for every five seconds in which the session is open, and the last loop of a session to end
writes one with its counters. All of them go to one log.
-/
namespace Msg801.Tunnel
open Transition

namespace SessionState
variable {onData : ProcessorChain ProcessorPtr → ByteSpan → Outcome (ProcessorChain ProcessorPtr)}
  {flush : ProcessorChain ProcessorPtr → Outcome (ProcessorChain ProcessorPtr)} {s s' : SessionState} {side : Side}
  {e : LoopEvent} {l l' : ReadLoop} {w : ByteVector} {outs : DataBufferList}

/-- What a loop has written came out of the chain, and all of it but the write under way, or
the one the loop has failed in, is counted. -/
structure Tally (l : ReadLoop) (w : ByteVector) : Prop where
  written : w <+: l.produced
  pending : l.pc ≠ .ended → l.produced = w ++ pending l.pc
  counted : ∃ n ≤ w.length, l.bytes = UInt64.ofNat n ∧ (l.pc ≠ .ended → w.length = n + (transferred l.pc).length)

theorem Tally.ended (h : Tally l w) (hpc : l'.pc = .ended) (hp : l'.produced = l.produced) (hb : l'.bytes = l.bytes) :
    Tally l' w := by
  obtain ⟨n,hn,hc,-⟩ := h.counted
  exact ⟨hp ▸ h.written,fun hne => absurd hpc hne,n,hn,hb.trans hc,fun hne => absurd hpc hne⟩

/-- A loop with `outs` to write, of which nothing is written yet. -/
def Ready (l : ReadLoop) (w : ByteVector) (outs : DataBufferList) : Prop :=
  l.produced = w ++ outs.flatten ∧ l.bytes = UInt64.ofNat w.length

theorem Ready.tally (h : Ready l w outs) {pc : LoopPc} (hpc : SessionState.pending pc = outs.flatten)
    (ht : transferred pc = []) : Tally { l with pc := pc } w := by
  refine ⟨h.1 ▸ List.prefix_append _ _,fun _ => hpc ▸ h.1,w.length,le_rfl,h.2,fun _ => ?_⟩
  simp [ht]

theorem Ready.ended (h : Ready l w outs) (hpc : l'.pc = .ended) (hp : l'.produced = l.produced)
    (hb : l'.bytes = l.bytes) : Tally l' w := by
  refine ⟨?_,fun hne => absurd hpc hne,w.length,le_rfl,hb.trans h.2,fun hne => absurd hpc hne⟩
  rw [hp, h.1]
  exact List.prefix_append _ _

/-- A loop that waits for its socket has written and counted all there was. -/
theorem Tally.ready (h : Tally l w) (hne : l.pc ≠ .ended) (hp : SessionState.pending l.pc = outs.flatten)
    (ht : transferred l.pc = []) : Ready l w outs := by
  obtain ⟨n,-,hb,hn⟩ := h.counted
  have hall : w.length = n := by simpa [ht] using hn hne
  exact ⟨hp ▸ h.pending hne,hall ▸ hb⟩

/-- More of the pending write is transferred. -/
theorem Tally.transfer (h : Tally l w) (pc : LoopPc) (now : ByteVector) (hne : l.pc ≠ .ended)
    (hp : SessionState.pending l.pc = now ++ SessionState.pending pc) (ht : transferred pc = transferred l.pc ++ now) :
    Tally { l with pc := pc } (w ++ now) := by
  have hproduced : l.produced = w ++ now ++ SessionState.pending pc := by
    rw [h.pending hne, hp, List.append_assoc]
  obtain ⟨n,hn,hb,hall⟩ := h.counted
  refine ⟨hproduced ▸ List.prefix_append _ _,fun _ => hproduced,n,?_,hb,fun _ => ?_⟩
  · rw [List.length_append]
    exact Nat.le_add_right_of_le hn
  · rw [ht, List.length_append, List.length_append, hall hne, Nat.add_assoc]

/-- The counter catches up with a write that is done. -/
theorem Tally.count (h : Tally l w) (outs : List ByteVector) (hne : l.pc ≠ .ended)
    (hp : SessionState.pending l.pc = outs.flatten) :
    Ready { l with bytes := l.bytes + UInt64.ofNat (transferred l.pc).length } w outs := by
  obtain ⟨n,-,hb,hall⟩ := h.counted
  refine ⟨hp ▸ h.pending hne,?_⟩
  change l.bytes + _ = _
  rw [hall hne, UInt64.ofNat_add, hb]

/-- The loop of a side, with what was written to the other one. -/
def Tallied (s : SessionState) (t : Side) : Prop := Tally (s.loop t) (s.sock t.opposite).written

theorem finish_tallied (h : s.Tallied side) : (s.finish side).Tallied side := by
  unfold Tallied
  rw [finish_sock, finish_loop]
  exact h.ended (by simp [setPc]) (by simp [setPc]) (by simp [setPc])

theorem next_tallied (h : Ready (s.loop side) (s.sock side.opposite).written []) : (s.next side).Tallied side := by
  rw [next]
  split_ifs
  · unfold Tallied
    rw [finish_sock, finish_loop]
    exact h.ended (by simp [setPc]) (by simp [setPc]) (by simp [setPc])
  · change Tally ((s.setPc side .reading).loop side) _
    rw [setPc, setLoop_loop]
    exact h.tally rfl rfl

theorem writeNext_tallied (h : Ready (s.loop side) (s.sock side.opposite).written outs) :
    (s.writeNext side outs).Tallied side := by
  cases outs with
  | nil => exact next_tallied h
  | cons out more =>
    change Tally ((s.setPc side (.writing [] out more)).loop side) _
    rw [setPc, setLoop_loop]
    exact h.tally rfl rfl

theorem flushNext_tallied (h : Ready (s.loop side) (s.sock side.opposite).written outs) :
    (s.flushNext side outs).Tallied side := by
  cases outs with
  | nil =>
    rw [flushNext]
    unfold Tallied
    rw [finish_sock, finish_loop]
    split_ifs <;> exact h.ended (by simp [setPc]) (by simp [setPc, closeAll]) (by simp [setPc, closeAll])
  | cons out more =>
    change Tally ((s.setPc side (.flushing [] out more)).loop side) _
    rw [setPc, setLoop_loop]
    exact h.tally rfl rfl

theorem tallied_congr {t : Side} (h : s.Tallied t) (hl : s'.loop t = s.loop t)
    (hw : (s'.sock t.opposite).written = (s.sock t.opposite).written) : s'.Tallied t := by
  unfold Tallied
  rw [hl, hw]
  exact h

theorem Advance.tallied (h : Advance onData flush s side e s') (ht : s.Tallied side) : s'.Tallied side := by
  have hproduce : ∀ (z : SessionState) (r : Outcome (ProcessorChain ProcessorPtr)),
      Ready (z.loop side) (z.sock side.opposite).written [] →
      Ready ((z.absorb side r).loop side) ((z.absorb side r).sock side.opposite).written r.output := by
    intro z r hz
    rw [absorb, setLoop_loop]
    refine ⟨?_,hz.2⟩
    change (z.loop side).produced ++ r.output.flatten = _
    rw [hz.1]
    simp
  have hwait : (s.loop side).pc = .reading → Ready (s.loop side) (s.sock side.opposite).written [] := fun hpc =>
    ht.ready (by simp [hpc]) (by simp [hpc, pending]) (by simp [hpc, transferred])
  have hsee : (s.loop side).pc = .reading →
      Ready ((s.seeEof side).loop side) ((s.seeEof side).sock side.opposite).written [] := by
    intro hpc
    obtain ⟨hp,hb⟩ := hwait hpc
    exact ⟨by simpa [seeEof] using hp,by simpa [seeEof] using hb⟩
  cases h with
  | start hpc =>
    exact next_tallied (ht.ready (by simp [hpc]) (by simp [hpc, pending]) (by simp [hpc, transferred]))
  | data input hpc => exact writeNext_tallied (hproduce s _ (hwait hpc))
  | eof hpc => exact flushNext_tallied (hproduce (s.seeEof side) _ (hsee hpc))
  | thrown hpc =>
    unfold Tallied
    rw [finish_sock, finish_loop]
    exact (hsee hpc).ended (by simp [setPc]) (by simp [setPc]) (by simp [setPc])
  | gaveUp _ v _ _ hl hw => exact finish_tallied (tallied_congr ht (by rw [hl]) (hw _))
  | transfer sent now rest more n hpc =>
    have hmore := ht.transfer (.writing (sent ++ now) rest more) now (by simp [hpc])
      (by simp [hpc, pending]) (by simp [hpc, transferred])
    unfold Tallied
    simpa [setPc] using hmore
  | flushTransfer sent now rest more n hn hpc =>
    have hmore := ht.transfer (.flushing (sent ++ now) rest more) now (by simp [hpc])
      (by simp [hpc, pending]) (by simp [hpc, transferred])
    unfold Tallied
    simpa [setPc] using hmore
  | writeOk sent more hpc =>
    have hcount := ht.count more (by simp [hpc]) (by simp [hpc, pending])
    refine writeNext_tallied ?_
    simpa [SessionState.count, hpc, transferred] using hcount
  | flushOk sent more hpc =>
    have hcount := ht.count more (by simp [hpc]) (by simp [hpc, pending])
    refine flushNext_tallied ?_
    simpa [SessionState.count, hpc, transferred] using hcount

theorem step_tallied {a : Side × LoopEvent} (h : ∀ t, s.Tallied t) (hs : s.step a = some s') (t : Side) :
    s'.Tallied t := by
  obtain ⟨side,e⟩ := a
  have hadvance := readLoop_advance ((step_eq s side e).symm.trans hs)
  obtain rfl | rfl := t.eq_or_eq_opposite side
  · exact hadvance.tallied (h t)
  · obtain ⟨hl,hw⟩ := hadvance.apart
    exact tallied_congr (h _) hl (by rwa [Side.opposite_opposite])

theorem finish_bytes (t : Side) : ((s.finish side).loop t).bytes = (s.loop t).bytes := by
  rw [finish_loop, setPc_bytes]

theorem writeNext_bytes (outs : DataBufferList) : ((s.writeNext side outs).loop side).bytes = (s.loop side).bytes := by
  cases outs with
  | nil =>
    rw [writeNext, next]
    split_ifs
    · exact finish_bytes side
    · exact setPc_bytes s side .reading side
  | cons out more => exact setPc_bytes s side _ side

theorem flushNext_bytes (outs : DataBufferList) : ((s.flushNext side outs).loop side).bytes = (s.loop side).bytes := by
  cases outs with
  | nil =>
    rw [flushNext, finish_bytes]
    split_ifs <;> rfl
  | cons out more => exact setPc_bytes s side _ side

/-- The counter of a loop stays, or a write that is done is added to it. -/
theorem Advance.bytes (h : Advance onData flush s side e s') : (s'.loop side).bytes = (s.loop side).bytes ∨
    (s.loop side).pc ≠ .ended ∧
      (s'.loop side).bytes = (s.loop side).bytes + UInt64.ofNat (transferred (s.loop side).pc).length := by
  cases h with
  | start => exact .inl (writeNext_bytes [])
  | data => exact .inl ((writeNext_bytes _).trans (by simp [absorb]))
  | eof => exact .inl ((flushNext_bytes _).trans (by simp [absorb, seeEof]))
  | thrown => exact .inl ((finish_bytes side).trans (by simp [seeEof]))
  | gaveUp _ v _ _ hl => exact .inl ((finish_bytes side).trans (by rw [hl]))
  | transfer | flushTransfer => exact .inl (setPc_bytes s side _ side)
  | writeOk sent more hpc =>
    refine .inr ⟨by simp [hpc],(writeNext_bytes more).trans ?_⟩
    simp [SessionState.count, hpc, transferred]
  | flushOk sent more hpc =>
    refine .inr ⟨by simp [hpc],(flushNext_bytes more).trans ?_⟩
    simp [SessionState.count, hpc, transferred]

/-- As long as it does not overflow the counter is at most what is written. -/
theorem Tally.bytes_le (h : Tally l w) (hw : w.length < UInt64.size) : l.bytes.toNat ≤ w.length := by
  obtain ⟨n,hn,hb,-⟩ := h.counted
  rwa [hb, UInt64.toNat_ofNat_of_lt' (hn.trans_lt hw)]

/-- A counter that does not overflow never goes down. -/
theorem step_bytes {a : Side × LoopEvent} (hi : s.Inv) (ht : ∀ t, s.Tallied t) (hs : s.step a = some s') (t : Side)
    (hw : (s'.sock t.opposite).written.length < UInt64.size) :
    (s.sock t.opposite).written <+: (s'.sock t.opposite).written ∧ (s.loop t).bytes.toNat ≤ (s'.loop t).bytes.toNat := by
  obtain ⟨side,e⟩ := a
  have hadvance := readLoop_advance ((step_eq s side e).symm.trans hs)
  obtain rfl | rfl := t.eq_or_eq_opposite side
  · have hwritten := (step_written hi hs).1
    refine ⟨hwritten,?_⟩
    rcases hadvance.bytes with hb | ⟨hne,hb⟩
    · exact hb ▸ le_rfl
    · obtain ⟨n,hn,hc,hall⟩ := (ht t).counted
      have hlen := hwritten.length_le
      rw [hb, hc, ← UInt64.ofNat_add, ← hall hne, UInt64.toNat_ofNat_of_lt' (hlen.trans_lt hw),
        UInt64.toNat_ofNat_of_lt' ((hn.trans hlen).trans_lt hw)]
      exact hn
  · obtain ⟨hl,hsame⟩ := hadvance.apart
    rw [hl, Side.opposite_opposite, hsame]
    exact ⟨List.prefix_rfl,le_rfl⟩

theorem startSession_tallied (id : UInt64) (chain : ProcessorChain ProcessorPtr) (t : Side) :
    (startSession id chain).Tallied t :=
  ⟨List.prefix_rfl,fun _ => rfl,0,le_rfl,rfl,fun _ => rfl⟩

/-- Once both loops are over the session is closed. -/
theorem Inv.closed_of_ended (h : s.Inv) (hall : ∀ t, (s.loop t).pc = .ended) : s.closed = true := by
  by_cases hb : ∀ t, (s.loop t).eof = true
  · exact h.both hb
  · obtain ⟨t,ht⟩ := not_forall.mp hb
    exact ((h.settled t).ended (hall t)).resolve_right ht

theorem finish_id (s : SessionState) (side : Side) : (s.finish side).id = s.id := by
  simp only [finish]
  split <;> rfl

theorem writeNext_id (s : SessionState) (side : Side) (outs : DataBufferList) : (s.writeNext side outs).id = s.id := by
  cases outs with
  | nil =>
    rw [writeNext, next]
    split_ifs
    · exact finish_id s side
    · rfl
  | cons out more => rfl

theorem flushNext_id (s : SessionState) (side : Side) (outs : DataBufferList) : (s.flushNext side outs).id = s.id := by
  cases outs with
  | nil =>
    rw [flushNext, finish_id]
    split_ifs <;> rfl
  | cons out more => rfl

theorem step_id {a : Side × LoopEvent} (hs : s.step a = some s') : s'.id = s.id := by
  obtain ⟨side,e⟩ := a
  have hclose : ∀ z : SessionState, (z.closeOnce.finish side).id = z.id := by
    intro z
    rw [finish_id, closeOnce]
    split_ifs <;> rfl
  rw [step_eq] at hs
  cases readLoop_step hs with
  | start => exact writeNext_id s side []
  | data input => exact writeNext_id (s.absorb side _) side _
  | eof => exact flushNext_id ((s.seeEof side).absorb side _) side _
  | refused input => exact hclose { s with chain := _ }
  | readError | writeFail => exact hclose s
  | thrown => exact finish_id { s.seeEof side with chain := _ } side
  | aborted => exact finish_id s side
  | flushFail => exact finish_id s.closeAll side
  | transfer | flushTransfer => rfl
  | writeOk sent more => exact writeNext_id (s.count side sent.length) side more
  | flushOk sent more => exact flushNext_id (s.count side sent.length) side more

/-- Whoever takes a step has written no record of its end. -/
theorem Inv.connClose_of_step (h : s.Inv) {a : Side × LoopEvent} (hs : s.step a = some s') : s.connClose = [] := by
  rw [h.connClose, if_neg]
  intro htwo
  exact step_alive hs (s.endedCount_eq_two.mp htwo a.1)

end SessionState

/-- The record `log_stat` writes. A rate is what is left of a count divided by a time when the
quotient is rounded for the log. -/
structure Stat (Rate : Type) where
  id : UInt64
  rxRate : Rate
  txRate : Rate
  deriving DecidableEq

/-- A line of the log. -/
inductive LogRecord (Rate : Type) where
  | connNew (r : ConnNew)
  | stat (r : Stat Rate)
  | connClose (r : ConnClose)
  deriving DecidableEq

def LogRecord.id {Rate : Type} : LogRecord Rate → UInt64
  | connNew r => r.id
  | stat r => r.id
  | connClose r => r.id

/-- `stat_loop` at its timer, with what it alone sets. -/
structure StatLoop where
  ended : Bool := false
  lastStatRx : UInt64 := 0
  lastStatTx : UInt64 := 0

section Journal
variable {Rate : Type} (rate : UInt64 → ℕ → Rate)

namespace StatLoop

/-- The loop behind the wait of the timer, with the nanoseconds since the last record. -/
def step (l : StatLoop) (s : SessionState) (ec : Bool) (dt : ℕ) : StatLoop × List (Stat Rate) :=
  if ec || s.closed then ({ l with ended := true },[])
  else if 0 < dt then
    let rx := (s.loop .remoteSide).bytes
    let tx := (s.loop .localSide).bytes
    ({ l with
        lastStatRx := rx
        lastStatTx := tx },
      [⟨s.id,rate (rx - l.lastStatRx) dt,rate (tx - l.lastStatTx) dt⟩])
  else (l,[])

def last (l : StatLoop) : Side → UInt64
  | .localSide => l.lastStatTx
  | .remoteSide => l.lastStatRx

end StatLoop

/-- What a stat loop has counted in a time: the log has only the two rates of it. -/
structure Interval where
  rx : UInt64
  tx : UInt64
  dt : ℕ

namespace Interval

/-- What was counted by the loop of a side. -/
def bytes (v : Interval) : Side → UInt64
  | .localSide => v.tx
  | .remoteSide => v.rx

def record (id : UInt64) (v : Interval) : LogRecord Rate := .stat ⟨id,rate v.rx v.dt,rate v.tx v.dt⟩

end Interval

/-- What was counted for the stat records of a session adds up to what the counters were at the
last of them, as long as the counters do not overflow. -/
def Reported (s : SessionState) (l : StatLoop) (vs : List Interval) : Prop :=
  ∀ t, (s.sock t.opposite).written.length < UInt64.size →
    (vs.map fun v => (v.bytes t).toNat).sum = (l.last t).toNat ∧ (l.last t).toNat ≤ (s.loop t).bytes.toNat

/-- A session with its stat loop, and the records it has in the log. -/
structure Journal (s : SessionState) (l : StatLoop) (records : List (LogRecord Rate)) : Prop where
  inv : s.Inv
  tallied : ∀ t, s.Tallied t
  records : ∃ n vs, records = .connNew n :: List.map (Interval.record rate s.id) vs ++ s.connClose.map .connClose ∧
    (∀ v ∈ vs, 0 < v.dt) ∧ Reported s l vs

variable {rate}

theorem startSession_journal (n : ConnNew) (id : UInt64) {chain : ProcessorChain ProcessorPtr} (hc : chain.Silent) :
    Journal rate (.startSession id chain) {} [.connNew n] := by
  refine ⟨SessionState.startSession_inv id hc,SessionState.startSession_tallied id chain,n,[],rfl,nofun,fun t _ => ?_⟩
  cases t <;> exact ⟨rfl,Nat.zero_le _⟩

/-- A step of a read loop; the last one to end adds the record with the counters. -/
theorem Journal.session {s s' : SessionState} {l : StatLoop} {records : List (LogRecord Rate)}
    (h : Journal rate s l records) {a : Side × LoopEvent} (hs : s.step a = some s') :
    Journal rate s' l (records ++ (s'.connClose.drop s.connClose.length).map .connClose) := by
  obtain ⟨n,vs,rfl,hpos,hr⟩ := h.records
  refine ⟨SessionState.step_inv h.inv hs,SessionState.step_tallied h.tallied hs,n,vs,?_,hpos,fun t ht => ?_⟩
  · rw [h.inv.connClose_of_step hs, SessionState.step_id hs]
    simp
  · obtain ⟨hw,hb⟩ := SessionState.step_bytes h.inv h.tallied hs t ht
    obtain ⟨hsum,hle⟩ := hr t (hw.length_le.trans_lt ht)
    exact ⟨hsum,hle.trans hb⟩

/-- The stat loop reports on open sessions only, and these have no record of their end. -/
theorem Journal.timer {s : SessionState} {l : StatLoop} {records : List (LogRecord Rate)}
    (h : Journal rate s l records) (ec : Bool) (dt : ℕ) :
    Journal rate s (l.step rate s ec dt).1 (records ++ (l.step rate s ec dt).2.map .stat) := by
  obtain ⟨n,vs,rfl,hpos,hr⟩ := h.records
  rw [StatLoop.step]
  split_ifs with hstop hdt
  · refine ⟨h.inv,h.tallied,n,vs,by simp,hpos,fun t ht => ?_⟩
    cases t
    · exact hr .localSide ht
    · exact hr .remoteSide ht
  · obtain ⟨-,hc⟩ : ec = false ∧ s.closed = false := by simpa using hstop
    have hnone : s.connClose = [] := by
      rw [h.inv.connClose, if_neg]
      intro htwo
      simp [h.inv.closed_of_ended (s.endedCount_eq_two.mp htwo)] at hc
    let v : Interval := ⟨(s.loop .remoteSide).bytes - l.lastStatRx,(s.loop .localSide).bytes - l.lastStatTx,dt⟩
    have hpos' : ∀ w ∈ vs ++ [v], 0 < w.dt := by
      intro w hw
      rcases List.mem_append.mp hw with hw | hw
      · exact hpos w hw
      · exact List.mem_singleton.mp hw ▸ hdt
    refine ⟨h.inv,h.tallied,n,vs ++ [v],by simp [hnone, Interval.record, v],hpos',fun t ht => ?_⟩
    obtain ⟨hsum,hle⟩ := hr t ht
    rw [List.map_append, List.sum_append, hsum, List.map_singleton, List.sum_singleton]
    cases t
    all_goals
      simp only [StatLoop.last, Interval.bytes, v] at hle ⊢
      rw [UInt64.toNat_sub_of_le _ _ (UInt64.le_iff_toNat_le.mpr hle)]
      exact ⟨Nat.add_sub_cancel' hle,le_rfl⟩
  · exact ⟨h.inv,h.tallied,n,vs,by simp,hpos,hr⟩

/-- The process of a tunnel: the accept loop, the stat loop of every session, and the log. -/
structure TunnelProcess (Rate : Type) where
  accept : AcceptLoop := {}
  statLoop : ℕ → StatLoop := fun _ => {}
  log : List (LogRecord Rate) := []

inductive TunnelEvent where
  | accept (e : AcceptEvent)
  | timer (i : ℕ) (ec : Bool) (dt : ℕ)
  deriving DecidableEq

namespace TunnelProcess
variable (rate) (a : AcceptArgs)

/-- The records the accept loop and the read loops have written in a step. -/
def logged (t u : AcceptLoop) : AcceptEvent → List (LogRecord Rate)
  | .session i _ =>
    match t.sessions[i]?, u.sessions[i]? with
    | some s, some s' => (s'.connClose.drop s.connClose.length).map .connClose
    | _, _ => []
  | _ => (u.connNew.drop t.connNew.length).map .connNew

def step (p : TunnelProcess Rate) : TunnelEvent → Option (TunnelProcess Rate)
  | .accept e => (p.accept.step a e).map fun u => { p with
      accept := u
      log := p.log ++ logged p.accept u e }
  | .timer i ec dt =>
    match p.accept.sessions[i]? with
    | none => none
    | some s =>
      if (p.statLoop i).ended then none
      else
        let (l,stats) := (p.statLoop i).step rate s ec dt
        some { p with
          statLoop := Function.update p.statLoop i l
          log := p.log ++ stats.map .stat }

variable {rate} {a : AcceptArgs} {t u : AcceptLoop} {p q : TunnelProcess Rate}

/-- What a step of the accept loop or of a read loop does to the records and the sessions. -/
inductive Serves (t : AcceptLoop) : AcceptEvent → AcceptLoop → Prop
  | accepted (src : Endpoint) (dst : Endpoint) (u : AcceptLoop) (hpc : t.pc = .accepting)
      (hnew : u.connNew = t.connNew ++ [⟨t.nextId,src,dst⟩]) (hs : u.sessions = t.sessions)
      (hid : u.nextId = t.nextId + 1)
      (hu : (∃ how, u.pc = .ended how) ∨ ∃ chain : ProcessorChain ProcessorPtr, chain.Silent ∧
        u.pc = .connecting (.startSession t.nextId chain)) :
      Serves t (.accepted (some src)) u
  | connected (s : SessionState) (hpc : t.pc = .connecting s) :
      Serves t .connected { t with pc := .accepting, sessions := t.sessions ++ [s] }
  | session (i : ℕ) (e : Side × LoopEvent) (s s' : SessionState) (hi : t.sessions[i]? = some s) (hs : s.step e = some s') :
      Serves t (.session i e) { t with sessions := t.sessions.set i s' }
  | quiet (e : AcceptEvent) (u : AcceptLoop) (he : ∀ i e', e ≠ .session i e') (hnew : u.connNew = t.connNew)
      (hs : u.sessions = t.sessions) (hu : (∃ how, u.pc = .ended how) ∨ u.pc = .accepting ∧ u.nextId = t.nextId ∧
        ∃ s, t.pc = .connecting s) : Serves t e u

theorem step_serves {e : AcceptEvent} (h : t.step a e = some u) : Serves t e u := by
  unfold AcceptLoop.step at h
  split at h
  case h_1 src hpc =>
    obtain rfl := Option.some.inj h
    cases src with
    | none => exact .quiet _ _ (by simp) rfl rfl (.inl ⟨_,rfl⟩)
    | some src =>
      have hbuild : (AcceptLoop.buildChain a { t with nextId := t.nextId + 1 }) = t.buildChain a := rfl
      rcases hb : t.buildChain a with _ | _ | chain
      all_goals simp only [AcceptLoop.onAccepted, hbuild, hb]
      · exact .accepted src a.remoteEp _ hpc rfl rfl rfl (.inl ⟨_,rfl⟩)
      · exact .accepted src a.remoteEp _ hpc rfl rfl rfl (.inl ⟨_,rfl⟩)
      · exact .accepted src a.remoteEp _ hpc rfl rfl rfl (.inr ⟨chain,buildProcessorChain_silent hb,rfl⟩)
  case h_2 hpc =>
    obtain rfl := Option.some.inj h
    exact .quiet _ _ (by simp) rfl rfl (.inl ⟨_,rfl⟩)
  case h_3 s hpc =>
    obtain rfl := Option.some.inj h
    exact .connected s hpc
  case h_4 s hpc =>
    obtain rfl := Option.some.inj h
    exact .quiet _ _ (by simp) rfl rfl (.inr ⟨rfl,rfl,s,hpc⟩)
  case h_5 i e =>
    rcases hs : t.sessions[i]? with _ | s
    · simp [hs] at h
    · simp only [hs] at h
      obtain ⟨s',hs',rfl⟩ := Option.map_eq_some_iff.mp h
      exact .session i e s s' hs hs'
  case h_6 => cases h

/-- The identifiers of the clients accepted so far. -/
def ids (t : AcceptLoop) : List UInt64 := t.connNew.map ConnNew.id

/-- The sessions with the one whose connect is under way. -/
def owners (t : AcceptLoop) : List UInt64 :=
  match t.pc with
  | .connecting s => t.sessions.map SessionState.id ++ [s.id]
  | _ => t.sessions.map SessionState.id

/-- The records of an identifier. -/
def recordsOf (u : UInt64) (log : List (LogRecord Rate)) : List (LogRecord Rate) := log.filter (LogRecord.id · = u)

/-- Every client has an identifier of its own, and the records under it are those of its session. -/
structure Logged (rate : UInt64 → ℕ → Rate) (p : TunnelProcess Rate) : Prop where
  numbered : ids p.accept = (List.range p.accept.connNew.length).map UInt64.ofNat
  next : (∀ how, p.accept.pc ≠ .ended how) → p.accept.nextId = UInt64.ofNat p.accept.connNew.length
  owned : (owners p.accept).Sublist (ids p.accept)
  waiting : ∀ s, p.accept.pc = .connecting s → ∃ id chain, s = .startSession id chain ∧ chain.Silent
  known : ∀ r ∈ p.log, r.id ∈ ids p.accept
  news : ∀ n, .connNew n ∈ p.log → n ∈ p.accept.connNew
  fresh : ∀ i, p.accept.sessions.length ≤ i → p.statLoop i = {}
  journal : ∀ i s, p.accept.sessions[i]? = some s → Journal rate s (p.statLoop i) (recordsOf s.id p.log)
  unstarted : ∀ u ∈ ids p.accept, u ∉ p.accept.sessions.map SessionState.id → ∃ n, recordsOf u p.log = [.connNew n]

theorem recordsOf_append {u : UInt64} {log rs : List (LogRecord Rate)} (h : ∀ r ∈ rs, r.id = u) :
    recordsOf u (log ++ rs) = recordsOf u log ++ rs := by
  rw [recordsOf, List.filter_append, List.filter_eq_self.mpr fun r hr => decide_eq_true (h r hr)]
  rfl

theorem recordsOf_append_of_ne {u v : UInt64} {log rs : List (LogRecord Rate)} (h : ∀ r ∈ rs, r.id = v) (hne : v ≠ u) :
    recordsOf u (log ++ rs) = recordsOf u log := by
  have hnone : rs.filter (LogRecord.id · = u) = [] :=
    List.filter_eq_nil_iff.mpr fun r hr => by simpa [h r hr] using hne
  rw [recordsOf, List.filter_append, hnone, List.append_nil]
  rfl

/-- No more than 2^64 clients are told apart by their numbers. -/
theorem nodup_numbers {n : ℕ} (hn : n ≤ UInt64.size) : ((List.range n).map UInt64.ofNat).Nodup := by
  refine List.nodup_range.map_on fun i hi j hj hij => ?_
  have hlt : ∀ k ∈ List.range n, (UInt64.ofNat k).toNat = k := fun k hk =>
    UInt64.toNat_ofNat_of_lt' ((List.mem_range.mp hk).trans_le hn)
  rw [← hlt i hi, ← hlt j hj, hij]

theorem Logged.nodup (h : p.Logged rate) (hn : p.accept.connNew.length ≤ UInt64.size) : (ids p.accept).Nodup :=
  h.numbered ▸ nodup_numbers hn

theorem sublist_owners (t : AcceptLoop) : (t.sessions.map SessionState.id).Sublist (owners t) := by
  unfold owners
  split
  · exact List.sublist_append_left _ _
  · exact List.Sublist.refl _

theorem Logged.mem_ids (h : p.Logged rate) {i : ℕ} {s : SessionState} (hi : p.accept.sessions[i]? = some s) :
    s.id ∈ ids p.accept :=
  ((sublist_owners _).trans h.owned).subset (List.mem_map_of_mem (List.mem_of_getElem? hi))

/-- Two sessions have two identifiers. -/
theorem Logged.apart (h : p.Logged rate) (hn : (ids p.accept).Nodup) {i j : ℕ} {s s' : SessionState}
    (hi : p.accept.sessions[i]? = some s) (hj : p.accept.sessions[j]? = some s') (hne : i ≠ j) : s.id ≠ s'.id := by
  intro hid
  have hnodup := hn.sublist ((sublist_owners _).trans h.owned)
  have hi' := congrArg (Option.map SessionState.id) hi
  have hj' := congrArg (Option.map SessionState.id) hj
  rw [← List.getElem?_map] at hi' hj'
  obtain ⟨hlt,-⟩ := List.getElem?_eq_some_iff.mp hi'
  exact hne ((List.getElem?_inj hlt hnodup).mp (hi'.trans ((congrArg some hid).trans hj'.symm)))

/-- A session and its stat loop write their own records only. -/
theorem Logged.update (h : p.Logged rate) (hn : (ids p.accept).Nodup) {i : ℕ} {s s' : SessionState} {l : StatLoop}
    {rs : List (LogRecord Rate)} (hi : p.accept.sessions[i]? = some s) (hid : s'.id = s.id) (hrs : ∀ r ∈ rs, r.id = s.id)
    (hnew : ∀ n, .connNew n ∉ rs) (hj : Journal rate s' l (recordsOf s.id p.log ++ rs)) :
    Logged rate
      { accept := { p.accept with sessions := p.accept.sessions.set i s' }
        statLoop := Function.update p.statLoop i l
        log := p.log ++ rs } := by
  have hlt : i < p.accept.sessions.length := (List.getElem?_eq_some_iff.mp hi).1
  have hsame : (p.accept.sessions.set i s').map SessionState.id = p.accept.sessions.map SessionState.id := by
    have hget : s = p.accept.sessions[i] := (List.getElem?_eq_some_iff.mp hi).2.symm
    rw [List.map_set, hid, hget, ← List.getElem_map SessionState.id (h := by simpa using hlt), List.set_getElem_self]
  have howners : owners { p.accept with sessions := p.accept.sessions.set i s' } = owners p.accept := by
    simp only [owners, hsame]
  refine ⟨h.numbered,h.next,howners ▸ h.owned,h.waiting,fun r hr => ?_,fun n hr => ?_,fun j hj' => ?_,
    fun j z hz => ?_,fun u hu hnot => ?_⟩
  · rcases List.mem_append.mp hr with hr | hr
    · exact h.known r hr
    · exact hrs r hr ▸ h.mem_ids hi
  · rcases List.mem_append.mp hr with hr | hr
    · exact h.news n hr
    · exact absurd hr (hnew n)
  · rw [List.length_set] at hj'
    have hij : j ≠ i := by omega
    exact (Function.update_of_ne hij _ _).trans (h.fresh j hj')
  · by_cases hij : i = j
    · subst hij
      rw [List.getElem?_set_self hlt] at hz
      obtain rfl := Option.some.inj hz
      change Journal rate s' (Function.update p.statLoop i l i) (recordsOf s'.id (p.log ++ rs))
      rw [Function.update_self, hid, recordsOf_append hrs]
      exact hj
    · rw [List.getElem?_set_ne hij] at hz
      change Journal rate z (Function.update p.statLoop i l j) (recordsOf z.id (p.log ++ rs))
      rw [Function.update_of_ne (Ne.symm hij), recordsOf_append_of_ne hrs (h.apart hn hi hz hij)]
      exact h.journal j z hz
  · rw [hsame] at hnot
    have hne : s.id ≠ u := by
      rintro rfl
      exact hnot (List.mem_map_of_mem (List.mem_of_getElem? hi))
    change ∃ n, recordsOf u (p.log ++ rs) = [.connNew n]
    rw [recordsOf_append_of_ne hrs hne]
    exact h.unstarted u hu hnot

theorem owners_of_idle {t : AcceptLoop} (h : ∀ s, t.pc ≠ .connecting s) : owners t = t.sessions.map SessionState.id := by
  unfold owners
  split
  · exact absurd ‹_› (h _)
  · rfl

/-- A client that is accepted is given the next number, and has one record. -/
theorem Logged.accepted (h : p.Logged rate) (hpc : p.accept.pc = .accepting) {n : ConnNew} (hid : n.id = p.accept.nextId)
    (hnew : u.connNew = p.accept.connNew ++ [n]) (hs : u.sessions = p.accept.sessions)
    (hnext : u.nextId = p.accept.nextId + 1) (hsize : u.connNew.length ≤ UInt64.size)
    (hu : (∃ how, u.pc = .ended how) ∨ ∃ chain : ProcessorChain ProcessorPtr, chain.Silent ∧
      u.pc = .connecting (.startSession p.accept.nextId chain)) :
    Logged rate { p with accept := u, log := p.log ++ [.connNew n] } := by
  have hnow := h.next (by simp [hpc])
  have hids : ids u = ids p.accept ++ [n.id] := by rw [ids, hnew, List.map_append]; rfl
  have hlen : u.connNew.length = p.accept.connNew.length + 1 := by rw [hnew]; simp
  have hnumbered : ids u = (List.range u.connNew.length).map UInt64.ofNat := by
    rw [hids, h.numbered, hlen, List.range_succ, List.map_append, hid, hnow]
    rfl
  have hfresh : n.id ∉ ids p.accept := by
    have hnodup : (ids u).Nodup := hnumbered ▸ nodup_numbers hsize
    rw [hids] at hnodup
    exact fun hmem => (List.nodup_append.mp hnodup).2.2 _ hmem _ (List.mem_singleton_self _) rfl
  have hne : ∀ v ∈ ids p.accept, n.id ≠ v := fun v hv hnv => hfresh (hnv ▸ hv)
  have hown : (p.accept.sessions.map SessionState.id).Sublist (ids p.accept) := (sublist_owners _).trans h.owned
  have hrecord : ∀ r ∈ ([.connNew n] : List (LogRecord Rate)), r.id = n.id := by simp [LogRecord.id]
  refine ⟨hnumbered,fun hrun => ?_,?_,fun s hpcs => ?_,fun r hr => ?_,fun m hm => ?_,fun i hi => ?_,fun i s hi => ?_,
    fun v hv hnot => ?_⟩
  · rw [hnext, hlen, hnow, UInt64.ofNat_add]
    rfl
  · change (owners u).Sublist (ids u)
    rw [hids]
    rcases hu with ⟨how,hpcu⟩ | ⟨chain,-,hpcu⟩
    · rw [owners_of_idle (by simp [hpcu]), hs]
      exact hown.trans (List.sublist_append_left _ _)
    · rw [owners, hpcu, hs]
      refine hown.append ?_
      rw [hid]
      exact List.Sublist.refl _
  · rcases hu with ⟨how,hpcu⟩ | ⟨chain,hc,hpcu⟩
    · cases hpcs.symm.trans hpcu
    · cases hpcs.symm.trans hpcu
      exact ⟨_,chain,rfl,hc⟩
  · change r.id ∈ ids u
    rw [hids]
    rcases List.mem_append.mp hr with hr | hr
    · exact List.mem_append_left _ (h.known r hr)
    · exact List.mem_append_right _ (List.mem_singleton.mpr (hrecord r hr))
  · change m ∈ u.connNew
    rw [hnew]
    rcases List.mem_append.mp hm with hm | hm
    · exact List.mem_append_left _ (h.news m hm)
    · exact List.mem_append_right _ (by simpa using hm)
  · exact h.fresh i (hs ▸ hi)
  · change u.sessions[i]? = some s at hi
    rw [hs] at hi
    change Journal rate s (p.statLoop i) (recordsOf s.id (p.log ++ _))
    rw [recordsOf_append_of_ne hrecord (hne _ (h.mem_ids hi))]
    exact h.journal i s hi
  · change v ∈ ids u at hv
    change v ∉ u.sessions.map SessionState.id at hnot
    change ∃ m, recordsOf v (p.log ++ _) = _
    rw [hids] at hv
    rw [hs] at hnot
    rcases List.mem_append.mp hv with hv | hv
    · rw [recordsOf_append_of_ne hrecord (hne v hv)]
      exact h.unstarted v hv hnot
    · obtain rfl := List.mem_singleton.mp hv
      have hnone : recordsOf n.id p.log = [] :=
        List.filter_eq_nil_iff.mpr fun r hr => by simpa using fun he : r.id = n.id => hfresh (he ▸ h.known r hr)
      exact ⟨n,by rw [recordsOf_append hrecord, hnone, List.nil_append]⟩

/-- A session that starts has the record of its client, and a stat loop that has reported nothing. -/
theorem Logged.connected (h : p.Logged rate) (hn : (ids p.accept).Nodup) {s : SessionState} (hpc : p.accept.pc = .connecting s) :
    Logged rate { p with accept := { p.accept with pc := .accepting, sessions := p.accept.sessions ++ [s] } } := by
  obtain ⟨id,chain,rfl,hc⟩ := h.waiting s hpc
  have howned := h.owned
  simp only [owners, hpc] at howned
  have hmem : id ∈ ids p.accept := howned.subset (by simp [SessionState.startSession])
  have hnot : id ∉ p.accept.sessions.map SessionState.id := fun hm =>
    (List.nodup_append.mp (hn.sublist howned)).2.2 _ hm _ (List.mem_singleton_self _) rfl
  have hsessions : (p.accept.sessions ++ [SessionState.startSession id chain]).map SessionState.id =
      p.accept.sessions.map SessionState.id ++ [id] := by simp [SessionState.startSession]
  refine ⟨h.numbered,fun _ => h.next (by simp [hpc]),?_,by rintro _ ⟨⟩,h.known,h.news,fun i hi => ?_,fun i s hi => ?_,
    fun v hv hv' => h.unstarted v hv fun hm => hv' ?_⟩
  · rw [owners_of_idle (by simp)]
    exact hsessions ▸ howned
  · rw [List.length_append] at hi
    exact h.fresh i (by omega)
  · rcases Nat.lt_or_ge i p.accept.sessions.length with hlt | hge
    · rw [List.getElem?_append_left hlt] at hi
      exact h.journal i s hi
    · rw [List.getElem?_append_right hge, List.getElem?_singleton] at hi
      split_ifs at hi with hzero
      obtain rfl := Option.some.inj hi
      obtain ⟨n,hrecords⟩ := h.unstarted id hmem hnot
      change Journal rate _ (p.statLoop i) (recordsOf id p.log)
      rw [h.fresh i hge, hrecords]
      exact startSession_journal n id hc
  · rw [hsessions]
    exact List.mem_append_left _ hm

theorem Logged.quiet (h : p.Logged rate) (hnew : u.connNew = p.accept.connNew) (hs : u.sessions = p.accept.sessions)
    (hu : (∃ how, u.pc = .ended how) ∨ u.pc = .accepting ∧ u.nextId = p.accept.nextId ∧
      ∃ s, p.accept.pc = .connecting s) : Logged rate { p with accept := u } := by
  have hidle : ∀ s, u.pc ≠ .connecting s := by
    rintro s hpc
    rcases hu with ⟨how,hpcu⟩ | ⟨hpcu,-⟩ <;> cases hpc.symm.trans hpcu
  have hids : ids u = ids p.accept := congrArg (List.map ConnNew.id) hnew
  refine ⟨?_,fun hrun => ?_,?_,fun s hpc => absurd hpc (hidle s),?_,?_,?_,?_,?_⟩
  · rw [hids, hnew]
    exact h.numbered
  · rcases hu with ⟨how,hpcu⟩ | ⟨-,hnext,s,hpc⟩
    · exact absurd hpcu (hrun how)
    · rw [hnext, hnew]
      exact h.next (by simp [hpc])
  · rw [owners_of_idle hidle, hs, hids]
    exact (sublist_owners _).trans h.owned
  · rw [hids]
    exact h.known
  · rw [hnew]
    exact h.news
  · rw [hs]
    exact h.fresh
  · rw [hs]
    exact h.journal
  · rw [hs, hids]
    exact h.unstarted

theorem step_logged {e : TunnelEvent} (h : p.Logged rate) (hs : p.step rate a e = some q)
    (hn : q.accept.connNew.length ≤ UInt64.size) : q.Logged rate := by
  cases e with
  | accept e =>
    obtain ⟨u,hu,rfl⟩ := Option.map_eq_some_iff.mp hs
    cases step_serves hu with
    | accepted src dst _ hpc hnew hsessions hid hpcu =>
      have hlogged : (logged p.accept u (.accepted (some src)) : List (LogRecord Rate)) =
          [.connNew ⟨p.accept.nextId,src,dst⟩] := by
        simp [logged, hnew]
      rw [hlogged]
      exact h.accepted hpc rfl hnew hsessions hid hn hpcu
    | connected s hpc =>
      have hlogged : (logged p.accept { p.accept with pc := .accepting, sessions := p.accept.sessions ++ [s] }
          .connected : List (LogRecord Rate)) = [] := by simp [logged]
      rw [hlogged, List.append_nil]
      exact h.connected (h.nodup hn) hpc
    | session i e s s' hi hstep =>
      have hget : (p.accept.sessions.set i s')[i]? = some s' :=
        List.getElem?_set_self (List.getElem?_eq_some_iff.mp hi).1
      have hlogged : (logged p.accept { p.accept with sessions := p.accept.sessions.set i s' } (.session i e) :
          List (LogRecord Rate)) = (s'.connClose.drop s.connClose.length).map .connClose := by simp only [logged, hi, hget]
      have hj := h.journal i s hi
      have hid := SessionState.step_id hstep
      have hrecord : ∀ r ∈ ((s'.connClose.drop s.connClose.length).map .connClose : List (LogRecord Rate)), r.id = s.id := by
        intro r hr
        obtain ⟨c,hc,rfl⟩ := List.mem_map.mp hr
        have hall := List.mem_of_mem_drop hc
        rw [(hj.session hstep).inv.connClose] at hall
        split_ifs at hall
        · rw [List.mem_singleton.mp hall]
          exact hid
        · cases hall
      have hnone : ∀ n, .connNew n ∉ ((s'.connClose.drop s.connClose.length).map .connClose : List (LogRecord Rate)) := by
        intro n hmem
        obtain ⟨c,-,hc⟩ := List.mem_map.mp hmem
        cases hc
      rw [hlogged]
      have hupdate := h.update (h.nodup hn) hi hid hrecord hnone (hj.session hstep)
      rwa [Function.update_eq_self] at hupdate
    | quiet _ _ he hnew hsessions hpcu =>
      have hlogged : (logged p.accept u e : List (LogRecord Rate)) = [] := by
        cases e with
        | session i e => exact absurd rfl (he i e)
        | accepted | acceptFailed | connected | connectFailed => simp [logged, hnew]
      rw [hlogged, List.append_nil]
      exact h.quiet hnew hsessions hpcu
  | timer i ec dt =>
    simp only [step] at hs
    rcases hi : p.accept.sessions[i]? with _ | s <;> simp only [hi] at hs
    · cases hs
    · split_ifs at hs with hended
      obtain rfl := Option.some.inj hs
      have hrecord : ∀ r ∈ ((p.statLoop i).step rate s ec dt).2.map LogRecord.stat, r.id = s.id := by
        intro r hr
        obtain ⟨c,hc,rfl⟩ := List.mem_map.mp hr
        rw [StatLoop.step] at hc
        split_ifs at hc
        · cases hc
        · rw [List.mem_singleton.mp hc]
          rfl
        · cases hc
      have hset : p.accept.sessions.set i s = p.accept.sessions := by
        obtain ⟨hlt,hget⟩ := List.getElem?_eq_some_iff.mp hi
        rw [← hget, List.set_getElem_self]
      have hupdate := h.update (h.nodup hn) hi rfl hrecord (by simp) ((h.journal i s hi).timer ec dt)
      rwa [hset] at hupdate

/-- The number of clients only grows. -/
theorem step_connNew {e : TunnelEvent} (hs : p.step rate a e = some q) :
    p.accept.connNew.length ≤ q.accept.connNew.length := by
  cases e with
  | accept e =>
    obtain ⟨u,hu,rfl⟩ := Option.map_eq_some_iff.mp hs
    cases step_serves hu with
    | accepted src dst _ _ hnew => simp [hnew]
    | connected | session => exact le_rfl
    | quiet _ _ _ hnew => simp [hnew]
  | timer i ec dt =>
    simp only [step] at hs
    split at hs
    · cases hs
    · split_ifs at hs
      obtain rfl := Option.some.inj hs
      exact le_rfl

theorem run_logged {events : List TunnelEvent} (hrun : run (step rate a) {} events = some p)
    (hn : p.accept.connNew.length ≤ UInt64.size) : p.Logged rate := by
  refine run_invariant (P := fun p : TunnelProcess Rate => p.accept.connNew.length ≤ UInt64.size → p.Logged rate) hrun (fun _ => ?_)
    (fun h hs hle => step_logged (h ((step_connNew hs).trans hle)) hs hle) hn
  exact ⟨rfl,fun _ => rfl,List.Sublist.refl _,nofun,nofun,nofun,fun _ _ => rfl,nofun,nofun⟩

theorem Logged.numbered_get (h : p.Logged rate) {k : ℕ} (hk : k < p.accept.connNew.length) :
    (ids p.accept)[k]? = some (UInt64.ofNat k) := by
  rw [h.numbered, List.getElem?_map, List.getElem?_range hk]
  rfl

/-- The record of a client is the one it was accepted with. -/
theorem Logged.client (h : p.Logged rate) (hn : p.accept.connNew.length ≤ UInt64.size) {k : ℕ}
    (hk : k < p.accept.connNew.length) {n : ConnNew} {rest : List (LogRecord Rate)}
    (hr : recordsOf (UInt64.ofNat k) p.log = .connNew n :: rest) : p.accept.connNew[k]? = some n := by
  obtain ⟨hlog,hid⟩ := List.mem_filter.mp (hr ▸ List.mem_cons_self .. : LogRecord.connNew n ∈ recordsOf _ p.log)
  obtain ⟨j,hj⟩ := List.mem_iff_getElem?.mp (h.news n hlog)
  have hjid : (ids p.accept)[j]? = some (UInt64.ofNat k) := by
    rw [ids, List.getElem?_map, hj]
    exact congrArg some (of_decide_eq_true hid)
  have hlen : k < (ids p.accept).length := by rwa [ids, List.length_map]
  have hkj := (List.getElem?_inj hlen (h.nodup hn)).mp ((h.numbered_get hk).trans hjid.symm)
  exact hkj ▸ hj

/-- Take any run of the accept loop, the read loops and the stat loops of a tunnel with at
most 2^64 clients, whatever fails and however a rate is rounded. The log has no record but
those of the clients. The records of a client begin with the one of its accept; one without
a session has no other. Behind it come the stat records of its session, and last, exactly
when both its loops are over, the one with the counters. A stat record has the rates of
what was counted in a time. As long as the counters do not overflow these counts, which are
not themselves in the log, add up to no more than the counters, and these say no more than
was written. -/
theorem log_accounts {events : List TunnelEvent} (hrun : run (step rate a) {} events = some p)
    (hn : p.accept.connNew.length ≤ UInt64.size) :
    (∀ r ∈ p.log, ∃ k < p.accept.connNew.length, r.id = UInt64.ofNat k) ∧
    ∀ k < p.accept.connNew.length, ∃ n, p.accept.connNew[k]? = some n ∧
      ((recordsOf (UInt64.ofNat k) p.log = [.connNew n] ∧ ∀ s ∈ p.accept.sessions, s.id ≠ UInt64.ofNat k) ∨
        ∃ s ∈ p.accept.sessions, ∃ vs closes, s.id = UInt64.ofNat k ∧
          recordsOf (UInt64.ofNat k) p.log = .connNew n :: List.map (Interval.record rate s.id) vs ++ closes ∧
          ((∀ t, (s.loop t).pc = .ended) → closes = [.connClose s.logConnClose]) ∧
          ((∃ t, (s.loop t).pc ≠ .ended) → closes = []) ∧ (∀ v ∈ vs, 0 < v.dt) ∧
          ∀ t, (s.sock t.opposite).written.length < UInt64.size →
            (vs.map fun v => (v.bytes t).toNat).sum ≤ (s.loop t).bytes.toNat ∧
            (s.loop t).bytes.toNat ≤ (s.sock t.opposite).written.length) := by
  have h := run_logged hrun hn
  refine ⟨fun r hr => ?_,fun k hk => ?_⟩
  · obtain ⟨k,hk⟩ := List.mem_iff_getElem?.mp (h.known r hr)
    obtain ⟨hlt,-⟩ := List.getElem?_eq_some_iff.mp hk
    rw [ids, List.length_map] at hlt
    exact ⟨k,hlt,Option.some.inj (hk.symm.trans (h.numbered_get hlt))⟩
  · by_cases hs : UInt64.ofNat k ∈ p.accept.sessions.map SessionState.id
    · obtain ⟨s,hmem,hid⟩ := List.mem_map.mp hs
      obtain ⟨i,hi⟩ := List.mem_iff_getElem?.mp hmem
      have hj := h.journal i s hi
      obtain ⟨n,vs,hrecords,hpos,hreported⟩ := hj.records
      have hclient : recordsOf (UInt64.ofNat k) p.log =
          .connNew n :: List.map (Interval.record rate s.id) vs ++ s.connClose.map .connClose := hid ▸ hrecords
      refine ⟨n,h.client hn hk hclient,.inr ⟨s,hmem,vs,_,hid,hclient,fun hall => ?_,?_,hpos,fun t ht => ?_⟩⟩
      · rw [hj.inv.connClose, if_pos (s.endedCount_eq_two.mpr hall)]
        rfl
      · rintro ⟨t,ht⟩
        rw [hj.inv.connClose, if_neg fun htwo => ht (s.endedCount_eq_two.mp htwo t)]
        rfl
      · obtain ⟨hsum,hle⟩ := hreported t ht
        exact ⟨hsum ▸ hle,(hj.tallied t).bytes_le ht⟩
    · obtain ⟨n,hrecords⟩ := h.unstarted _ (List.mem_of_getElem? (h.numbered_get hk)) hs
      exact ⟨n,h.client hn hk hrecords,.inl ⟨hrecords,fun s hmem hid => hs (List.mem_map.mpr ⟨s,hmem,hid⟩)⟩⟩

/-- The rates of the run below as `{:.0}` writes them: no byte, and one in five seconds. -/
def knownRate (count : UInt64) (dt : ℕ) : ByteVector :=
  if count = 1 ∧ dt = 5000000000 then text "0.2" else text "0"

/-- One client sends a byte, of which there is a stat record, and both sides come to their end;
the connect for another one fails. -/
def oneByteLogged : List TunnelEvent :=
  [.accept (.accepted (some ⟨"127.0.0.1",40000⟩)), .accept .connected] ++
    (SessionState.oneByteEvents.take 6).map (fun e => .accept (.session 0 e)) ++ [.timer 0 false 5000000000] ++
    (SessionState.oneByteEvents.drop 6).map (fun e => .accept (.session 0 e)) ++
    [.accept (.accepted (some ⟨"127.0.0.1",40001⟩)), .timer 0 false 5000000000, .accept .connectFailed]

theorem log_accounts_oneByteLogged : ∃ p, run (step knownRate AcceptLoop.plainArgs) {} oneByteLogged = some p ∧
    p.log = [.connNew ⟨0,⟨"127.0.0.1",40000⟩,⟨"127.0.0.1",7002⟩⟩, .stat ⟨0,text "0",text "0.2"⟩, .connClose ⟨0,0,1⟩,
      .connNew ⟨1,⟨"127.0.0.1",40001⟩,⟨"127.0.0.1",7002⟩⟩] ∧
    ∀ r ∈ p.log, ∃ k < p.accept.connNew.length, r.id = UInt64.ofNat k := by
  obtain ⟨p,hrun,hlog,hlen⟩ : ∃ p, run (step knownRate AcceptLoop.plainArgs) {} oneByteLogged = some p ∧
      p.log = [.connNew ⟨0,⟨"127.0.0.1",40000⟩,⟨"127.0.0.1",7002⟩⟩, .stat ⟨0,text "0",text "0.2"⟩, .connClose ⟨0,0,1⟩,
        .connNew ⟨1,⟨"127.0.0.1",40001⟩,⟨"127.0.0.1",7002⟩⟩] ∧ p.accept.connNew.length = 2 :=
    ⟨_,rfl,rfl,rfl⟩
  exact ⟨p,hrun,hlog,(log_accounts hrun (hlen ▸ by decide)).1⟩

end TunnelProcess

end Journal

end Msg801.Tunnel
