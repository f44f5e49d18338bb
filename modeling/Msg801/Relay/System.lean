import Msg801.Relay.Forwarding
import Msg801.Relay.Wire

/-! # The three nodes together

B, A and C, with B and C registered under one identifier. The frames B and C write reach A
whole and in their order, and so do the frames A writes, behind `READY`. The rest of the
steps of the three nodes interleave as they like.
-/
namespace Msg801.Relay
open Transition

/-- The three nodes, with what A has read from its peers under the identifier. -/
structure System where
  visitor : Visitor := {}
  server : Server := {}
  provider : Provider := {}
  read : Role → List Frame := fun _ => []

inductive SystemEvent where
  | visitor (e : VisitorEvent)
  | server (e : ServerEvent)
  | provider (e : ProviderEvent)
  deriving DecidableEq

namespace System

def step (id : MatchId) (s : System) : SystemEvent → Option System
  | .visitor e => (s.visitor.step e).map fun v => { s with visitor := v }
  | .server e => (s.server.step e).map fun a => { s with
      server := a
      read := fun r => s.read r ++ Server.framesRead id r e }
  | .provider e => (s.provider.step e).map fun p => { s with provider := p }

/-- What A has written to a peer. -/
def received (s : System) (id : MatchId) (r : Role) : List Frame := ((s.server.pairOf id).peer r).received

/-- What a node has written to A. -/
def wire (s : System) : Role → List Frame
  | .b => s.visitor.wire
  | .c => s.provider.wire

/-- What the reader of a node has taken from A. -/
def frames (s : System) : Role → List Frame
  | .b => s.visitor.frames
  | .c => s.provider.frames

/-- Every frame read is the next one written on its connection; the identifiers of the
sessions are distinct and have their length. -/
def Delivers (id : MatchId) (s : System) : SystemEvent → Prop
  | .visitor (.read (.frame f)) => s.visitor.frames ++ [f] <+: (s.received id .b).tail
  | .visitor (.accept uuid) => s.visitor.sessions.Fresh uuid ∧ uuid.length = UUID_BYTES
  | .provider (.read (.frame f)) => s.provider.frames ++ [f] <+: (s.received id .c).tail
  | .server e => ∀ r, s.read r ++ Server.framesRead id r e <+: s.wire r
  | _ => True

instance (id : MatchId) (s : System) (e : SystemEvent) : Decidable (s.Delivers id e) :=
  match e with
  | .visitor (.read (.frame _)) | .provider (.read (.frame _)) => inferInstanceAs (Decidable (_ <+: _))
  | .visitor (.accept _) => inferInstanceAs (Decidable (_ ∧ _))
  | .server _ => decidable_of_iff _ (Role.forall_iff .b).symm
  | .visitor (.read .nullopt) | .visitor (.read .thrown) | .visitor .acceptFailed | .visitor (.transferred _)
  | .visitor .writeFailed | .visitor .closeWritten | .visitor .closeSent | .visitor (.session _ _)
  | .visitor (.transmit _) | .provider (.read .nullopt) | .provider (.read .thrown) | .provider (.transferred _)
  | .provider .writeFailed | .provider (.session _ _) | .provider (.transmit _) => inferInstanceAs (Decidable True)

/-- What has come through to each node, and what the nodes say of themselves. -/
structure Joined (id : MatchId) (s : System) : Prop where
  visitor : s.visitor.Posted
  provider : s.provider.Posted
  ledger : ∀ r, Server.Ledger id r (s.read r) s.server
  up : ∀ r, s.read r <+: s.wire r
  down : ∀ r, s.frames r <+: (s.received id r).tail

variable {id : MatchId} {s t : System} {e : SystemEvent}

/-- What A writes to one node is, translated, what the other has written, and `EOF_` frames. -/
theorem Joined.carried (h : s.Joined id) (r : Role) : ∃ fs n, fs <+: s.wire r ∧
    (s.received id r.opposite).tail = fs.map (translate r) ++ List.replicate n eofFrame := by
  rcases (h.ledger r).conveys.received with hr | ⟨fs,n,hfs,hr⟩
  · exact ⟨[],0,List.nil_prefix,by rw [received, hr]; rfl⟩
  · exact ⟨fs,n,hfs.trans (h.up r),by rw [received, hr]; rfl⟩

theorem Joined.of_received (h : s.Joined id) {r : Role} {g : Frame} (hg : g ∈ (s.received id r.opposite).tail) :
    g = eofFrame ∨ ∃ f ∈ s.wire r, g = translate r f := by
  obtain ⟨fs,n,hfs,hr⟩ := h.carried r
  rw [hr] at hg
  rcases List.mem_append.mp hg with hg | hg
  · obtain ⟨f,hf,rfl⟩ := List.mem_map.mp hg
    exact .inr ⟨f,hfs.subset hf,rfl⟩
  · exact .inl (List.eq_of_mem_replicate hg)

theorem translate_c (f : Frame) : translate .c f = f := by
  rw [translate, if_neg (fun h => by cases h.2)]

/-- B never writes `FORWARD_SESSION`. -/
theorem Joined.not_forward (h : s.Joined id) {f : Frame} (hf : f ∈ s.visitor.wire) : f.method ≠ .forwardSession := by
  rcases h.visitor.wire f hf with hm | ⟨i,hi,hsub⟩
  · simp [hm]
  · rcases (h.visitor.pumps i hi).mem hsub with rfl | ⟨d,rfl⟩ | rfl <;>
      simp [newSessionFrame, dataFrame, dataEofFrame]

/-- A session C is told of was announced by B. -/
theorem Joined.announced (h : s.Joined id) {g : Frame} (hg : g ∈ (s.received id .c).tail)
    (hm : g.method = .forwardSession) : ∃ i < s.visitor.sessions.count, s.visitor.sessions.key i = g.body := by
  rcases h.of_received (r := .b) hg with rfl | ⟨f,hf,rfl⟩
  · cases hm
  · have hnew : f.method = .newSession := by
      by_contra hne
      rw [translate, if_neg fun h => hne h.1] at hm
      exact h.not_forward hf hm
    have hbody : (translate .b f).body = f.body := by
      rw [translate]
      split_ifs <;> rfl
    obtain ⟨i,hi,hk,-⟩ := h.visitor.announcer f.body
      (List.mem_filterMap.mpr ⟨f,hf,by rw [announcement, if_pos hnew]⟩)
    exact ⟨i,hi,hk.trans hbody.symm⟩

/-- A frame B is sent is for a session B has. -/
theorem Joined.answered (h : s.Joined id) {g : Frame} (hg : g ∈ (s.received id .b).tail) {u : Uuid}
    (hk : visitorKey g = some u) : ∃ i < s.visitor.sessions.count, s.visitor.sessions.key i = u := by
  rcases h.of_received (r := .c) hg with rfl | ⟨f,hf,rfl⟩
  · simp [eofFrame, visitorKey, UUID_BYTES] at hk
  · rw [translate_c] at hk
    obtain ⟨j,hj,hkj⟩ := h.provider.keyed f hf
    obtain ⟨f',hf',hm,hbody⟩ := h.provider.forwarded j hj
    obtain ⟨i,hi,hki⟩ := h.announced ((h.down .c).subset hf') hm
    exact ⟨i,hi,hki.trans (hbody.trans (Option.some.inj (hkj.symm.trans hk)))⟩

/-- The session a `FORWARD_SESSION` frame is for. -/
def forwarding (f : Frame) : Option Uuid := if f.method = .forwardSession then some f.body else none

/-- A tells C of every session once. -/
theorem Joined.forwarded (h : s.Joined id) : ((s.received id .c).tail.filterMap forwarding).Nodup := by
  obtain ⟨fs,n,hfs,hr⟩ := h.carried .b
  have hframe : ∀ f ∈ fs, forwarding (translate .b f) = announcement f := by
    intro f hf
    have hne := h.not_forward (hfs.subset hf)
    rw [translate, forwarding, announcement]
    by_cases hm : f.method = .newSession
    · simp [hm]
    · simp [hm, hne]
  have hnone : (List.replicate n eofFrame).filterMap forwarding = [] :=
    List.filterMap_eq_nil_iff.mpr fun f hf => by rw [List.eq_of_mem_replicate hf]; rfl
  have htail : (s.received id .c).tail.filterMap forwarding = fs.filterMap announcement := by
    change (s.received id Role.b.opposite).tail.filterMap forwarding = _
    rw [hr, List.filterMap_append, hnone, List.append_nil, List.filterMap_map]
    exact List.filterMap_congr hframe
  rw [htail]
  exact h.visitor.announced.sublist (hfs.sublist.filterMap announcement)

/-- What C takes next from A is for a session it does not have yet. -/
theorem Joined.provider_sized (h : s.Joined id) {e : ProviderEvent} (hd : s.Delivers id (.provider e)) :
    s.provider.Sized e := by
  cases e with
  | read r =>
    cases r with
    | frame f =>
      intro hm
      have hmem : f ∈ (s.received id .c).tail := hd.subset (List.mem_append_right _ (List.mem_singleton_self f))
      obtain ⟨i,hi,hk⟩ := h.announced hmem hm
      refine ⟨fun j hj hkj => ?_,hk ▸ h.visitor.sized i hi⟩
      obtain ⟨g,hg,hmg,hbody⟩ := h.provider.forwarded j hj
      have hnodup := h.forwarded.sublist (hd.sublist.filterMap forwarding)
      rw [List.filterMap_append, List.nodup_append] at hnodup
      refine hnodup.2.2 f.body (List.mem_filterMap.mpr ⟨g,hg,?_⟩) f.body (List.mem_filterMap.mpr ⟨f,by simp,?_⟩) rfl
      · rw [forwarding, if_pos hmg, hbody, hkj]
      · rw [forwarding, if_pos hm]
    | _ => trivial
  | _ => trivial

theorem Joined.visitor_sized (h : s.Joined id) {e : VisitorEvent} (hd : s.Delivers id (.visitor e)) :
    s.visitor.Sized e := by
  cases e with
  | accept uuid =>
    refine ⟨⟨hd.1,fun g hg hk => ?_⟩,fun u hu => VisitorEvent.accept.inj hu ▸ hd.2⟩
    obtain ⟨i,hi,hki⟩ := h.answered ((h.down .b).subset hg) hk
    exact hd.1 i hi hki
  | _ => exact ⟨trivial,nofun⟩

theorem prefix_tail {α : Type*} {as bs : List α} (h : as <+: bs) : as.tail <+: bs.tail := by
  obtain ⟨cs,rfl⟩ := h
  cases as with
  | nil => exact List.nil_prefix
  | cons a as => exact List.prefix_append _ _

/-- What has come through is kept by every step that delivers the frames in their order. -/
theorem step_joined (h : s.Joined id) (hd : s.Delivers id e) (hs : s.step id e = some t) : t.Joined id := by
  cases e with
  | visitor e =>
    obtain ⟨v,hv,rfl⟩ := Option.map_eq_some_iff.mp hs
    have hup : s.visitor.wire <+: v.wire := by
      rcases Visitor.step_wire hv with ⟨hw,-⟩ | ⟨i,f,-,-,-,-,hw,-⟩ | ⟨i,hw,-⟩ 
      · exact hw ▸ List.prefix_rfl
      · exact hw ▸ List.prefix_append _ _
      · exact hw ▸ List.prefix_append _ _
    have hdown : v.frames <+: (s.received id .b).tail := by
      rcases Visitor.step_frames hv with hf | ⟨f,rfl,hf⟩ <;> rw [hf]
      · exact h.down .b
      · exact hd
    refine ⟨Visitor.step_posted h.visitor (h.visitor_sized hd) hv,h.provider,h.ledger,fun r => ?_,fun r => ?_⟩
    · cases r with
      | b => exact (h.up .b).trans hup
      | c => exact h.up .c
    · cases r with
      | b => exact hdown
      | c => exact h.down .c
  | server e =>
    obtain ⟨a,ha,rfl⟩ := Option.map_eq_some_iff.mp hs
    refine ⟨h.visitor,h.provider,fun r => Server.step_ledger (h.ledger r) ha,hd,fun r => ?_⟩
    exact (h.down r).trans (prefix_tail ((h.ledger r).received ha r))
  | provider e =>
    obtain ⟨p,hp,rfl⟩ := Option.map_eq_some_iff.mp hs
    have hup : s.provider.wire <+: p.wire := by
      rcases Provider.step_wire hp with ⟨hw,-⟩ | ⟨i,f,-,-,-,-,hw,-⟩ 
      · exact hw ▸ List.prefix_rfl
      · exact hw ▸ List.prefix_append _ _
    have hdown : p.frames <+: (s.received id .c).tail := by
      rcases Provider.step_frames hp with hf | ⟨f,rfl,hf⟩ <;> rw [hf]
      · exact h.down .c
      · exact hd
    refine ⟨h.visitor,Provider.step_posted h.provider (h.provider_sized hd) hp,h.ledger,fun r => ?_,fun r => ?_⟩
    · cases r with
      | b => exact h.up .b
      | c => exact (h.up .c).trans hup
    · cases r with
      | b => exact h.down .b
      | c => exact hdown

theorem empty_joined (id : MatchId) : ({} : System).Joined id := by
  have hno : ∀ {P : ℕ → Prop} (i : ℕ), i < 0 → P i := fun i hi => absurd hi (Nat.not_lt_zero i)
  refine ⟨⟨Visitor.empty_bounded,fun i _ hi => absurd hi (Nat.not_lt_zero i),hno,hno,hno,hno,nofun,List.nodup_nil,nofun⟩,
    ⟨fun i _ hi => absurd hi (Nat.not_lt_zero i),hno,hno,hno,hno,hno,hno,nofun,hno⟩,
    fun r => ⟨Server.fresh_inv,Server.fresh_staged,.untold⟩,fun r => List.nil_prefix,fun r => ?_⟩
  cases r <;> exact List.nil_prefix

theorem run_joined {events : List SystemEvent} (hrun : run (step id) {} events = some s)
    (hm : Meets (step id) (Delivers id) {} events) : s.Joined id :=
  (hm.reach hrun).invariant (empty_joined id) step_joined

/-- What reaches B is, as far as the frames go that are for a session, what C has written. -/
theorem Joined.prefix_wire (h : s.Joined id) {pre : List Frame} {g : Frame} (hpre : pre ++ [g] <+: s.visitor.frames)
    (hg : g ≠ eofFrame) : pre ++ [g] <+: s.provider.wire := by
  obtain ⟨fs,n,hfs,hr⟩ := h.carried .c
  have htail : pre ++ [g] <+: fs.map (translate .c) ++ List.replicate n eofFrame := hr ▸ hpre.trans (h.down .b)
  rw [List.map_congr_left fun f _ => translate_c f, List.map_id'] at htail
  refine List.IsPrefix.trans ?_ hfs
  rcases List.prefix_or_prefix_of_prefix htail (List.prefix_append fs _) with hp | ⟨gs,hgs⟩
  · exact hp
  · rcases List.eq_nil_or_concat gs with rfl | ⟨gs',g',rfl⟩
    · rw [List.append_nil] at hgs
      exact hgs ▸ List.prefix_rfl
    · -- behind the frames of C come only `EOF_` frames
      rw [← hgs, List.prefix_append_right_inj] at htail
      rw [List.concat_eq_append] at htail hgs
      have hmem := htail.subset (List.mem_append_right _ (List.mem_singleton_self g'))
      rw [← List.append_assoc] at hgs
      have hlast := List.singleton_inj.mp (List.append_inj' hgs rfl).2
      exact absurd (hlast.symm.trans (List.eq_of_mem_replicate hmem)) hg

theorem Joined.data_wire (h : s.Joined id) (u : Uuid) : dataOf u s.visitor.frames <+: dataOf u s.provider.wire := by
  obtain ⟨fs,n,hfs,hr⟩ := h.carried .c
  have htail := h.down .b
  change s.visitor.frames <+: (s.received id Role.c.opposite).tail at htail
  rw [hr, List.map_congr_left fun f _ => translate_c f, List.map_id'] at htail
  have hnone : dataOf u (List.replicate n eofFrame) = [] :=
    List.flatMap_eq_nil_iff.mpr fun f hf => by rw [List.eq_of_mem_replicate hf]; exact payload_of_ne_data u nofun
  have hdata := prefix_dataOf (u := u) htail
  rw [dataOf_append, hnone, List.append_nil] at hdata
  exact hdata.trans (prefix_dataOf hfs)

theorem Joined.data_prefix (h : s.Joined id) {j : ℕ} (hj : j < s.provider.sessions.count) :
    dataOf (s.provider.sessions.key j) s.visitor.frames <+: (s.provider.sessions.cell j).socket.read := by
  have hwire := h.data_wire (s.provider.sessions.key j)
  rw [← dataOf_filter _ s.provider.wire, h.provider.posted j hj] at hwire
  rw [← h.provider.reads j hj]
  exact hwire.trans (prefix_dataOf (h.provider.shipped j hj).1)

/-- All of it has come where its `DATA_EOF` has. -/
theorem Joined.data_eof (h : s.Joined id) {j : ℕ} (hj : j < s.provider.sessions.count) {pre : List Frame} {g : Frame}
    (hpre : pre ++ [g] <+: s.visitor.frames) (hg : g.method = .dataEof)
    (hk : visitorKey g = some (s.provider.sessions.key j)) :
    dataOf (s.provider.sessions.key j) pre = (s.provider.sessions.cell j).socket.read := by
  have hne : g ≠ eofFrame := by
    rintro rfl
    cases hg
  have hsent := (h.prefix_wire hpre hne).filter (visitorKey · = some (s.provider.sessions.key j))
  rw [h.provider.posted j hj, List.filter_append, List.filter_cons_of_pos (by simpa using hk), List.filter_nil] at hsent
  have hlast := (h.provider.speaks j hj).eof_last (hsent.trans (h.provider.shipped j hj).1) hg
  rw [← h.provider.reads j hj, ← hlast, dataOf_append, dataOf_filter, dataOf_singleton,
    payload_of_ne_data _ (by simp [hg]), List.append_nil]

/-- A frame that comes to B for a session is of a session of C. -/
theorem Joined.exists_source (h : s.Joined id) {g : Frame} (hg : g ∈ s.visitor.frames) {u : Uuid}
    (hk : visitorKey g = some u) : ∃ j < s.provider.sessions.count, s.provider.sessions.key j = u := by
  rcases h.of_received (r := .c) ((h.down .b).subset hg) with rfl | ⟨f,hf,rfl⟩
  · simp [eofFrame, visitorKey, UUID_BYTES] at hk
  · rw [translate_c] at hk
    obtain ⟨j,hj,hkj⟩ := h.provider.keyed f hf
    exact ⟨j,hj,Option.some.inj (hkj.symm.trans hk)⟩

/-- In every run of the three nodes, with any sessions under way, the client of a session has
been written a prefix of what C has read from the remote of that session, and is shut down
only when it has been written all of it; the client of a session that C does not have has
been written nothing. -/
theorem replies_delivered {events : List SystemEvent} (hrun : run (step id) {} events = some s)
    (hm : Meets (step id) (Delivers id) {} events) :
    s.visitor.sessions.Distinct ∧ s.provider.sessions.Distinct ∧ ∀ i < s.visitor.sessions.count,
      ((s.visitor.sessions.cell i).socket.written = [] ∧
        (s.visitor.sessions.cell i).socket.shutdownSend = false ∧
        ∀ j < s.provider.sessions.count, s.provider.sessions.key j ≠ s.visitor.sessions.key i) ∨
      ∃ j < s.provider.sessions.count, s.provider.sessions.key j = s.visitor.sessions.key i ∧
        (s.visitor.sessions.cell i).socket.written <+: (s.provider.sessions.cell j).socket.read ∧
        ((s.visitor.sessions.cell i).socket.shutdownSend = true →
          (s.visitor.sessions.cell i).socket.written = (s.provider.sessions.cell j).socket.read) := by
  have h := run_joined hrun hm
  refine ⟨h.visitor.distinct,h.provider.distinct,fun i hi => ?_⟩
  have hord := h.visitor.ordered i hi
  have hkept : (s.visitor.sessions.cell i).socket.written <+: dataOf (s.visitor.sessions.key i) s.visitor.frames :=
    (List.prefix_append _ _).trans hord.kept
  by_cases hex : ∃ j < s.provider.sessions.count, s.provider.sessions.key j = s.visitor.sessions.key i
  · obtain ⟨j,hj,hk⟩ := hex
    refine .inr ⟨j,hj,hk,hkept.trans (hk ▸ h.data_prefix hj),fun hshut => ?_⟩
    obtain ⟨pre,g,hpre,hg,hkg,hwritten⟩ := hord.shut hshut
    exact hwritten.trans (hk ▸ h.data_eof hj hpre hg (hk ▸ hkg))
  · have hnone : ∀ g ∈ s.visitor.frames, visitorKey g ≠ some (s.visitor.sessions.key i) := fun g hg hk =>
      hex (h.exists_source hg hk)
    refine .inl ⟨?_,?_,fun j hj hk => hex ⟨j,hj,hk⟩⟩
    · have hempty : dataOf (s.visitor.sessions.key i) s.visitor.frames = [] :=
        List.flatMap_eq_nil_iff.mpr fun g hg => payload_of_visitorKey_ne (hnone g hg)
      exact List.prefix_nil.mp (hempty ▸ hkept)
    · rw [← Bool.not_eq_true]
      intro hshut
      obtain ⟨pre,g,hpre,-,hkg,-⟩ := hord.shut hshut
      exact hnone g (hpre.subset (List.mem_append_right _ (List.mem_singleton_self g))) hkg

def uuidS : Uuid := text "886313e1-3b8a-4372-9b90-0c9aee199e5d"

/-- Both nodes register, and one session is opened. -/
def opened : List SystemEvent :=
  [.server .accept, .server .accept, .server (.register 0 Server.registerXB), .server (.register 1 Server.registerXC),
    .server (.writeOk 1), .server (.writeOk 1), .visitor (.accept uuidS), .visitor (.transmit 0),
    .server (.pair (text "x") (.pump .b (.read (buildFrameBytes .newSession uuidS)))),
    .server (.pair (text "x") (.pump .b .writeOk)), .visitor (.session 0 .sent),
    .provider (.read (.frame ⟨.forwardSession,uuidS⟩)), .provider (.session 0 (.connected true)),
    .provider (.transmit 0), .provider (.session 0 .sent)]

def uuidT : Uuid := text "0b4f4c0a-5d5e-4d0c-9a3c-0f0b6c1b7a11"

/-- A second client comes, and its session is opened behind the one that is there. -/
def second : List SystemEvent :=
  [.visitor (.accept uuidT), .visitor (.transmit 1),
    .server (.pair (text "x") (.pump .b (.read (buildFrameBytes .newSession uuidT)))),
    .server (.pair (text "x") (.pump .b .writeOk)), .visitor (.session 1 .sent),
    .provider (.read (.frame ⟨.forwardSession,uuidT⟩)), .provider (.session 1 (.connected true)),
    .provider (.transmit 1), .provider (.session 1 .sent)]

/-- Both remotes send, the one of the second session first. Its payload reaches its client,
and half of the other one the other client. -/
def answered : List SystemEvent :=
  opened ++ second ++ [.provider (.session 0 (.readSome (.data (text "ab")))),
    .provider (.session 1 (.readSome (.data (text "xy")))), .provider (.transmit 1), .provider (.transmit 0),
    .server (.pair (text "x") (.pump .c (.read (buildFrameBytes .sessionOk uuidS)))),
    .server (.pair (text "x") (.pump .c .writeOk)),
    .server (.pair (text "x") (.pump .c (.read (buildFrameBytes .sessionOk uuidT)))),
    .server (.pair (text "x") (.pump .c .writeOk)),
    .server (.pair (text "x") (.pump .c (.read (buildFrameBytes .data (uuidT ++ text "xy"))))),
    .server (.pair (text "x") (.pump .c .writeOk)),
    .server (.pair (text "x") (.pump .c (.read (buildFrameBytes .data (uuidS ++ text "ab"))))),
    .server (.pair (text "x") (.pump .c .writeOk)), .visitor (.read (.frame (sessionOkFrame uuidS))),
    .visitor (.read (.frame (sessionOkFrame uuidT))), .visitor (.read (.frame (dataFrame uuidT (text "xy")))),
    .visitor (.transferred 2), .visitor (.read (.frame (dataFrame uuidS (text "ab")))), .visitor (.transferred 1)]

theorem replies_delivered_answered : ∃ s, run (step (text "x")) {} answered = some s ∧
    (s.visitor.sessions.cell 0).socket.written = text "a" ∧ (s.visitor.sessions.cell 1).socket.written = text "xy" ∧
    ∀ i < 2, ∃ j < s.provider.sessions.count, s.provider.sessions.key j = s.visitor.sessions.key i ∧
      (s.visitor.sessions.cell i).socket.written <+: (s.provider.sessions.cell j).socket.read := by
  have hend : (run (step (text "x")) {} answered).map (fun s => decide (s.visitor.sessions.count = 2 ∧
      (s.visitor.sessions.cell 0).socket.written = text "a" ∧ (s.visitor.sessions.cell 1).socket.written = text "xy")) =
        some true := by decide +kernel
  obtain ⟨s,hrun,hs⟩ := Option.map_eq_some_iff.mp hend
  obtain ⟨hcount,hfirst,hsecond⟩ := of_decide_eq_true hs
  have hne : ∀ i < 2, (s.visitor.sessions.cell i).socket.written ≠ [] := by
    intro i hi
    obtain rfl | rfl : i = 0 ∨ i = 1 := by omega
    · rw [hfirst]
      decide
    · rw [hsecond]
      decide
  have hm : Meets (step (text "x")) (Delivers (text "x")) {} answered := .of_follows (by decide +kernel)
  refine ⟨s,hrun,hfirst,hsecond,fun i hi => ?_⟩
  rcases (replies_delivered hrun hm).2.2 i (by omega) with ⟨hnone,-⟩ | ⟨j,hj,hk,hp,-⟩
  · exact absurd hnone (hne i hi)
  · exact ⟨j,hj,hk,hp⟩

end System

end Msg801.Relay
