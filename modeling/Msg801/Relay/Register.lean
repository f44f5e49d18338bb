import Msg801.Relay.Codec
import Msg801.Relay.Server

/-! # What a node registers as

A node sends its identifier, a blank and its role; the matcher cuts the text at the first
blank there is.
-/
namespace Msg801.Relay
open BigEndian Framing Transition

def Role.toByte : Role → Byte
  | .b => 66
  | .c => 67

theorem Role.toByte_injective : Function.Injective Role.toByte := by
  intro r r' h
  cases r <;> cases r' <;> first | rfl | cases h

theorem Role.toByte_ne_blank (r : Role) : r.toByte ≠ 32 := by cases r <;> decide

/-- The `REGISTER` frame of `run_node`, which gives up on any other role. -/
def registerBytes (id : ByteSpan) (role : Byte) : Option ByteVector :=
  if role ≠ 66 ∧ role ≠ 67 then none
  else some (buildFrameBytes .register (id ++ [32] ++ [role]))

/-- The slot the matcher finds for a node. -/
def slotFor (id : MatchId) (r : Role) : Option (MatchId × Role) :=
  (registerBytes id r.toByte).bind registration

/-- The first blank of the text is followed by a role. -/
def Misread (l : ByteSpan) : Prop := ∃ pre x post, l = pre ++ 32 :: x :: post ∧ 32 ∉ pre ∧ (x = 66 ∨ x = 67)

/-- What the 32-bit length of the frame lets through of an identifier. -/
def visible (id : MatchId) : ByteVector := id.take ((id.length + 3) % 2 ^ 32 - 1)

/-- The node is put into its own slot or turned away. -/
def RoundTrip (id : MatchId) (r : Role) : Prop := slotFor id r = none ∨ slotFor id r = some (id,r)

theorem parseRegister_append {pre : ByteSpan} (h : 32 ∉ pre) (post : ByteSpan) :
    parseRegister (pre ++ 32 :: post) =
      if post = [] then none
      else if post.head? = some 66 then some (pre,.b)
      else if post.head? = some 67 then some (pre,.c)
      else none := by
  rw [parseRegister, idxOf?_append_cons h]
  cases post with
  | nil => simp
  | cons x post => simp [List.getD_eq_getElem?_getD]

/-- The text before the first blank is the identifier, and the byte behind it the role. -/
theorem parseRegister_eq_some (l : ByteSpan) (id : MatchId) (r : Role) :
    parseRegister l = some (id,r) ↔ ∃ post, l = id ++ 32 :: r.toByte :: post ∧ 32 ∉ id := by
  constructor
  · intro h
    by_cases hmem : 32 ∈ l
    · obtain ⟨pre,post,rfl,hpre⟩ := List.eq_append_cons_of_mem hmem
      rw [parseRegister_append hpre] at h
      cases post with
      | nil => simp at h
      | cons x post =>
        simp only [List.cons_ne_nil, if_false, List.head?_cons, Option.some.injEq] at h
        split_ifs at h with hb hc
        all_goals
          obtain ⟨rfl,rfl⟩ := Prod.mk.inj (Option.some.inj h)
          subst x
          exact ⟨post,rfl,hpre⟩
    · rw [parseRegister, List.idxOf?_eq_none_iff.mpr hmem] at h
      cases h
  · rintro ⟨post,rfl,hid⟩
    rw [parseRegister_append hid]
    cases r <;> simp [Role.toByte]

/-- A body that is too long for the length word is cut off by it. -/
theorem registration_build (body : ByteSpan) :
    registration (buildFrameBytes .register body) = parseRegister (body.take ((body.length + 1) % 2 ^ 32 - 1)) := by
  let f : Frame := ⟨.register,body⟩
  have hlen : f.bytes.length = 5 + body.length := f.length_bytes
  have hword : (word f.bytes).toNat = (body.length + 1) % 2 ^ 32 := by
    rw [f.bytes_eq, word_append (by rw [octets_length]), word_octets, UInt32.toNat_ofNat', Nat.add_comm]
  have hhead : f.bytes.getD 4 0 = Method.register.toByte := by
    rw [f.bytes_eq]
    rfl
  have hbody : f.bytes.drop 5 = body := by
    rw [f.bytes_eq]
    rfl
  have hle := Nat.mod_le (body.length + 1) (2 ^ 32)
  change registration f.bytes = _
  rw [registration, readFrame_eq, frameHead, hword, if_neg (by omega)]
  by_cases hzero : (body.length + 1) % 2 ^ 32 < 1
  · rw [if_pos hzero, Nat.lt_one_iff.mp hzero]
    rfl
  · rw [if_neg hzero, if_neg (by omega), hhead, hbody, Method.ofByte_toByte]
    rfl

theorem slotFor_eq (id : MatchId) (r : Role) :
    slotFor id r = parseRegister ((id ++ [32,r.toByte]).take ((id.length + 3) % 2 ^ 32 - 1)) := by
  have hrole : ¬(r.toByte ≠ 66 ∧ r.toByte ≠ 67) := by cases r <;> decide
  have hbody : id ++ [32] ++ [r.toByte] = id ++ [32,r.toByte] := by simp
  rw [slotFor, registerBytes, if_neg hrole, Option.bind_some, hbody, registration_build]
  simp

/-- What the matcher sees begins with what it sees of the identifier, and goes on behind it
only when it sees everything. -/
theorem seen_eq (id : MatchId) (tail : ByteVector) (ht : tail.length = 2) :
    (id ++ tail).take ((id.length + 3) % 2 ^ 32 - 1) = visible id ∨
      visible id = id ∧ (id ++ tail).take ((id.length + 3) % 2 ^ 32 - 1) = id ++ tail := by
  by_cases hlen : id.length + 3 < 2 ^ 32
  · right
    rw [visible, Nat.mod_eq_of_lt hlen, List.take_of_length_le (by omega),
      List.take_of_length_le (by rw [List.length_append]; omega)]
    exact ⟨rfl,rfl⟩
  · left
    rw [visible, List.take_append_of_le_length (by omega)]

theorem role_toByte (x : Byte) : (x = 66 ∨ x = 67) ↔ ∃ r : Role, x = r.toByte := by
  constructor
  · rintro (rfl | rfl)
    exacts [⟨.b,rfl⟩,⟨.c,rfl⟩]
  · rintro ⟨r,rfl⟩
    cases r
    exacts [.inl rfl,.inr rfl]

theorem misread_iff (l : ByteSpan) : Misread l ↔ ∃ id r, parseRegister l = some (id,r) := by
  simp only [parseRegister_eq_some]
  constructor
  · rintro ⟨pre,x,post,hl,hpre,hx⟩
    obtain ⟨r,rfl⟩ := (role_toByte x).mp hx
    exact ⟨pre,r,post,hl,hpre⟩
  · rintro ⟨id,r,post,hl,hid⟩
    exact ⟨id,r.toByte,post,hl,hid,(role_toByte _).mpr ⟨r,rfl⟩⟩

/-- Whatever is registered for a node is its own name, or stands in its name. -/
theorem slotFor_cases {id id' : MatchId} {r r' : Role} (h : slotFor id r = some (id',r')) :
    (id',r') = (id,r) ∨ parseRegister (visible id) = some (id',r') := by
  rw [slotFor_eq] at h
  obtain hseen | ⟨hvis,hseen⟩ := seen_eq id [32,r.toByte] rfl <;> rw [hseen] at h
  · exact .inr h
  rw [hvis]
  obtain ⟨post,hl,hid⟩ := (parseRegister_eq_some _ _ _).mp h
  rcases List.append_eq_append_iff.mp hl with ⟨rest,rfl,hrest⟩ | ⟨rest,rfl,hrest⟩
  · cases rest with
    | nil =>
      obtain ⟨hr,-⟩ := List.cons.inj (List.cons.inj hrest).2
      obtain rfl := Role.toByte_injective hr
      exact .inl (by rw [List.append_nil])
    | cons a rest =>
      -- the blank of the node would stand in the text before the first one
      obtain ⟨rfl,-⟩ := List.cons.inj hrest
      exact absurd (by simp) hid
  · rcases rest with _ | ⟨a,_ | ⟨b,rest⟩⟩
    · obtain ⟨hr,-⟩ := List.cons.inj (List.cons.inj hrest).2
      obtain rfl := Role.toByte_injective hr
      exact .inl (by rw [List.append_nil])
    · obtain ⟨hr,-⟩ := List.cons.inj (List.cons.inj hrest).2
      exact absurd hr r'.toByte_ne_blank
    · obtain ⟨rfl,htail⟩ := List.cons.inj hrest
      obtain ⟨rfl,-⟩ := List.cons.inj htail
      exact .inr ((parseRegister_eq_some _ _ _).mpr ⟨rest,rfl,hid⟩)

/-- A name found inside the identifier is registered. -/
theorem slotFor_visible {id id' : MatchId} {r r' : Role} (h : parseRegister (visible id) = some (id',r')) :
    slotFor id r = some (id',r') ∧ id' ≠ id := by
  obtain ⟨post,hl,hid⟩ := (parseRegister_eq_some _ _ _).mp h
  constructor
  · rw [slotFor_eq, parseRegister_eq_some]
    obtain hseen | ⟨hvis,hseen⟩ := seen_eq id [32,r.toByte] rfl
    · exact ⟨post,hseen.trans hl,hid⟩
    · refine ⟨post ++ [32,r.toByte],?_,hid⟩
      rw [hseen, ← hvis, hl]
      simp
  · rintro rfl
    have hlen := (List.take_sublist ((id'.length + 3) % 2 ^ 32 - 1) id').length_le
    rw [← visible, hl] at hlen
    simp only [List.length_append, List.length_cons] at hlen
    omega

theorem roundTrip_iff (id : MatchId) (r : Role) : RoundTrip id r ↔ ¬Misread (visible id) := by
  rw [misread_iff]
  constructor
  · rintro h ⟨id',r',hp⟩
    obtain ⟨hreg,hne⟩ := slotFor_visible (r := r) hp
    rcases h with h | h
    · cases h.symm.trans hreg
    · exact hne (congrArg Prod.fst (Option.some.inj (hreg.symm.trans h)))
  · intro h
    cases hreg : slotFor id r with
    | none => exact .inl hreg
    | some slot =>
      rcases slotFor_cases hreg with hslot | hp
      · exact .inr (hslot ▸ hreg)
      · exact absurd ⟨_,_,hp⟩ h

/-- Two nodes are registered as what they are or turned away, and in different slots when they
differ, exactly when no identifier holds, as far as it is seen, a role behind its first blank. -/
theorem register_round_trip (id₁ id₂ : MatchId) (r₁ r₂ : Role) :
    (RoundTrip id₁ r₁ ∧ RoundTrip id₂ r₂ ∧
      ((id₁,r₁) ≠ (id₂,r₂) → ∀ slot, slotFor id₁ r₁ = some slot → slotFor id₂ r₂ ≠ some slot)) ↔
    ¬Misread (visible id₁) ∧ ¬Misread (visible id₂) := by
  rw [roundTrip_iff, roundTrip_iff, ← and_assoc]
  refine and_iff_left_of_imp ?_
  rintro ⟨h₁,h₂⟩ hne slot hs₁ hs₂
  rcases (roundTrip_iff id₁ r₁).mpr h₁ with h | h
  · cases h.symm.trans hs₁
  rcases (roundTrip_iff id₂ r₂).mpr h₂ with h' | h'
  · cases h'.symm.trans hs₂
  exact hne (Option.some.inj (h.symm.trans (hs₁.trans (hs₂.symm.trans h'))))

/-- A node with the identifier `"x B"` that registers as C takes the slot of B under `"x"`. -/
theorem register_misread : slotFor (text "x B") .c = some (text "x",.b) ∧
    slotFor (text "x") .b = some (text "x",.b) ∧ ¬RoundTrip (text "x B") .c := by
  have hreg : slotFor (text "x B") .c = some (text "x",.b) := by decide +kernel
  refine ⟨hreg,by decide +kernel,?_⟩
  rintro (h | h)
  · cases h.symm.trans hreg
  · exact absurd (Option.some.inj (h.symm.trans hreg)) (by decide)

namespace Server

/-- A registration is let in by the step that read it. -/
theorem step_registered {s t : Server} {e : ServerEvent} (hs : s.step e = some t) {g : Registration}
    (hg : g ∈ t.registered) : g ∈ s.registered ∨
      ∃ input, e = .register g.connection input ∧ registration input = some (g.id,g.role) := by
  cases step_turn hs with
  | enroll i input id r hi hr =>
    unfold enroll at hg
    dsimp only at hg
    split at hg
    · exact .inl hg
    · rw [setPc_registered, letIn, List.mem_append, List.mem_singleton] at hg
      rcases hg with hg | rfl
      · exact .inl hg
      · exact .inr ⟨input,rfl,hr⟩
  | _ => exact .inl hg

/-- Every slot of the matcher is held by a node that was parsed to it. -/
theorem run_registered {events : List ServerEvent} {s : Server} (hrun : run step {} events = some s) {id : MatchId}
    {r : Role} {m : Match} {i : ℕ} (hm : s.pairs id = some m) (hi : m.slot r = some i) :
    ∃ input, .register i input ∈ events ∧ registration input = some (id,r) := by
  have hall : ∀ g ∈ s.registered, ∃ input, .register g.connection input ∈ events ∧
      registration input = some (g.id,g.role) := by
    clear hm hi
    induction events using List.reverseRecOn generalizing s with
    | nil =>
      obtain rfl := Option.some.inj hrun
      simp
    | append_singleton events e ih =>
      obtain ⟨t,ht,he⟩ := run_append_some.mp hrun
      intro g hg
      rcases step_registered (by simpa using he) hg with hg | ⟨input,rfl,hr⟩
      · obtain ⟨input,hmem,hr⟩ := ih ht g hg
        exact ⟨input,List.mem_append_left _ hmem,hr⟩
      · exact ⟨input,by simp,hr⟩
  exact hall _ (((run_invariant hrun fresh_inv step_inv).slots id r i).mp ⟨m,hm,hi⟩)

/-- Where the nodes behind the connections have names that are read as they are, a slot of
the matcher is held by the node of that name. -/
theorem run_slots {events : List ServerEvent} {s : Server} (hrun : run step {} events = some s)
    {node : ℕ → MatchId × Role} (hnode : ∀ i input, .register i input ∈ events →
      registerBytes (node i).1 (node i).2.toByte = some input ∧ ¬Misread (visible (node i).1))
    {id : MatchId} {r : Role} {m : Match} {i : ℕ} (hm : s.pairs id = some m) (hi : m.slot r = some i) :
    node i = (id,r) := by
  obtain ⟨input,hmem,hr⟩ := run_registered hrun hm hi
  obtain ⟨hbytes,hread⟩ := hnode i input hmem
  have hreg : slotFor (node i).1 (node i).2 = some (id,r) := by rw [slotFor, hbytes, Option.bind_some, hr]
  rcases (roundTrip_iff _ (node i).2).mpr hread with h | h
  · cases h.symm.trans hreg
  · exact Option.some.inj (h.symm.trans hreg)

end Server

end Msg801.Relay
