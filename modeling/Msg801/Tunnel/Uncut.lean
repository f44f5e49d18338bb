import Msg801.Lib.Segmentation
import Msg801.Tunnel.PaddingGrammar
import Msg801.Tunnel.TwoHop

/-! # What a chain makes of a stream, however it is cut

Every transformation of the built processors is told by its stream, but for the packing of
the padding processor: it frames each buffer by itself and begins a new frame with it.
-/
namespace Msg801.Tunnel
open Stage Processor TwoWayProcessor

theorem IdentityProcessor.pack_uncut (p : IdentityProcessor) : Uncut pack p := by
  intro xs ys hr _
  rw [feed_pack, feed_pack]
  exact ⟨rfl,hr⟩

theorem CfbProcessor.pack_uncut (p : CfbProcessor) : Uncut pack p :=
  uncut_ofMealy packRegister Cfb.encryptByte p

theorem CfbProcessor.unpack_uncut (p : CfbProcessor) : Uncut unpack p :=
  uncut_ofMealy unpackRegister Cfb.decryptByte p

namespace CfbNonceProcessor
variable {C : Crypto} {p : CfbNonceProcessor C}

/-- A processor that cannot begin its direction throws at the first call. -/
theorem pack_uncut_stuck {e : Abort} (he : ∀ x, (pack p x).error = some e) : Uncut pack p := by
  intro xs ys hr hx
  cases xs with
  | nil =>
    obtain rfl := hr.empty.mp rfl
    exact ⟨rfl,hr⟩
  | cons x xs =>
    rw [feed_cons_error, he x] at hx
    exact absurd hx.1 (Option.some_ne_none e)

theorem pack_uncut (hr : p.packReady = false) (ho : p.packOffset = 0) : Uncut pack p := by
  cases hn : p.randBytes 0 with
  | none => exact pack_uncut_stuck fun x => by rw [pack_no_nonce hr hn]
  | some nonce =>
    rcases Nat.lt_or_ge INT_MAX p.hmacKey.length with hk | hk
    · exact pack_uncut_stuck fun x => by rw [pack_no_mac hr hn hk]
    have hfeed : ∀ xs : List ByteSpan, xs ≠ [] → (feed pack p xs).error = none ∧
        (feed pack p xs).bytes = p.wire nonce xs.flatten ∧ (feed pack p xs).output ≠ [] := by
      intro xs hx
      cases xs with
      | nil => exact absurd rfl hx
      | cons x xs =>
        obtain ⟨he,hb⟩ := pack_feed hr ho hk hn x xs
        have hfirst := pack_first hr hn hk x
        refine ⟨he,hb,?_⟩
        rw [feed_cons (by rw [hfirst]), hfirst]
        exact List.cons_ne_nil _ _
    refine Uncut.of_stream (fun _ => True) (fun _ => False) (p.wire nonce) ?_ ?_ ?_
    · exact fun xs hx => iff_of_true (hfeed xs hx).1 trivial
    · exact fun xs hx _ => (hfeed xs hx).2.1
    · exact fun xs hx _ => iff_of_false (hfeed xs hx).2.2 id

theorem bufferHandshake_append (p : CfbNonceProcessor C) (x y : ByteSpan) :
    (p.bufferHandshake x).bufferHandshake y = p.bufferHandshake (x ++ y) := by
  simp only [bufferHandshake, List.append_assoc]

/-- Before the packet is whole the calls only gather it. -/
theorem unpack_feed_waiting (hr : p.unpackReady = false) (hb : p.unpackHandshakeBuffer = [])
    {xs : List ByteSpan} (hl : xs.flatten.length < HANDSHAKE_PACKET_SIZE) :
    feed unpack p xs = ⟨p.bufferHandshake xs.flatten,[],none⟩ := by
  induction xs using List.reverseRecOn with
  | nil =>
    rw [bufferHandshake, List.flatten_nil, List.append_nil]
    rfl
  | append_singleton xs x ih =>
    rw [List.flatten_append, List.flatten_singleton] at hl ⊢
    have hxs : xs.flatten.length < HANDSHAKE_PACKET_SIZE := by
      rw [List.length_append] at hl
      omega
    have hbuffer : (p.bufferHandshake xs.flatten).unpackHandshakeBuffer = xs.flatten := by
      rw [bufferHandshake_buffer, hb, List.nil_append]
    have hcall := unpack_waiting (p := p.bufferHandshake xs.flatten) hr (by rwa [hbuffer])
    rw [feed_append _ (by rw [ih hxs]), ih hxs, feed_singleton, hcall, bufferHandshake_append]
    rfl

/-- The call that completes the packet throws or emits something, and so the calls have. -/
theorem unpack_feed_complete (hr : p.unpackReady = false) (hb : p.unpackHandshakeBuffer = [])
    {xs : List ByteSpan} (hl : HANDSHAKE_PACKET_SIZE ≤ xs.flatten.length) (he : (feed unpack p xs).error = none) :
    p.hmacKey.length ≤ INT_MAX ∧ p.gateError xs.flatten = none ∧ (feed unpack p xs).output ≠ [] := by
  induction xs using List.reverseRecOn with
  | nil => exact absurd hl (by decide)
  | append_singleton xs x ih =>
    obtain ⟨hxs,hx⟩ := feed_append_error.mp he
    rw [List.flatten_append, List.flatten_singleton] at hl ⊢
    rw [feed_append _ hxs]
    by_cases hdone : HANDSHAKE_PACKET_SIZE ≤ xs.flatten.length
    · obtain ⟨hk,hg,hout⟩ := ih hdone hxs
      refine ⟨hk,if_neg fun h => ?_,List.append_ne_nil_of_left_ne_nil hout _⟩
      have hforged : ¬Authentic C p.hmacKey xs.flatten := fun ha => h.2 ((authentic_append hdone x).mpr ha)
      rw [gateError, if_pos ⟨hdone,hforged⟩] at hg
      cases hg
    · have hwait := unpack_feed_waiting hr hb (Nat.lt_of_not_le hdone)
      have hbuffer : (p.bufferHandshake xs.flatten).unpackHandshakeBuffer = xs.flatten := by
        rw [bufferHandshake_buffer, hb, List.nil_append]
      have hlen : ¬((p.bufferHandshake xs.flatten).unpackHandshakeBuffer ++ x).length < HANDSHAKE_PACKET_SIZE := by
        rw [hbuffer]
        exact Nat.not_lt.mpr hl
      rw [hwait, feed_singleton] at hx ⊢
      rcases Nat.lt_or_ge INT_MAX p.hmacKey.length with hk | hk
      · rw [unpack_no_mac (p := p.bufferHandshake xs.flatten) hr hk hlen] at hx
        cases hx
      by_cases ha : Authentic C p.hmacKey (xs.flatten ++ x)
      · rw [unpack_first (p := p.bufferHandshake xs.flatten) hr hk hlen (by rwa [hbuffer])]
        exact ⟨hk,if_neg fun h => h.2 ha,List.cons_ne_nil _ _⟩
      · rw [unpack_refused (p := p.bufferHandshake xs.flatten) hr hk hlen (by rwa [hbuffer])] at hx
        cases hx

theorem unpack_uncut (hr : p.unpackReady = false) (ho : p.unpackOffset = 0) (hb : p.unpackHandshakeBuffer = []) :
    Uncut unpack p := by
  have hgathering : ∀ stream : ByteSpan, stream.length < HANDSHAKE_PACKET_SIZE → p.plaintext stream = [] :=
    fun stream hl => if_neg fun h => absurd h.1 (Nat.not_le.mpr hl)
  refine Uncut.of_stream
    (fun stream => stream.length < HANDSHAKE_PACKET_SIZE ∨ p.hmacKey.length ≤ INT_MAX ∧ p.gateError stream = none)
    (fun stream => stream.length < HANDSHAKE_PACKET_SIZE) p.plaintext ?_ ?_ ?_
  · intro xs _
    constructor
    · intro he
      rcases Nat.lt_or_ge xs.flatten.length HANDSHAKE_PACKET_SIZE with hl | hl
      · exact .inl hl
      · obtain ⟨hk,hg,-⟩ := unpack_feed_complete hr hb hl he
        exact .inr ⟨hk,hg⟩
    · rintro (hl | ⟨hk,hg⟩)
      · rw [unpack_feed_waiting hr hb hl]
      · exact (unpack_feed hr ho hk hb xs hg).1
  · rintro xs - (hl | ⟨hk,hg⟩)
    · rw [unpack_feed_waiting hr hb hl, hgathering _ hl]
      rfl
    · exact (unpack_feed hr ho hk hb xs hg).2.2
  · rintro xs - hok
    rcases Nat.lt_or_ge xs.flatten.length HANDSHAKE_PACKET_SIZE with hl | hl
    · rw [unpack_feed_waiting hr hb hl]
      exact iff_of_true rfl hl
    · obtain ⟨hk,hg⟩ := hok.resolve_left (Nat.not_lt.mpr hl)
      have he := (unpack_feed hr ho hk hb xs hg).1
      exact iff_of_false (unpack_feed_complete hr hb hl he).2.2 (Nat.not_lt.mpr hl)

end CfbNonceProcessor

theorem PaddingProcessor.unpack_uncut {R : RandomEngine} {q : PaddingProcessor R} (hq : q.unpackBuffer = []) :
    Uncut unpack q := by
  refine Uncut.of_stream (fun stream => ((padGrammar q.chunkSize q.padMax).drain stream).broken = false)
    (fun stream => ((padGrammar q.chunkSize q.padMax).drain stream).values = [])
    (fun stream => ((padGrammar q.chunkSize q.padMax).drain stream).values.flatten) ?_ ?_ ?_
  · exact fun xs _ => unpack_feed_error hq xs
  · intro xs _ hok
    rw [unpack_feed hq xs hok]
    rfl
  · intro xs _ hok
    rw [unpack_feed hq xs hok]

section Directions
variable {P : Type} [TwoWayProcessor P] {p : P}

/-- Local data is packed by an object in the forward role and unpacked in the reverse one. -/
theorem onLocalData_uncut (hpack : reverse p = false → Uncut pack p) (hunpack : reverse p = true → Uncut unpack p) :
    Uncut onLocalData (⟨p⟩ : ProcessorPtr) := by
  suffices h : Uncut onLocalData p from h.mapped ProcessorPtr.onLocalData_mapped
  cases hr : reverse p with
  | false => exact (hpack hr).congr fun xs => (feed_forward hr xs).1
  | true => exact (hunpack hr).congr fun xs => (feed_reverse hr xs).1

theorem onRemoteData_uncut (hunpack : reverse p = false → Uncut unpack p) (hpack : reverse p = true → Uncut pack p) :
    Uncut onRemoteData (⟨p⟩ : ProcessorPtr) := by
  suffices h : Uncut onRemoteData p from h.mapped ProcessorPtr.onRemoteData_mapped
  cases hr : reverse p with
  | false => exact (hunpack hr).congr fun xs => (feed_forward hr xs).2
  | true => exact (hpack hr).congr fun xs => (feed_reverse hr xs).2

end Directions

namespace ProcessorChain
variable {chain : ProcessorChain ProcessorPtr}

theorem onLocalData_through : onLocalData (P := ProcessorPtr) = fun ps x => through Processor.onLocalData ps [x] := by
  funext ps x
  exact onLocalData_eq_through ps x

theorem onLocalData_uncut (h : ∀ p ∈ chain, Uncut Processor.onLocalData p) : Uncut onLocalData chain := by
  rw [onLocalData_through]
  exact Uncut.chain h

theorem onRemoteData_uncut (h : ∀ p ∈ chain, Uncut Processor.onRemoteData p) : Uncut onRemoteData chain := by
  have hreversed : Uncut (fun ps x => through Processor.onRemoteData ps [x]) chain.reverse :=
    Uncut.chain fun p hp => h p (List.mem_reverse.mp hp)
  have hchain := hreversed.mapped onRemoteData_mapped
  rwa [List.reverse_reverse] at hchain

section Single
variable {P : Type} [TwoWayProcessor P] {p : P} {xs : List ByteSpan}

/-- A chain of one object that unpacks emits what the object does. -/
theorem feed_onLocalData_unpack (hr : reverse p = true) (he : (feed unpack p xs).error = none) :
    (feed onLocalData [(⟨p⟩ : ProcessorPtr)] xs).bytes = (feed unpack p xs).bytes := by
  have hm := ProcessorPtr.onLocalData_mapped.feed p xs
  rw [(feed_reverse hr xs).1] at hm
  rw [onLocalData_through, feed_through_singleton (by rw [hm]; exact he), hm]
  rfl

theorem feed_onRemoteData_unpack (hr : reverse p = false) (he : (feed unpack p xs).error = none) :
    (feed onRemoteData [(⟨p⟩ : ProcessorPtr)] xs).bytes = (feed unpack p xs).bytes := by
  have hm := ProcessorPtr.onRemoteData_mapped.feed p xs
  rw [(feed_forward hr xs).2] at hm
  have hchain := onRemoteData_mapped.feed [(⟨p⟩ : ProcessorPtr)] xs
  rw [List.reverse_singleton, feed_through_singleton (by rw [hm]; exact he), hm] at hchain
  rw [hchain]
  rfl

end Single

end ProcessorChain

section Built
variable {C : Crypto} {R : RandomEngine} {host : Host} {globalReverse : Bool} {index : ℕ} {spec : ByteSpan}
  {p : ProcessorPtr}

/-- A processor is told by the stream of local data, unless it is a padding processor that packs it. -/
theorem buildProcessor_local_uncut (h : buildProcessor C R host globalReverse index spec = .ok (some p))
    (hpad : specName spec = text "padding" → resolveProcessorReverse (specKv spec) globalReverse = true) :
    Uncut onLocalData p := by
  obtain ⟨-,rfl⟩ | ⟨-,key,-,rfl⟩ | ⟨-,iv,hmacKey,-,-,-,rfl⟩ | ⟨hn,a,-,rfl⟩ := buildProcessor_some h
  · exact onLocalData_uncut (fun _ => IdentityProcessor.pack_uncut _) fun _ => IdentityProcessor.pack_uncut _
  · exact onLocalData_uncut (fun _ => CfbProcessor.pack_uncut _) fun _ => CfbProcessor.unpack_uncut _
  · exact onLocalData_uncut (fun _ => CfbNonceProcessor.pack_uncut rfl rfl)
      fun _ => CfbNonceProcessor.unpack_uncut rfl rfl rfl
  · refine onLocalData_uncut (fun hr => ?_) fun _ => PaddingProcessor.unpack_uncut rfl
    exact absurd (hr.symm.trans (hpad hn)) (by decide)

theorem buildProcessor_remote_uncut (h : buildProcessor C R host globalReverse index spec = .ok (some p))
    (hpad : specName spec = text "padding" → resolveProcessorReverse (specKv spec) globalReverse = false) :
    Uncut onRemoteData p := by
  obtain ⟨-,rfl⟩ | ⟨-,key,-,rfl⟩ | ⟨-,iv,hmacKey,-,-,-,rfl⟩ | ⟨hn,a,-,rfl⟩ := buildProcessor_some h
  · exact onRemoteData_uncut (fun _ => IdentityProcessor.pack_uncut _) fun _ => IdentityProcessor.pack_uncut _
  · exact onRemoteData_uncut (fun _ => CfbProcessor.unpack_uncut _) fun _ => CfbProcessor.pack_uncut _
  · exact onRemoteData_uncut (fun _ => CfbNonceProcessor.unpack_uncut rfl rfl rfl)
      fun _ => CfbNonceProcessor.pack_uncut rfl rfl
  · refine onRemoteData_uncut (fun _ => PaddingProcessor.unpack_uncut rfl) fun hr => ?_
    exact absurd ((hpad hn).symm.trans hr) (by decide)

/-- Every processor of a chain that was built comes from a specification, or is the identity. -/
theorem buildProcessorChain_from {specs : List ByteSpan} {chain : ProcessorChain ProcessorPtr}
    (h : buildProcessorChain C R host globalReverse specs = .ok (some chain)) (hp : p ∈ chain) :
    p = ⟨({} : IdentityProcessor)⟩ ∨
      ∃ spec ∈ specs, ∃ i, buildProcessor C R host globalReverse i spec = .ok (some p) := by
  rw [buildProcessorChain] at h
  by_cases hempty : specs.isEmpty = true
  · rw [if_pos hempty] at h
    obtain rfl := Option.some.inj (Except.ok.inj h)
    exact .inl (List.mem_singleton.mp hp)
  rw [if_neg hempty] at h
  obtain ⟨_,rfl,hps⟩ := addProcessors_some h
  obtain ⟨k,hk,rfl⟩ := List.mem_iff_getElem.mp hp
  have hlt := hps.length_eq.symm ▸ hk
  obtain ⟨i,hi⟩ := hps.get hlt hk
  refine .inr ⟨_,?_,i,hi⟩
  by_cases hrev : globalReverse = true <;> simp [hrev]

end Built

end Msg801.Tunnel
