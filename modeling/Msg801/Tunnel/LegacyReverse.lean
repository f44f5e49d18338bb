import Msg801.Tunnel.Directions

/-! # The two ways to ask for the reverse end

The deprecated argument `reverse=1`, given to every specification of the list written
backwards, builds what the global flag builds.
-/
namespace Msg801.Tunnel
open Stage

/-- One more item in a comma separated list, wherever it is put. -/
inductive AddsItem (item : ByteVector) : ByteSpan → ByteSpan → Prop where
  | only : AddsItem item [] item
  | front (args : ByteSpan) : AddsItem item args (item ++ 44 :: args)
  | back (args : ByteSpan) : AddsItem item args (args ++ 44 :: item)
  | between (xs ys : ByteSpan) : AddsItem item (xs ++ 44 :: ys) (xs ++ 44 :: (item ++ 44 :: ys))

/-- The specification with the argument `reverse=1` added. -/
inductive AddsReverse : ByteSpan → ByteSpan → Prop where
  | bare {name : ByteSpan} (h : 58 ∉ name) : AddsReverse name (name ++ 58 :: text "reverse=1")
  | args {name args args' : ByteSpan} (h : 58 ∉ name) (ha : AddsItem (text "reverse=1") args args') :
      AddsReverse (name ++ 58 :: args) (name ++ 58 :: args')

/-- Both builds fail, or both give chains that answer alike to whatever calls are made. -/
inductive BuiltAlike : Except Abort (Option (ProcessorChain ProcessorPtr)) →
    Except Abort (Option (ProcessorChain ProcessorPtr)) → Prop where
  | failed {a b} (ha : ∀ chain, a ≠ .ok (some chain)) (hb : ∀ chain, b ≠ .ok (some chain)) : BuiltAlike a b
  | built {chain chain'} (h : ∀ calls, chainReplies chain calls = chainReplies chain' calls) :
      BuiltAlike (.ok (some chain)) (.ok (some chain'))

/-- One round of the loop of `parse_kv`. -/
def assign (out : KeyValues) (item : ByteVector) : KeyValues :=
  match cutAt item 61 with
  | none => out
  | some (key,value) => Function.update out key (some value)

theorem cutAt_append_cons {c : Byte} {pre : ByteSpan} (h : c ∉ pre) (post : ByteSpan) :
    cutAt (pre ++ c :: post) c = some (pre,post) := by
  rw [cutAt, idxOf?_append_cons h]
  simp

theorem cutAt_eq_none {c : Byte} {s : ByteSpan} (h : c ∉ s) : cutAt s c = none := by
  rw [cutAt, List.idxOf?_eq_none_iff.mpr h]

theorem assign_none {item : ByteVector} (h : cutAt item 61 = none) (kv : KeyValues) : assign kv item = kv := by
  rw [assign, h]

theorem assign_some {item name value : ByteVector} (h : cutAt item 61 = some (name,value)) (kv : KeyValues) :
    assign kv item = Function.update kv name (some value) := by
  rw [assign, h]

/-- An empty piece behind the last comma would be skipped as well. -/
theorem parseKv_eq (s : ByteSpan) : parseKv s = (s.splitOn 44).foldl assign fun _ => none := by
  change (split s 44).foldl assign _ = _
  unfold split
  dsimp only
  split_ifs with h
  · obtain ⟨items,hitems⟩ := List.getLast?_eq_some_iff.mp h
    rw [hitems, List.dropLast_concat, List.foldl_append]
    rfl
  · rfl

theorem foldl_assign_none {key : ByteVector} {items : List ByteVector} {kv : KeyValues}
    (h : items.foldl assign kv key = none) :
    kv key = none ∧ ∀ item ∈ items, ∀ value, cutAt item 61 ≠ some (key,value) := by
  induction items generalizing kv with
  | nil => exact ⟨h,by simp⟩
  | cons item items ih =>
    obtain ⟨hkv,hitems⟩ := ih h
    cases hc : cutAt item 61 with
    | none =>
      rw [assign_none hc] at hkv
      exact ⟨hkv,List.forall_mem_cons.mpr ⟨by simp [hc],hitems⟩⟩
    | some p =>
      obtain ⟨name,value⟩ := p
      rw [assign_some hc] at hkv
      have hne : key ≠ name := by
        rintro rfl
        simp at hkv
      rw [Function.update_of_ne hne] at hkv
      refine ⟨hkv,List.forall_mem_cons.mpr ⟨?_,hitems⟩⟩
      intro v hv
      exact hne (congrArg Prod.fst (Option.some.inj (hc.symm.trans hv))).symm

theorem foldl_assign_update {key : ByteVector} {items : List ByteVector}
    (h : ∀ item ∈ items, ∀ value, cutAt item 61 ≠ some (key,value)) (kv : KeyValues) (v : Option ByteVector) :
    items.foldl assign (Function.update kv key v) = Function.update (items.foldl assign kv) key v := by
  induction items generalizing kv with
  | nil => rfl
  | cons item items ih =>
    obtain ⟨hitem,hitems⟩ := List.forall_mem_cons.mp h
    rw [List.foldl_cons, List.foldl_cons, ← ih hitems]
    congr 1
    cases hc : cutAt item 61 with
    | none => rw [assign_none hc, assign_none hc]
    | some p =>
      obtain ⟨name,value⟩ := p
      have hne : name ≠ key := by
        rintro rfl
        exact hitem value hc
      rw [assign_some hc, assign_some hc]
      exact Function.update_comm hne.symm _ _ _

/-- An item that names a new key adds just this key, wherever it stands. -/
theorem foldl_assign_insert (pre post : List ByteVector) {key value : ByteVector} (hkey : 61 ∉ key)
    {kv : KeyValues} (h : (pre ++ post).foldl assign kv key = none) :
    (pre ++ (key ++ 61 :: value) :: post).foldl assign kv =
      Function.update ((pre ++ post).foldl assign kv) key (some value) := by
  have hpost := (foldl_assign_none h).2
  rw [List.foldl_append, List.foldl_cons, List.foldl_append, ← foldl_assign_update]
  · rw [assign_some (cutAt_append_cons hkey value)]
  · intro item hitem
    exact hpost item (List.mem_append_right _ hitem)

theorem parseKv_insert {key value args args' : ByteVector} (hkey : 61 ∉ key) (hitem : 44 ∉ key ++ 61 :: value)
    (ha : AddsItem (key ++ 61 :: value) args args') (h : parseKv args key = none) :
    parseKv args' = Function.update (parseKv args) key (some value) := by
  have hone := List.splitOn_eq_singleton hitem
  have hsplit (xs ys : ByteSpan) := List.splitOn_append_cons_self (a := (44 : Byte)) xs ys
  rw [parseKv_eq] at h
  rw [parseKv_eq, parseKv_eq]
  cases ha with
  | only =>
    rw [hone]
    exact foldl_assign_insert [] [] hkey rfl
  | front =>
    rw [hsplit, hone]
    exact foldl_assign_insert [] _ hkey h
  | back =>
    rw [hsplit, hone]
    rw [← List.append_nil (args.splitOn 44)] at h
    rw [foldl_assign_insert _ _ hkey h, List.append_nil]
  | between xs ys =>
    rw [hsplit] at h
    rw [hsplit, hsplit, hsplit, hone]
    exact foldl_assign_insert _ _ hkey h

/-- The arguments with `reverse=1` added say what they said before, and `reverse=1`. -/
theorem AddsReverse.specKv {spec spec' : ByteSpan} (h : AddsReverse spec spec')
    (hr : specKv spec (text "reverse") = none) :
    specName spec' = specName spec ∧
    specKv spec' = Function.update (specKv spec) (text "reverse") (some (text "1")) := by
  have hkv {args args' : ByteSpan} (ha : AddsItem (text "reverse=1") args args')
      (hargs : parseKv args (text "reverse") = none) :
      parseKv args' = Function.update (parseKv args) (text "reverse") (some (text "1")) :=
    parseKv_insert (by decide) (by decide) ha hargs
  cases h with
  | bare hname =>
    simp only [specName, Tunnel.specKv, cutAt_append_cons hname, cutAt_eq_none hname] at hr ⊢
    exact ⟨rfl,hkv .only hr⟩
  | args hname ha =>
    simp only [specName, Tunnel.specKv, cutAt_append_cons hname] at hr ⊢
    exact ⟨rfl,hkv ha hr⟩

section Build
variable (C : Crypto) (R : RandomEngine) (host : Host)

/-- One specification, built with the flag and with the argument. -/
theorem buildProcessor_addsReverse {spec spec' : ByteSpan} (h : AddsReverse spec spec')
    (hr : specKv spec (text "reverse") = none) (index : ℕ) :
    buildProcessor C R host true index spec = buildProcessor C R host false index spec' := by
  obtain ⟨hname,hkv⟩ := h.specKv hr
  have hrole : resolveProcessorReverse (specKv spec) true =
      resolveProcessorReverse (specKv spec') false := by
    simp [resolveProcessorReverse, hr, hkv, parseBool]
  have hother (key : ByteVector) (hk : key ≠ text "reverse") : specKv spec' key = specKv spec key := by
    rw [hkv, Function.update_of_ne hk]
  have hargs : paddingArgs host (specKv spec') index = paddingArgs host (specKv spec) index := by
    have hkey := hother (text "chunk") (by decide)
    have hmax := hother (text "max") (by decide)
    have hseed := hother (text "seed") (by decide)
    simp only [paddingArgs, paddingSeed, hkey, hmax, hseed]
  have hcfb := hother (text "key") (by decide)
  have hiv := hother (text "iv") (by decide)
  have hmac := hother (text "hmac_key") (by decide)
  simp only [buildProcessor, hname, buildCfb, buildCfbNonce, buildPadding, hrole, hargs, hcfb, hiv, hmac]

theorem addProcessors_addsReverse {specs specs' : List ByteSpan} (h : List.Forall₂ AddsReverse specs specs')
    (hr : ∀ spec ∈ specs, specKv spec (text "reverse") = none) (index : ℕ) (chain : ProcessorChain ProcessorPtr) :
    addProcessors C R host true index specs chain = addProcessors C R host false index specs' chain := by
  induction h generalizing index chain with
  | nil => rfl
  | cons hspec _ ih =>
    obtain ⟨hr₁,hr₂⟩ := List.forall_mem_cons.mp hr
    simp only [addProcessors, buildProcessor_addsReverse C R host hspec hr₁, ih hr₂]

theorem BuiltAlike.refl (a : Except Abort (Option (ProcessorChain ProcessorPtr))) : BuiltAlike a a := by
  rcases a with e | _ | chain
  · exact .failed (by simp) (by simp)
  · exact .failed (by simp) (by simp)
  · exact .built fun _ => rfl

/-- The global flag, and the argument on each specification of the list written backwards. -/
theorem legacy_reverse_agrees {specs specs' : List ByteSpan}
    (hr : ∀ spec ∈ specs, specKv spec (text "reverse") = none)
    (h : List.Forall₂ AddsReverse specs.reverse specs') :
    BuiltAlike (buildProcessorChain C R host true specs) (buildProcessorChain C R host false specs') := by
  have hlen := h.length_eq
  have hrun := addProcessors_addsReverse C R host h
    (fun spec hs => hr spec (List.mem_reverse.mp hs)) 0 []
  have hbuild : buildProcessorChain C R host true specs = buildProcessorChain C R host false specs' := by
    cases specs with
    | nil =>
      obtain rfl := List.length_eq_zero_iff.mp hlen.symm
      rfl
    | cons spec specs =>
      cases specs' with
      | nil => simp at hlen
      | cons spec' specs' => exact hrun
  rw [hbuild]
  exact .refl _

/-- A list with an argument in the middle, one at the end and a bare name. -/
theorem legacy_reverse_agrees_three :
    BuiltAlike
      (buildProcessorChain CfbNonceProcessor.knownCrypto zeroEngine zeroHost true
        [text "identity", text "padding:chunk=4,max=0", text "cfb:key=a"])
      (buildProcessorChain CfbNonceProcessor.knownCrypto zeroEngine zeroHost false
        [text "cfb:key=a,reverse=1", text "padding:chunk=4,reverse=1,max=0", text "identity:reverse=1"]) := by
  refine legacy_reverse_agrees _ _ _ (by decide) (.cons ?_ (.cons ?_ (.cons ?_ .nil)))
  · exact @AddsReverse.args (text "cfb") _ _ (by decide) (.back (text "key=a"))
  · exact @AddsReverse.args (text "padding") _ _ (by decide) (.between (text "chunk=4") (text "max=0"))
  · exact @AddsReverse.bare (text "identity") (by decide)

end Build

end Msg801.Tunnel
