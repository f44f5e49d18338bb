import Mathlib.Data.List.Forall2
import Msg801.Tunnel.CfbNonce
import Msg801.Tunnel.Identity
import Msg801.Tunnel.Padding

/-! # From processor specifications to a chain

A specification is a name, optionally followed by a colon and comma separated arguments.
The reverse end gets the same specifications and builds them in the opposite order.
-/
namespace Msg801.Tunnel
open Stage Processor

/-- The pieces `std::getline` gives: an empty one after the last delimiter is none. -/
def split (s : ByteSpan) (delim : Byte) : List ByteVector :=
  let items := s.splitOn delim
  if items.getLast? = some [] then items.dropLast else items

/-- The text before and after the first occurrence of a character. -/
def cutAt (s : ByteSpan) (c : Byte) : Option (ByteVector × ByteVector) :=
  match s.idxOf? c with
  | none => none
  | some i => some (s.take i,s.drop (i + 1))

/-- A map from argument names to their values. -/
abbrev KeyValues := ByteVector → Option ByteVector

/-- Items without `=` are skipped and a repeated name takes its last value. -/
def parseKv (s : ByteSpan) : KeyValues :=
  (split s 44).foldl (fun out item =>
    match cutAt item 61 with
    | none => out
    | some (key,value) => Function.update out key (some value)) fun _ => none

def parseBool (v : ByteSpan) : Bool := v = text "1" ∨ v = text "true" ∨ v = text "yes"

def resolveProcessorReverse (kv : KeyValues) (globalReverse : Bool) : Bool :=
  match kv (text "reverse") with
  | none => globalReverse
  | some v => if globalReverse then globalReverse else parseBool v

def isSpace (c : Byte) : Bool := c = 32 ∨ 9 ≤ c ∧ c ≤ 13
def isDigit (c : Byte) : Bool := 48 ≤ c ∧ c ≤ 57

/-- `std::stoull` in base ten: blanks, a sign, digits, and anything after them. A minus
sign negates in 64 bits. -/
def stoull (s : ByteSpan) : Except Abort UInt64 :=
  let body := s.dropWhile isSpace
  let signed := body.head? = some 43 ∨ body.head? = some 45
  let digits := (if signed then body.tail else body).takeWhile isDigit
  let value := digits.foldl (fun n d => 10 * n + (d.toNat - 48)) 0
  if digits = [] then .error (.invalidArgument "stoull")
  else if value ≥ 2 ^ 64 then .error (.outOfRange "stoull")
  else if body.head? = some 45 then .ok (-UInt64.ofNat value)
  else .ok (UInt64.ofNat value)

/-- What the machine supplies while a chain is built: the automatic seed of each padding
processor and the random bytes of each nonce processor, by their place in the chain. -/
structure Host where
  autoSeed : ℕ → UInt64
  randBytes : ℕ → ℕ → Option Nonce

section Build
variable (C : Crypto) (R : RandomEngine) (host : Host) (reverse : Bool)

def buildCfb (kv : KeyValues) : Option ProcessorPtr :=
  match kv (text "key") with
  | none => none
  | some key => some ⟨CfbProcessor.new key (resolveProcessorReverse kv reverse)⟩

def buildCfbNonce (kv : KeyValues) (index : ℕ) : Option ProcessorPtr :=
  match kv (text "iv"), kv (text "hmac_key") with
  | some iv, some hmacKey =>
    if iv = [] ∨ hmacKey = [] then none
    else some ⟨(CfbNonceProcessor.new iv hmacKey (resolveProcessorReverse kv reverse)
      (host.randBytes index) : CfbNonceProcessor C)⟩
  | _, _ => none

/-- The seed given, or else the automatic one. -/
def paddingSeed (kv : KeyValues) (index : ℕ) : Except Abort UInt64 :=
  match kv (text "seed") with
  | some v => stoull v
  | none => .ok (host.autoSeed index)

def U32_MAX_AS_SIZE_T : ℕ := 2 ^ 32 - 1

structure PaddingArgs where
  chunk : UInt64
  max : UInt64
  seed : UInt64

/-- The checked arguments of a padding processor. -/
def paddingArgs (kv : KeyValues) (index : ℕ) : Except Abort (Option PaddingArgs) :=
  match kv (text "chunk"), kv (text "max") with
  | some chunkText, some maxText => do
    let chunk ← stoull chunkText
    let max ← stoull maxText
    if chunk.toNat > U32_MAX_AS_SIZE_T ∨ max.toNat > U32_MAX_AS_SIZE_T then return none
    let seed ← paddingSeed host kv index
    return some ⟨chunk,max,seed⟩
  | _, _ => return none

def buildPadding (kv : KeyValues) (index : ℕ) : Except Abort (Option ProcessorPtr) :=
  match paddingArgs host kv index with
  | .error e => .error e
  | .ok none => .ok none
  | .ok (some a) => .ok (some ⟨(PaddingProcessor.new a.chunk.toNat a.max.toNat a.seed
      (resolveProcessorReverse kv reverse) : PaddingProcessor R)⟩)

/-- The name and the arguments of a specification. -/
def specName (spec : ByteSpan) : ByteVector := ((cutAt spec 58).map Prod.fst).getD spec
def specKv (spec : ByteSpan) : KeyValues := parseKv (((cutAt spec 58).map Prod.snd).getD [])

/-- One round of the loop: the processor of a specification, or none for a rejected one. -/
def buildProcessor (index : ℕ) (spec : ByteSpan) : Except Abort (Option ProcessorPtr) :=
  if specName spec = text "identity" then .ok (some ⟨({} : IdentityProcessor)⟩)
  else if specName spec = text "cfb" then .ok (buildCfb reverse (specKv spec))
  else if specName spec = text "cfb_nonce" then
    .ok (buildCfbNonce C host reverse (specKv spec) index)
  else if specName spec = text "padding" then buildPadding R host reverse (specKv spec) index
  else .ok none

/-- The loop over the specifications in order. -/
def addProcessors : ℕ → List ByteSpan → ProcessorChain ProcessorPtr →
    Except Abort (Option (ProcessorChain ProcessorPtr))
  | _, [], chain => .ok (some chain)
  | index, spec :: specs, chain =>
    match buildProcessor C R host reverse index spec with
    | .error e => .error e
    | .ok none => .ok none
    | .ok (some p) => addProcessors (index + 1) specs (chain ++ [p])

def buildProcessorChain (specs : List ByteSpan) : Except Abort (Option (ProcessorChain ProcessorPtr)) :=
  if specs.isEmpty then .ok (some [⟨({} : IdentityProcessor)⟩])
  else addProcessors C R host reverse 0 (if reverse then specs.reverse else specs) []

variable {C R host reverse}

theorem paddingArgs_of {kv : KeyValues} {index : ℕ} {chunkText maxText : ByteVector}
    {a : PaddingArgs} (hc : kv (text "chunk") = some chunkText) (hm : kv (text "max") = some maxText)
    (h₁ : stoull chunkText = .ok a.chunk) (h₂ : stoull maxText = .ok a.max)
    (hb : ¬(a.chunk.toNat > U32_MAX_AS_SIZE_T ∨ a.max.toNat > U32_MAX_AS_SIZE_T))
    (hs : paddingSeed host kv index = .ok a.seed) : paddingArgs host kv index = .ok (some a) := by
  simp only [paddingArgs, hc, hm, h₁, h₂, bind, Except.bind, if_neg hb, hs]
  rfl

/-- Accepted arguments have been parsed and are within the limits. -/
theorem paddingArgs_some {kv : KeyValues} {index : ℕ} {a : PaddingArgs}
    (h : paddingArgs host kv index = .ok (some a)) : ∃ chunkText maxText,
      kv (text "chunk") = some chunkText ∧ kv (text "max") = some maxText ∧
      stoull chunkText = .ok a.chunk ∧ stoull maxText = .ok a.max ∧
      ¬(a.chunk.toNat > U32_MAX_AS_SIZE_T ∨ a.max.toNat > U32_MAX_AS_SIZE_T) ∧
      paddingSeed host kv index = .ok a.seed := by
  rw [paddingArgs] at h
  cases hc : kv (text "chunk") with
  | none => simp [hc, pure, Except.pure] at h
  | some chunkText =>
    cases hm : kv (text "max") with
    | none => simp [hc, hm, pure, Except.pure] at h
    | some maxText =>
      simp only [hc, hm, bind, Except.bind] at h
      cases h₁ : stoull chunkText with
      | error e => simp [h₁] at h
      | ok chunk =>
        cases h₂ : stoull maxText with
        | error e => simp [h₁, h₂] at h
        | ok max =>
          by_cases hb : chunk.toNat > U32_MAX_AS_SIZE_T ∨ max.toNat > U32_MAX_AS_SIZE_T
          · simp [h₁, h₂, hb, pure, Except.pure] at h
          cases hs : paddingSeed host kv index with
          | error e => simp [h₁, h₂, hb, hs] at h
          | ok seed =>
            simp only [h₁, h₂, hb, hs, if_false] at h
            obtain rfl := Option.some.inj (Except.ok.inj h)
            exact ⟨_,_,rfl,rfl,h₁,h₂,hb,rfl⟩

theorem paddingSeed_host {kv : KeyValues} {index : ℕ} {seed : UInt64}
    (h : paddingSeed host kv index = .ok seed) (host' : Host) (index' : ℕ) :
    ∃ seed', paddingSeed host' kv index' = .ok seed' := by
  rw [paddingSeed] at h ⊢
  cases hv : kv (text "seed") with
  | none => exact ⟨_,rfl⟩
  | some v =>
    rw [hv] at h
    exact ⟨seed,h⟩

/-- The chain built holds, in order, the processor of every specification. -/
theorem addProcessors_some {index : ℕ} {specs : List ByteSpan}
    {chain chain' : ProcessorChain ProcessorPtr}
    (h : addProcessors C R host reverse index specs chain = .ok (some chain')) :
    ∃ ps, chain' = chain ++ ps ∧ List.Forall₂ (fun spec p =>
      ∃ i, buildProcessor C R host reverse i spec = .ok (some p)) specs ps := by
  induction specs generalizing index chain with
  | nil => exact ⟨[],by simpa [addProcessors, eq_comm] using h,.nil⟩
  | cons spec specs ih =>
    rw [addProcessors] at h
    rcases hb : buildProcessor C R host reverse index spec with e | _ | p
    · simp [hb] at h
    · simp [hb] at h
    · obtain ⟨ps,rfl,hps⟩ := ih (by simpa [hb] using h)
      exact ⟨p :: ps,by simp,.cons ⟨index,hb⟩ hps⟩

/-- A chain is built when every specification is accepted, wherever it stands. -/
theorem addProcessors_of {G : ByteSpan → ProcessorPtr → Prop} {specs : List ByteSpan}
    (h : ∀ spec ∈ specs, ∀ i, ∃ p, buildProcessor C R host reverse i spec = .ok (some p) ∧ G spec p)
    (index : ℕ) (chain : ProcessorChain ProcessorPtr) : ∃ ps,
      addProcessors C R host reverse index specs chain = .ok (some (chain ++ ps)) ∧
      List.Forall₂ G specs ps := by
  induction specs generalizing index chain with
  | nil => exact ⟨[],by simp [addProcessors],.nil⟩
  | cons spec specs ih =>
    obtain ⟨p,hp,hg⟩ := h spec (by simp) index
    obtain ⟨ps,hps,hgs⟩ := ih (fun s hs => h s (by simp [hs])) (index + 1) (chain ++ [p])
    refine ⟨p :: ps,?_,.cons hg hgs⟩
    rw [addProcessors, hp]
    simpa using hps

/-- What an accepted specification gives, by its name. -/
theorem buildProcessor_some {index : ℕ} {spec : ByteSpan} {p : ProcessorPtr}
    (h : buildProcessor C R host reverse index spec = .ok (some p)) :
    (specName spec = text "identity" ∧ p = ⟨({} : IdentityProcessor)⟩) ∨
    (specName spec = text "cfb" ∧ ∃ key, specKv spec (text "key") = some key ∧
      p = ⟨CfbProcessor.new key (resolveProcessorReverse (specKv spec) reverse)⟩) ∨
    (specName spec = text "cfb_nonce" ∧ ∃ iv hmacKey, specKv spec (text "iv") = some iv ∧
      specKv spec (text "hmac_key") = some hmacKey ∧ ¬(iv = [] ∨ hmacKey = []) ∧
      p = ⟨(CfbNonceProcessor.new iv hmacKey (resolveProcessorReverse (specKv spec) reverse)
        (host.randBytes index) : CfbNonceProcessor C)⟩) ∨
    (specName spec = text "padding" ∧ ∃ a, paddingArgs host (specKv spec) index = .ok (some a) ∧
      p = ⟨(PaddingProcessor.new a.chunk.toNat a.max.toNat a.seed
        (resolveProcessorReverse (specKv spec) reverse) : PaddingProcessor R)⟩) := by
  rw [buildProcessor] at h
  split_ifs at h with h₁ h₂ h₃ h₄
  · exact .inl ⟨h₁,(Option.some.inj (Except.ok.inj h)).symm⟩
  · refine .inr (.inl ⟨h₂,?_⟩)
    rw [buildCfb] at h
    cases hk : specKv spec (text "key") with
    | none => simp [hk] at h
    | some key =>
      simp only [hk] at h
      exact ⟨key,rfl,(Option.some.inj (Except.ok.inj h)).symm⟩
  · refine .inr (.inr (.inl ⟨h₃,?_⟩))
    rw [buildCfbNonce] at h
    cases hi : specKv spec (text "iv") with
    | none => simp [hi] at h
    | some iv =>
      cases hk : specKv spec (text "hmac_key") with
      | none => simp [hi, hk] at h
      | some hmacKey =>
        simp only [hi, hk] at h
        split_ifs at h with he
        · simp at h
        · exact ⟨iv,hmacKey,rfl,rfl,he,(Option.some.inj (Except.ok.inj h)).symm⟩
  · refine .inr (.inr (.inr ⟨h₄,?_⟩))
    rw [buildPadding] at h
    rcases ha : paddingArgs host (specKv spec) index with e | _ | a
    · simp [ha] at h
    · simp [ha] at h
    · simp only [ha] at h
      exact ⟨a,rfl,(Option.some.inj (Except.ok.inj h)).symm⟩
  · simp at h

theorem buildProcessor_silent {index : ℕ} {spec : ByteSpan} {p : ProcessorPtr}
    (h : buildProcessor C R host reverse index spec = .ok (some p)) : p.Silent := by
  obtain ⟨-,rfl⟩ | ⟨-,_,-,rfl⟩ | ⟨-,_,_,-,-,-,rfl⟩ | ⟨-,_,-,rfl⟩ := buildProcessor_some h
  all_goals exact fun _ => ⟨rfl,rfl⟩

/-- Whether a specification is accepted does not depend on the end or the machine. -/
theorem buildProcessor_accepts {index : ℕ} {spec : ByteSpan} {p : ProcessorPtr}
    (h : buildProcessor C R host reverse index spec = .ok (some p)) (R' : RandomEngine)
    (host' : Host) (reverse' : Bool) (index' : ℕ) :
    ∃ q, buildProcessor C R' host' reverse' index' spec = .ok (some q) := by
  obtain ⟨hn,-⟩ | ⟨hn,key,hk,-⟩ | ⟨hn,iv,hmacKey,hi,hk,he,-⟩ | ⟨hn,a,ha,-⟩ := buildProcessor_some h
  · exact ⟨_,if_pos hn⟩
  · refine ⟨⟨CfbProcessor.new key (resolveProcessorReverse (specKv spec) reverse')⟩,?_⟩
    simp only [buildProcessor, hn, buildCfb, hk]
    rfl
  · refine ⟨⟨(CfbNonceProcessor.new iv hmacKey (resolveProcessorReverse (specKv spec) reverse')
      (host'.randBytes index') : CfbNonceProcessor C)⟩,?_⟩
    simp only [buildProcessor, hn, buildCfbNonce, hi, hk, if_neg he]
    rfl
  · obtain ⟨chunkText,maxText,hc,hm,h₁,h₂,hb,hs⟩ := paddingArgs_some ha
    obtain ⟨seed,hs'⟩ := paddingSeed_host hs host' index'
    have ha' := paddingArgs_of (a := ⟨a.chunk,a.max,seed⟩) hc hm h₁ h₂ hb hs'
    refine ⟨⟨(PaddingProcessor.new a.chunk.toNat a.max.toNat seed
      (resolveProcessorReverse (specKv spec) reverse') : PaddingProcessor R')⟩,?_⟩
    simp only [buildProcessor, hn, buildPadding, ha']
    rfl

/-- What was accepted once is accepted whatever the machine supplies. -/
theorem buildProcessorChain_accepts {specs : List ByteSpan} {chain : ProcessorChain ProcessorPtr}
    (h : buildProcessorChain C R host reverse specs = .ok (some chain)) (host' : Host) :
    ∃ chain', buildProcessorChain C R host' reverse specs = .ok (some chain') := by
  rw [buildProcessorChain] at h ⊢
  by_cases hempty : specs.isEmpty = true
  · rw [if_pos hempty]
    exact ⟨_,rfl⟩
  rw [if_neg hempty] at h ⊢
  obtain ⟨ps,-,hps⟩ := addProcessors_some h
  have hspec : ∀ spec ∈ (if reverse then specs.reverse else specs), ∀ i,
      ∃ p, buildProcessor C R host' reverse i spec = .ok (some p) ∧ True := by
    intro spec hs i
    obtain ⟨k,hk,rfl⟩ := List.mem_iff_getElem.mp hs
    obtain ⟨j,hj⟩ := hps.get hk (hps.length_eq ▸ hk)
    obtain ⟨q,hq⟩ := buildProcessor_accepts hj R host' reverse i
    exact ⟨q,hq,trivial⟩
  obtain ⟨qs,hqs,-⟩ := addProcessors_of (G := fun _ _ => True) hspec 0 []
  exact ⟨_,hqs⟩

theorem buildProcessorChain_silent {specs : List ByteSpan} {chain : ProcessorChain ProcessorPtr}
    (h : buildProcessorChain C R host reverse specs = .ok (some chain)) : chain.Silent := by
  rw [buildProcessorChain] at h
  split_ifs at h
  case pos =>
    obtain rfl := Option.some.inj (Except.ok.inj h)
    intro p hp
    obtain rfl := List.mem_singleton.mp hp
    intro _
    exact ⟨rfl,rfl⟩
  all_goals
    obtain ⟨ps,rfl,hps⟩ := addProcessors_some h
    have hsilent : List.Forall₂ (fun (p : ProcessorPtr) (_ : ByteSpan) => p.Silent ∧ True) chain _ :=
      (hps.imp fun _ _ ⟨_,hb⟩ => ⟨buildProcessor_silent hb,trivial⟩).flip
    exact ((List.forall₂_and_left _ _).mp hsilent).1

end Build

/-- An engine for distributions from zero to zero, which have one value. -/
def zeroEngine : RandomEngine where
  State := Unit
  seed _ := ()
  uniform _ s := (0,s)
  uniform_le _ _ := UInt32.zero_le

/-- A host whose nonces are the one the known MAC and digest are about. -/
def zeroHost : Host where
  autoSeed _ := 0
  randBytes _ _ := some ⟨List.replicate 512 0,List.length_replicate⟩

end Msg801.Tunnel
