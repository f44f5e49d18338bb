import Msg801.Tunnel.Processor

/-! # The identity processor -/
namespace Msg801.Tunnel
open Stage

structure IdentityProcessor where
  reverse : Bool := false

namespace IdentityProcessor

def pack (p : IdentityProcessor) (input : ByteSpan) : Outcome IdentityProcessor := ⟨p,[input],none⟩
def unpack (p : IdentityProcessor) (input : ByteSpan) : Outcome IdentityProcessor := ⟨p,[input],none⟩

instance : TwoWayProcessor IdentityProcessor where
  reverse := IdentityProcessor.reverse
  pack := pack
  unpack := unpack
  packHalf p := p
  unpackHalf p := p
  pack_within _ _ := rfl
  pack_unseen _ _ := rfl
  unpack_within _ _ := rfl
  unpack_unseen _ _ := rfl
  reverse_packHalf _ := rfl
  reverse_unpackHalf _ := rfl
  reverse_pack _ _ := rfl
  reverse_unpack _ _ := rfl

theorem feed_pack (p : IdentityProcessor) (xs : List ByteSpan) : feed pack p xs = ⟨p,xs,none⟩ := by
  induction xs with
  | nil => rfl
  | cons x xs ih => rw [feed_cons rfl]; simp [pack, ih]

theorem decodes (p q : IdentityProcessor) : Decodes pack p unpack q where
  encodes xs := by rw [feed_pack]
  accepts _ ys _ := congrArg Outcome.error (feed_pack q ys)
  beginning xs ys hy := by
    rw [feed_pack] at hy
    rw [show feed unpack q ys = _ from feed_pack q ys]
    exact hy
  whole xs ys hy := by
    rw [feed_pack] at hy
    rw [show feed unpack q ys = _ from feed_pack q ys]
    exact hy

end IdentityProcessor

end Msg801.Tunnel
