import P4OfAgent.Lib.Bytes

/-! The packed headers of `cpu_packet.h` in the memory of a little-endian host, with the swaps of
`cpu_packet.c`. Fields that fill their words carry the names of the unions' `d` views; the words of
narrower bit-fields, which only `w0 = 0xa0` ever sets, keep the names of the `w` views. -/

namespace P4OfAgent
open Bytes

/-- `htons` and `ntohs` on a little-endian host. -/
abbrev htons : BitVec 16 → BitVec 16 := swap16

abbrev ntohs : BitVec 16 → BitVec 16 := swap16

structure FabricHeader where
  w0 : Byte
  w1 : Byte
  dstDevice : Byte
  dstPortOrGroup : BitVec 16
deriving DecidableEq

namespace FabricHeader

def sizeof : Nat := 5

def zero : FabricHeader := ⟨0, 0, 0, 0⟩

def bytes (f : FabricHeader) : List Byte := [f.w0, f.w1, f.dstDevice] ++ toLE16 f.dstPortOrGroup

def swap (f : FabricHeader) (networkToHost : Bool) : FabricHeader :=
  if networkToHost then { f with dstPortOrGroup := ntohs f.dstPortOrGroup }
  else { f with dstPortOrGroup := htons f.dstPortOrGroup }

theorem length_bytes (f : FabricHeader) : f.bytes.length = sizeof := rfl

theorem bytes_swap (f : FabricHeader) (b : Bool) :
    (f.swap b).bytes = [f.w0, f.w1, f.dstDevice] ++ toBE16 f.dstPortOrGroup := by
  cases b <;> exact congrArg ([f.w0, f.w1, f.dstDevice] ++ ·) (toLE16_swap16 f.dstPortOrGroup)

end FabricHeader

structure FabricHeaderCpu where
  w0 : Byte
  ingressPort : BitVec 16
  ingressIfindex : BitVec 16
  ingressBd : BitVec 16
  reasonCode : BitVec 16
  mcastGrp : BitVec 16
deriving DecidableEq

namespace FabricHeaderCpu

def sizeof : Nat := 11

def zero : FabricHeaderCpu := ⟨0, 0, 0, 0, 0, 0⟩

def bytes (c : FabricHeaderCpu) : List Byte :=
  c.w0 :: (toLE16 c.ingressPort ++ toLE16 c.ingressIfindex ++ toLE16 c.ingressBd ++
    toLE16 c.reasonCode ++ toLE16 c.mcastGrp)

def ofBytes (l : List Byte) : FabricHeaderCpu :=
  ⟨l.getD 0 0, le16 l 1, le16 l 3, le16 l 5, le16 l 7, le16 l 9⟩

def swap (c : FabricHeaderCpu) (networkToHost : Bool) : FabricHeaderCpu :=
  if networkToHost then
    ⟨c.w0, ntohs c.ingressPort, ntohs c.ingressIfindex, ntohs c.ingressBd, ntohs c.reasonCode,
      ntohs c.mcastGrp⟩
  else
    ⟨c.w0, htons c.ingressPort, htons c.ingressIfindex, htons c.ingressBd, htons c.reasonCode,
      htons c.mcastGrp⟩

theorem length_bytes (c : FabricHeaderCpu) : c.bytes.length = sizeof := rfl

theorem bytes_swap (c : FabricHeaderCpu) (b : Bool) :
    (c.swap b).bytes = c.w0 :: (toBE16 c.ingressPort ++ toBE16 c.ingressIfindex ++
      toBE16 c.ingressBd ++ toBE16 c.reasonCode ++ toBE16 c.mcastGrp) := by
  cases b <;>
    simp only [swap, bytes, toLE16_swap16, Bool.false_eq_true, if_true, if_false]

theorem ofBytes_bytes (c : FabricHeaderCpu) : ofBytes c.bytes = c := by
  simp only [ofBytes, bytes, le16, toLE16, List.cons_append, List.nil_append, List.getD_cons_succ,
    List.getD_cons_zero, BitVec.extractLsb'_append_extractLsb']

@[simp] theorem swap_swap (c : FabricHeaderCpu) (b b' : Bool) : (c.swap b).swap b' = c := by
  cases b <;> cases b' <;> simp only [swap, swap16_swap16, Bool.false_eq_true, if_true, if_false]

end FabricHeaderCpu

/-- `sizeof (fabric_payload_header_t)`. The header is an etherType, which the agent passes on without
swapping it: it stays the two bytes it was read as. -/
def sizeofFabricPayloadHeader : Nat := 2

end P4OfAgent
