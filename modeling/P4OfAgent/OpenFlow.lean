import P4OfAgent.Lib.Bytes

/-! The OpenFlow 1.3 objects the agent is handed: actions and instructions as they lie on the wire,
with the fields its getters read. -/

namespace P4OfAgent
open Bytes

/-- The error codes the agent returns; `loci` passes a getter's own status on. -/
inductive IndigoError
  | none | unknown | notSupported | notFound | badTableId | badAction
  | loci (status : Nat)
deriving DecidableEq, Repr

/-! `enum ofp_action_type` -/

namespace Ofpat

def output : BitVec 16 := 0
def setMplsTtl : BitVec 16 := 15
def decMplsTtl : BitVec 16 := 16
def pushVlan : BitVec 16 := 17
def popVlan : BitVec 16 := 18
def pushMpls : BitVec 16 := 19
def popMpls : BitVec 16 := 20
def setQueue : BitVec 16 := 21
def group : BitVec 16 := 22
def setNwTtl : BitVec 16 := 23
def decNwTtl : BitVec 16 := 24
def setField : BitVec 16 := 25
def pushPbb : BitVec 16 := 26
def experimenter : BitVec 16 := 0xffff

end Ofpat

/-! `enum ofp_instruction_type` -/

namespace Ofpit

def gotoTable : BitVec 16 := 1
def writeMetadata : BitVec 16 := 2
def writeActions : BitVec 16 := 3
def applyActions : BitVec 16 := 4
def clearActions : BitVec 16 := 5
def meter : BitVec 16 := 6
def experimenter : BitVec 16 := 0xffff

def known : List (BitVec 16) :=
  [gotoTable, writeMetadata, writeActions, applyActions, clearActions, meter]

end Ofpit

def ofpxmtOfbVlanVid : BitVec 8 := 6

def ofppFlood : BitVec 32 := 0xfffffffb
def ofppAll : BitVec 32 := 0xfffffffc

/-- An action: its type and the bytes behind the type and length words. -/
structure Action where
  type : BitVec 16
  body : List Byte
deriving DecidableEq, Repr

namespace Action
variable (a : Action)

/-! The getters, at the offsets of `struct ofp_action_*`. -/

def outputPort : BitVec 32 := be32 a.body 0
def groupId : BitVec 32 := be32 a.body 0
def queueId : BitVec 32 := be32 a.body 0
def mplsTtl : BitVec 8 := a.body.getD 0 0
def nwTtl : BitVec 8 := a.body.getD 0 0

/-- The byte of the OXM header that holds the field number and the mask flag. -/
def oxmField : BitVec 8 := a.body.getD 2 0
def vlanVid : BitVec 16 := be16 a.body 4

def encode : List Byte := toBE16 a.type ++ toBE16 (BitVec.ofNat 16 (4 + a.body.length)) ++ a.body

end Action

/-- An instruction. `other` is any type the agent does not know, experimenter included. -/
inductive Instruction
  | gotoTable (tableId : Byte)
  | writeMetadata (metadata mask : BitVec 64)
  | writeActions (actions : List Action)
  | applyActions (actions : List Action)
  | clearActions (actions : List Action)
  | meter (meterId : BitVec 32)
  | other (type : BitVec 16) (unknown : type ∉ Ofpit.known) (body : List Byte)

namespace Instruction

def type : Instruction → BitVec 16
  | gotoTable _ => Ofpit.gotoTable
  | writeMetadata _ _ => Ofpit.writeMetadata
  | writeActions _ => Ofpit.writeActions
  | applyActions _ => Ofpit.applyActions
  | clearActions _ => Ofpit.clearActions
  | meter _ => Ofpit.meter
  | other t _ _ => t

/-- The bytes behind the type and length words, as `struct ofp_instruction_*` lays them out. -/
def body : Instruction → List Byte
  | gotoTable t => t :: List.replicate 3 0
  | writeMetadata md mask => List.replicate 4 0 ++ toBE64 md ++ toBE64 mask
  | writeActions as => List.replicate 4 0 ++ as.flatMap Action.encode
  | applyActions as => List.replicate 4 0 ++ as.flatMap Action.encode
  | clearActions as => List.replicate 4 0 ++ as.flatMap Action.encode
  | meter m => toBE32 m
  | other _ _ b => b

def actions : Instruction → List Action
  | writeActions as => as
  | applyActions as => as
  | clearActions as => as
  | _ => []

def encode (i : Instruction) : List Byte :=
  toBE16 i.type ++ toBE16 (BitVec.ofNat 16 (4 + i.body.length)) ++ i.body

def encodeList (is : List Instruction) : List Byte := is.flatMap encode

end Instruction
end P4OfAgent
