import Mathlib.Logic.Function.Basic
import P4OfAgent.Lib.Runs
import P4OfAgent.Lib.Store
import P4OfAgent.OpenFlow

/-! The group callbacks of `callbacks.c`. A group is known to the state manager by the word that
`group_create` packs its id and type into. -/

namespace P4OfAgent
open Function Runs
variable {B : Type}

/-! `enum ofp_group_type` -/

namespace Ofpgt

def all : BitVec 8 := 0
def indirect : BitVec 8 := 2

end Ofpgt

inductive GroupCall (B : Type)
  | alloc (groupId : BitVec 32) (buckets : B) (type : BitVec 32)
  | create (groupId : BitVec 32) (type : BitVec 32)
  | delete (groupId : BitVec 32) (type : BitVec 32)

namespace GroupCall

def groupId : GroupCall B → BitVec 32
  | alloc id _ _ => id
  | create id _ => id
  | delete id _ => id

def type : GroupCall B → BitVec 32
  | alloc _ _ t => t
  | create _ t => t
  | delete _ t => t

end GroupCall

structure Groups (B : Type) where
  staged : BitVec 32 → Option B
  installed : BitVec 32 → Option B

namespace Groups

def empty : Groups B := ⟨fun _ => none, fun _ => none⟩

/-- The effect of a call that succeeds: a created group gets the buckets allocated for it. -/
def effect (g : Groups B) : GroupCall B → Groups B
  | .alloc id b _ => { g with staged := update g.staged id (some b) }
  | .create id _ => { g with installed := update g.installed id (g.staged id) }
  | .delete id _ => { g with installed := update g.installed id none }

def call (g : Groups B) (status : Int) (c : GroupCall B) : Groups B :=
  if status = 0 then g.effect c else g

end Groups

structure GroupAnswers where
  delete : Int
  create : Int
deriving DecidableEq

structure GroupResult (B : Type) where
  ret : IndigoError
  calls : List (GroupCall B)
  groups : Groups B

/-- `(group_type << 31) + (uint64_t) (group_id)`: the shift is that of a 32-bit `int`, which wraps
and is then converted to 64 bits. -/
def groupPriv (groupId : BitVec 32) (groupType : BitVec 8) : BitVec 64 :=
  ((groupType.setWidth 32 : BitVec 32) <<< 31).signExtend 64 + groupId.setWidth 64

def supportedType (groupType : BitVec 8) : Bool :=
  groupType = Ofpgt.all || groupType = Ofpgt.indirect

/-- `group_create`, which stores `groupPriv groupId groupType` in `*entry_priv`. -/
def groupCreate (g : Groups B) (groupId : BitVec 32) (groupType : BitVec 8) (buckets : B)
    (ans : GroupAnswers) : GroupResult B :=
  if supportedType groupType then
    let alloc := .alloc groupId buckets (groupType.setWidth 32)
    let create := .create groupId (groupType.setWidth 32)
    -- the result of ofpat_group_create is dropped
    ⟨.none, [alloc, create], (g.effect alloc).call ans.create create⟩
  else ⟨.notSupported, [], g⟩

def groupModify (g : Groups B) (entryPriv : BitVec 64) (buckets : B) (ans : GroupAnswers) :
    GroupResult B :=
  let groupId : BitVec 32 := entryPriv.setWidth 32
  let groupType : BitVec 32 := (entryPriv >>> 31).setWidth 32
  let delete := .delete groupId groupType
  if ans.delete ≠ 0 then ⟨.unknown, [delete], g⟩
  else
    let alloc := .alloc groupId buckets groupType
    let create := .create groupId groupType
    ⟨.none, [delete, alloc, create], (((g.effect delete).effect alloc).call ans.create create)⟩

/-- `group_delete`, where the type goes through a `uint8_t`. -/
def groupDelete (g : Groups B) (entryPriv : BitVec 64) (ans : GroupAnswers) : GroupResult B :=
  let groupId : BitVec 32 := entryPriv.setWidth 32
  let groupType : BitVec 8 := (entryPriv >>> 31).setWidth 8
  let delete := .delete groupId (groupType.setWidth 32)
  if ans.delete ≠ 0 then ⟨.unknown, [delete], g⟩ else ⟨.none, [delete], g.effect delete⟩

/-! ## Runs -/

structure Group where
  groupId : BitVec 32
  groupType : BitVec 8
  priv : BitVec 64

inductive GroupOp (B : Type)
  | create (groupId : BitVec 32) (groupType : BitVec 8) (buckets : B) (ans : GroupAnswers)
  | modify (entryPriv : BitVec 64) (buckets : B) (ans : GroupAnswers)
  | delete (entryPriv : BitVec 64) (ans : GroupAnswers)

namespace GroupOp

def apply (g : Groups B) : GroupOp B → GroupResult B
  | create id t b ans => groupCreate g id t b ans
  | modify k b ans => groupModify g k b ans
  | delete k ans => groupDelete g k ans

def track (live : List Group) : GroupOp B → List Group
  | create id t _ _ => live ++ [⟨id, t, groupPriv id t⟩]
  | modify _ _ _ => live
  | delete k _ => Store.drop Group.priv k live

end GroupOp

structure GroupWorld (B : Type) where
  groups : Groups B
  live : List Group

namespace GroupWorld

def empty : GroupWorld B := ⟨Groups.empty, []⟩

def step (w : GroupWorld B) (op : GroupOp B) : GroupWorld B :=
  let r := op.apply w.groups
  ⟨r.groups, if r.ret = .none then op.track w.live else w.live⟩

end GroupWorld
end P4OfAgent
