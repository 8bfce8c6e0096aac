import P4OfAgent.Fabric
import P4OfAgent.OpenFlow

/-! The openflow part of `openflow.p4`, with MPLS, VLAN and L3 enabled: `openflow_apply`, the `ofpat`
tables with their actions, and the two control blocks that apply the tables under the tests of the
bitmap. -/

namespace P4OfAgent.P4
open Bits Headers

structure OpenflowMetadata where
  index : BitVec 32
  bmap : BitVec 32
  groupId : BitVec 32
  ofvalid : BitVec 1
deriving DecidableEq

structure VlanTag where
  pcp : BitVec 3
  cfi : BitVec 1
  vid : BitVec 12
  etherType : BitVec 16

instance : Header VlanTag where
  zero := ⟨0, 0, 0, 0⟩
  emit h := bits h.pcp ++ (bits h.cfi ++ (bits h.vid ++ bits h.etherType))
  extract := do return ⟨← field 3, ← field 1, ← field 12, ← field 16⟩
  extract_emit h bs := by
    simp only [extract_bind, List.append_assoc, field_bits, Option.bind_some, extract_pure]

structure Mpls where
  label : BitVec 20
  exp : BitVec 3
  bos : BitVec 1
  ttl : BitVec 8

instance : Header Mpls where
  zero := ⟨0, 0, 0, 0⟩
  emit h := bits h.label ++ (bits h.exp ++ (bits h.bos ++ bits h.ttl))
  extract := do return ⟨← field 20, ← field 3, ← field 1, ← field 8⟩
  extract_emit h bs := by
    simp only [extract_bind, List.append_assoc, field_bits, Option.bind_some, extract_pure]

structure Ipv4 where
  ttl : BitVec 8

structure Ipv6 where
  hopLimit : BitVec 8

/-- What the openflow tables read and change of a packet. `vlanTag` and `mpls` are the elements 0 of
the stacks `vlan_tag_` and `mpls`. -/
structure OfPacket (w m : Nat) where
  ethernet : Ethernet
  vlanTag : Inst VlanTag
  mpls : Inst Mpls
  ipv4 : Inst Ipv4
  ipv6 : Inst Ipv6
  md : OpenflowMetadata
  egressSpec : BitVec w
  egressPort : BitVec w
  egressIfindex : BitVec 16
  mcastGrp : BitVec m

variable {w m : Nat}

def ethertypeVlan : BitVec 16 := 0x8100
def ethertypeMpls : BitVec 16 := 0x8847
def ethertypeIpv4 : BitVec 16 := 0x0800
def ethertypeIpv6 : BitVec 16 := 0x86dd

namespace OfPacket

def start (etherType : BitVec 16) : OfPacket w m :=
  ⟨⟨0, 0, etherType⟩, .absent, .absent, ⟨false, ⟨0⟩⟩, ⟨false, ⟨0⟩⟩, ⟨0, 0, 0, 0⟩, 0, 0, 0, 0⟩

variable (p : OfPacket w m)

def setEtherType (etherType : BitVec 16) : OfPacket w m :=
  { p with ethernet := { p.ethernet with etherType := etherType } }

/-! The actions. -/

def openflowApply (bmap index groupId : BitVec 32) : OfPacket w m :=
  { p with md := ⟨index, bmap, groupId, 1⟩ }

def ofpatGroupEgressUpdate (bmap : BitVec 32) : OfPacket w m :=
  { p with md := { p.md with bmap := p.md.bmap ||| bmap } }

def ofpatGroupIngressUc (ifindex : BitVec w) : OfPacket w m := { p with egressSpec := ifindex }

def ofpatGroupIngressMc (mcindex : BitVec m) : OfPacket w m := { p with mcastGrp := mcindex }

def ofpatOutput (egressPort : BitVec w) : OfPacket w m :=
  { p with egressSpec := egressPort, egressIfindex := 0 }

def ofpatSetMplsTtl (ttl : BitVec 8) : OfPacket w m :=
  { p with mpls := p.mpls.modify fun h => { h with ttl := ttl } }

def ofpatDecMplsTtl : OfPacket w m :=
  { p with mpls := p.mpls.modify fun h => { h with ttl := h.ttl - 1 } }

def ofpatPushMpls : OfPacket w m :=
  let p := p.setEtherType ethertypeMpls
  { p with mpls := p.mpls.add }

def ofpatPopMpls : OfPacket w m := { p with mpls := p.mpls.remove }

def ofpatPushVlan : OfPacket w m :=
  let p := p.setEtherType ethertypeVlan
  let p := { p with vlanTag := p.vlanTag.add }
  { p with vlanTag := p.vlanTag.modify fun h => { h with etherType := ethertypeIpv4 } }

def ofpatPopVlan : OfPacket w m :=
  let p := p.setEtherType p.vlanTag.fields.etherType
  { p with vlanTag := p.vlanTag.remove }

def ofpatSetVlanVid (vid : BitVec 12) : OfPacket w m :=
  { p with vlanTag := p.vlanTag.modify fun h => { h with vid := vid } }

def ofpatSetNwTtlIpv4 (ttl : BitVec 8) : OfPacket w m :=
  { p with ipv4 := p.ipv4.modify fun h => { h with ttl := ttl } }

def ofpatSetNwTtlIpv6 (ttl : BitVec 8) : OfPacket w m :=
  { p with ipv6 := p.ipv6.modify fun h => { h with hopLimit := ttl } }

def ofpatDecNwTtlIpv4 : OfPacket w m :=
  { p with ipv4 := p.ipv4.modify fun h => { h with ttl := h.ttl - 1 } }

def ofpatDecNwTtlIpv6 : OfPacket w m :=
  { p with ipv6 := p.ipv6.modify fun h => { h with hopLimit := h.hopLimit - 1 } }

end OfPacket

/-! The tables. A lookup gives the arguments of the table's `ofpat` action, or nothing on a miss and
where the entry runs `nop`. -/

inductive EgressTable
  | popMpls | pushMpls | decMplsTtl | setMplsTtl
  | popVlan | pushVlan | setField
  | decNwTtlIpv4 | decNwTtlIpv6 | setNwTtlIpv4 | setNwTtlIpv6
deriving DecidableEq, Repr

namespace EgressTable

def Args : EgressTable → Type
  | setMplsTtl => BitVec 8
  | setField => BitVec 12
  | decNwTtlIpv6 => BitVec 8
  | setNwTtlIpv4 => BitVec 8
  | setNwTtlIpv6 => BitVec 8
  | _ => Unit

/-- The argument of `ofpat_dec_nw_ttl_ipv6` is not used. -/
def action : (t : EgressTable) → t.Args → OfPacket w m → OfPacket w m
  | popMpls, _, p => p.ofpatPopMpls
  | pushMpls, _, p => p.ofpatPushMpls
  | decMplsTtl, _, p => p.ofpatDecMplsTtl
  | setMplsTtl, ttl, p => p.ofpatSetMplsTtl ttl
  | popVlan, _, p => p.ofpatPopVlan
  | pushVlan, _, p => p.ofpatPushVlan
  | setField, vid, p => p.ofpatSetVlanVid vid
  | decNwTtlIpv4, _, p => p.ofpatDecNwTtlIpv4
  | decNwTtlIpv6, _, p => p.ofpatDecNwTtlIpv6
  | setNwTtlIpv4, ttl, p => p.ofpatSetNwTtlIpv4 ttl
  | setNwTtlIpv6, ttl, p => p.ofpatSetNwTtlIpv6 ttl

end EgressTable

inductive GroupIngress (w m : Nat)
  | uc (ifindex : BitVec w)
  | mc (mcindex : BitVec m)

/-- The key of the tables with ternary reads: the port is `egress_spec` in ingress and `egress_port`
in egress. -/
structure Key (w : Nat) where
  index : BitVec 32
  groupId : BitVec 32
  port : BitVec w
deriving DecidableEq

structure Tables (w m : Nat) where
  ofpatGroupIngress : BitVec 32 → Option (GroupIngress w m)
  ofpatOutput : Key w → Option (BitVec w)
  ofpatGroupEgress : BitVec 32 → BitVec w → Option (BitVec 32)
  egress : (t : EgressTable) → Key w → Option t.Args

def Tables.empty : Tables w m := ⟨fun _ => none, fun _ => none, fun _ _ => none, fun _ _ => none⟩

namespace OfPacket
variable (t : Tables w m) (p : OfPacket w m)

def ingressKey : Key w := ⟨p.md.index, p.md.groupId, p.egressSpec⟩
def egressKey : Key w := ⟨p.md.index, p.md.groupId, p.egressPort⟩

def applyGroupIngress : OfPacket w m :=
  match t.ofpatGroupIngress p.md.groupId with
  | some (.uc ifindex) => p.ofpatGroupIngressUc ifindex
  | some (.mc mcindex) => p.ofpatGroupIngressMc mcindex
  | none => p

def applyOutput : OfPacket w m :=
  match t.ofpatOutput p.ingressKey with
  | some port => p.ofpatOutput port
  | none => p

def applyGroupEgress : OfPacket w m :=
  match t.ofpatGroupEgress p.md.groupId p.egressPort with
  | some bmap => p.ofpatGroupEgressUpdate bmap
  | none => p

def apply (table : EgressTable) : OfPacket w m :=
  match t.egress table p.egressKey with
  | some args => table.action args p
  | none => p

end OfPacket

/-! The tests of the bitmap, each of the form `openflow_metadata.bmap & mask == mask`. -/

inductive Gate
  | group | output
  | popMpls | pushMpls | decMplsTtl | setMplsTtl
  | popVlan | pushVlan | setField
  | decNwTtl | setNwTtl
deriving DecidableEq, Repr

namespace Gate

def mask : Gate → BitVec 32
  | group => 0x400000
  | output => 0x1
  | popMpls => 0x100000
  | pushMpls => 0x80000
  | decMplsTtl => 0x10000
  | setMplsTtl => 0x8000
  | popVlan => 0x40000
  | pushVlan => 0x20000
  | setField => 0x2000000
  | decNwTtl => 0x1000000
  | setNwTtl => 0x800000

def passes (g : Gate) (md : OpenflowMetadata) : Bool := md.bmap &&& g.mask == g.mask

def type : Gate → BitVec 16
  | group => Ofpat.group
  | output => Ofpat.output
  | popMpls => Ofpat.popMpls
  | pushMpls => Ofpat.pushMpls
  | decMplsTtl => Ofpat.decMplsTtl
  | setMplsTtl => Ofpat.setMplsTtl
  | popVlan => Ofpat.popVlan
  | pushVlan => Ofpat.pushVlan
  | setField => Ofpat.setField
  | decNwTtl => Ofpat.decNwTtl
  | setNwTtl => Ofpat.setNwTtl

end Gate

def processOfpatIngress (t : Tables w m) (p : OfPacket w m) : OfPacket w m :=
  let p := if Gate.group.passes p.md then p.applyGroupIngress t else p
  if Gate.output.passes p.md then p.applyOutput t else p

/-- `apply(ofpat_group_egress)` stands under no test. -/
def processOfpatEgress (t : Tables w m) (p : OfPacket w m) : OfPacket w m :=
  let p := p.applyGroupEgress t
  let p := if Gate.popMpls.passes p.md then p.apply t .popMpls else p
  let p := if Gate.pushMpls.passes p.md then p.apply t .pushMpls else p
  let p := if Gate.decMplsTtl.passes p.md then p.apply t .decMplsTtl else p
  let p := if Gate.setMplsTtl.passes p.md then p.apply t .setMplsTtl else p
  let p := if Gate.popVlan.passes p.md then p.apply t .popVlan else p
  let p := if Gate.pushVlan.passes p.md then p.apply t .pushVlan else p
  let p := if Gate.setField.passes p.md then p.apply t .setField else p
  let p := if Gate.decNwTtl.passes p.md then
      if p.ipv4.valid then p.apply t .decNwTtlIpv4
      else if p.ipv6.valid then p.apply t .decNwTtlIpv6 else p
    else p
  if Gate.setNwTtl.passes p.md then
    if p.ipv4.valid then p.apply t .setNwTtlIpv4
    else if p.ipv6.valid then p.apply t .setNwTtlIpv6 else p
  else p

/-! The egress block as a sequence of tests. -/

def Gate.table (p : OfPacket w m) : Gate → Option EgressTable
  | group => none
  | output => none
  | popMpls => some .popMpls
  | pushMpls => some .pushMpls
  | decMplsTtl => some .decMplsTtl
  | setMplsTtl => some .setMplsTtl
  | popVlan => some .popVlan
  | pushVlan => some .pushVlan
  | setField => some .setField
  | decNwTtl =>
    if p.ipv4.valid then some .decNwTtlIpv4 else if p.ipv6.valid then some .decNwTtlIpv6 else none
  | setNwTtl =>
    if p.ipv4.valid then some .setNwTtlIpv4 else if p.ipv6.valid then some .setNwTtlIpv6 else none

def gated (t : Tables w m) (g : Gate) (p : OfPacket w m) : OfPacket w m :=
  if g.passes p.md then (g.table p).elim p fun table => p.apply t table else p

def egressOrder : List Gate :=
  [.popMpls, .pushMpls, .decMplsTtl, .setMplsTtl, .popVlan, .pushVlan, .setField, .decNwTtl, .setNwTtl]

theorem elim_ite_table (b c : Bool) (x y : EgressTable) (t : Tables w m) (p : OfPacket w m) :
    ((if b then some x else if c then some y else none).elim p fun table => p.apply t table) =
      if b then p.apply t x else if c then p.apply t y else p := by
  cases b
  · cases c <;> rfl
  · rfl

theorem processOfpatEgress_eq (t : Tables w m) (p : OfPacket w m) :
    processOfpatEgress t p = egressOrder.foldl (fun p g => gated t g p) (p.applyGroupEgress t) := by
  simp only [egressOrder, List.foldl_cons, List.foldl_nil, gated, Gate.table, elim_ite_table,
    Option.elim_some]
  rfl

end P4OfAgent.P4
