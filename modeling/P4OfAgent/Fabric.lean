import P4OfAgent.Lib.Headers

/-! The part of `openflow.p4` that is about fabric headers: their types, the parsers that start at
`parse_fabric_header`, the two terminate actions and `openflow_miss`. -/

namespace P4OfAgent.P4
open Bytes Bits Headers

def ethertypeBfFabric : BitVec 16 := 0x9000

def fabricHeaderTypeMulticast : BitVec 3 := 2
def fabricHeaderTypeCpu : BitVec 3 := 5

def cpuPortId : Nat := 64

structure Ethernet where
  dstAddr : BitVec 48
  srcAddr : BitVec 48
  etherType : BitVec 16

instance : Header Ethernet where
  zero := ⟨0, 0, 0⟩
  emit h := bits h.dstAddr ++ (bits h.srcAddr ++ bits h.etherType)
  extract := do return ⟨← field 48, ← field 48, ← field 16⟩
  extract_emit h bs := by
    simp only [extract_bind, List.append_assoc, field_bits, Option.bind_some, extract_pure]

structure FabricHeader where
  packetType : BitVec 3
  headerVersion : BitVec 2
  packetVersion : BitVec 2
  pad1 : BitVec 1
  fabricColor : BitVec 3
  fabricQos : BitVec 5
  dstDevice : BitVec 8
  dstPortOrGroup : BitVec 16

instance : Header FabricHeader where
  zero := ⟨0, 0, 0, 0, 0, 0, 0, 0⟩
  emit h := bits h.packetType ++ (bits h.headerVersion ++ (bits h.packetVersion ++ (bits h.pad1 ++
    (bits h.fabricColor ++ (bits h.fabricQos ++ (bits h.dstDevice ++ bits h.dstPortOrGroup))))))
  extract := do
    return ⟨← field 3, ← field 2, ← field 2, ← field 1, ← field 3, ← field 5, ← field 8, ← field 16⟩
  extract_emit h bs := by
    simp only [extract_bind, List.append_assoc, field_bits, Option.bind_some, extract_pure]

structure FabricHeaderMulticast where
  routed : BitVec 1
  outerRouted : BitVec 1
  tunnelTerminate : BitVec 1
  ingressTunnelType : BitVec 5
  ingressIfindex : BitVec 16
  ingressBd : BitVec 16
  mcastGrp : BitVec 16

instance : Header FabricHeaderMulticast where
  zero := ⟨0, 0, 0, 0, 0, 0, 0⟩
  emit h := bits h.routed ++ (bits h.outerRouted ++ (bits h.tunnelTerminate ++
    (bits h.ingressTunnelType ++ (bits h.ingressIfindex ++ (bits h.ingressBd ++ bits h.mcastGrp)))))
  extract := do
    return ⟨← field 1, ← field 1, ← field 1, ← field 5, ← field 16, ← field 16, ← field 16⟩
  extract_emit h bs := by
    simp only [extract_bind, List.append_assoc, field_bits, Option.bind_some, extract_pure]

structure FabricHeaderCpu where
  egressQueue : BitVec 5
  txBypass : BitVec 1
  reserved : BitVec 2
  ingressPort : BitVec 16
  ingressIfindex : BitVec 16
  ingressBd : BitVec 16
  reasonCode : BitVec 16
  mcastGrp : BitVec 16

instance : Header FabricHeaderCpu where
  zero := ⟨0, 0, 0, 0, 0, 0, 0, 0⟩
  emit h := bits h.egressQueue ++ (bits h.txBypass ++ (bits h.reserved ++ (bits h.ingressPort ++
    (bits h.ingressIfindex ++ (bits h.ingressBd ++ (bits h.reasonCode ++ bits h.mcastGrp))))))
  extract := do
    return ⟨← field 5, ← field 1, ← field 2, ← field 16, ← field 16, ← field 16, ← field 16, ← field 16⟩
  extract_emit h bs := by
    simp only [extract_bind, List.append_assoc, field_bits, Option.bind_some, extract_pure]

structure FabricPayloadHeader where
  etherType : BitVec 16

instance : Header FabricPayloadHeader where
  zero := ⟨0⟩
  emit h := bits h.etherType
  extract := do return ⟨← field 16⟩
  extract_emit h bs := by
    simp only [extract_bind, field_bits, Option.bind_some, extract_pure]

/-- `fabric_metadata`, which the target declares. -/
structure FabricMetadata where
  etherType : BitVec 16
  ingressPort : BitVec 16
  reasonCode : BitVec 16

/-- A packet in the pipeline. The target decides the widths of the port fields of
`standard_metadata` and of `intrinsic_metadata.mcast_grp`. -/
structure Packet (w m : Nat) where
  ethernet : Ethernet
  fabricHeader : Inst FabricHeader
  fabricHeaderCpu : Inst FabricHeaderCpu
  fabricHeaderMulticast : Inst FabricHeaderMulticast
  fabricPayloadHeader : Inst FabricPayloadHeader
  payload : List Byte
  ingressPort : BitVec w
  egressSpec : BitVec w
  mcastGrp : BitVec m
  fabricMetadata : FabricMetadata

variable {w m : Nat}

namespace Packet

def start (ethernet : Ethernet) (ingressPort : BitVec w) : Packet w m :=
  ⟨ethernet, .absent, .absent, .absent, .absent, [], ingressPort, 0, 0, ⟨0, 0, 0⟩⟩

def parseFabricPayloadHeader (p : Packet w m) : Extract (Packet w m) := do
  return { p with fabricPayloadHeader := ← Inst.extract }

def parseFabricHeaderCpu (p : Packet w m) : Extract (Packet w m) := do
  parseFabricPayloadHeader { p with fabricHeaderCpu := ← Inst.extract }

def parseFabricHeaderMulticast (p : Packet w m) : Extract (Packet w m) := do
  parseFabricPayloadHeader { p with fabricHeaderMulticast := ← Inst.extract }

def parseFabricHeader (p : Packet w m) : Extract (Packet w m) := do
  let p := { p with fabricHeader := ← Inst.extract }
  if p.fabricHeader.fields.packetType = fabricHeaderTypeMulticast then parseFabricHeaderMulticast p
  else if p.fabricHeader.fields.packetType = fabricHeaderTypeCpu then parseFabricHeaderCpu p
  else return p

/-- The target's parser: Ethernet, and the fabric headers behind `ETHERTYPE_BF_FABRIC`. -/
def parseEthernet (ingressPort : BitVec w) : Extract (Packet w m) := do
  let ethernet ← Header.extract
  if ethernet.etherType = ethertypeBfFabric then parseFabricHeader (start ethernet ingressPort)
  else return start ethernet ingressPort

def receive (ingressPort : BitVec w) (frame : List Byte) : Option (Packet w m) :=
  (parseEthernet ingressPort (ofBytes frame)).map fun r => { r.1 with payload := toBytes r.2 }

def deparse (p : Packet w m) : List Byte :=
  toBytes (Header.emit p.ethernet ++ (p.fabricHeader.emit ++ (p.fabricHeaderCpu.emit ++
    (p.fabricHeaderMulticast.emit ++ (p.fabricPayloadHeader.emit ++ ofBytes p.payload)))))

def terminateCpuPacket (p : Packet w m) : Packet w m :=
  { p with
    egressSpec := p.fabricHeader.fields.dstPortOrGroup.setWidth w
    ethernet := { p.ethernet with etherType := p.fabricPayloadHeader.fields.etherType }
    fabricHeader := p.fabricHeader.remove
    fabricHeaderCpu := p.fabricHeaderCpu.remove
    fabricPayloadHeader := p.fabricPayloadHeader.remove }

def terminateFabricMulticastPacket (p : Packet w m) : Packet w m :=
  { p with
    mcastGrp := p.fabricHeaderMulticast.fields.mcastGrp.setWidth m
    ethernet := { p.ethernet with etherType := p.fabricPayloadHeader.fields.etherType }
    fabricHeader := p.fabricHeader.remove
    fabricHeaderMulticast := p.fabricHeaderMulticast.remove
    fabricPayloadHeader := p.fabricPayloadHeader.remove }

/-- The table `packet_out` with the terminate action of each packet type, and `nop` otherwise. -/
def packetOut (p : Packet w m) : Packet w m :=
  if p.fabricHeader.valid = true ∧ p.fabricHeader.fields.packetType = fabricHeaderTypeMulticast then
    terminateFabricMulticastPacket p
  else if p.fabricHeader.valid = true ∧ p.fabricHeader.fields.packetType = fabricHeaderTypeCpu then
    terminateCpuPacket p
  else p

def openflowMiss (reason tableId : BitVec 8) (p : Packet w m) : Packet w m :=
  let reasonCode : BitVec 16 := reason.setWidth 16
  let reasonCode := reasonCode <<< 8
  let reasonCode := reasonCode ||| tableId.setWidth 16
  { p with
    fabricHeader := p.fabricHeader.add
    fabricHeaderCpu := p.fabricHeaderCpu.add
    fabricPayloadHeader := p.fabricPayloadHeader.add
    fabricMetadata := ⟨p.ethernet.etherType, p.ingressPort.setWidth 16, reasonCode⟩
    egressSpec := BitVec.ofNat w cpuPortId }

section parse
variable (p : Packet w m) (bs : List Bool)

theorem parseFabricPayloadHeader_emit (h : FabricPayloadHeader) :
    parseFabricPayloadHeader p (Header.emit h ++ bs) =
      some ({ p with fabricPayloadHeader := ⟨true, h⟩ }, bs) := by
  simp only [parseFabricPayloadHeader, extract_bind, Inst.extract_emit, Option.bind_some, extract_pure]

theorem parseFabricHeaderCpu_emit (c : FabricHeaderCpu) (h : FabricPayloadHeader) :
    parseFabricHeaderCpu p (Header.emit c ++ (Header.emit h ++ bs)) =
      some ({ p with fabricHeaderCpu := ⟨true, c⟩, fabricPayloadHeader := ⟨true, h⟩ }, bs) := by
  simp only [parseFabricHeaderCpu, extract_bind, Inst.extract_emit, Option.bind_some,
    parseFabricPayloadHeader_emit]

theorem parseFabricHeader_cpu {f : FabricHeader} (hf : f.packetType = fabricHeaderTypeCpu) :
    parseFabricHeader p (Header.emit f ++ bs) =
      parseFabricHeaderCpu { p with fabricHeader := ⟨true, f⟩ } bs := by
  have hne : fabricHeaderTypeCpu ≠ fabricHeaderTypeMulticast := by decide
  simp only [parseFabricHeader, extract_bind, Inst.extract_emit, Option.bind_some, hf, if_true,
    if_neg hne]

theorem parseEthernet_fabric (port : BitVec w) {e : Ethernet} (he : e.etherType = ethertypeBfFabric) :
    parseEthernet port (Header.emit e ++ bs) = parseFabricHeader (start e port : Packet w m) bs := by
  simp only [parseEthernet, extract_bind, Header.extract_emit, Option.bind_some, he, if_true]

end parse

theorem receive_cpu {frame payload : List Byte} {e : Ethernet} {f : FabricHeader}
    {c : FabricHeaderCpu} {h : FabricPayloadHeader} (port : BitVec w)
    (hframe : ofBytes frame = Header.emit e ++ (Header.emit f ++ (Header.emit c ++
      (Header.emit h ++ ofBytes payload))))
    (he : e.etherType = ethertypeBfFabric) (hf : f.packetType = fabricHeaderTypeCpu) :
    receive port frame = some { (start e port : Packet w m) with
      fabricHeader := ⟨true, f⟩
      fabricHeaderCpu := ⟨true, c⟩
      fabricPayloadHeader := ⟨true, h⟩
      payload := payload } := by
  unfold receive
  rw [hframe, parseEthernet_fabric _ port he, parseFabricHeader_cpu _ _ hf,
    parseFabricHeaderCpu_emit, Option.map_some, toBytes_ofBytes]

structure TakesCpuBranch (p : Packet w m) : Prop where
  fabric : p.fabricHeader.valid = true
  packetType : p.fabricHeader.fields.packetType = fabricHeaderTypeCpu
  cpu : p.fabricHeaderCpu.valid = true
  multicast : p.fabricHeaderMulticast.valid = false

theorem TakesCpuBranch.packetOut {p : Packet w m} (hp : TakesCpuBranch p) :
    p.packetOut = p.terminateCpuPacket := by
  have hne : fabricHeaderTypeCpu ≠ fabricHeaderTypeMulticast := by decide
  unfold Packet.packetOut
  rw [hp.packetType, if_neg fun h => hne h.2, if_pos ⟨hp.fabric, rfl⟩]

theorem deparse_bare {p : Packet w m} (hf : p.fabricHeader.valid = false)
    (hc : p.fabricHeaderCpu.valid = false) (hm : p.fabricHeaderMulticast.valid = false)
    (hp : p.fabricPayloadHeader.valid = false) :
    deparse p = toBytes (Header.emit p.ethernet ++ ofBytes p.payload) := by
  simp only [deparse, Inst.emit, hf, hc, hm, hp, Bool.false_eq_true, if_false, List.nil_append]

end Packet
end P4OfAgent.P4
