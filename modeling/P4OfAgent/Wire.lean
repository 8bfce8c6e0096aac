import P4OfAgent.CpuPacket
import P4OfAgent.Fabric

/-! The packed structs of the agent and the header types of `openflow.p4` describe the same bytes: a
struct that was swapped lies in memory as the P4 header with its fields is emitted. -/

namespace P4OfAgent
open Bytes Bits Headers

namespace P4

def FabricHeader.host (h : FabricHeader) : P4OfAgent.FabricHeader where
  w0 := h.packetType ++ h.headerVersion ++ h.packetVersion ++ h.pad1
  w1 := h.fabricColor ++ h.fabricQos
  dstDevice := h.dstDevice
  dstPortOrGroup := h.dstPortOrGroup

def FabricHeaderCpu.host (h : FabricHeaderCpu) : P4OfAgent.FabricHeaderCpu where
  w0 := h.egressQueue ++ h.txBypass ++ h.reserved
  ingressPort := h.ingressPort
  ingressIfindex := h.ingressIfindex
  ingressBd := h.ingressBd
  reasonCode := h.reasonCode
  mcastGrp := h.mcastGrp

theorem FabricHeader.emit_eq (h : FabricHeader) (b : Bool) :
    Header.emit h = ofBytes (h.host.swap b).bytes := by
  have hw0 : bits h.host.w0 = bits h.packetType ++ (bits h.headerVersion ++
      (bits h.packetVersion ++ bits h.pad1)) := by
    refine (bits_append (h.packetType ++ h.headerVersion ++ h.packetVersion) h.pad1).trans ?_
    rw [bits_append, bits_append, List.append_assoc, List.append_assoc]
  have hw1 : bits h.host.w1 = bits h.fabricColor ++ bits h.fabricQos :=
    bits_append h.fabricColor h.fabricQos
  rw [FabricHeader.bytes_swap, ofBytes_append, ofBytes_toBE16, ofBytes_cons, ofBytes_cons,
    ofBytes_cons, hw0, hw1]
  simp only [Header.emit, host, ofBytes, List.flatMap_nil, List.append_nil, List.append_assoc]

theorem FabricHeaderCpu.emit_eq (h : FabricHeaderCpu) (b : Bool) :
    Header.emit h = ofBytes (h.host.swap b).bytes := by
  have hw0 : bits h.host.w0 = bits h.egressQueue ++ (bits h.txBypass ++ bits h.reserved) := by
    refine (bits_append (h.egressQueue ++ h.txBypass) h.reserved).trans ?_
    rw [bits_append, List.append_assoc]
  rw [FabricHeaderCpu.bytes_swap, ofBytes_cons, hw0]
  simp only [Header.emit, host, ofBytes_append, ofBytes_toBE16, List.append_assoc]

end P4

def FabricHeader.wire (f : FabricHeader) : P4.FabricHeader where
  packetType := f.w0.extractLsb' 5 3
  headerVersion := f.w0.extractLsb' 3 2
  packetVersion := f.w0.extractLsb' 1 2
  pad1 := f.w0.extractLsb' 0 1
  fabricColor := f.w1.extractLsb' 5 3
  fabricQos := f.w1.extractLsb' 0 5
  dstDevice := f.dstDevice
  dstPortOrGroup := f.dstPortOrGroup

def FabricHeaderCpu.wire (c : FabricHeaderCpu) : P4.FabricHeaderCpu where
  egressQueue := c.w0.extractLsb' 3 5
  txBypass := c.w0.extractLsb' 2 1
  reserved := c.w0.extractLsb' 0 2
  ingressPort := c.ingressPort
  ingressIfindex := c.ingressIfindex
  ingressBd := c.ingressBd
  reasonCode := c.reasonCode
  mcastGrp := c.mcastGrp

open BitVec in
theorem FabricHeader.host_wire (f : FabricHeader) : f.wire.host = f := by
  have hw0 : f.wire.host.w0 = f.w0 := by
    simp only [wire, P4.FabricHeader.host]
    rw [extractLsb'_append_extractLsb'_eq_extractLsb' (show 5 = 3 + 2 from rfl),
      extractLsb'_append_extractLsb'_eq_extractLsb' (show 3 = 1 + 2 from rfl)]
    exact extractLsb'_append_extractLsb'
  have hw1 : f.wire.host.w1 = f.w1 := extractLsb'_append_extractLsb'
  exact (congrArg₂ (fun w0 w1 => (⟨w0, w1, f.dstDevice, f.dstPortOrGroup⟩ : FabricHeader)) hw0 hw1)

open BitVec in
theorem FabricHeaderCpu.host_wire (c : FabricHeaderCpu) : c.wire.host = c := by
  have hw0 : c.wire.host.w0 = c.w0 := by
    simp only [wire, P4.FabricHeaderCpu.host]
    rw [extractLsb'_append_extractLsb'_eq_extractLsb' (show 3 = 2 + 1 from rfl)]
    exact extractLsb'_append_extractLsb'
  exact congrArg (fun w0 => { c with w0 := w0 }) hw0

theorem FabricHeader.ofBytes_swap (f : FabricHeader) (b : Bool) :
    Bits.ofBytes (f.swap b).bytes = Header.emit f.wire := by
  rw [P4.FabricHeader.emit_eq f.wire b, host_wire]

theorem FabricHeaderCpu.ofBytes_swap (c : FabricHeaderCpu) (b : Bool) :
    Bits.ofBytes (c.swap b).bytes = Header.emit c.wire := by
  rw [P4.FabricHeaderCpu.emit_eq c.wire b, host_wire]

end P4OfAgent
