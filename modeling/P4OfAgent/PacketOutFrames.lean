import P4OfAgent.PacketOut
import P4OfAgent.Wire

/-! Packet-outs in the pipeline: what `openflow.p4` makes of the frames that `indigo_fwd_packet_out`
sends. A frame for an output port comes out as the data of the message on that port; one for the flood
ports comes out on port 0. -/

namespace P4OfAgent
open Bytes Bits Headers P4
variable {w m : Nat}

theorem headers_packetType (po : PacketOut) :
    po.headers.fabric.wire.packetType = fabricHeaderTypeCpu := by
  change (0xa0 : BitVec 8).extractLsb' 5 3 = 5
  decide

theorem exists_macs (b : Buf) :
    ∃ dst src : BitVec 48, Bits.ofBytes (slice b 0 12) = bits dst ++ bits src := by
  have hlen : (Bits.ofBytes (slice b 0 12)).length = 96 := by rw [length_ofBytes, length_slice]
  have hdst : ((Bits.ofBytes (slice b 0 12)).take 48).length = 48 := by
    rw [List.length_take, hlen]
    rfl
  have hsrc : ((Bits.ofBytes (slice b 0 12)).drop 48).length = 48 := by rw [List.length_drop, hlen]
  obtain ⟨dst, hd⟩ := exists_bits hdst
  obtain ⟨src, hs⟩ := exists_bits hsrc
  exact ⟨dst, src, by rw [hd, hs, List.take_append_drop]⟩

theorem ofBytes_etherType (b : Buf) (off : Nat) :
    Bits.ofBytes (slice b off 2) = bits (b off ++ b (off + 1) : BitVec 16) := by
  rw [← ofBytes_toBE16, toBE16_append, slice_succ, slice_succ, slice_zero]

theorem ofBytes_frame (hs : OutHeaders) (d : Octets) {dst src : BitVec 48}
    (hmac : Bits.ofBytes (slice d.data 0 12) = bits dst ++ bits src) :
    Bits.ofBytes (hs.frame d) = Header.emit (⟨dst, src, ethertypeBfFabric⟩ : Ethernet) ++
      (Header.emit hs.fabric.wire ++ (Header.emit hs.cpu.wire ++
        (Header.emit (⟨d.data 12 ++ d.data 13⟩ : FabricPayloadHeader) ++
          Bits.ofBytes (slice d.data 14 (d.bytes - 14))))) := by
  have hfab : Bits.ofBytes [0x90, 0x00] = bits ethertypeBfFabric := rfl
  unfold OutHeaders.frame
  simp only [ofBytes_append]
  rw [hmac, hfab, ofBytes_etherType, FabricHeader.ofBytes_swap, FabricHeaderCpu.ofBytes_swap]
  simp only [Header.emit, List.append_assoc]

theorem receive_frame (hs : OutHeaders) {d : Octets} (port : BitVec w)
    (hcpu : hs.fabric.wire.packetType = fabricHeaderTypeCpu) (hmin : 14 ≤ d.bytes) :
    ∃ p : Packet w m, Packet.receive port (hs.frame d) = some p ∧ p.TakesCpuBranch ∧
      p.fabricHeader.fields = hs.fabric.wire ∧ p.mcastGrp = 0 ∧
      p.terminateCpuPacket.deparse = slice d.data 0 d.bytes := by
  obtain ⟨dst, src, hmac⟩ := exists_macs d.data
  have hparse := Packet.receive_cpu (m := m) port (ofBytes_frame hs d hmac) rfl hcpu
  refine ⟨_, hparse, ⟨rfl, hcpu, rfl, rfl⟩, rfl, rfl, ?_⟩
  have hdata : slice d.data 0 d.bytes =
      slice d.data 0 12 ++ (slice d.data 12 2 ++ slice d.data 14 (d.bytes - 14)) := by
    rw [← slice_add, ← slice_add]
    exact congrArg (slice d.data 0) (by omega)
  rw [Packet.deparse_bare rfl rfl rfl rfl, hdata, ← toBytes_ofBytes (_ ++ _), ofBytes_append,
    ofBytes_append, hmac, ofBytes_etherType]
  simp only [Packet.terminateCpuPacket, Packet.start, Header.emit, List.append_assoc]

/-- The pipeline sends the data of a packet-out to a port: its frame takes the CPU branch, and
`terminate_cpu_packet` gives it that port and the form of the data. -/
def DeliversTo (p : Packet w m) (port : BitVec 32) (data : List Byte) : Prop :=
  p.TakesCpuBranch ∧ p.terminateCpuPacket.egressSpec.toNat = port.toNat ∧
    p.terminateCpuPacket.deparse = data

theorem packetOut_delivers (floodMc : BitVec 32) (outBuf : Buf) (po : PacketOut) {a : Action}
    (hactions : po.actions = [a]) (hout : a.type = Ofpat.output)
    (hport : a.outputPort.toNat < 2 ^ 16) (hfit : a.outputPort.toNat < 2 ^ w)
    (hmin : 14 ≤ po.data.bytes) (hmax : po.data.bytes ≤ 1982)
    (cpuPort : BitVec w) : ∃ frame, (indigoFwdPacketOut floodMc outBuf po).sent = some frame ∧
      ∃ p : Packet w m, Packet.receive cpuPort frame = some p ∧
        DeliversTo p a.outputPort (slice po.data.data 0 po.data.bytes) := by
  have hnot : ¬ (a.outputPort = ofppFlood ∨ a.outputPort = ofppAll) := by
    rintro (he | he) <;> rw [he] at hport <;> exact absurd hport (by decide)
  let hs : OutHeaders := { po.headers with
    fabric := { po.headers.fabric with dstPortOrGroup := a.outputPort.setWidth 16 } }
  have ho : po.headers.outputs floodMc po.actions = some hs := by
    rw [hactions, OutHeaders.outputs, OutHeaders.output_eq _ _ hout, if_neg hnot]
  have hsent := (indigoFwdPacketOut_accepted floodMc outBuf ho hmin (by omega)).2
  obtain ⟨p, hp, hbranch, hf, -, hd⟩ := receive_frame (m := m) hs cpuPort (headers_packetType po) hmin
  refine ⟨_, hsent, p, hp, hbranch, ?_, hd⟩
  -- neither 16 bits of the fabric header nor those of the target lose anything
  simp only [Packet.terminateCpuPacket, hf, FabricHeader.wire, hs, BitVec.toNat_setWidth]
  rw [Nat.mod_eq_of_lt hport, Nat.mod_eq_of_lt hfit]

def plainPacketOut (port : BitVec 32) : PacketOut :=
  ⟨⟨fun _ => 0, 14⟩, 1, [⟨Ofpat.output, toBE32 port⟩]⟩

theorem packetOut_delivers_seven : ∃ frame,
    (indigoFwdPacketOut 0 (fun _ => 0) (plainPacketOut 7)).sent = some frame ∧
      ∃ p : Packet 9 16, Packet.receive 64 frame = some p ∧
        DeliversTo p 7 (List.replicate 14 0) :=
  packetOut_delivers (m := 16) 0 (fun _ => 0) (plainPacketOut 7) rfl rfl (by decide) (by decide)
    (Nat.le_refl 14) (by decide) 64

def ReachesGroup (hdl : BitVec 32) (p : Packet w m) : Prop :=
  p.mcastGrp.toNat = hdl.toNat ∧ ¬ (p.mcastGrp = 0 ∧ p.egressSpec = 0)

def FloodReachesGroup (m : Nat) (floodMc : BitVec 32) (outBuf : Buf) (po : PacketOut)
    (cpuPort : BitVec w) : Prop :=
  ∃ frame, (indigoFwdPacketOut floodMc outBuf po).sent = some frame ∧
    ∃ p : Packet w m, Packet.receive cpuPort frame = some p ∧ ReachesGroup floodMc p.packetOut

/-- `terminate_cpu_packet` does not read the group that the agent has put into the CPU header. -/
theorem flood_unicast (floodMc : BitVec 32) (outBuf : Buf) (po : PacketOut) {a : Action}
    (hactions : po.actions = [a]) (hout : a.type = Ofpat.output)
    (hflood : a.outputPort = ofppFlood ∨ a.outputPort = ofppAll) (hmin : 14 ≤ po.data.bytes)
    (hmax : po.data.bytes ≤ 1982) (cpuPort : BitVec w) : ∃ frame,
      (indigoFwdPacketOut floodMc outBuf po).sent = some frame ∧
        ∃ p : Packet w m, Packet.receive cpuPort frame = some p ∧
          p.packetOut.mcastGrp = 0 ∧ p.packetOut.egressSpec = 0 := by
  let hs : OutHeaders := { po.headers with
    cpu := { po.headers.cpu with mcastGrp := floodMc.setWidth 16 } }
  have ho : po.headers.outputs floodMc po.actions = some hs := by
    rw [hactions, OutHeaders.outputs, OutHeaders.output_eq _ _ hout, if_pos hflood]
  have hsent := (indigoFwdPacketOut_accepted floodMc outBuf ho hmin (by omega)).2
  obtain ⟨p, hp, hbranch, hf, hm, -⟩ := receive_frame (m := m) hs cpuPort (headers_packetType po) hmin
  refine ⟨_, hsent, p, hp, ?_⟩
  rw [hbranch.packetOut]
  refine ⟨hm, ?_⟩
  unfold Packet.terminateCpuPacket
  rw [hf]
  exact BitVec.setWidth_zero w 16

theorem not_floodReachesGroup (floodMc : BitVec 32) (outBuf : Buf) (po : PacketOut) {a : Action}
    (hactions : po.actions = [a]) (hout : a.type = Ofpat.output)
    (hflood : a.outputPort = ofppFlood ∨ a.outputPort = ofppAll) (hmin : 14 ≤ po.data.bytes)
    (hmax : po.data.bytes ≤ 1982) (cpuPort : BitVec w) :
    ¬ FloodReachesGroup m floodMc outBuf po cpuPort := by
  rintro ⟨frame, hsent, p, hp, -, hg⟩
  obtain ⟨frame', hsent', p', hp', h0⟩ :=
    flood_unicast (m := m) floodMc outBuf po hactions hout hflood hmin hmax cpuPort
  obtain rfl := Option.some.inj (hsent.symm.trans hsent')
  obtain rfl := Option.some.inj (hp.symm.trans hp')
  exact hg h0

theorem not_floodReachesGroup_all :
    ¬ FloodReachesGroup (w := 16) 16 3 (fun _ => 0) (plainPacketOut ofppAll) 64 :=
  not_floodReachesGroup 3 (fun _ => 0) (plainPacketOut ofppAll) rfl rfl (by decide)
    (Nat.le_refl 14) (by decide) 64

theorem flood_misses : ¬ FloodReachesGroup (w := 16) 16 1 (fun _ => 0) (plainPacketOut ofppFlood) 64 := by
  rintro ⟨frame, hsent, p, hp, hg, -⟩
  obtain ⟨frame', hsent', p', hp', h0, -⟩ := flood_unicast (m := 16) 1 (fun _ => 0)
    (plainPacketOut ofppFlood) rfl rfl (by decide) (Nat.le_refl 14) (by decide) (64 : BitVec 16)
  obtain rfl := Option.some.inj (hsent.symm.trans hsent')
  obtain rfl := Option.some.inj (hp.symm.trans hp')
  rw [h0] at hg
  exact absurd hg (by decide)

end P4OfAgent
