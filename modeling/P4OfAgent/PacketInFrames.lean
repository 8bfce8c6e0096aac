import P4OfAgent.PacketIn
import P4OfAgent.Wire

/-! Packet-ins of the pipeline: what `packet_in_handler` reports of the frames that `openflow.p4` sends
to the CPU port. The metadata survives; the data has 18 bytes too many. -/

namespace P4OfAgent
open Bytes Bits Headers P4
variable {w m : Nat}

structure CpuFrame where
  mac : List Byte
  outerType : List Byte
  fabric : List Byte
  cpu : List Byte
  etherType : List Byte
  payload : List Byte
  length_mac : mac.length = 12
  length_outerType : outerType.length = 2
  length_fabric : fabric.length = FabricHeader.sizeof
  length_cpu : cpu.length = FabricHeaderCpu.sizeof
  length_etherType : etherType.length = sizeofFabricPayloadHeader

namespace CpuFrame
variable (f : CpuFrame)

def bytes : List Byte :=
  f.mac ++ (f.outerType ++ (f.fabric ++ (f.cpu ++ (f.etherType ++ f.payload))))

def original : List Byte := f.mac ++ f.etherType ++ f.payload

theorem length_bytes : f.bytes.length = 32 + f.payload.length := by
  simp only [bytes, List.length_append, f.length_mac, f.length_outerType, f.length_fabric,
    f.length_cpu, f.length_etherType, FabricHeader.sizeof, FabricHeaderCpu.sizeof,
    sizeofFabricPayloadHeader]
  omega

theorem length_original : f.original.length = 14 + f.payload.length := by
  simp only [original, List.length_append, f.length_mac, f.length_etherType,
    sizeofFabricPayloadHeader]

theorem slice_mac : slice (ofList f.bytes) 0 12 = f.mac := by
  have h := slice_ofList_middle [] f.mac (f.outerType ++ (f.fabric ++ (f.cpu ++
    (f.etherType ++ f.payload))))
  rwa [f.length_mac] at h

theorem slice_cpu : slice (ofList f.bytes) 19 FabricHeaderCpu.sizeof = f.cpu := by
  have h := slice_ofList_middle (f.mac ++ (f.outerType ++ f.fabric)) f.cpu (f.etherType ++ f.payload)
  simp only [List.length_append, f.length_mac, f.length_outerType, f.length_fabric, f.length_cpu,
    List.append_assoc] at h
  exact h

theorem slice_etherType : slice (ofList f.bytes) 30 sizeofFabricPayloadHeader = f.etherType := by
  have h := slice_ofList_middle (f.mac ++ (f.outerType ++ (f.fabric ++ f.cpu))) f.etherType f.payload
  simp only [List.length_append, f.length_mac, f.length_outerType, f.length_fabric, f.length_cpu,
    f.length_etherType, List.append_assoc] at h
  exact h

theorem slice_payload (k : Nat) : slice (ofList f.bytes) 32 (f.payload.length + k) =
    f.payload ++ List.replicate k 0 := by
  have h := slice_ofList_append (f.mac ++ (f.outerType ++ (f.fabric ++ (f.cpu ++ f.etherType))))
    f.payload (f.payload.length + k)
  simp only [List.length_append, f.length_mac, f.length_outerType, f.length_fabric, f.length_cpu,
    f.length_etherType, List.append_assoc] at h
  exact h.trans (slice_ofList_pad f.payload k)

end CpuFrame

section handler
variable (ans : SetterAnswers) (s : InBuffers) {f : CpuFrame}

theorem readResult_cpuFrame (hlen : f.bytes.length ≤ inBufSize) :
    readResult (some f.bytes) = f.bytes.length := by
  unfold readResult
  rw [received_some hlen]

/-- The data of a packet-in: the frame without its headers, and 18 bytes that are not the frame's, of
which 14 are copied from behind it and 4 are left over from clearing the buffer. -/
theorem packetInHandler_data (hlen : f.bytes.length ≤ 1986) :
    (packetInHandler ans s (some f.bytes)).packetIn.data = f.original ++ List.replicate 18 0 := by
  have hn := f.length_bytes
  have hle : f.bytes.length ≤ inBufSize := Nat.le_trans hlen (by decide)
  have hrecv := received_some hle
  have hsize := sizeT_headers (n := f.bytes.length) (by omega) (by omega)
  have hcopied : f.bytes.length - 18 = f.payload.length + 14 := by omega
  rw [hcopied] at hsize
  have hmac : slice (fillInBuf s.inBuf (some f.bytes)) 0 12 = f.mac := by
    rw [slice_fillInBuf _ _ (by decide), hrecv, f.slice_mac]
  have het : slice (fillInBuf s.inBuf (some f.bytes)) 30 2 = f.etherType := by
    rw [slice_fillInBuf _ _ (by decide), hrecv]
    exact f.slice_etherType
  have hpay : slice (fillInBuf s.inBuf (some f.bytes)) 32 (f.payload.length + 14) =
      f.payload ++ List.replicate 14 0 := by
    rw [slice_fillInBuf _ _ (by unfold inBufSize; omega), hrecv, f.slice_payload]
  have hsplit : f.bytes.length = 14 + (f.payload.length + 14) + 4 := by omega
  simp only [packetInHandler, readResult_cpuFrame hle, Int.toNat_natCast]
  rw [hsplit] at hsize ⊢
  rw [slice_fillOutBuf _ _ hsize (by unfold outBufSize; omega), hmac, het, hpay]
  simp only [CpuFrame.original, List.append_assoc, List.replicate_append_replicate]

theorem packetInHandler_totalLen (hlen : f.bytes.length ≤ inBufSize) :
    (packetInHandler ans s (some f.bytes)).packetIn.totalLen.toNat = f.original.length := by
  have hn := f.length_bytes
  rw [inBufSize] at hlen
  simp only [packetInHandler, readResult_cpuFrame hlen, BitVec.toNat_ofInt, FabricHeader.sizeof,
    FabricHeaderCpu.sizeof, sizeofFabricPayloadHeader, f.length_original]
  omega

theorem packetInHandler_length (hlen : f.bytes.length ≤ inBufSize) :
    (packetInHandler ans s (some f.bytes)).packetIn.data.length = f.bytes.length := by
  simp only [packetInHandler, readResult_cpuFrame hlen, length_slice, Int.toNat_natCast]

theorem packetInHandler_not_original (hlen : f.bytes.length ≤ inBufSize) :
    (packetInHandler ans s (some f.bytes)).packetIn.data ≠ f.original ∧
      (packetInHandler ans s (some f.bytes)).packetIn.totalLen.toNat ≠
        (packetInHandler ans s (some f.bytes)).packetIn.data.length := by
  have hne : f.original.length ≠ f.bytes.length := by
    rw [f.length_original, f.length_bytes]
    omega
  rw [packetInHandler_totalLen ans s hlen, packetInHandler_length ans s hlen]
  refine ⟨fun hd => hne ?_, hne⟩
  rw [← hd, packetInHandler_length ans s hlen]

theorem packetInHandler_fields {c : FabricHeaderCpu} (hlen : f.bytes.length ≤ inBufSize)
    (hc : f.cpu = (c.swap true).bytes) :
    (packetInHandler ans s (some f.bytes)).packetIn.reason = (c.reasonCode >>> 8).setWidth 8 ∧
      (packetInHandler ans s (some f.bytes)).packetIn.tableId = c.reasonCode.setWidth 8 ∧
      (packetInHandler ans s (some f.bytes)).packetIn.matchFields =
        if ans.matchSet = 0 then some ⟨c.ingressPort.setWidth 32, 0xffffffff⟩ else none := by
  have hcpu : (FabricHeaderCpu.ofBytes (slice (fillInBuf s.inBuf (some f.bytes)) 19
      FabricHeaderCpu.sizeof)).swap true = c := by
    rw [slice_fillInBuf _ _ (by decide), received_some hlen, f.slice_cpu, hc,
      FabricHeaderCpu.ofBytes_bytes, FabricHeaderCpu.swap_swap]
  simp only [packetInHandler, hcpu, and_self]

end handler

def zeroFrame : CpuFrame :=
  ⟨List.replicate 12 0, [0x90, 0], List.replicate 5 0, List.replicate 11 0, [0, 0], [], rfl, rfl, rfl,
    rfl, rfl⟩

theorem packetInHandler_not_original_zero :
    let r := packetInHandler ⟨0, 0⟩ ⟨fun _ => 0, fun _ => 0⟩ (some zeroFrame.bytes)
    r.packetIn.data ≠ zeroFrame.original ∧ r.packetIn.totalLen.toNat ≠ r.packetIn.data.length :=
  packetInHandler_not_original ⟨0, 0⟩ ⟨fun _ => 0, fun _ => 0⟩ (f := zeroFrame) (by decide)

theorem packetInHandler_pads :
    (packetInHandler ⟨0, 0⟩ ⟨fun _ => 0, fun _ => 0⟩ (some zeroFrame.bytes)).packetIn.data ≠
      zeroFrame.original := by
  rw [packetInHandler_data _ _ (by decide)]
  decide

/-- The CPU port's frame of a packet: `fabric_header_cpu` carries the metadata, and the rest of the
headers is whatever the target makes of it. -/
structure CopiesMetadata (p p' : Packet w m) : Prop where
  fabric : p'.fabricHeader.valid = true
  cpu : p'.fabricHeaderCpu.valid = true
  multicast : p'.fabricHeaderMulticast.valid = false
  payload : p'.fabricPayloadHeader.valid = true
  ingressPort : p'.fabricHeaderCpu.fields.ingressPort = p.fabricMetadata.ingressPort
  reasonCode : p'.fabricHeaderCpu.fields.reasonCode = p.fabricMetadata.reasonCode

theorem exists_cpuFrame {p : Packet w m} (hf : p.fabricHeader.valid = true)
    (hc : p.fabricHeaderCpu.valid = true) (hm : p.fabricHeaderMulticast.valid = false)
    (hp : p.fabricPayloadHeader.valid = true) : ∃ f : CpuFrame, p.deparse = f.bytes ∧
      f.cpu = (p.fabricHeaderCpu.fields.host.swap true).bytes := by
  have hlen : (Header.emit p.ethernet).length = 8 * 14 := by
    simp only [Header.emit, List.length_append, length_bits]
  obtain ⟨l, hl, hbits⟩ := exists_ofBytes hlen
  let f : CpuFrame :=
    { mac := l.take 12
      outerType := l.drop 12
      fabric := (p.fabricHeader.fields.host.swap true).bytes
      cpu := (p.fabricHeaderCpu.fields.host.swap true).bytes
      etherType := toBE16 p.fabricPayloadHeader.fields.etherType
      payload := p.payload
      length_mac := by rw [List.length_take, hl]; rfl
      length_outerType := by rw [List.length_drop, hl]
      length_fabric := FabricHeader.length_bytes _
      length_cpu := FabricHeaderCpu.length_bytes _
      length_etherType := rfl }
  refine ⟨f, ?_, rfl⟩
  have hmulti : p.fabricHeaderMulticast.emit = [] := if_neg (by rw [hm]; exact Bool.false_ne_true)
  have het : Header.emit p.fabricPayloadHeader.fields =
    Bits.ofBytes (toBE16 p.fabricPayloadHeader.fields.etherType) := (ofBytes_toBE16 _).symm
  rw [Packet.deparse, Inst.emit_valid hf, Inst.emit_valid hc, Inst.emit_valid hp, hmulti,
    P4.FabricHeader.emit_eq _ true, P4.FabricHeaderCpu.emit_eq _ true, het, ← hbits, List.nil_append,
    ← ofBytes_append, ← ofBytes_append, ← ofBytes_append, ← ofBytes_append, toBytes_ofBytes,
    CpuFrame.bytes, ← List.append_assoc (l.take 12), List.take_append_drop]

theorem openflowMiss_reasonCode (reason tableId : BitVec 8) (p : Packet w m) :
    (p.openflowMiss reason tableId).fabricMetadata.reasonCode = reason ++ tableId := by
  simp only [Packet.openflowMiss]
  rw [← BitVec.setWidth_append_eq_shiftLeft_setWidth_or]
  exact BitVec.setWidth_eq _

theorem openflowMiss_packetIn (ans : SetterAnswers) (s : InBuffers) (p p' : Packet w m)
    (reason tableId : BitVec 8) (hport : p.ingressPort.toNat < 2 ^ 16)
    (htarget : CopiesMetadata (p.openflowMiss reason tableId) p') (hlen : p'.deparse.length ≤ 1986)
    (hmatch : ans.matchSet = 0) :
    (packetInHandler ans s (some p'.deparse)).packetIn.reason = reason ∧
      (packetInHandler ans s (some p'.deparse)).packetIn.tableId = tableId ∧
      ∃ fields, (packetInHandler ans s (some p'.deparse)).packetIn.matchFields = some fields ∧
        fields.inPort.toNat = p.ingressPort.toNat := by
  obtain ⟨f, hf, hc⟩ := exists_cpuFrame htarget.fabric htarget.cpu htarget.multicast htarget.payload
  have hcode : p'.fabricHeaderCpu.fields.host.reasonCode = reason ++ tableId :=
    htarget.reasonCode.trans (openflowMiss_reasonCode reason tableId p)
  have hin : p'.fabricHeaderCpu.fields.host.ingressPort = p.ingressPort.setWidth 16 :=
    htarget.ingressPort
  rw [hf] at hlen ⊢
  obtain ⟨hr, ht, hm⟩ := packetInHandler_fields ans s (Nat.le_trans hlen (by decide)) hc
  rw [hr, ht, hm, hcode, hin, if_pos hmatch]
  refine ⟨?_, BitVec.setWidth_append_eq_right, _, rfl, ?_⟩
  · rw [BitVec.setWidth_ushiftRight_eq_extractLsb]
    exact BitVec.extractLsb'_append_eq_left
  · simp only [BitVec.toNat_setWidth]
    omega

def missPacket : Packet 16 16 :=
  (Packet.start ⟨1, 2, 0x0800⟩ 7).openflowMiss 1 3

def missCopied : Packet 16 16 :=
  { missPacket with
    fabricHeaderCpu := ⟨true, { missPacket.fabricHeaderCpu.fields with
      ingressPort := missPacket.fabricMetadata.ingressPort
      reasonCode := missPacket.fabricMetadata.reasonCode }⟩ }

theorem openflowMiss_packetIn_seven :
    let q := (packetInHandler ⟨0, 0⟩ ⟨fun _ => 0, fun _ => 0⟩ (some missCopied.deparse)).packetIn
    q.reason = 1 ∧ q.tableId = 3 ∧ ∃ fields, q.matchFields = some fields ∧ fields.inPort.toNat = 7 :=
  openflowMiss_packetIn ⟨0, 0⟩ ⟨fun _ => 0, fun _ => 0⟩ (Packet.start ⟨1, 2, 0x0800⟩ 7)
    missCopied 1 3 (by decide) ⟨rfl, rfl, rfl, rfl, rfl, rfl⟩ (by decide) rfl

end P4OfAgent
