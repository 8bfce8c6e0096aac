import P4OfAgent.BufferBounds
import P4OfAgent.PacketInFrames
import P4OfAgent.PacketOutFrames

/-! Forwarding by the controller. A packet that misses comes in to the controller, which sends it out
again on a port, to the next switch: two handlers, two parsers and the pipeline for each hop. -/

namespace P4OfAgent
open Bytes Bits Headers P4
variable {w m : Nat}

structure PlainFrame where
  bytes : List Byte
  ethernet : 14 ≤ bytes.length
  notFabric : be16 bytes 12 ≠ ethertypeBfFabric

namespace PlainFrame
variable (f : PlainFrame)

def pad (k : Nat) : PlainFrame where
  bytes := f.bytes ++ List.replicate k 0
  ethernet := by
    rw [List.length_append]
    exact Nat.le_trans f.ethernet (Nat.le_add_right _ _)
  notFabric := by
    have h12 : 12 < f.bytes.length := Nat.lt_of_lt_of_le (by decide) f.ethernet
    have h13 : 13 < f.bytes.length := Nat.lt_of_lt_of_le (by decide) f.ethernet
    rw [be16, List.getD_append _ _ _ _ h12, List.getD_append _ _ _ _ h13]
    exact f.notFabric

theorem length_pad (k : Nat) : (f.pad k).bytes.length = f.bytes.length + k := by
  rw [pad, List.length_append, List.length_replicate]

theorem pad_zero : f.pad 0 = f := by
  cases f
  simp only [pad, List.replicate_zero, List.append_nil]

theorem exists_ethernet : ∃ e : Ethernet, e.etherType = be16 f.bytes 12 ∧
    Bits.ofBytes f.bytes = Header.emit e ++ Bits.ofBytes (f.bytes.drop 14) := by
  obtain ⟨dst, src, hmac⟩ := exists_macs (ofList f.bytes)
  have htake : f.bytes.take 14 = slice (ofList f.bytes) 0 12 ++ slice (ofList f.bytes) 12 2 := by
    rw [← slice_ofList_take f.bytes f.ethernet]
    exact slice_add (n := 2) _ _ 12
  have htype : Bits.ofBytes (slice (ofList f.bytes) 12 2) = bits (be16 f.bytes 12) :=
    ofBytes_etherType (ofList f.bytes) 12
  refine ⟨⟨dst, src, be16 f.bytes 12⟩, rfl, ?_⟩
  conv_lhs => rw [← List.take_append_drop 14 f.bytes, ofBytes_append, htake, ofBytes_append, hmac, htype]
  simp only [Header.emit, List.append_assoc]

theorem receive (port : BitVec w) : ∃ e : Ethernet,
    Bits.ofBytes f.bytes = Header.emit e ++ Bits.ofBytes (f.bytes.drop 14) ∧
      Packet.receive port f.bytes =
        some { (Packet.start e port : Packet w m) with payload := f.bytes.drop 14 } := by
  obtain ⟨e, htype, hbits⟩ := f.exists_ethernet
  have hne : e.etherType ≠ ethertypeBfFabric := htype ▸ f.notFabric
  refine ⟨e, hbits, ?_⟩
  have hparse : Packet.parseEthernet (m := m) port (Bits.ofBytes f.bytes) =
      some (Packet.start e port, Bits.ofBytes (f.bytes.drop 14)) := by
    rw [hbits]
    simp only [Packet.parseEthernet, extract_bind, Header.extract_emit, Option.bind_some, if_neg hne,
      extract_pure]
  rw [Packet.receive, hparse, Option.map_some, toBytes_ofBytes]

end PlainFrame

/-! ## To the controller -/

/-- The CPU port's frame of a packet that missed carries the packet: its addresses and payload, and the
etherType that `openflow_miss` put aside. -/
structure CopiesFrame (p p' : Packet w m) : Prop extends CopiesMetadata p p' where
  dstAddr : p'.ethernet.dstAddr = p.ethernet.dstAddr
  srcAddr : p'.ethernet.srcAddr = p.ethernet.srcAddr
  etherType : p'.fabricPayloadHeader.fields.etherType = p.fabricMetadata.etherType
  rest : p'.payload = p.payload

theorem ofBytes_original {p : Packet w m} (hf : p.fabricHeader.valid = true)
    (hc : p.fabricHeaderCpu.valid = true) (hm : p.fabricHeaderMulticast.valid = false)
    (hp : p.fabricPayloadHeader.valid = true) {f : CpuFrame} (hbytes : p.deparse = f.bytes) :
    Bits.ofBytes f.original =
      Header.emit (⟨p.ethernet.dstAddr, p.ethernet.srcAddr, p.fabricPayloadHeader.fields.etherType⟩ :
        Ethernet) ++ Bits.ofBytes p.payload := by
  have hmulti : p.fabricHeaderMulticast.emit = [] := if_neg (by rw [hm]; exact Bool.false_ne_true)
  have hmacs : (bits p.ethernet.dstAddr ++ bits p.ethernet.srcAddr).length = 96 := by
    simp only [List.length_append, length_bits]
  have hfabric : (Header.emit p.fabricHeader.fields).length = 40 := by
    simp only [Header.emit, List.length_append, length_bits]
  have hcpu : (Header.emit p.fabricHeaderCpu.fields).length = 88 := by
    simp only [Header.emit, List.length_append, length_bits]
  have hpay : (Header.emit p.fabricPayloadHeader.fields).length = 16 := length_bits _
  have hemit : Bits.ofBytes f.bytes = (bits p.ethernet.dstAddr ++ bits p.ethernet.srcAddr) ++
      (bits p.ethernet.etherType ++ (Header.emit p.fabricHeader.fields ++
        (Header.emit p.fabricHeaderCpu.fields ++ (Header.emit p.fabricPayloadHeader.fields ++
          Bits.ofBytes p.payload)))) := by
    rw [← hbytes, Packet.deparse, Inst.emit_valid hf, Inst.emit_valid hc, Inst.emit_valid hp, hmulti,
      List.nil_append, ofBytes_toBytes]
    · simp only [Header.emit, List.append_assoc]
    · simp only [List.length_append, hfabric, hcpu, hpay, length_ofBytes]
      simp only [Header.emit, List.length_append, length_bits]
      omega
  -- the frame's parts and the packet's headers end at the same bits
  simp only [CpuFrame.bytes, ofBytes_append] at hemit
  obtain ⟨hmac, hemit⟩ := List.append_inj hemit (by rw [length_ofBytes, f.length_mac, hmacs])
  obtain ⟨-, hemit⟩ := List.append_inj hemit (by rw [length_ofBytes, f.length_outerType, length_bits])
  obtain ⟨-, hemit⟩ := List.append_inj hemit (by rw [length_ofBytes, f.length_fabric, hfabric]; rfl)
  obtain ⟨-, hemit⟩ := List.append_inj hemit (by rw [length_ofBytes, f.length_cpu, hcpu]; rfl)
  rw [CpuFrame.original, List.append_assoc, ofBytes_append, ofBytes_append, hmac, hemit]
  simp only [Header.emit, List.append_assoc]

theorem exists_missFrame (f : PlainFrame) (port : BitVec w) (reason tableId : BitVec 8)
    {p p' : Packet w m} (hp : Packet.receive port f.bytes = some p)
    (htarget : CopiesFrame (p.openflowMiss reason tableId) p') :
    ∃ (c : CpuFrame) (cpu : FabricHeaderCpu), p'.deparse = c.bytes ∧ c.original = f.bytes ∧
      c.cpu = (cpu.swap true).bytes ∧ cpu.reasonCode = reason ++ tableId ∧
        cpu.ingressPort = port.setWidth 16 := by
  obtain ⟨e, hbits, hreceive⟩ := f.receive (m := m) port
  obtain rfl := Option.some.inj (hp.symm.trans hreceive)
  obtain ⟨c, hc, hcpu⟩ := exists_cpuFrame htarget.fabric htarget.cpu htarget.multicast htarget.payload
  have hinner := ofBytes_original htarget.fabric htarget.cpu htarget.multicast htarget.payload hc
  rw [htarget.dstAddr, htarget.srcAddr, htarget.etherType, htarget.rest] at hinner
  have hsame : Bits.ofBytes c.original = Bits.ofBytes f.bytes := hinner.trans hbits.symm
  refine ⟨c, _, hc, ?_, hcpu, htarget.reasonCode.trans (openflowMiss_reasonCode reason tableId _),
    htarget.ingressPort⟩
  rw [← toBytes_ofBytes c.original, hsame, toBytes_ofBytes]

theorem CpuFrame.length_bytes_original (c : CpuFrame) : c.bytes.length = c.original.length + 18 := by
  rw [c.length_original, c.length_bytes]
  omega

theorem packetInHandler_miss (ans : SetterAnswers) (s : InBuffers) (f : PlainFrame) (port : BitVec w)
    (reason tableId : BitVec 8) {p p' : Packet w m} (hp : Packet.receive port f.bytes = some p)
    (htarget : CopiesFrame (p.openflowMiss reason tableId) p') (hlen : f.bytes.length ≤ 1968) :
    let q := (packetInHandler ans s (some p'.deparse)).packetIn
    q.data = (f.pad 18).bytes ∧ q.totalLen.toNat = f.bytes.length ∧ q.reason = reason ∧
      q.tableId = tableId ∧
      q.matchFields = if ans.matchSet = 0 then
        some ⟨(port.setWidth 16).setWidth 32, 0xffffffff⟩ else none := by
  obtain ⟨c, cpu, hc, horiginal, hcpu, hcode, hin⟩ := exists_missFrame f port reason tableId hp htarget
  have hbytes := c.length_bytes_original
  rw [horiginal] at hbytes
  have hmax : c.bytes.length ≤ inBufSize := by unfold inBufSize; omega
  obtain ⟨hr, ht, hm⟩ := packetInHandler_fields ans s hmax hcpu
  rw [hc]
  refine ⟨?_, ?_, ?_, ?_, ?_⟩
  · rw [packetInHandler_data ans s (by omega), horiginal]
    rfl
  · rw [packetInHandler_totalLen ans s hmax, horiginal]
  · rw [hr, hcode, BitVec.setWidth_ushiftRight_eq_extractLsb]
    exact BitVec.extractLsb'_append_eq_left
  · rw [ht, hcode]
    exact BitVec.setWidth_append_eq_right
  · rw [hm, hin]

/-! ## Out of the controller -/

theorem packetOut_forwards (floodMc : BitVec 32) (outBuf : Buf) {po : PacketOut} {a : Action}
    {port : BitVec 16} {f : PlainFrame} (hactions : po.actions = [a]) (hout : a.type = Ofpat.output)
    (hport : a.outputPort = port.setWidth 32)
    (hdata : slice po.data.data 0 po.data.bytes = f.bytes) (hmax : f.bytes.length < 2 ^ 63)
    (cpuPort : BitVec w) : ∃ frame, (indigoFwdPacketOut floodMc outBuf po).sent = some frame ∧
      ∃ p : Packet w m, Packet.receive cpuPort frame = some p ∧
        p.packetOut.egressSpec = port.setWidth w ∧ p.packetOut.deparse = f.bytes := by
  have hbytes : po.data.bytes = f.bytes.length := by rw [← hdata, length_slice]
  have hmin : 14 ≤ po.data.bytes := hbytes ▸ f.ethernet
  have hsmall : a.outputPort.toNat < 2 ^ 16 := by
    rw [hport, BitVec.toNat_setWidth]
    exact Nat.lt_of_le_of_lt (Nat.mod_le _ _) port.isLt
  have hnot : ¬ (a.outputPort = ofppFlood ∨ a.outputPort = ofppAll) := by
    rintro (he | he) <;> rw [he] at hsmall <;> exact absurd hsmall (by decide)
  let hs : OutHeaders := { po.headers with
    fabric := { po.headers.fabric with dstPortOrGroup := port } }
  have hsame : (port.setWidth 32).setWidth 16 = port := by
    rw [BitVec.setWidth_setWidth_of_le _ (by decide), BitVec.setWidth_eq]
  have ho : po.headers.outputs floodMc po.actions = some hs := by
    rw [hactions, OutHeaders.outputs, OutHeaders.output_eq _ _ hout, if_neg hnot, hport, hsame]
  have hsent := (indigoFwdPacketOut_accepted floodMc outBuf ho hmin (by omega)).2
  obtain ⟨p, hp, hbranch, hf, -, hd⟩ := receive_frame (m := m) hs cpuPort (headers_packetType po) hmin
  refine ⟨_, hsent, p, hp, ?_, ?_⟩
  · rw [hbranch.packetOut, Packet.terminateCpuPacket, hf]
    rfl
  · rw [hbranch.packetOut, hd, hdata]

/-! ## Hops -/

structure Told where
  reason : BitVec 8
  tableId : BitVec 8
  matchFields : Option Match

def PacketIn.told (q : PacketIn) : Told := ⟨q.reason, q.tableId, q.matchFields⟩

inductive Reply
  | echo | trim
deriving DecidableEq

namespace Reply

def bytes (q : PacketIn) : Reply → Nat
  | echo => q.data.length
  | trim => q.totalLen.toNat

def pads : Reply → Nat
  | echo => 18
  | trim => 0

end Reply

structure Hop (w m : Nat) where
  port : BitVec w
  reason : BitVec 8
  tableId : BitVec 8
  target : Packet w m → Packet w m
  answers : SetterAnswers
  inBuffers : InBuffers
  controller : PacketIn → PacketOut
  floodMc : BitVec 32
  outBuf : Buf
  cpuPort : BitVec w

namespace Hop
variable (h : Hop w m)

def packetIn (frame : List Byte) : Option PacketInResult := do
  let p : Packet w m ← Packet.receive h.port frame
  return packetInHandler h.answers h.inBuffers
    (some (h.target (p.openflowMiss h.reason h.tableId)).deparse)

def packetOut (frame : List Byte) : Option PacketOut := do
  let r ← h.packetIn frame
  if r.passedOn then return h.controller r.packetIn else none

def handled (po : PacketOut) : PacketOutResult := indigoFwdPacketOut h.floodMc h.outBuf po

def forward (frame : List Byte) : Option (BitVec w × List Byte) := do
  let po ← h.packetOut frame
  let sent ← (h.handled po).sent
  let p : Packet w m ← Packet.receive h.cpuPort sent
  return (p.packetOut.egressSpec, p.packetOut.deparse)

def told : Told :=
  ⟨h.reason, h.tableId,
    if h.answers.matchSet = 0 then some ⟨(h.port.setWidth 16).setWidth 32, 0xffffffff⟩ else none⟩

end Hop

/-- A hop that works: the target copies the frame, the data can be set, and the controller sends what it
got to a port that it chooses by what the packet-in says of the miss. -/
structure Relay (w m : Nat) extends Hop w m where
  reply : Reply
  outPort : Told → BitVec 16
  copies : ∀ p : Packet w m, p.fabricHeaderMulticast.valid = false →
    CopiesFrame (p.openflowMiss reason tableId) (target (p.openflowMiss reason tableId))
  dataSet : answers.dataSet = 0
  output : ∀ q, ∃ a, (controller q).actions = [a] ∧ a.type = Ofpat.output ∧
    a.outputPort = (outPort q.told).setWidth 32
  data : ∀ q, slice (controller q).data.data 0 (controller q).data.bytes = q.data.take (reply.bytes q)

namespace Relay
variable (r : Relay w m) (f : PlainFrame)

theorem packetIn_told (hlen : f.bytes.length ≤ 1968) : ∃ x, r.packetIn f.bytes = some x ∧
    x.passedOn = true ∧ x.packetIn.told = r.told ∧
      x.packetIn.data.take (r.reply.bytes x.packetIn) = (f.pad r.reply.pads).bytes := by
  obtain ⟨e, -, hreceive⟩ := f.receive (m := m) r.port
  have hcopies := r.copies { Packet.start e r.port with payload := f.bytes.drop 14 } rfl
  obtain ⟨hdata, htotal, hreason, htable, hmatch⟩ := packetInHandler_miss r.answers r.inBuffers f r.port
    r.reason r.tableId hreceive hcopies hlen
  refine ⟨_, by rw [Hop.packetIn, hreceive]; rfl, ?_, ?_, ?_⟩
  · exact decide_eq_true r.dataSet
  · rw [PacketIn.told, hreason, htable, hmatch, Hop.told]
  · cases hreply : r.reply with
    | echo => rw [Reply.bytes, List.take_length, hdata, Reply.pads]
    | trim =>
      rw [Reply.bytes, htotal, hdata, PlainFrame.pad, List.take_left, Reply.pads, f.pad_zero]

theorem packetOut_eq (hlen : f.bytes.length ≤ 1968) : ∃ po, r.packetOut f.bytes = some po ∧
    slice po.data.data 0 po.data.bytes = (f.pad r.reply.pads).bytes ∧
      ∃ a, po.actions = [a] ∧ a.type = Ofpat.output ∧ a.outputPort = (r.outPort r.told).setWidth 32 := by
  obtain ⟨x, hx, hpassed, htold, htake⟩ := r.packetIn_told f hlen
  refine ⟨r.controller x.packetIn, ?_, (r.data _).trans htake, ?_⟩
  · rw [Hop.packetOut, hx]
    exact if_pos hpassed
  · rw [← htold]
    exact r.output x.packetIn

theorem forward_eq (hlen : f.bytes.length ≤ 1968) :
    r.forward f.bytes = some ((r.outPort r.told).setWidth w, (f.pad r.reply.pads).bytes) := by
  obtain ⟨po, hpo, hdata, a, hactions, hout, hport⟩ := r.packetOut_eq f hlen
  have hmax : (f.pad r.reply.pads).bytes.length < 2 ^ 63 := by
    rw [f.length_pad]
    cases r.reply <;> simp only [Reply.pads] <;> omega
  obtain ⟨sent, hsent, p, hp, hspec, hdeparse⟩ :=
    packetOut_forwards (m := m) r.floodMc r.outBuf hactions hout hport hdata hmax r.cpuPort
  simp only [Hop.forward, hpo, Option.bind_eq_bind, Option.bind_some, Hop.handled, hsent, hp, hspec,
    hdeparse]
  rfl

end Relay

/-! ## Paths -/

def path : List (Hop w m) → List Byte → Option (List (BitVec w × List Byte))
  | [], _ => some []
  | h :: hs, frame => do
    let out ← h.forward frame
    let outs ← path hs out.2
    return out :: outs

theorem path_cons (h : Hop w m) (hs : List (Hop w m)) (frame : List Byte) :
    path (h :: hs) frame =
      (h.forward frame).bind fun out => (path hs out.2).bind fun outs => some (out :: outs) := rfl

def padding (rs : List (Relay w m)) : Nat := (rs.map (·.reply.pads)).sum

@[simp] theorem padding_nil : padding ([] : List (Relay w m)) = 0 := rfl

@[simp] theorem padding_cons (r : Relay w m) (rs : List (Relay w m)) :
    padding (r :: rs) = r.reply.pads + padding rs := by
  rw [padding, List.map_cons, List.sum_cons, padding]

/-- The frames on a path leave room for what the handlers make of them: the CPU frame has 18 bytes more,
and its data in the packet-out at most 1982. -/
def Fits (rs : List (Relay w m)) (n : Nat) : Prop :=
  ∀ i < rs.length, n + padding (rs.take i) ≤ 1968 ∧ n + padding (rs.take (i + 1)) ≤ 1982

instance (rs : List (Relay w m)) (n : Nat) : Decidable (Fits rs n) :=
  inferInstanceAs (Decidable (∀ i < rs.length, _ ∧ _))

theorem fits_cons (r : Relay w m) (rs : List (Relay w m)) (n : Nat) : Fits (r :: rs) n ↔
    (n ≤ 1968 ∧ n + r.reply.pads ≤ 1982) ∧ Fits rs (n + r.reply.pads) := by
  unfold Fits
  rw [List.length_cons, Nat.forall_lt_succ_left]
  simp only [List.take_succ_cons, List.take_zero, padding_cons, padding_nil, Nat.add_zero, Nat.add_assoc]

/-- A frame that the controllers of a path forward leaves each switch on the port chosen there, with 18
zeros for each controller so far that sent all the data it got. -/
theorem path_forwards (rs : List (Relay w m)) (f : PlainFrame) (hfits : Fits rs f.bytes.length) :
    path (rs.map (·.toHop)) f.bytes = some (rs.mapIdx fun i r =>
      ((r.outPort r.told).setWidth w, f.bytes ++ List.replicate (padding (rs.take (i + 1))) 0)) := by
  induction rs generalizing f with
  | nil => rfl
  | cons r rs ih =>
    obtain ⟨⟨hlen, -⟩, hrest⟩ := (fits_cons r rs _).1 hfits
    rw [← f.length_pad] at hrest
    have htail := ih (f.pad r.reply.pads) hrest
    rw [List.map_cons, path_cons, r.forward_eq f hlen, Option.bind_some, htail, Option.bind_some,
      List.mapIdx_cons]
    simp only [List.take_succ_cons, List.take_zero, padding_cons, padding_nil, Nat.add_zero,
      PlainFrame.pad, List.append_assoc, List.replicate_append_replicate]

def relayTo (reply : Reply) (port : BitVec 16) : Relay 16 16 where
  port := 1
  reason := 0
  tableId := 0
  target p := { p with
    ethernet := { p.ethernet with etherType := ethertypeBfFabric }
    fabricHeader := ⟨true, { p.fabricHeader.fields with packetType := fabricHeaderTypeCpu }⟩
    fabricHeaderCpu := ⟨true, { p.fabricHeaderCpu.fields with
      ingressPort := p.fabricMetadata.ingressPort
      reasonCode := p.fabricMetadata.reasonCode }⟩
    fabricPayloadHeader := ⟨true, ⟨p.fabricMetadata.etherType⟩⟩ }
  answers := ⟨0, 0⟩
  inBuffers := ⟨fun _ => 0, fun _ => 0⟩
  controller q :=
    let data := q.data.take (reply.bytes q)
    ⟨⟨ofList data, data.length⟩, 1, [⟨Ofpat.output, toBE32 (port.setWidth 32)⟩]⟩
  floodMc := 1
  outBuf := fun _ => 0
  cpuPort := 64
  reply := reply
  outPort _ := port
  copies _ hm := ⟨⟨rfl, rfl, hm, rfl, rfl, rfl⟩, rfl, rfl, rfl, rfl⟩
  dataSet := rfl
  output _ := ⟨_, rfl, rfl, be32_toBE32 _ []⟩
  data q := slice_ofList (q.data.take (reply.bytes q))

def shortFrame : PlainFrame := ⟨List.replicate 14 0, Nat.le_refl 14, by decide⟩

theorem path_forwards_threeHops :
    path [(relayTo .echo 3).toHop, (relayTo .trim 4).toHop, (relayTo .echo 5).toHop] shortFrame.bytes =
      some [(3, shortFrame.bytes ++ List.replicate 18 0), (4, shortFrame.bytes ++ List.replicate 18 0),
        (5, shortFrame.bytes ++ List.replicate 36 0)] :=
  path_forwards [relayTo .echo 3, relayTo .trim 4, relayTo .echo 5] shortFrame (by decide)

structure Hop.Safe (h : Hop w m) (frame : List Byte) : Prop where
  packetIn : ∀ x, h.packetIn frame = some x → ∀ acc ∈ x.accesses, acc.Within inBufSize outBufSize
  packetOut : ∀ po, h.packetOut frame = some po → PacketOutSafe po (h.handled po)

def SafeAlong : List (Hop w m) → List Byte → Prop
  | [], _ => True
  | h :: hs, frame => h.Safe frame ∧ ∀ out, h.forward frame = some out → SafeAlong hs out.2

theorem packetIn_within_iff_readResult (ans : SetterAnswers) (s : InBuffers) (frame : Option (List Byte)) :
    (∀ acc ∈ (packetInHandler ans s frame).accesses, acc.Within inBufSize outBufSize) ↔
      18 ≤ readResult frame ∧ readResult frame ≤ 1986 := by
  simp only [packetInHandler, List.forall_mem_cons, List.not_mem_nil, false_implies, implies_true,
    and_true, Access.Within, FabricHeader.sizeof, FabricHeaderCpu.sizeof, sizeofFabricPayloadHeader,
    inBufSize, outBufSize]
  omega

theorem readResult_some (frame : List Byte) :
    readResult (some frame) = ((min inBufSize frame.length : Nat) : Int) := by
  rw [readResult, received, Option.getD_some, List.length_take]

theorem Relay.packetIn_within_iff (r : Relay w m) (f : PlainFrame) : ∃ x, r.packetIn f.bytes = some x ∧
    ((∀ acc ∈ x.accesses, acc.Within inBufSize outBufSize) ↔ f.bytes.length ≤ 1968) := by
  obtain ⟨e, -, hreceive⟩ := f.receive (m := m) r.port
  obtain ⟨c, -, hc, horiginal, -⟩ := exists_missFrame f r.port r.reason r.tableId hreceive
    (r.copies _ rfl)
  refine ⟨_, by rw [Hop.packetIn, hreceive]; rfl, ?_⟩
  have hlen := c.length_bytes_original
  rw [horiginal] at hlen
  have hread := readResult_some c.bytes
  rw [packetIn_within_iff_readResult, hc, hread, inBufSize]
  omega

theorem Relay.safe_iff (r : Relay w m) (f : PlainFrame) :
    r.Safe f.bytes ↔ f.bytes.length ≤ 1968 ∧ f.bytes.length + r.reply.pads ≤ 1982 := by
  obtain ⟨x, hx, hwithin⟩ := r.packetIn_within_iff f
  have hout (hlen : f.bytes.length ≤ 1968) : ∃ po, r.packetOut f.bytes = some po ∧
      (PacketOutSafe po (r.handled po) ↔ f.bytes.length + r.reply.pads ≤ 1982) := by
    obtain ⟨po, hpo, hdata, a, hactions, hout, -⟩ := r.packetOut_eq f hlen
    have hbytes : po.data.bytes = f.bytes.length + r.reply.pads := by
      rw [← f.length_pad, ← hdata, length_slice]
    have hsome : po.headers.outputs r.floodMc po.actions ≠ none := by
      rw [Ne, OutHeaders.outputs_eq_none_iff, hactions]
      rintro ⟨b, hb, hne⟩
      obtain rfl := Option.some.inj hb
      exact hne hout
    obtain ⟨hs, ho⟩ := Option.ne_none_iff_exists'.1 hsome
    refine ⟨po, hpo, ?_⟩
    rw [Hop.handled, packetOutSafe_sends ho, hbytes]
    exact and_iff_right (Nat.le_trans f.ethernet (Nat.le_add_right _ _))
  constructor
  · intro hsafe
    have hlen := hwithin.1 (hsafe.packetIn x hx)
    obtain ⟨po, hpo, hiff⟩ := hout hlen
    exact ⟨hlen, hiff.1 (hsafe.packetOut po hpo)⟩
  · rintro ⟨hlen, hpad⟩
    obtain ⟨po, hpo, hiff⟩ := hout hlen
    refine ⟨fun y hy => ?_, fun po' hpo' => ?_⟩
    · obtain rfl := Option.some.inj (hx.symm.trans hy)
      exact hwithin.2 hlen
    · obtain rfl := Option.some.inj (hpo.symm.trans hpo')
      exact hiff.2 hpad

theorem safeAlong_iff_fits (rs : List (Relay w m)) (f : PlainFrame) :
    SafeAlong (rs.map (·.toHop)) f.bytes ↔ Fits rs f.bytes.length := by
  induction rs generalizing f with
  | nil => exact ⟨fun _ i hi => absurd hi (Nat.not_lt_zero i), fun _ => trivial⟩
  | cons r rs ih =>
    rw [fits_cons, List.map_cons, SafeAlong, r.safe_iff f]
    refine and_congr_right fun hlen => ?_
    rw [← f.length_pad, ← ih (f.pad r.reply.pads), r.forward_eq f hlen.1]
    constructor
    · exact fun h => h _ rfl
    · rintro h out hout
      obtain rfl := Option.some.inj hout
      exact h

theorem padding_echo {rs : List (Relay w m)} (hecho : ∀ r ∈ rs, r.reply = .echo) :
    padding rs = 18 * rs.length := by
  induction rs with
  | nil => rfl
  | cons r rs ih =>
    rw [padding_cons, hecho r List.mem_cons_self, ih fun q hq => hecho q (List.mem_cons_of_mem r hq),
      Reply.pads, List.length_cons]
    omega

theorem Fits.length_le {rs : List (Relay w m)} {n : Nat} (hfits : Fits rs n) (hn : 14 ≤ n)
    (hecho : ∀ r ∈ rs, r.reply = .echo) : rs.length ≤ 109 := by
  by_contra hlong
  have hlast := (hfits 109 (by omega)).1
  have hpad : padding (rs.take 109) = 18 * (rs.take 109).length :=
    padding_echo fun r hr => hecho r (List.mem_of_mem_take hr)
  rw [hpad, List.length_take] at hlast
  omega

/-- The handlers of a path stay in their buffers exactly if the frames on it fit: where all controllers
send all their data, a path of more than 109 hops writes behind a static buffer. -/
theorem safeAlong_iff (rs : List (Relay w m)) (f : PlainFrame) :
    (SafeAlong (rs.map (·.toHop)) f.bytes ↔ Fits rs f.bytes.length) ∧
      ((∀ r ∈ rs, r.reply = .echo) → SafeAlong (rs.map (·.toHop)) f.bytes → rs.length ≤ 109) :=
  ⟨safeAlong_iff_fits rs f, fun hecho hsafe =>
    ((safeAlong_iff_fits rs f).1 hsafe).length_le f.ethernet hecho⟩

end P4OfAgent
