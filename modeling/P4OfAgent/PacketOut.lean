import P4OfAgent.CpuPacket
import P4OfAgent.Parse

/-! `indigo_fwd_packet_out` of `ind_fwd.c`. The output buffer is static: what one call leaves in it
is there when the next one starts. -/

namespace P4OfAgent
open Bytes

/-- `of_octets_t`: memory from `data` on, of which the first `bytes` bytes belong to it. -/
structure Octets where
  data : Buf
  bytes : Nat

structure PacketOut where
  data : Octets
  inPort : BitVec 32
  actions : List Action

/-- An access to one of the buffers of a handler, with its length before that becomes a `size_t`. -/
inductive Access
  | read (off : Nat) (len : Int)
  | write (off : Nat) (len : Int)
deriving DecidableEq, Repr

def sizeT (n : Int) : Nat := (n % 2 ^ 64).toNat

def outBufSize : Nat := 2000

structure OutHeaders where
  fabric : FabricHeader
  cpu : FabricHeaderCpu

namespace PacketOut

def headers (po : PacketOut) : OutHeaders where
  fabric := { FabricHeader.zero with w0 := 0xa0 }
  cpu :=
    let ingressPort : BitVec 16 := po.inPort.setWidth 16
    { FabricHeaderCpu.zero with ingressPort := ingressPort, ingressIfindex := ingressPort + 1 }

end PacketOut

/-- `*(uint32_t *) arg` after `parse_ofpat` of an output action. -/
def OfpatVars.port (v : OfpatVars) : BitVec 32 :=
  match v.heap.load v.arg with
  | some (.u32 port) => port
  | _ => 0

/-- What an action does to the headers, `none` for one that is refused. `floodMc` stands for
`AGENT_ETHERNET_FLOOD_MC_HDL`. -/
def OutHeaders.output (floodMc : BitVec 32) (hs : OutHeaders) (a : Action) : Option OutHeaders :=
  let v := parseOfpat a .undef 0 Heap.empty
  if v.type = Ofpat.output then
    if v.port = ofppFlood ∨ v.port = ofppAll then
      some { hs with cpu := { hs.cpu with mcastGrp := floodMc.setWidth 16 } }
    else some { hs with fabric := { hs.fabric with dstPortOrGroup := v.port.setWidth 16 } }
  else none

def OutHeaders.outputs (floodMc : BitVec 32) (hs : OutHeaders) : List Action → Option OutHeaders
  | [] => some hs
  -- the loop ends with `break` after its first pass
  | a :: _ => hs.output floodMc a

/-- How a packet-out ends: what it returns, the bytes it hands to `send`, what it leaves in the static
buffer, and its accesses to the data of the message (`read`) and to that buffer (`write`). -/
structure PacketOutResult where
  ret : IndigoError
  sent : Option (List Byte)
  outBuf : Buf
  accesses : List Access

def indigoFwdPacketOut (floodMc : BitVec 32) (outBuf : Buf) (po : PacketOut) : PacketOutResult :=
  let b := memset outBuf 0 outBufSize 0
  let b := memcpy b 0 po.data.data 12
  -- the low byte of the etherType 0x9000 is the zero that is there
  let b := Function.update b 12 0x90
  let early := [.read 12 2, .write 0 outBufSize, .read 0 12, .write 0 12, .write 12 1]
  match po.headers.outputs floodMc po.actions with
  | none => ⟨.badAction, none, b, early⟩
  | some hs =>
    let fabric := hs.fabric.swap false
    let cpu := hs.cpu.swap false
    let b := memcpy b 14 (ofList fabric.bytes) FabricHeader.sizeof
    let b := memcpy b 19 (ofList cpu.bytes) FabricHeaderCpu.sizeof
    let b := memcpy b 30 (ofList (slice po.data.data 12 2)) sizeofFabricPayloadHeader
    -- negative for data shorter than an Ethernet header; what a copy of that size, almost 2 ^ 64, leaves
    -- of the buffer is not modelled (`PacketOutResult.frame` does without it)
    let len : Int := po.data.bytes - 14
    let b := memcpy b 32 (fun i => po.data.data (14 + i)) (sizeT len)
    ⟨.none, some (slice b 0 (sizeT (po.data.bytes + 32 - 14))), b,
      early ++ [.write 14 5, .write 19 11, .write 30 2, .read 14 len, .write 32 len]⟩

theorem OutHeaders.output_eq (floodMc : BitVec 32) (hs : OutHeaders) {a : Action}
    (ha : a.type = Ofpat.output) : hs.output floodMc a =
      if a.outputPort = ofppFlood ∨ a.outputPort = ofppAll then
        some { hs with cpu := { hs.cpu with mcastGrp := floodMc.setWidth 16 } }
      else some { hs with fabric := { hs.fabric with dstPortOrGroup := a.outputPort.setWidth 16 } } := by
  simp only [OutHeaders.output, parseOfpat, ha, if_true, OfpatVars.port, Heap.malloc, Heap.load,
    Heap.empty, List.nil_append, List.length_nil, List.getElem?_cons_zero]

theorem OutHeaders.output_of_ne (floodMc : BitVec 32) (hs : OutHeaders) {a : Action}
    (ha : a.type ≠ Ofpat.output) : hs.output floodMc a = none := by
  have htype : (parseOfpat a .undef 0 Heap.empty).type = a.type := by
    simp only [parseOfpat]
    split_ifs <;> rfl
  simp only [OutHeaders.output, htype, if_neg ha]

theorem OutHeaders.outputs_eq_none_iff (floodMc : BitVec 32) (hs : OutHeaders) (as : List Action) :
    hs.outputs floodMc as = none ↔ ∃ a ∈ as.head?, a.type ≠ Ofpat.output := by
  cases as with
  | nil => simp only [OutHeaders.outputs, reduceCtorEq, List.head?_nil, Option.mem_def, false_and,
      exists_false]
  | cons a as =>
    simp only [OutHeaders.outputs, List.head?_cons, Option.mem_some_iff, exists_eq_left']
    by_cases ha : a.type = Ofpat.output
    · rw [OutHeaders.output_eq floodMc hs ha]
      split_ifs <;> simp only [ha, ne_eq, not_true_eq_false]
    · simp only [OutHeaders.output_of_ne floodMc hs ha, ne_eq, ha, not_false_eq_true]

theorem indigoFwdPacketOut_refused (floodMc : BitVec 32) (outBuf : Buf) {po : PacketOut}
    (ho : po.headers.outputs floodMc po.actions = none) :
    (indigoFwdPacketOut floodMc outBuf po).ret = .badAction ∧
      (indigoFwdPacketOut floodMc outBuf po).sent = none ∧
      (indigoFwdPacketOut floodMc outBuf po).accesses =
        [.read 12 2, .write 0 outBufSize, .read 0 12, .write 0 12, .write 12 1] := by
  simp only [indigoFwdPacketOut, ho, and_self]

theorem indigoFwdPacketOut_sends (floodMc : BitVec 32) (outBuf : Buf) {po : PacketOut} {hs : OutHeaders}
    (ho : po.headers.outputs floodMc po.actions = some hs) :
    (indigoFwdPacketOut floodMc outBuf po).ret = .none ∧
      (∃ frame, (indigoFwdPacketOut floodMc outBuf po).sent = some frame ∧
        frame.length = sizeT (po.data.bytes + 32 - 14)) ∧
      (indigoFwdPacketOut floodMc outBuf po).accesses =
        [.read 12 2, .write 0 outBufSize, .read 0 12, .write 0 12, .write 12 1] ++
          [.write 14 5, .write 19 11, .write 30 2, .read 14 (po.data.bytes - 14),
            .write 32 (po.data.bytes - 14)] := by
  simp only [indigoFwdPacketOut, ho]
  exact ⟨trivial, ⟨_, rfl, length_slice ..⟩, trivial⟩

def OutHeaders.frame (hs : OutHeaders) (d : Octets) : List Byte :=
  slice d.data 0 12 ++ [0x90, 0x00] ++ (hs.fabric.swap false).bytes ++ (hs.cpu.swap false).bytes ++
    slice d.data 12 2 ++ slice d.data 14 (d.bytes - 14)

theorem slice_macs (outBuf data : Buf) :
    slice (Function.update (memcpy (memset outBuf 0 outBufSize 0) 0 data 12) 12 0x90) 0 14 =
      slice data 0 12 ++ [0x90, 0x00] := by
  rw [show (14 : Nat) = 12 + 2 from rfl, slice_add]
  refine congrArg₂ (· ++ ·) ?_ ?_
  · refine slice_congr _ _ _ fun i hi => ?_
    rw [Function.update_of_ne (by omega), memcpy, if_pos (by omega), Nat.zero_add, Nat.sub_zero]
  · rw [slice_succ, slice_succ, slice_zero, Nat.zero_add, Function.update_self,
      Function.update_of_ne (by decide), memcpy_apply_outside _ _ _ _ (.inr (by decide)),
      memset_apply_inside _ _ _ _ (by decide)]

theorem indigoFwdPacketOut_accepted (floodMc : BitVec 32) (outBuf : Buf) {po : PacketOut}
    {hs : OutHeaders} (ho : po.headers.outputs floodMc po.actions = some hs)
    (hmin : 14 ≤ po.data.bytes) (hmax : po.data.bytes < 2 ^ 63) :
    (indigoFwdPacketOut floodMc outBuf po).ret = .none ∧
      (indigoFwdPacketOut floodMc outBuf po).sent = some (hs.frame po.data) := by
  have hlen : sizeT ((po.data.bytes : Int) - 14) = po.data.bytes - 14 := by rw [sizeT]; omega
  have hsend : sizeT ((po.data.bytes : Int) + 32 - 14) = 32 + (po.data.bytes - 14) := by
    rw [sizeT]; omega
  simp only [indigoFwdPacketOut, ho, hlen, hsend]
  refine ⟨trivial, congrArg some ?_⟩
  set macs := Function.update (memcpy (memset outBuf 0 outBufSize 0) 0 po.data.data 12) 12 0x90
  set fabric := memcpy macs 14 (ofList (hs.fabric.swap false).bytes) FabricHeader.sizeof
  set cpu := memcpy fabric 19 (ofList (hs.cpu.swap false).bytes) FabricHeaderCpu.sizeof
  set payload := memcpy cpu 30 (ofList (slice po.data.data 12 2)) sizeofFabricPayloadHeader
  -- each copy continues where the one before it ended
  have hf : slice fabric 0 19 = slice macs 0 14 ++ (hs.fabric.swap false).bytes :=
    slice_memcpy_ofList_append ..
  have hc : slice cpu 0 30 = slice fabric 0 19 ++ (hs.cpu.swap false).bytes :=
    slice_memcpy_ofList_append ..
  have hp : slice payload 0 32 = slice cpu 0 30 ++ slice po.data.data 12 2 :=
    slice_memcpy_ofList_append ..
  rw [slice_memcpy_append, hp, hc, hf, slice_macs, slice_shift, Nat.add_zero, OutHeaders.frame]

end P4OfAgent
