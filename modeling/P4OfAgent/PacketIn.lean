import P4OfAgent.PacketOut

/-! `packet_in_handler` of `p4ofagent.c`. Both buffers are static. What is passed to the setters of
`of_packet_in_t` is kept as a record. -/

namespace P4OfAgent
open Bytes

def inBufSize : Nat := 2000

structure Match where
  inPort : BitVec 32
  inPortMask : BitVec 32
deriving DecidableEq

/-- `of_packet_in_t`. `matchFields` is absent where the setter failed; `bytes` is the length that the
data was announced with. -/
structure PacketIn where
  bufferId : BitVec 32
  totalLen : BitVec 16
  reason : BitVec 8
  tableId : BitVec 8
  cookie : BitVec 64
  matchFields : Option Match
  data : List Byte
  bytes : Int

structure SetterAnswers where
  matchSet : Int
  dataSet : Int

structure InBuffers where
  inBuf : Buf
  outBuf : Buf

/-- What the handler built, whether it passed it on to `indigo_core_packet_in`, the buffers it leaves,
and its accesses to `in_buf` (`read`) and `out_buf` (`write`). -/
structure PacketInResult where
  packetIn : PacketIn
  passedOn : Bool
  buffers : InBuffers
  accesses : List Access

/-- What `read` puts into `in_buf`: a frame is cut at the size of the buffer. -/
def received (frame : Option (List Byte)) : List Byte := (frame.getD []).take inBufSize

def readResult (frame : Option (List Byte)) : Int :=
  match frame with
  | none => -1
  | some _ => (received frame).length

def fillInBuf (inBuf : Buf) (frame : Option (List Byte)) : Buf :=
  memcpy (memset inBuf 0 inBufSize 0) 0 (ofList (received frame)) (received frame).length

/-- `out_buf` after the last copy: the MAC addresses, the etherType of the payload header, and `len`
bytes from behind the headers. -/
def fillOutBuf (outBuf inBuf : Buf) (len : Int) : Buf :=
  let outBuf := memset outBuf 0 outBufSize 0
  let outBuf := memcpy outBuf 0 inBuf 12
  let outBuf := memcpy outBuf 12 (ofList (slice inBuf 30 sizeofFabricPayloadHeader))
    sizeofFabricPayloadHeader
  memcpy outBuf 14 (fun i => inBuf (32 + i)) (sizeT len)

/-- `packet_in_handler`. An error of `read` is only logged, and the fabric header is copied out of
`in_buf` without being looked at. -/
def packetInHandler (ans : SetterAnswers) (s : InBuffers) (frame : Option (List Byte)) :
    PacketInResult :=
  let inBuf := fillInBuf s.inBuf frame
  let ret := readResult frame
  let cpu := (FabricHeaderCpu.ofBytes (slice inBuf 19 FabricHeaderCpu.sizeof)).swap true
  -- an unsigned subtraction in the source, which wraps below zero
  let len := ret - (FabricHeader.sizeof + FabricHeaderCpu.sizeof + sizeofFabricPayloadHeader)
  let fields : Match := ⟨cpu.ingressPort.setWidth 32, 0xffffffff⟩
  -- the last copy starts behind the headers and ends 14 bytes behind the frame
  let outBuf := fillOutBuf s.outBuf inBuf len
  { packetIn := {
      bufferId := -1
      totalLen := BitVec.ofInt 16 len
      reason := (cpu.reasonCode >>> 8).setWidth 8
      tableId := cpu.reasonCode.setWidth 8
      cookie := 0
      matchFields := if ans.matchSet = 0 then some fields else none
      data := slice outBuf 0 ret.toNat
      bytes := ret }
    passedOn := ans.dataSet = 0
    buffers := ⟨inBuf, outBuf⟩
    accesses := [.read 14 5, .read 19 11, .read 30 2, .write 0 outBufSize, .read 0 12, .write 0 12,
      .write 12 2, .read 32 len, .write 14 len] }

theorem sizeT_headers {n : Nat} (hmin : 18 ≤ n) (hmax : n < 2 ^ 63) :
    sizeT ((n : Int) - (FabricHeader.sizeof + FabricHeaderCpu.sizeof + sizeofFabricPayloadHeader)) =
      n - 18 := by
  unfold sizeT FabricHeader.sizeof FabricHeaderCpu.sizeof sizeofFabricPayloadHeader
  omega

theorem received_some {frame : List Byte} (h : frame.length ≤ inBufSize) :
    received (some frame) = frame := List.take_of_length_le h

theorem slice_fillInBuf (inBuf : Buf) (frame : Option (List Byte)) {off n : Nat}
    (h : off + n ≤ inBufSize) :
    slice (fillInBuf inBuf frame) off n = slice (ofList (received frame)) off n := by
  refine slice_congr _ _ _ fun i hi => ?_
  unfold fillInBuf memcpy
  split_ifs with hin
  · rfl
  · rw [memset_apply_inside _ _ _ _ (by omega), ofList, List.getD_eq_default _ _ (by omega)]

theorem slice_fillOutBuf (outBuf inBuf : Buf) {len : Int} {n k : Nat} (hn : sizeT len = n)
    (hk : 14 + n + k ≤ outBufSize) : slice (fillOutBuf outBuf inBuf len) 0 (14 + n + k) =
      slice inBuf 0 12 ++ slice inBuf 30 2 ++ slice inBuf 32 n ++ List.replicate k 0 := by
  unfold fillOutBuf
  simp only [hn]
  set macs := memcpy (memset outBuf 0 outBufSize 0) 0 inBuf 12
  set types := memcpy macs 12 (ofList (slice inBuf 30 sizeofFabricPayloadHeader))
    sizeofFabricPayloadHeader with htypes
  have hm : slice macs 0 12 = slice inBuf 0 12 := slice_memcpy_self ..
  have ht : slice types 0 14 = slice macs 0 12 ++ slice inBuf 30 2 := slice_memcpy_ofList_append ..
  have hz : slice (memcpy types 14 (fun i => inBuf (32 + i)) n) (14 + n) k = List.replicate k 0 := by
    rw [slice_memcpy_outside _ _ _ _ (.inr (Nat.le_refl _)), htypes,
      slice_memcpy_outside _ _ _ _ (.inr (by rw [sizeofFabricPayloadHeader]; omega)),
      slice_memcpy_outside _ _ _ _ (.inr (by omega)), slice_memset_inside]
    omega
  rw [slice_add, slice_memcpy_append, ht, hm, slice_shift, Nat.add_zero, Nat.zero_add, hz]

end P4OfAgent
