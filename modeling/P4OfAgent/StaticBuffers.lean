import P4OfAgent.Lib.Runs
import P4OfAgent.PacketIn

/-! The static buffers of the two handlers. Each call clears its buffers and fills them from its own
packet alone, so that nothing of the packets before it is passed on. -/

namespace P4OfAgent
open Bytes

structure StaticBuffers where
  packetIn : InBuffers
  packetOut : Buf

inductive Handled
  | packetIn (ans : SetterAnswers) (frame : Option (List Byte))
  | packetOut (po : PacketOut)

inductive Emitted
  | packetIn (packetIn : PacketIn)
  | packetOut (sent : Option (List Byte))

namespace Handled

def Fits : Handled → Prop
  | packetIn _ frame => ∃ bytes, frame = some bytes ∧ 32 ≤ bytes.length ∧ bytes.length ≤ 1986
  | packetOut po => 14 ≤ po.data.bytes ∧ po.data.bytes ≤ 1982

/-- The same packet: what lies in memory around the data of a message does not count. -/
inductive Same : Handled → Handled → Prop
  | packetIn (ans : SetterAnswers) (frame : Option (List Byte)) :
    Same (packetIn ans frame) (packetIn ans frame)
  | packetOut {po po' : PacketOut}
    (data : slice po.data.data 0 po.data.bytes = slice po'.data.data 0 po'.data.bytes)
    (inPort : po.inPort = po'.inPort) (actions : po.actions = po'.actions) :
    Same (packetOut po) (packetOut po')

end Handled

section handlers
variable (floodMc : BitVec 32)

def handle (s : StaticBuffers) : Handled → StaticBuffers
  | .packetIn ans frame => { s with packetIn := (packetInHandler ans s.packetIn frame).buffers }
  | .packetOut po => { s with packetOut := (indigoFwdPacketOut floodMc s.packetOut po).outBuf }

def emitted (s : StaticBuffers) : Handled → Emitted
  | .packetIn ans frame => .packetIn (packetInHandler ans s.packetIn frame).packetIn
  | .packetOut po => .packetOut (indigoFwdPacketOut floodMc s.packetOut po).sent

theorem slice_fillInBuf_congr (inBuf inBuf' : Buf) (frame : Option (List Byte)) {off n : Nat}
    (h : off + n ≤ inBufSize) :
    slice (fillInBuf inBuf frame) off n = slice (fillInBuf inBuf' frame) off n :=
  (slice_fillInBuf inBuf frame h).trans (slice_fillInBuf inBuf' frame h).symm

theorem slice_fillOutBuf_congr (out out' inBuf inBuf' : Buf) (frame : Option (List Byte)) {len : Int}
    {n : Nat} (hn : sizeT len = n) (hmax : n ≤ 1968) :
    slice (fillOutBuf out (fillInBuf inBuf frame) len) 0 (14 + n + 4) =
      slice (fillOutBuf out' (fillInBuf inBuf' frame) len) 0 (14 + n + 4) := by
  have hout : 14 + n + 4 ≤ outBufSize := by unfold outBufSize; omega
  have hmacs : 0 + 12 ≤ inBufSize := by decide
  have htype : 30 + 2 ≤ inBufSize := by decide
  have hcopy : 32 + n ≤ inBufSize := by unfold inBufSize; omega
  rw [slice_fillOutBuf out _ hn hout, slice_fillOutBuf out' _ hn hout,
    slice_fillInBuf_congr inBuf inBuf' _ hmacs, slice_fillInBuf_congr inBuf inBuf' _ htype,
    slice_fillInBuf_congr inBuf inBuf' _ hcopy]

theorem packetInHandler_congr (ans : SetterAnswers) (s s' : InBuffers) {frame : List Byte}
    (hmin : 32 ≤ frame.length) (hmax : frame.length ≤ 1986) :
    (packetInHandler ans s (some frame)).packetIn = (packetInHandler ans s' (some frame)).packetIn := by
  have hret : readResult (some frame) = frame.length := by
    rw [readResult, received_some (Nat.le_trans hmax (by decide))]
  have hcpu : slice (fillInBuf s.inBuf (some frame)) 19 FabricHeaderCpu.sizeof =
      slice (fillInBuf s'.inBuf (some frame)) 19 FabricHeaderCpu.sizeof :=
    slice_fillInBuf_congr _ _ _ (by decide)
  -- four bytes lie behind the last copy
  have hsplit : frame.length = 14 + (frame.length - 18) + 4 := by omega
  have hdata := slice_fillOutBuf_congr s.outBuf s'.outBuf s.inBuf s'.inBuf (some frame)
    (sizeT_headers (n := frame.length) (by omega) (by omega)) (by omega)
  rw [← hsplit] at hdata
  simp only [packetInHandler, hret, hcpu, Int.toNat_natCast, hdata]

theorem OutHeaders.frame_congr (hs : OutHeaders) {d d' : Octets} (hmin : 14 ≤ d.bytes)
    (h : slice d.data 0 d.bytes = slice d'.data 0 d'.bytes) : hs.frame d = hs.frame d' := by
  have hbytes : d.bytes = d'.bytes := length_eq_of_slice h
  rw [← hbytes] at h
  have hmacs : 0 + 12 ≤ d.bytes := by omega
  have htype : 12 + 2 ≤ d.bytes := hmin
  have hpayload : 14 + (d.bytes - 14) ≤ d.bytes := by omega
  rw [frame, frame, ← hbytes, slice_of_slice h hmacs, slice_of_slice h htype, slice_of_slice h hpayload]

theorem indigoFwdPacketOut_congr (out out' : Buf) {po po' : PacketOut} (hmin : 14 ≤ po.data.bytes)
    (hmax : po.data.bytes ≤ 1982)
    (hdata : slice po.data.data 0 po.data.bytes = slice po'.data.data 0 po'.data.bytes)
    (hport : po.inPort = po'.inPort) (hactions : po.actions = po'.actions) :
    (indigoFwdPacketOut floodMc out po).sent = (indigoFwdPacketOut floodMc out' po').sent := by
  have hbytes : po.data.bytes = po'.data.bytes := length_eq_of_slice hdata
  have hheaders : po.headers = po'.headers := by rw [PacketOut.headers, hport, PacketOut.headers]
  cases ho : po.headers.outputs floodMc po.actions with
  | none =>
    have ho' : po'.headers.outputs floodMc po'.actions = none := by rw [← hheaders, ← hactions, ho]
    rw [(indigoFwdPacketOut_refused floodMc out ho).2.1, (indigoFwdPacketOut_refused floodMc out' ho').2.1]
  | some hs =>
    have ho' : po'.headers.outputs floodMc po'.actions = some hs := by rw [← hheaders, ← hactions, ho]
    rw [(indigoFwdPacketOut_accepted floodMc out ho hmin (by omega)).2,
      (indigoFwdPacketOut_accepted floodMc out' ho' (hbytes ▸ hmin) (by omega)).2,
      hs.frame_congr hmin hdata]

theorem emitted_congr (s s' : StaticBuffers) {x x' : Handled} (hsame : x.Same x') (hfits : x.Fits) :
    emitted floodMc s x = emitted floodMc s' x' := by
  cases hsame with
  | packetIn ans frame =>
    obtain ⟨bytes, rfl, hmin, hmax⟩ := hfits
    exact congrArg Emitted.packetIn (packetInHandler_congr ans s.packetIn s'.packetIn hmin hmax)
  | packetOut hdata hport hactions =>
    exact congrArg Emitted.packetOut (indigoFwdPacketOut_congr floodMc s.packetOut s'.packetOut hfits.1
      hfits.2 hdata hport hactions)

theorem emitted_after_histories (s s' : StaticBuffers) (pre pre' : List Handled) {x x' : Handled}
    (hsame : x.Same x') (hfits : x.Fits) :
    emitted floodMc (Runs.run (handle floodMc) s pre) x =
      emitted floodMc (Runs.run (handle floodMc) s' pre') x' :=
  emitted_congr floodMc _ _ hsame hfits

end handlers

def StaticBuffers.filled (v : Byte) : StaticBuffers := ⟨⟨fun _ => v, fun _ => v⟩, fun _ => v⟩

def framed (payload : List Byte) : Handled := .packetIn ⟨0, 0⟩ (some (List.replicate 32 0 ++ payload))

def message (data : Buf) (bytes : Nat) : Handled := .packetOut ⟨⟨data, bytes⟩, 1, []⟩

theorem emitted_after_long :
    emitted 0 (Runs.run (handle 0) (.filled 1) [framed (List.replicate 1954 7), message (fun _ => 7) 1982])
        (framed [5]) = emitted 0 (Runs.run (handle 0) (.filled 0) []) (framed [5]) ∧
      emitted 0 (Runs.run (handle 0) (.filled 1) [message (fun _ => 7) 1982]) (message (fun _ => 5) 14) =
        emitted 0 (Runs.run (handle 0) (.filled 0) [framed []])
          (message (fun i => if i < 14 then 5 else 6) 14) :=
  ⟨emitted_after_histories 0 _ _ _ _ (.packetIn _ _) ⟨_, rfl, by decide, by decide⟩,
    emitted_after_histories 0 _ _ _ _ (.packetOut (by decide) rfl rfl)
      ⟨by decide, by decide⟩⟩

end P4OfAgent
