import P4OfAgent.PacketIn
import P4OfAgent.PacketOutActions

/-! The bounds of the two handlers. Neither checks the length that it is given: a packet-out takes 14
from it and puts 18 bytes in front, a packet-in takes 18 from it and reads from 32 on. -/

namespace P4OfAgent
open Bytes

def Access.Within (readSize writeSize : Nat) : Access → Prop
  | read off len => 0 ≤ len ∧ off + len ≤ readSize
  | write off len => 0 ≤ len ∧ off + len ≤ writeSize

instance (readSize writeSize : Nat) : (acc : Access) → Decidable (acc.Within readSize writeSize)
  | .read _ _ => inferInstanceAs (Decidable (_ ∧ _))
  | .write _ _ => inferInstanceAs (Decidable (_ ∧ _))

/-! ## Packet-outs -/

/-- A packet-out accesses only its data and the buffer and sends no more than the buffer, and data for
which that cannot be are refused. -/
structure PacketOutSafe (po : PacketOut) (r : PacketOutResult) : Prop where
  within : ∀ acc ∈ r.accesses, acc.Within po.data.bytes outBufSize
  sent : ∀ frame, r.sent = some frame → frame.length ≤ outBufSize
  refused : ¬ (14 ≤ po.data.bytes ∧ po.data.bytes + 18 ≤ outBufSize) → r.ret ≠ .none ∧ r.sent = none

section out
variable (floodMc : BitVec 32) (outBuf : Buf) (po : PacketOut)

theorem early_within {data : Nat} (h : 14 ≤ data) :
    ∀ acc ∈ [Access.read 12 2, .write 0 outBufSize, .read 0 12, .write 0 12, .write 12 1],
      acc.Within data outBufSize := by
  simp only [List.forall_mem_cons, List.not_mem_nil, false_implies, implies_true, and_true,
    Access.Within, outBufSize]
  omega

variable {floodMc outBuf po}

theorem packetOutSafe_refused (ho : po.headers.outputs floodMc po.actions = none) :
    PacketOutSafe po (indigoFwdPacketOut floodMc outBuf po) ↔ 14 ≤ po.data.bytes := by
  obtain ⟨hret, hsent, haccesses⟩ := indigoFwdPacketOut_refused floodMc outBuf ho
  constructor
  · intro h
    have hread := h.within (.read 12 2) (haccesses ▸ List.mem_cons_self)
    exact Int.ofNat_le.1 hread.2
  · intro hmin
    refine ⟨?_, fun frame hframe => ?_, fun _ => ⟨?_, hsent⟩⟩
    · rw [haccesses]
      exact early_within hmin
    · exact absurd (hsent.symm.trans hframe) (Option.some_ne_none frame).symm
    · rw [hret]
      exact IndigoError.noConfusion

theorem packetOutSafe_sends {hs : OutHeaders} (ho : po.headers.outputs floodMc po.actions = some hs) :
    PacketOutSafe po (indigoFwdPacketOut floodMc outBuf po) ↔
      14 ≤ po.data.bytes ∧ po.data.bytes ≤ 1982 := by
  obtain ⟨_, ⟨sent, hsent, hlen⟩, haccesses⟩ := indigoFwdPacketOut_sends floodMc outBuf ho
  constructor
  · intro h
    have hread := h.within (.read 12 2) (haccesses ▸ List.mem_cons_self)
    have hwrite := h.within (.write 32 (po.data.bytes - 14)) <| by
      rw [haccesses]
      exact List.mem_append_right _ (by simp only [List.mem_cons, true_or, or_true])
    have hend := hwrite.2
    unfold outBufSize at hend
    exact ⟨Int.ofNat_le.1 hread.2, by omega⟩
  · rintro ⟨hmin, hmax⟩
    have hroom : po.data.bytes + 18 ≤ outBufSize := by unfold outBufSize; omega
    refine ⟨?_, fun frame hframe => ?_, fun h => absurd ⟨hmin, hroom⟩ h⟩
    · rw [haccesses, List.forall_mem_append]
      refine ⟨early_within hmin, ?_⟩
      simp only [List.forall_mem_cons, List.not_mem_nil, false_implies, implies_true, and_true,
        Access.Within, outBufSize]
      omega
    · obtain rfl := Option.some.inj (hsent.symm.trans hframe)
      rw [hlen, sizeT]
      omega

variable (floodMc outBuf po)

theorem packetOut_safe_iff : PacketOutSafe po (indigoFwdPacketOut floodMc outBuf po) ↔
    14 ≤ po.data.bytes ∧ (po.data.bytes ≤ 1982 ∨ ∃ a ∈ po.actions.head?, a.type ≠ Ofpat.output) := by
  rw [← po.headers.outputs_eq_none_iff floodMc]
  cases ho : po.headers.outputs floodMc po.actions with
  | none =>
    rw [packetOutSafe_refused ho]
    exact ⟨fun hmin => ⟨hmin, .inr rfl⟩, fun h => h.1⟩
  | some hs =>
    rw [packetOutSafe_sends ho]
    exact and_congr_right fun _ => ⟨.inl, fun h => h.resolve_right (Option.some_ne_none hs)⟩

end out

/-- Data of 1983 bytes: the frame ends a byte behind the buffer. -/
theorem packetOut_not_safe :
    ¬ PacketOutSafe ⟨⟨fun _ => 0, 1983⟩, 1, [outputAction 7]⟩
      (indigoFwdPacketOut 0 (fun _ => 0) ⟨⟨fun _ => 0, 1983⟩, 1, [outputAction 7]⟩) := by
  intro h
  have hsent := h.refused (by decide)
  exact hsent.1 rfl

/-! ## Packet-ins -/

structure PacketInSafe (ret : Int) (r : PacketInResult) : Prop where
  within : ∀ acc ∈ r.accesses, acc.Within inBufSize outBufSize
  headers : 0 ≤ ret - (FabricHeader.sizeof + FabricHeaderCpu.sizeof + sizeofFabricPayloadHeader)
  passedOn : r.passedOn = true → 32 ≤ ret

theorem packetIn_safe_iff (ans : SetterAnswers) (s : InBuffers) (frame : Option (List Byte)) :
    PacketInSafe (readResult frame) (packetInHandler ans s frame) ↔
      18 ≤ readResult frame ∧ readResult frame ≤ 1986 ∧ (32 ≤ readResult frame ∨ ans.dataSet ≠ 0) := by
  have hpassed : (packetInHandler ans s frame).passedOn = true ↔ ans.dataSet = 0 := by
    simp only [packetInHandler, decide_eq_true_eq]
  constructor
  · intro h
    have hread : Access.read 32 (readResult frame - (FabricHeader.sizeof + FabricHeaderCpu.sizeof +
        sizeofFabricPayloadHeader)) ∈ (packetInHandler ans s frame).accesses := by
      simp only [packetInHandler, List.mem_cons, true_or, or_true]
    have hwithin := h.within _ hread
    have hlen := h.passedOn
    simp only [Access.Within, FabricHeader.sizeof, FabricHeaderCpu.sizeof, sizeofFabricPayloadHeader,
      inBufSize] at hwithin
    refine ⟨by omega, by omega, ?_⟩
    by_cases hset : ans.dataSet = 0
    · exact .inl (hlen (hpassed.2 hset))
    · exact .inr hset
  · rintro ⟨hmin, hmax, hset⟩
    refine ⟨?_, ?_, fun hon => hset.resolve_right fun hne => hne (hpassed.1 hon)⟩
    · simp only [packetInHandler, List.forall_mem_cons, List.not_mem_nil, false_implies, implies_true,
        and_true, Access.Within, FabricHeader.sizeof, FabricHeaderCpu.sizeof, sizeofFabricPayloadHeader,
        inBufSize, outBufSize]
      omega
    · unfold FabricHeader.sizeof FabricHeaderCpu.sizeof sizeofFabricPayloadHeader
      omega

theorem packetIn_not_safe :
    ¬ PacketInSafe (readResult none) (packetInHandler ⟨0, 0⟩ ⟨fun _ => 0, fun _ => 0⟩ none) := by
  intro h
  exact absurd (h.passedOn rfl) (by decide)

end P4OfAgent
