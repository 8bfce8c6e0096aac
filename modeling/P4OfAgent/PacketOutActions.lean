import P4OfAgent.PacketOut

/-! The action list of a packet-out. The loop of `indigo_fwd_packet_out` ends after its first pass, and
a frame is sent even if there was none; of the port, 16 bits reach the frame. -/

namespace P4OfAgent
open Bytes

structure HonoursActions (as : List Action) (r : PacketOutResult) : Prop where
  sends : r.sent.isSome = true → ∃ a, as = [a] ∧ a.type = Ofpat.output
  refuses : (∃ a ∈ as, a.type ≠ Ofpat.output) ∨ 2 ≤ as.length → r.ret = .badAction ∧ r.sent = none

section actions
variable (floodMc : BitVec 32) (outBuf : Buf) (po : PacketOut)

theorem sent_isSome_iff : (indigoFwdPacketOut floodMc outBuf po).sent.isSome = true ↔
    ∀ a ∈ po.actions.head?, a.type = Ofpat.output := by
  have hnone := po.headers.outputs_eq_none_iff floodMc po.actions
  cases ho : po.headers.outputs floodMc po.actions with
  | none =>
    obtain ⟨a, ha, hne⟩ := hnone.1 ho
    obtain ⟨_, hsent, _⟩ := indigoFwdPacketOut_refused floodMc outBuf ho
    rw [hsent]
    exact iff_of_false Bool.false_ne_true fun h => hne (h a ha)
  | some hs =>
    obtain ⟨_, ⟨frame, hsent, _⟩, _⟩ := indigoFwdPacketOut_sends floodMc outBuf ho
    rw [hsent]
    refine iff_of_true rfl fun a ha => ?_
    by_contra hne
    exact absurd (ho.symm.trans (hnone.2 ⟨a, ha, hne⟩)) (Option.some_ne_none hs)

theorem packetOut_honours_iff : HonoursActions po.actions (indigoFwdPacketOut floodMc outBuf po) ↔
    ∃ a rest, po.actions = a :: rest ∧ (a.type = Ofpat.output → rest = []) := by
  have hsent := sent_isSome_iff floodMc outBuf po
  constructor
  · intro h
    cases has : po.actions with
    | nil =>
      have hempty : ∀ a ∈ po.actions.head?, a.type = Ofpat.output := by
        rw [has]
        exact fun a ha => absurd ha (Option.not_mem_none a)
      obtain ⟨a, ha, _⟩ := h.sends (hsent.2 hempty)
      exact absurd (has.symm.trans ha) (List.cons_ne_nil a []).symm
    | cons a rest =>
      refine ⟨a, rest, rfl, fun hout => ?_⟩
      have hhead : ∀ b ∈ po.actions.head?, b.type = Ofpat.output := by
        rw [has]
        exact fun b hb => Option.some.inj hb ▸ hout
      obtain ⟨b, hb, _⟩ := h.sends (hsent.2 hhead)
      exact (List.cons.inj (has.symm.trans hb)).2
  · rintro ⟨a, rest, has, hrest⟩
    by_cases hout : a.type = Ofpat.output
    · rw [hrest hout] at has
      refine ⟨fun _ => ⟨a, has, hout⟩, ?_⟩
      rw [has]
      rintro (⟨b, hb, hne⟩ | hlen)
      · exact absurd (List.mem_singleton.1 hb ▸ hout) hne
      · exact absurd hlen (Nat.not_succ_le_self 1)
    · have hhead : a ∈ po.actions.head? := has ▸ rfl
      have ho := (po.headers.outputs_eq_none_iff floodMc po.actions).2 ⟨a, hhead, hout⟩
      obtain ⟨hret, hnosend, _⟩ := indigoFwdPacketOut_refused floodMc outBuf ho
      exact ⟨fun h => absurd (hsent.1 h a hhead) hout, fun _ => ⟨hret, hnosend⟩⟩

end actions

def outputAction (port : BitVec 32) : Action := ⟨Ofpat.output, toBE32 port ++ List.replicate 8 0⟩

theorem packetOut_ignores_popVlan :
    ¬ HonoursActions [outputAction 7, ⟨Ofpat.popVlan, List.replicate 4 0⟩]
      (indigoFwdPacketOut 0 (fun _ => 0) ⟨⟨fun _ => 0, 14⟩, 1,
        [outputAction 7, ⟨Ofpat.popVlan, List.replicate 4 0⟩]⟩) := by
  intro h
  obtain ⟨hret, _⟩ := h.refuses (.inr (Nat.le_refl 2))
  exact IndigoError.noConfusion hret

/-! ## The port in the frame -/

def destination (frame : List Byte) : List Byte := (frame.drop 17).take 2

def Access.len : Access → Int
  | .read _ len => len
  | .write _ len => len

/-- The frame that a packet-out sends. A copy whose length is negative gets a size that no memory has
as a `size_t`; it loses what was in the buffer, so the run has no frame. -/
def PacketOutResult.frame (r : PacketOutResult) : Option (List Byte) :=
  if ∀ a ∈ r.accesses, 0 ≤ a.len then r.sent else none

def ToldApart (r r' : PacketOutResult) : Prop :=
  (r.ret ≠ .none ∧ r.sent = none) ∨ (r'.ret ≠ .none ∧ r'.sent = none) ∨
    ∃ frame frame', r.frame = some frame ∧ r'.frame = some frame' ∧ destination frame ≠ destination frame'

theorem OutHeaders.destination_frame (hs : OutHeaders) (d : Octets) :
    destination (hs.frame d) = toBE16 hs.fabric.dstPortOrGroup := by
  let start : List Byte := slice d.data 0 12 ++ [0x90, 0, hs.fabric.w0, hs.fabric.w1, hs.fabric.dstDevice]
  have hstart : start.length = 17 := by
    simp only [start, List.length_append, length_slice, List.length_cons, List.length_nil]
  have hframe : hs.frame d = start ++ (toBE16 hs.fabric.dstPortOrGroup ++
      ((hs.cpu.swap false).bytes ++ (slice d.data 12 2 ++ slice d.data 14 (d.bytes - 14)))) := by
    simp only [OutHeaders.frame, FabricHeader.bytes_swap, start, List.append_assoc, List.cons_append,
      List.nil_append]
  rw [destination, hframe, List.drop_left' hstart]
  exact List.take_left' rfl

section port
variable (floodMc : BitVec 32) (outBuf : Buf) (po : PacketOut) {a : Action}

theorem output_dstPort (hactions : po.actions = [a]) (hout : a.type = Ofpat.output)
    (hport : ¬ (a.outputPort = ofppFlood ∨ a.outputPort = ofppAll)) :
    po.headers.outputs floodMc po.actions = some { po.headers with
      fabric := { po.headers.fabric with dstPortOrGroup := a.outputPort.setWidth 16 } } := by
  rw [hactions, OutHeaders.outputs, OutHeaders.output_eq _ _ hout, if_neg hport]

theorem packetOut_destination (hactions : po.actions = [a]) (hout : a.type = Ofpat.output)
    (hport : ¬ (a.outputPort = ofppFlood ∨ a.outputPort = ofppAll)) (hmin : 14 ≤ po.data.bytes)
    (hmax : po.data.bytes < 2 ^ 16) :
    (indigoFwdPacketOut floodMc outBuf po).ret = .none ∧
      ∃ frame, (indigoFwdPacketOut floodMc outBuf po).frame = some frame ∧
        destination frame = toBE16 (a.outputPort.setWidth 16) := by
  have ho := output_dstPort floodMc po hactions hout hport
  have haccesses := (indigoFwdPacketOut_sends floodMc outBuf ho).2.2
  obtain ⟨hret, hsent⟩ := indigoFwdPacketOut_accepted floodMc outBuf ho hmin (by omega)
  have hlen : ∀ access ∈ (indigoFwdPacketOut floodMc outBuf po).accesses, 0 ≤ access.len := by
    rw [haccesses]
    have hcopy : (0 : Int) ≤ po.data.bytes - 14 := by omega
    simp only [List.cons_append, List.nil_append, List.forall_mem_cons, List.not_mem_nil,
      IsEmpty.forall_iff, implies_true, Access.len, hcopy]
    decide
  exact ⟨hret, _, (if_pos hlen).trans hsent, OutHeaders.destination_frame _ _⟩

theorem packetOut_short (hactions : po.actions = [a]) (hout : a.type = Ofpat.output)
    (hport : ¬ (a.outputPort = ofppFlood ∨ a.outputPort = ofppAll)) (hshort : po.data.bytes < 14) :
    (indigoFwdPacketOut floodMc outBuf po).ret = .none ∧
      (indigoFwdPacketOut floodMc outBuf po).frame = none := by
  have ho := output_dstPort floodMc po hactions hout hport
  obtain ⟨hret, -, haccesses⟩ := indigoFwdPacketOut_sends floodMc outBuf ho
  refine ⟨hret, if_neg fun hlen => ?_⟩
  have hmem : Access.write 32 (po.data.bytes - 14) ∈ (indigoFwdPacketOut floodMc outBuf po).accesses := by
    rw [haccesses]
    simp only [List.mem_append, List.mem_cons, true_or, or_true]
  have hneg : (0 : Int) ≤ po.data.bytes - 14 := hlen _ hmem
  omega

end port

/-- Two messages that differ in their port are told apart exactly if their data has the length of an
Ethernet header and the ports differ in the 16 bits that reach the frame. -/
theorem packetOut_toldApart_iff (floodMc : BitVec 32) (outBuf outBuf' : Buf) (po : PacketOut) {a b : Action}
    (ha : a.type = Ofpat.output) (hb : b.type = Ofpat.output)
    (hpa : ¬ (a.outputPort = ofppFlood ∨ a.outputPort = ofppAll))
    (hpb : ¬ (b.outputPort = ofppFlood ∨ b.outputPort = ofppAll)) (hmax : po.data.bytes < 2 ^ 16) :
    ToldApart (indigoFwdPacketOut floodMc outBuf { po with actions := [a] })
        (indigoFwdPacketOut floodMc outBuf' { po with actions := [b] }) ↔
      14 ≤ po.data.bytes ∧
        (a.outputPort.setWidth 16 : BitVec 16) ≠ (b.outputPort.setWidth 16 : BitVec 16) := by
  by_cases hmin : 14 ≤ po.data.bytes
  · obtain ⟨hreta, frame, hframe, hdest⟩ :=
      packetOut_destination floodMc outBuf { po with actions := [a] } rfl ha hpa hmin hmax
    obtain ⟨hretb, frame', hframe', hdest'⟩ :=
      packetOut_destination floodMc outBuf' { po with actions := [b] } rfl hb hpb hmin hmax
    constructor
    · rintro (⟨hret, _⟩ | ⟨hret, _⟩ | ⟨f, f', hf, hf', hne⟩)
      · exact absurd hreta hret
      · exact absurd hretb hret
      · refine ⟨hmin, fun heq => hne ?_⟩
        rw [← Option.some.inj (hframe.symm.trans hf), ← Option.some.inj (hframe'.symm.trans hf'), hdest,
          hdest', heq]
    · rintro ⟨_, hne⟩
      refine .inr (.inr ⟨frame, frame', hframe, hframe', fun heq => hne ?_⟩)
      rw [hdest, hdest'] at heq
      rw [← be16_toBE16 (a.outputPort.setWidth 16) [], heq, be16_toBE16]
  · have hshort := Nat.lt_of_not_le hmin
    obtain ⟨hreta, hframe⟩ := packetOut_short floodMc outBuf { po with actions := [a] } rfl ha hpa hshort
    obtain ⟨hretb, -⟩ := packetOut_short floodMc outBuf' { po with actions := [b] } rfl hb hpb hshort
    refine iff_of_false ?_ fun h => hmin h.1
    rintro (⟨hret, _⟩ | ⟨hret, _⟩ | ⟨f, _, hf, _⟩)
    · exact hret hreta
    · exact hret hretb
    · exact Option.some_ne_none f (hf.symm.trans hframe)

def onePort (port : BitVec 32) : PacketOut := ⟨⟨fun _ => 0, 14⟩, 1, [outputAction port]⟩

theorem packetOut_toldApart_ports :
    ToldApart (indigoFwdPacketOut 0 (fun _ => 0) (onePort 1))
      (indigoFwdPacketOut 0 (fun _ => 0) (onePort 2)) :=
  (packetOut_toldApart_iff 0 _ _ (onePort 1) (a := outputAction 1) (b := outputAction 2) rfl rfl
    (by decide) (by decide) (by decide)).2 (by decide)

/-- The reserved port IN_PORT (0xfffffff8) goes where the physical port 0xfff8 goes. -/
theorem packetOut_inPort : (outputAction 0xfffffff8).outputPort ≠ (outputAction 0xfff8).outputPort ∧
    ¬ ToldApart (indigoFwdPacketOut 0 (fun _ => 0) (onePort 0xfffffff8))
      (indigoFwdPacketOut 0 (fun _ => 0) (onePort 0xfff8)) := by
  refine ⟨by decide, ?_⟩
  obtain ⟨hret, frame, hframe, hdest⟩ := packetOut_destination 0 (fun _ => 0)
    (onePort 0xfffffff8) (a := outputAction 0xfffffff8) rfl rfl (by decide) (Nat.le_refl 14) (by decide)
  obtain ⟨hret', frame', hframe', hdest'⟩ := packetOut_destination 0 (fun _ => 0)
    (onePort 0xfff8) (a := outputAction 0xfff8) rfl rfl (by decide) (Nat.le_refl 14) (by decide)
  rintro (⟨h, _⟩ | ⟨h, _⟩ | ⟨f, f', hf, hf', hne⟩)
  · exact h hret
  · exact h hret'
  · rw [← Option.some.inj (hframe.symm.trans hf), ← Option.some.inj (hframe'.symm.trans hf'), hdest,
      hdest'] at hne
    exact hne (by decide)

end P4OfAgent
