import P4OfAgent.Rewrites

/-! Which tables a flow can be influenced by. Two contents of the tables are run side by side; a
bucket of `ofpat_group_egress` adds bits to the flow's own, and with them tables. -/

namespace P4OfAgent.P4
open Slots
variable {w m : Nat}

/-- Ingress, the target's traffic manager, which decides at which ports the packet leaves, and egress
for the copy of each port. -/
def pipeline (t : Tables w m) (trafficManager : OfPacket w m → List (BitVec w)) (p : OfPacket w m) :
    OfPacket w m × List (OfPacket w m) :=
  let q := processOfpatIngress t p
  (q, (trafficManager q).map fun port => processOfpatEgress t { q with egressPort := port })

structure AgreeOn (t t' : Tables w m) (md : OpenflowMetadata) : Prop where
  groupIngress : Gate.group.passes md = true → t.ofpatGroupIngress = t'.ofpatGroupIngress
  output : Gate.output.passes md = true → t.ofpatOutput = t'.ofpatOutput
  groupEgress : Gate.group.passes md = true → t.ofpatGroupEgress = t'.ofpatGroupEgress
  egress : ∀ table, table.gate.passes md = true → t.egress table = t'.egress table

def OpenflowMetadata.atPort (md : OpenflowMetadata) (t : Tables w m) (port : BitVec w) :
    OpenflowMetadata :=
  match t.ofpatGroupEgress md.groupId port with
  | some bmap => { md with bmap := md.bmap ||| bmap }
  | none => md

/-- The contents agree on what the flow's group does in egress, on the ingress tables whose bits are
set, and at every port on the egress tables whose bits are set there. -/
structure AgreeFor (t t' : Tables w m) (md : OpenflowMetadata) : Prop where
  groupIngress : Gate.group.passes md = true →
    t.ofpatGroupIngress md.groupId = t'.ofpatGroupIngress md.groupId
  output : Gate.output.passes md = true → t.ofpatOutput = t'.ofpatOutput
  groupEgress : ∀ port, t.ofpatGroupEgress md.groupId port = t'.ofpatGroupEgress md.groupId port
  egress : ∀ port table, table.gate.passes (md.atPort t port) = true → t.egress table = t'.egress table

section agree
variable {t t' : Tables w m}

theorem applyGroupEgress_md (p : OfPacket w m) :
    (p.applyGroupEgress t).md = p.md.atPort t p.egressPort := by
  unfold OfPacket.applyGroupEgress OpenflowMetadata.atPort
  cases t.ofpatGroupEgress p.md.groupId p.egressPort <;> rfl

theorem program_agree {p : OfPacket w m}
    (h : ∀ table, table.gate.passes p.md = true → t.egress table = t'.egress table) :
    program t p = program t' p := by
  funext g
  unfold program
  by_cases hg : g.passes p.md = true
  · rw [if_pos hg, if_pos hg]
    cases htable : g.table p with
    | none => rfl
    | some table =>
      have hgate : g = table.gate := ((g.table_eq_some p table).1 htable).1
      rw [Option.bind_some, Option.bind_some, h table (hgate ▸ hg)]
  · rw [if_neg hg, if_neg hg]

theorem AgreeFor.ingress {p : OfPacket w m} (h : AgreeFor t t' p.md) :
    processOfpatIngress t p = processOfpatIngress t' p := by
  have hgroup : (if Gate.group.passes p.md then p.applyGroupIngress t else p) =
      if Gate.group.passes p.md then p.applyGroupIngress t' else p := by
    by_cases hg : Gate.group.passes p.md = true
    · rw [if_pos hg, if_pos hg, OfPacket.applyGroupIngress, OfPacket.applyGroupIngress, h.groupIngress hg]
    · rw [if_neg hg, if_neg hg]
  have hmd : (if Gate.group.passes p.md then p.applyGroupIngress t' else p).md = p.md := by
    split_ifs
    · unfold OfPacket.applyGroupIngress
      split <;> rfl
    · rfl
  simp only [processOfpatIngress, hgroup, hmd]
  by_cases ho : Gate.output.passes p.md = true
  · rw [if_pos ho, if_pos ho, OfPacket.applyOutput, OfPacket.applyOutput, h.output ho]
  · rw [if_neg ho, if_neg ho]

theorem AgreeFor.egress_eq {p : OfPacket w m} (h : AgreeFor t t' p.md) :
    processOfpatEgress t p = processOfpatEgress t' p := by
  have hgroup : p.applyGroupEgress t' = p.applyGroupEgress t := by
    rw [OfPacket.applyGroupEgress, OfPacket.applyGroupEgress, h.groupEgress]
  rw [processOfpatEgress_run, processOfpatEgress_run, hgroup, program_agree]
  intro table htable
  rw [applyGroupEgress_md] at htable
  exact h.egress p.egressPort table htable

end agree

theorem pipeline_influence {t t' : Tables w m} (trafficManager : OfPacket w m → List (BitVec w))
    (p : OfPacket w m) (bmap index groupId : BitVec 32)
    (h : AgreeFor t t' (p.openflowApply bmap index groupId).md) :
    pipeline t trafficManager (p.openflowApply bmap index groupId) =
      pipeline t' trafficManager (p.openflowApply bmap index groupId) := by
  unfold pipeline
  rw [← h.ingress]
  refine Prod.ext rfl (List.map_congr_left fun port _ => ?_)
  refine AgreeFor.egress_eq ?_
  rw [← processOfpatIngress_md t] at h
  exact h

theorem pipeline_influence_pushVlan :
    pipeline (Tables.constant EgressTable.noArgs) (fun _ => [1])
        ((OfPacket.start ethertypeIpv4 : OfPacket 9 16).openflowApply 0x20000 7 0) =
      pipeline { Tables.constant EgressTable.noArgs with
        egress := fun t _ => if t = .popVlan then none else some t.noArgs } (fun _ => [1])
        ((OfPacket.start ethertypeIpv4).openflowApply 0x20000 7 0) := by
  refine pipeline_influence _ _ _ _ _ ⟨fun _ => rfl, fun _ => rfl, fun _ => rfl, ?_⟩
  intro port table h
  -- no bucket adds a bit
  replace h : table.gate.passes ⟨7, 0x20000, 0, 1⟩ = true := h
  cases table <;> first | rfl | exact absurd h (by decide)

def bucketTables (pushVlan : Bool) : Tables 9 16 :=
  { Tables.empty with
    ofpatGroupEgress := fun groupId _ => if groupId = 5 then some 0x20000 else none
    egress := fun t _ => if pushVlan then some t.noArgs else none }

theorem pipeline_bucket :
    let p := (OfPacket.start ethertypeIpv4 : OfPacket 9 16).openflowApply 0x400000 7 5
    AgreeOn (bucketTables true) (bucketTables false) p.md ∧
      pipeline (bucketTables true) (fun _ => [1]) p ≠ pipeline (bucketTables false) (fun _ => [1]) p := by
  refine ⟨⟨fun _ => rfl, fun _ => rfl, fun _ => rfl, fun table h => ?_⟩, fun h => ?_⟩
  · cases table <;> exact absurd h (by decide)
  · exact absurd (congrArg (fun r => r.2.map fun p => p.ethernet.etherType) h) (by decide)

end P4OfAgent.P4
