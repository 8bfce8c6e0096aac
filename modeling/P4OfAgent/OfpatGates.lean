import P4OfAgent.OfpatTables
import P4OfAgent.ParseActions

/-! The agent's signature against the bitmap tests of the control blocks. Instruction types share
the word with action types, at bits that no test looks at. -/

namespace P4OfAgent.P4
variable {w n : Nat}

theorem Gate.mask_eq (g : Gate) : g.mask = BitVec.twoPow 32 g.type.toNat := by
  cases g <;> decide

theorem Gate.type_lt (g : Gate) : g.type.toNat < 32 := by
  cases g <;> decide

theorem Gate.passes_iff (g : Gate) (md : OpenflowMetadata) :
    g.passes md = true ↔ md.bmap.getLsbD g.type.toNat = true := by
  have hpow : BitVec.twoPow 32 g.type.toNat ≠ 0#32 := by
    rw [← g.mask_eq]
    cases g <;> decide
  rw [Gate.passes, beq_iff_eq, g.mask_eq, BitVec.and_twoPow]
  by_cases hb : md.bmap.getLsbD g.type.toNat = true
  · simp only [hb, if_true]
  · simp only [hb, if_false, hpow.symm, Bool.false_eq_true]

def EgressTable.gate : EgressTable → Gate
  | popMpls => .popMpls
  | pushMpls => .pushMpls
  | decMplsTtl => .decMplsTtl
  | setMplsTtl => .setMplsTtl
  | popVlan => .popVlan
  | pushVlan => .pushVlan
  | setField => .setField
  | decNwTtlIpv4 => .decNwTtl
  | decNwTtlIpv6 => .decNwTtl
  | setNwTtlIpv4 => .setNwTtl
  | setNwTtlIpv6 => .setNwTtl

def EgressTable.HeaderValid (q : OfPacket w n) : EgressTable → Prop
  | decNwTtlIpv4 => q.ipv4.valid = true
  | decNwTtlIpv6 => q.ipv4.valid = false ∧ q.ipv6.valid = true
  | setNwTtlIpv4 => q.ipv4.valid = true
  | setNwTtlIpv6 => q.ipv4.valid = false ∧ q.ipv6.valid = true
  | _ => True

def OfPacket.Applied (q : OfPacket w n) (t : EgressTable) : Prop :=
  ∃ g : Gate, g.passes q.md = true ∧ g.table q = some t

theorem Gate.table_nw (q : OfPacket w n) {x y t : EgressTable} :
    (if q.ipv4.valid then some x else if q.ipv6.valid then some y else none) = some t ↔
      q.ipv4.valid = true ∧ x = t ∨ q.ipv4.valid = false ∧ q.ipv6.valid = true ∧ y = t := by
  cases q.ipv4.valid <;> cases q.ipv6.valid <;>
    simp only [if_true, if_false, Bool.false_eq_true, Option.some.injEq, reduceCtorEq, true_and,
      false_and, or_false, false_or, Bool.true_eq_false]

theorem Gate.table_eq_some (q : OfPacket w n) (g : Gate) (t : EgressTable) :
    g.table q = some t ↔ g = t.gate ∧ t.HeaderValid q := by
  cases g with
  | decNwTtl =>
    rw [Gate.table, Gate.table_nw]
    cases t <;> simp [EgressTable.gate, EgressTable.HeaderValid]
  | setNwTtl =>
    rw [Gate.table, Gate.table_nw]
    cases t <;> simp [EgressTable.gate, EgressTable.HeaderValid]
  | _ => cases t <;> simp [Gate.table, EgressTable.gate, EgressTable.HeaderValid]

theorem applied_iff (q : OfPacket w n) (t : EgressTable) :
    q.Applied t ↔ t.gate.passes q.md = true ∧ t.HeaderValid q := by
  constructor
  · rintro ⟨g, hg, ht⟩
    obtain ⟨rfl, hv⟩ := (g.table_eq_some q t).1 ht
    exact ⟨hg, hv⟩
  · rintro ⟨hg, hv⟩
    exact ⟨t.gate, hg, (t.gate.table_eq_some q t).2 ⟨rfl, hv⟩⟩

theorem applyGroupIngress_md (t : Tables w n) (q : OfPacket w n) : (q.applyGroupIngress t).md = q.md := by
  unfold OfPacket.applyGroupIngress
  split <;> rfl

theorem processOfpatIngress_md (t : Tables w n) (q : OfPacket w n) :
    (processOfpatIngress t q).md = q.md := by
  have hgroup := applyGroupIngress_md t q
  have houtput : ∀ q' : OfPacket w n, (q'.applyOutput t).md = q'.md := by
    intro q'
    unfold OfPacket.applyOutput
    split <;> rfl
  simp only [processOfpatIngress]
  by_cases hg : Gate.group.passes q.md = true
  · rw [if_pos hg, hgroup]
    split_ifs
    · exact (houtput _).trans hgroup
    · exact hgroup
  · rw [if_neg hg]
    split_ifs
    · exact houtput q
    · rfl

/-- The types of the instructions that `parse_instructions` enters into the signature. -/
def recordedInstructions : List (BitVec 16) := [Ofpit.gotoTable, Ofpit.writeMetadata, Ofpit.meter]

theorem Gate.type_not_instruction (g : Gate) : ∀ t ∈ recordedInstructions, t.toNat ≠ g.type.toNat := by
  intro t ht
  simp only [recordedInstructions, List.mem_cons, List.not_mem_nil, or_false] at ht
  rcases ht with rfl | rfl | rfl <;> cases g <;> decide

theorem Gate.passes_signature (g : Gate) (m : Machine) {as : List Action} {p : Parsed}
    (htypes : ∀ a ∈ as, a.type.toNat < 32)
    (hsig : ∀ k, p.sig.getLsbD k = true → ∃ t ∈ recordedInstructions, t.toNat = k)
    {md : OpenflowMetadata} (hmd : md.bmap = (parseActions m as p).sig) :
    g.passes md = true ↔ ∃ a ∈ as, a.type = g.type := by
  rw [g.passes_iff, hmd, parseActions_getLsbD m p as g.type_lt]
  constructor
  · rintro (hb | ⟨a, ha, hb⟩)
    · obtain ⟨t, ht, he⟩ := hsig _ hb
      exact absurd he (g.type_not_instruction t ht)
    · have hlt : a.type.toNat < 64 := Nat.lt_trans (htypes a ha) (by decide)
      have he := (getLsbD_shl64 m hlt _).1 hb
      exact ⟨a, ha, BitVec.eq_of_toNat_eq he⟩
  · rintro ⟨a, ha, he⟩
    have hlt : g.type.toNat < 64 := Nat.lt_trans g.type_lt (by decide)
    rw [← he] at hlt
    exact .inr ⟨a, ha, (getLsbD_shl64 m hlt _).2 (congrArg BitVec.toNat he)⟩

theorem apply_md (t : Tables w n) (table : EgressTable) (q : OfPacket w n) :
    (q.apply t table).md = q.md := by
  unfold OfPacket.apply
  split
  · cases table <;> rfl
  · rfl

/-- A pass over the tests, with those for the types of the list instead of those of the bitmap. -/
def OfPacket.applyTypes (t : Tables w n) (as : List Action) (q : OfPacket w n) (g : Gate) : OfPacket w n :=
  if ∃ a ∈ as, a.type = g.type then (g.table q).elim q fun table => q.apply t table else q

theorem foldl_gated_types {as : List Action} {md : OpenflowMetadata}
    (hpass : ∀ g : Gate, g.passes md = true ↔ ∃ a ∈ as, a.type = g.type) (t : Tables w n)
    {q : OfPacket w n} (hmd : q.md = md) (order : List Gate) :
    order.foldl (fun q g => gated t g q) q = order.foldl (OfPacket.applyTypes t as) q := by
  induction order generalizing q with
  | nil => rfl
  | cons g order ih =>
    have hgated : gated t g q = q.applyTypes t as g := by
      simp only [gated, OfPacket.applyTypes, hmd, hpass]
    have hkeeps : (gated t g q).md = md := by
      unfold gated
      split_ifs
      · cases g.table q with
        | none => exact hmd
        | some table => exact (apply_md t table q).trans hmd
      · exact hmd
    rw [List.foldl_cons, List.foldl_cons, ← hgated]
    exact ih hkeeps

/-- The tests of the control blocks pass exactly for the action types of the list: ingress and, where no
group adds to the bitmap, egress apply the tables of these types. -/
theorem gates_agree (m : Machine) (as : List Action) (p : Parsed)
    (htypes : ∀ a ∈ as, a.type.toNat < 32)
    (hsig : ∀ k, p.sig.getLsbD k = true → ∃ t ∈ recordedInstructions, t.toNat = k)
    (t : Tables w n) (q : OfPacket w n) (index groupId : BitVec 32) :
    let q := q.openflowApply (parseActions m as p).sig index groupId
    (∀ g : Gate, g.passes q.md = true ↔ ∃ a ∈ as, a.type = g.type) ∧
      (processOfpatIngress t q).md = q.md ∧
      (∀ q' : OfPacket w n, q'.md = q.md → ∀ table, q'.Applied table ↔
        (∃ a ∈ as, a.type = table.gate.type) ∧ table.HeaderValid q') ∧
      (processOfpatIngress t q =
        let p := if ∃ a ∈ as, a.type = Ofpat.group then q.applyGroupIngress t else q
        if ∃ a ∈ as, a.type = Ofpat.output then p.applyOutput t else p) ∧
      ∀ q' : OfPacket w n, (q'.applyGroupEgress t).md = q.md →
        processOfpatEgress t q' =
          egressOrder.foldl (OfPacket.applyTypes t as) (q'.applyGroupEgress t) := by
  intro q
  have hpass : ∀ g : Gate, g.passes q.md = true ↔ ∃ a ∈ as, a.type = g.type :=
    fun g => g.passes_signature m htypes hsig rfl
  refine ⟨hpass, processOfpatIngress_md t q, fun q' hmd table => ?_, ?_, fun q' hmd => ?_⟩
  · rw [applied_iff, hmd, hpass]
  · have hin : (if ∃ a ∈ as, a.type = Gate.group.type then q.applyGroupIngress t else q).md = q.md := by
      split_ifs
      · exact applyGroupIngress_md t q
      · rfl
    simp only [processOfpatIngress, hpass .group, hin, hpass .output]
    rfl
  · rw [processOfpatEgress_eq, foldl_gated_types hpass t hmd]

theorem gates_agree_pushVlan :
    let sig := (parseActions ⟨fun _ _ => false, fun _ => 0⟩ [⟨Ofpat.pushVlan, []⟩, ⟨Ofpat.output, []⟩]
      ⟨fun _ => none, BitVec.twoPow 32 1, Heap.empty⟩).sig
    let q := (OfPacket.start ethertypeIpv4 : OfPacket 9 16).openflowApply sig 7 0
    Gate.pushVlan.passes q.md = true ∧ Gate.popVlan.passes q.md = false := by
  have hsig : ∀ k, (BitVec.twoPow 32 1).getLsbD k = true → ∃ t ∈ recordedInstructions, t.toNat = k := by
    intro k hk
    rw [BitVec.getLsbD_twoPow, Bool.and_eq_true_iff, decide_eq_true_eq, decide_eq_true_eq] at hk
    exact ⟨Ofpit.gotoTable, List.mem_cons_self, hk.2⟩
  have h := (gates_agree ⟨fun _ _ => false, fun _ => 0⟩ [⟨Ofpat.pushVlan, []⟩, ⟨Ofpat.output, []⟩]
    ⟨fun _ => none, BitVec.twoPow 32 1, Heap.empty⟩ (by decide) hsig Tables.empty
    (OfPacket.start ethertypeIpv4 : OfPacket 9 16) 7 0).1
  refine ⟨(h .pushVlan).2 (by decide), Bool.eq_false_iff.2 fun hp => ?_⟩
  exact absurd ((h .popVlan).1 hp) (by decide)

end P4OfAgent.P4
