import P4OfAgent.Rewrites

/-! The chain of EtherTypes that the parser of the next hop follows. Only the MPLS and VLAN pushes and
pops touch it, and the MPLS actions look at neither the tag nor what lies behind a label. -/

namespace P4OfAgent.P4
open Headers Slots
variable {w m : Nat}

structure Chain where
  etherType : BitVec 16
  tagged : Bool
  tagType : BitVec 16
  labelled : Bool
  ipv4 : Bool
  ipv6 : Bool
deriving DecidableEq

namespace Chain

def innerType (c : Chain) : BitVec 16 := if c.tagged then c.tagType else c.etherType

structure WellFormed (c : Chain) : Prop where
  tag : c.etherType = ethertypeVlan ↔ c.tagged = true
  label : c.innerType = ethertypeMpls ↔ c.labelled = true
  ipv4 : c.labelled = false → (c.innerType = ethertypeIpv4 ↔ c.ipv4 = true)
  ipv6 : c.labelled = false → (c.innerType = ethertypeIpv6 ↔ c.ipv6 = true)

instance (c : Chain) : Decidable c.WellFormed :=
  decidable_of_iff ((c.etherType = ethertypeVlan ↔ c.tagged = true) ∧
      (c.innerType = ethertypeMpls ↔ c.labelled = true) ∧
      (c.labelled = false → (c.innerType = ethertypeIpv4 ↔ c.ipv4 = true)) ∧
      (c.labelled = false → (c.innerType = ethertypeIpv6 ↔ c.ipv6 = true)))
    ⟨fun ⟨h1, h2, h3, h4⟩ => ⟨h1, h2, h3, h4⟩, fun ⟨h1, h2, h3, h4⟩ => ⟨h1, h2, h3, h4⟩⟩

def popMpls (c : Chain) : Chain := { c with labelled := false }
def pushMpls (c : Chain) : Chain := { c with etherType := ethertypeMpls, labelled := true }
def popVlan (c : Chain) : Chain := { c with etherType := c.tagType, tagged := false }
def pushVlan (c : Chain) : Chain :=
  { c with etherType := ethertypeVlan, tagged := true, tagType := ethertypeIpv4 }

end Chain

def OfPacket.chain (p : OfPacket w m) : Chain :=
  ⟨p.ethernet.etherType, p.vlanTag.valid, p.vlanTag.fields.etherType, p.mpls.valid, p.ipv4.valid,
    p.ipv6.valid⟩

def OfPacket.WellFormed (p : OfPacket w m) : Prop := p.chain.WellFormed

instance (p : OfPacket w m) : Decidable p.WellFormed := inferInstanceAs (Decidable p.chain.WellFormed)

/-- The packets and bitmaps of which the block keeps the chain. A pushed tag always announces IPv4; a
popped label leaves its EtherType behind; a pushed label is announced before the tag. -/
def ChainKept (p : OfPacket w m) (md : OpenflowMetadata) : Prop :=
  if Gate.pushVlan.passes md then
    Gate.pushMpls.passes md = false ∧ (p.mpls.valid = true → Gate.popMpls.passes md = true) ∧
      p.ipv4.valid = true ∧ p.ipv6.valid = false
  else if Gate.popVlan.passes md then
    p.vlanTag.fields.etherType ≠ ethertypeVlan ∧
      (Gate.popMpls.passes md = true → Gate.pushMpls.passes md = true) ∧
      (Gate.pushMpls.passes md = true → p.mpls.valid = true)
  else if Gate.pushMpls.passes md then p.vlanTag.valid = false
  else Gate.popMpls.passes md = false

instance (p : OfPacket w m) (md : OpenflowMetadata) : Decidable (ChainKept p md) :=
  inferInstanceAs (Decidable (ite _ _ _))

/-! ## The block on chains -/

def Rewrite.onChain : Rewrite → Chain → Chain
  | popMpls, c => c.popMpls
  | pushMpls, c => c.pushMpls
  | popVlan, c => c.popVlan
  | pushVlan, c => c.pushVlan
  | _, c => c

theorem vlanTag_pushed (i : Inst VlanTag) :
    (i.add.modify fun h => { h with etherType := ethertypeIpv4 }).fields.etherType = ethertypeIpv4 := by
  rw [Inst.modify, if_pos i.valid_add]

theorem vlanTag_vid (i : Inst VlanTag) (vid : BitVec 12) :
    (i.modify fun h => { h with vid := vid }).fields.etherType = i.fields.etherType := by
  unfold Inst.modify
  split_ifs <;> rfl

theorem chain_onNw (f4 : Ipv4 → Ipv4) (f6 : Ipv6 → Ipv6) (p : OfPacket w m) :
    (p.onNw f4 f6).chain = p.chain := by
  have h : (p.onNw f4 f6).control = p.control := onNw_control f4 f6 p
  simp only [OfPacket.control, Prod.mk.injEq] at h
  simp only [OfPacket.chain, h.2.2.1, h.2.2.2]
  rfl

theorem Rewrite.chain_run (r : Rewrite) (p : OfPacket w m) : (r.run p).chain = r.onChain p.chain := by
  cases r with
  | popMpls => rfl
  | popVlan => rfl
  | pushMpls =>
    simp only [run, OfPacket.ofpatPushMpls, OfPacket.chain, Inst.valid_add]
    rfl
  | pushVlan =>
    simp only [run, OfPacket.ofpatPushVlan, OfPacket.chain, Inst.valid_modify, Inst.valid_add,
      vlanTag_pushed]
    rfl
  | decMplsTtl =>
    simp only [run, OfPacket.ofpatDecMplsTtl, OfPacket.chain, Inst.valid_modify]
    rfl
  | setMplsTtl ttl =>
    simp only [run, OfPacket.ofpatSetMplsTtl, OfPacket.chain, Inst.valid_modify]
    rfl
  | setVlanVid vid =>
    simp only [run, OfPacket.ofpatSetVlanVid, OfPacket.chain, Inst.valid_modify, vlanTag_vid]
    rfl
  | decNwTtl => exact chain_onNw _ _ p
  | setNwTtl ttl => exact chain_onNw _ _ p

theorem Rewrite.onChain_idle {r : Rewrite} (h : r.gate ∉ chainGates) (c : Chain) : r.onChain c = c := by
  cases r <;> first | rfl | exact absurd h (by decide)

theorem chain_egress (t : Tables w m) (p : OfPacket w m) :
    (processOfpatEgress t p).chain = Slots.run Rewrite.onChain chainGates
      (program t (p.applyGroupEgress t)) (p.applyGroupEgress t).chain :=
  egress_part chainGates (fun r q => r.chain_run q) (fun _ hr => Rewrite.onChain_idle hr) t p

def Chain.after (c : Chain) (popM pushM popV pushV : Bool) : Chain :=
  let c := if popM then c.popMpls else c
  let c := if pushM then c.pushMpls else c
  let c := if popV then c.popVlan else c
  if pushV then c.pushVlan else c

theorem run_chainGates {t : Tables w m} {q : OfPacket w m} (hit : AllHit t q) :
    Slots.run Rewrite.onChain chainGates (program t q) q.chain =
      q.chain.after (Gate.popMpls.passes q.md) (Gate.pushMpls.passes q.md)
        (Gate.popVlan.passes q.md) (Gate.pushVlan.passes q.md) := by
  simp only [chainGates, Slots.run_cons, Slots.run_nil, program_popMpls hit, program_pushMpls hit,
    program_popVlan hit, program_pushVlan hit, elim_ite]
  rfl

/-! ## When a chain stays well formed -/

namespace Chain
variable {c : Chain}

theorem wellFormed_tagged {c : Chain} (htag : c.tagged = true) :
    c.WellFormed ↔ c.etherType = ethertypeVlan ∧ (c.tagType = ethertypeMpls ↔ c.labelled = true) ∧
      (c.labelled = false → (c.tagType = ethertypeIpv4 ↔ c.ipv4 = true) ∧
        (c.tagType = ethertypeIpv6 ↔ c.ipv6 = true)) := by
  have hinner : c.innerType = c.tagType := if_pos htag
  constructor
  · rintro ⟨htype, hlabel, h4, h6⟩
    rw [hinner] at hlabel h4 h6
    exact ⟨htype.2 htag, hlabel, fun hl => ⟨h4 hl, h6 hl⟩⟩
  · rintro ⟨htype, hlabel, hnw⟩
    rw [← hinner] at hlabel hnw
    exact ⟨iff_of_true htype htag, hlabel, fun hl => (hnw hl).1, fun hl => (hnw hl).2⟩

theorem wellFormed_untagged {c : Chain} (htag : c.tagged = false) :
    c.WellFormed ↔ c.etherType ≠ ethertypeVlan ∧ (c.etherType = ethertypeMpls ↔ c.labelled = true) ∧
      (c.labelled = false → (c.etherType = ethertypeIpv4 ↔ c.ipv4 = true) ∧
        (c.etherType = ethertypeIpv6 ↔ c.ipv6 = true)) := by
  have hinner : c.innerType = c.etherType := if_neg (htag ▸ Bool.false_ne_true)
  have hnot : ¬ c.tagged = true := htag ▸ Bool.false_ne_true
  constructor
  · rintro ⟨htype, hlabel, h4, h6⟩
    rw [hinner] at hlabel h4 h6
    exact ⟨fun he => hnot (htype.1 he), hlabel, fun hl => ⟨h4 hl, h6 hl⟩⟩
  · rintro ⟨htype, hlabel, hnw⟩
    rw [← hinner] at hlabel hnw
    exact ⟨iff_of_false htype hnot, hlabel, fun hl => (hnw hl).1, fun hl => (hnw hl).2⟩

theorem pushVlan_wellFormed :
    c.pushVlan.WellFormed ↔ c.labelled = false ∧ c.ipv4 = true ∧ c.ipv6 = false := by
  rw [wellFormed_tagged rfl]
  have hm : ethertypeIpv4 ≠ ethertypeMpls := by decide
  have h6 : ethertypeIpv4 ≠ ethertypeIpv6 := by decide
  simp only [pushVlan, hm, h6, true_and, false_iff, true_iff, Bool.not_eq_true]
  exact ⟨fun h => ⟨h.1, h.2 h.1⟩, fun h => ⟨h.1, fun _ => h.2⟩⟩

def Kept (c : Chain) (popM pushM popV pushV : Bool) : Prop :=
  if pushV then
    pushM = false ∧ (c.labelled = true → popM = true) ∧ c.ipv4 = true ∧ c.ipv6 = false
  else if popV then
    c.tagType ≠ ethertypeVlan ∧ (popM = true → pushM = true) ∧ (pushM = true → c.labelled = true)
  else if pushM then c.tagged = false
  else popM = false

theorem popVlan_wellFormed (hc : c.WellFormed) (htag : c.tagged = true) (c' : Chain)
    (htype : c'.tagType = c.tagType) (h4 : c'.ipv4 = c.ipv4) (h6 : c'.ipv6 = c.ipv6) :
    c'.popVlan.WellFormed ↔ c.tagType ≠ ethertypeVlan ∧ c'.labelled = c.labelled := by
  obtain ⟨_, hlabel, hnw⟩ := (wellFormed_tagged htag).1 hc
  rw [wellFormed_untagged rfl]
  simp only [popVlan, htype, h4, h6]
  refine and_congr_right fun _ => ?_
  constructor
  · rintro ⟨hl, _⟩
    exact Bool.eq_iff_iff.2 (hl.symm.trans hlabel)
  · intro hl
    rw [hl]
    exact ⟨hlabel, hnw⟩

theorem pushMpls_wellFormed : c.pushMpls.WellFormed ↔ c.tagged = false := by
  have hm : ethertypeMpls ≠ ethertypeVlan := by decide
  cases htag : c.tagged with
  | true =>
    have htag' : c.pushMpls.tagged = true := htag
    rw [wellFormed_tagged htag']
    exact iff_of_false (fun h => hm h.1) Bool.noConfusion
  | false =>
    have htag' : c.pushMpls.tagged = false := htag
    rw [wellFormed_untagged htag']
    exact iff_of_true ⟨hm, iff_of_true rfl rfl, fun hl => Bool.noConfusion hl⟩ rfl

theorem not_popMpls_wellFormed (hc : c.WellFormed) (hl : c.labelled = true) :
    ¬ c.popMpls.WellFormed := fun h => Bool.false_ne_true (h.label.1 (hc.label.2 hl))

theorem after_wellFormed (hc : c.WellFormed) {popM pushM popV pushV : Bool}
    (hpopM : popM = true → c.labelled = true) (hpopV : popV = true → c.tagged = true) :
    (c.after popM pushM popV pushV).WellFormed ↔ c.Kept popM pushM popV pushV := by
  have hlabelled : ∀ popV,
      (c.after popM pushM popV false).labelled = (pushM || (c.labelled && !popM)) := by
    intro popV
    cases popM <;> cases pushM <;> cases popV <;> simp [after, popMpls, pushMpls, popVlan]
  cases pushV with
  | true =>
    rw [Kept, if_pos rfl, show c.after popM pushM popV true = (c.after popM pushM popV false).pushVlan
      from rfl, pushVlan_wellFormed, hlabelled]
    have h4 : (c.after popM pushM popV false).ipv4 = c.ipv4 := by
      cases popM <;> cases pushM <;> cases popV <;> rfl
    have h6 : (c.after popM pushM popV false).ipv6 = c.ipv6 := by
      cases popM <;> cases pushM <;> cases popV <;> rfl
    rw [h4, h6, Bool.or_eq_false_iff, and_assoc]
    cases c.labelled <;> cases popM <;> simp
  | false =>
    cases popV with
    | true =>
      rw [Kept, if_neg Bool.false_ne_true, if_pos rfl,
        show c.after popM pushM true false = (c.after popM pushM false false).popVlan from rfl,
        popVlan_wellFormed hc (hpopV rfl) _ ?_ ?_ ?_, hlabelled]
      · refine and_congr_right fun _ => ?_
        cases hl : c.labelled <;> cases pushM <;> cases popM <;> simp_all
      all_goals cases popM <;> cases pushM <;> rfl
    | false =>
      rw [Kept, if_neg Bool.false_ne_true, if_neg Bool.false_ne_true]
      cases pushM with
      | true =>
        rw [if_pos rfl]
        cases popM <;> exact pushMpls_wellFormed
      | false =>
        rw [if_neg Bool.false_ne_true]
        cases popM with
        | true => exact iff_of_false (not_popMpls_wellFormed hc (hpopM rfl)) Bool.noConfusion
        | false => exact iff_of_true hc rfl

end Chain

theorem applyGroupEgress_chain (t : Tables w m) (p : OfPacket w m) :
    (p.applyGroupEgress t).chain = p.chain := by
  unfold OfPacket.applyGroupEgress
  split <;> rfl

/-- Of a well-formed packet whose bitmap pops only what it carries, the block makes a well-formed one
exactly under `ChainKept`. -/
theorem egress_wellFormed_iff (t : Tables w m) (p : OfPacket w m) (hwf : p.WellFormed)
    (hpopM : Gate.popMpls.passes (p.applyGroupEgress t).md = true → p.mpls.valid = true)
    (hpopV : Gate.popVlan.passes (p.applyGroupEgress t).md = true → p.vlanTag.valid = true)
    (hit : AllHit t (p.applyGroupEgress t)) :
    (processOfpatEgress t p).WellFormed ↔ ChainKept p (p.applyGroupEgress t).md := by
  unfold OfPacket.WellFormed
  rw [chain_egress, run_chainGates hit, applyGroupEgress_chain]
  exact Chain.after_wellFormed hwf hpopM hpopV

def labelled : OfPacket 9 16 :=
  { OfPacket.start ethertypeMpls with mpls := ⟨true, ⟨100, 0, 1, 64⟩⟩, ipv4 := ⟨true, ⟨64⟩⟩ }

theorem egress_wellFormed_swap :
    (processOfpatEgress (Tables.constant EgressTable.noArgs)
      (labelled.openflowApply 0x180000 7 0)).WellFormed :=
  (egress_wellFormed_iff (Tables.constant EgressTable.noArgs) (labelled.openflowApply 0x180000 7 0)
    (by decide) (by decide) (by decide) (allHit_constant _ _)).2 (by decide)

theorem egress_popMpls :
    (labelled.openflowApply 0x100000 7 0).WellFormed ∧ labelled.mpls.valid = true ∧
      Gate.popVlan.passes (labelled.openflowApply 0x100000 7 0).md = false ∧
      AllHit (Tables.constant EgressTable.noArgs) (labelled.openflowApply 0x100000 7 0) ∧
      ¬ (processOfpatEgress (Tables.constant EgressTable.noArgs)
        (labelled.openflowApply 0x100000 7 0)).WellFormed :=
  ⟨by decide, rfl, rfl, allHit_constant _ _, by decide⟩

end P4OfAgent.P4
