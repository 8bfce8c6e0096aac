import P4OfAgent.Rewrites

/-! The order of the egress block against the order of the OpenFlow action set. The block runs the
MPLS tests before the VLAN tests; all that this can change is the EtherType, where a label is pushed
and a tag is popped. -/

namespace P4OfAgent.P4
open Headers Slots
variable {w m : Nat}

def actionSetOrder : List Gate :=
  [.popMpls, .popVlan, .pushMpls, .pushVlan, .decMplsTtl, .decNwTtl, .setMplsTtl, .setNwTtl, .setField]

def actionSetEgress (t : Tables w m) (p : OfPacket w m) : OfPacket w m :=
  actionSetOrder.foldl (fun p g => gated t g p) p

/-- Where both orders do the same: unless a label is pushed and the outermost tag popped, with no tag
pushed that hides the EtherType, and the popped tag did not announce MPLS. -/
def OrderKept (p : OfPacket w m) (md : OpenflowMetadata) : Prop :=
  Gate.pushMpls.passes md = true → Gate.popVlan.passes md = true →
    Gate.pushVlan.passes md = true ∨ p.vlanTag.fields.etherType = ethertypeMpls

section move
variable {t : Tables w m} {q p : OfPacket w m}

theorem run_move_gate {order order' : List Gate} (pre : List Gate) {g : Gate} {l : List Gate}
    (r : List Gate) (ho : order = pre ++ (l ++ g :: r)) (ho' : order' = pre ++ g :: (l ++ r))
    (h : ∀ a, program t q g = some a → ∀ g' ∈ l, ∀ b, program t q g' = some b → g.Independent g') :
    Slots.run Rewrite.run order (program t q) p = Slots.run Rewrite.run order' (program t q) p := by
  rw [ho, ho', run_append pre, run_append pre]
  refine run_move ?_ r
  intro a ha g' hg' b hb
  refine Rewrite.commutes ?_
  rw [program_gate ha, program_gate hb]
  exact h a ha g' hg' b hb

def popFirstOrder : List Gate :=
  [.popMpls, .popVlan, .pushMpls, .decMplsTtl, .setMplsTtl, .pushVlan, .setField, .decNwTtl, .setNwTtl]

theorem run_popFirst : Slots.run Rewrite.run popFirstOrder (program t q) p =
    Slots.run Rewrite.run actionSetOrder (program t q) p := by
  have hpushV : ∀ g ∈ [Gate.decMplsTtl, .setMplsTtl], Gate.pushVlan.Independent g := by decide
  have hdecN : ∀ g ∈ [Gate.setMplsTtl, .setField], Gate.decNwTtl.Independent g := by decide
  have hsetN : ∀ g ∈ [Gate.setField], Gate.setNwTtl.Independent g := by decide
  calc Slots.run Rewrite.run popFirstOrder (program t q) p
      = Slots.run Rewrite.run [.popMpls, .popVlan, .pushMpls, .pushVlan, .decMplsTtl, .setMplsTtl,
          .setField, .decNwTtl, .setNwTtl] _ p :=
        run_move_gate [.popMpls, .popVlan, .pushMpls] [.setField, .decNwTtl, .setNwTtl] rfl rfl
          fun _ _ g hg _ _ => hpushV g hg
    _ = Slots.run Rewrite.run [.popMpls, .popVlan, .pushMpls, .pushVlan, .decMplsTtl, .decNwTtl,
          .setMplsTtl, .setField, .setNwTtl] _ p :=
        run_move_gate [.popMpls, .popVlan, .pushMpls, .pushVlan, .decMplsTtl] [.setNwTtl] rfl rfl
          fun _ _ g hg _ _ => hdecN g hg
    _ = Slots.run Rewrite.run actionSetOrder _ p :=
        run_move_gate [.popMpls, .popVlan, .pushMpls, .pushVlan, .decMplsTtl, .decNwTtl, .setMplsTtl]
          [] rfl rfl fun _ _ g hg _ _ => hsetN g hg

theorem run_egressOrder_of_not_both
    (h : program t q .popVlan = none ∨ program t q .pushMpls = none) :
    Slots.run Rewrite.run egressOrder (program t q) p =
      Slots.run Rewrite.run popFirstOrder (program t q) p := by
  have hpop : ∀ g ∈ [Gate.decMplsTtl, .setMplsTtl], Gate.popVlan.Independent g := by decide
  refine run_move_gate (l := [.pushMpls, .decMplsTtl, .setMplsTtl]) [.popMpls]
    [.pushVlan, .setField, .decNwTtl, .setNwTtl] rfl rfl ?_
  intro a ha g hg b hb
  rcases List.mem_cons.1 hg with rfl | hg
  · rcases h with h | h
    · exact absurd (h.symm.trans ha) (Option.some_ne_none a).symm
    · exact absurd (h.symm.trans hb) (Option.some_ne_none b).symm
  · exact hpop g hg

theorem run_setEtherType {order : List Gate} (h : ∀ g ∈ order, Part.etherType ∉ g.parts)
    (e : BitVec 16) : Slots.run Rewrite.run order (program t q) (p.setEtherType e) =
      (Slots.run Rewrite.run order (program t q) p).setEtherType e := by
  refine run_pass (f := fun p : OfPacket w m => p.setEtherType e) ?_
  intro g hg r hr p
  have hpart := h g hg
  rw [← program_gate hr] at hpart
  cases r <;> first | rfl | exact absurd List.mem_cons_self hpart

theorem run_etherType {order : List Gate} (h : ∀ g ∈ order, Part.etherType ∉ g.parts) :
    (Slots.run Rewrite.run order (program t q) p).ethernet.etherType = p.ethernet.etherType := by
  refine run_frame (π := fun p : OfPacket w m => p.ethernet.etherType) ?_
  intro g hg r hr p
  have hpart := h g hg
  rw [← program_gate hr] at hpart
  cases r <;> first | rfl | exact absurd List.mem_cons_self hpart

/-- With both, the block leaves the EtherType of the popped tag where the action set leaves that of
the pushed label. -/
theorem run_pushMpls_popVlan (hpush : program t q .pushMpls = some .pushMpls)
    (hpop : program t q .popVlan = some .popVlan) :
    Slots.run Rewrite.run [.pushMpls, .decMplsTtl, .setMplsTtl, .popVlan] (program t q) p =
      (Slots.run Rewrite.run [.popVlan, .pushMpls, .decMplsTtl, .setMplsTtl] (program t q) p).setEtherType
        p.vlanTag.fields.etherType := by
  have hind : ∀ g ∈ [Gate.decMplsTtl, .setMplsTtl], Gate.popVlan.Independent g := by decide
  have hparts : ∀ g ∈ [Gate.decMplsTtl, .setMplsTtl], Part.etherType ∉ g.parts := by decide
  have hmove : Slots.run Rewrite.run [.decMplsTtl, .setMplsTtl, .popVlan] (program t q) p.ofpatPushMpls =
      Slots.run Rewrite.run [.popVlan, .decMplsTtl, .setMplsTtl] (program t q) p.ofpatPushMpls :=
    run_move_gate (l := [.decMplsTtl, .setMplsTtl]) [] [] rfl rfl fun _ _ g hg _ _ => hind g hg
  have hswap : Rewrite.popVlan.run p.ofpatPushMpls =
      (Rewrite.pushMpls.run (Rewrite.popVlan.run p)).setEtherType p.vlanTag.fields.etherType := rfl
  calc Slots.run Rewrite.run [.pushMpls, .decMplsTtl, .setMplsTtl, .popVlan] (program t q) p
      = Slots.run Rewrite.run [.decMplsTtl, .setMplsTtl, .popVlan] (program t q) p.ofpatPushMpls :=
        run_cons_some hpush _
    _ = Slots.run Rewrite.run [.decMplsTtl, .setMplsTtl] (program t q)
          (Rewrite.popVlan.run p.ofpatPushMpls) := hmove.trans (run_cons_some hpop _)
    _ = (Slots.run Rewrite.run [.popVlan, .pushMpls, .decMplsTtl, .setMplsTtl] (program t q)
          p).setEtherType
          p.vlanTag.fields.etherType := by
        rw [hswap, run_setEtherType hparts, run_cons_some hpop, run_cons_some hpush]

theorem setEtherType_eq_self {e : BitVec 16} : p.setEtherType e = p ↔ e = p.ethernet.etherType := by
  constructor
  · intro h
    exact congrArg (fun p : OfPacket w m => p.ethernet.etherType) h
  · rintro rfl
    rfl

theorem run_egressOrder_of_both (hpush : program t q .pushMpls = some .pushMpls)
    (hpop : program t q .popVlan = some .popVlan) :
    Slots.run Rewrite.run egressOrder (program t q) p =
        Slots.run Rewrite.run popFirstOrder (program t q) p ↔
      program t q .pushVlan = some .pushVlan ∨ p.vlanTag.fields.etherType = ethertypeMpls := by
  have hpopM : (Slots.run Rewrite.run [.popMpls] (program t q) p).vlanTag = p.vlanTag := by
    refine run_frame (π := fun p : OfPacket w m => p.vlanTag) ?_
    intro g hg r hr p
    have hgate := program_gate hr
    rw [List.mem_singleton.1 hg] at hgate
    rw [Rewrite.eq_of_gate (r := .popMpls) (by decide) hgate]
    rfl
  generalize hs : Slots.run Rewrite.run [.popMpls] (program t q) p = s at hpopM
  generalize hy : Slots.run Rewrite.run [.popVlan, .pushMpls, .decMplsTtl, .setMplsTtl] (program t q) s = y
  have hblock : Slots.run Rewrite.run egressOrder (program t q) p =
      Slots.run Rewrite.run [.pushVlan, .setField, .decNwTtl, .setNwTtl] (program t q)
        (y.setEtherType p.vlanTag.fields.etherType) := by
    rw [← hpopM, ← hy, ← run_pushMpls_popVlan hpush hpop, ← hs, ← run_append, ← run_append]
    rfl
  have hset : Slots.run Rewrite.run popFirstOrder (program t q) p =
      Slots.run Rewrite.run [.pushVlan, .setField, .decNwTtl, .setNwTtl] (program t q) y := by
    rw [← hy, ← hs, ← run_append, ← run_append]
    rfl
  have hmid : ∀ g ∈ [Gate.decMplsTtl, .setMplsTtl], Part.etherType ∉ g.parts := by decide
  have hrest : ∀ g ∈ [Gate.setField, .decNwTtl, .setNwTtl], Part.etherType ∉ g.parts := by decide
  have htype : y.ethernet.etherType = ethertypeMpls := by
    rw [← hy, run_cons_some hpop, run_cons_some hpush, run_etherType hmid]
    rfl
  rw [hblock, hset]
  cases hpushV : program t q .pushVlan with
  | some r =>
    obtain rfl : r = .pushVlan := Rewrite.eq_of_gate (by decide) (program_gate hpushV)
    refine iff_of_true ?_ (.inl rfl)
    rw [run_cons_some hpushV, run_cons_some hpushV]
    rfl
  | none =>
    rw [run_cons_none hpushV, run_cons_none hpushV, run_setEtherType hrest, setEtherType_eq_self,
      run_etherType hrest, htype]
    exact (or_iff_right (Option.some_ne_none _).symm).symm

end move

theorem egress_actionSet_iff (t : Tables w m) (p : OfPacket w m)
    (hit : AllHit t (p.applyGroupEgress t)) :
    processOfpatEgress t p = actionSetEgress t (p.applyGroupEgress t) ↔
      OrderKept p (p.applyGroupEgress t).md := by
  have hvlan : (p.applyGroupEgress t).vlanTag = p.vlanTag := by
    unfold OfPacket.applyGroupEgress
    split <;> rfl
  rw [processOfpatEgress_run, actionSetEgress, foldl_gated, ← run_popFirst, OrderKept, ← hvlan]
  generalize p.applyGroupEgress t = q at hit ⊢
  have hpush := program_pushMpls hit
  have hpop := program_popVlan hit
  have hpushV := program_pushVlan hit
  cases hM : Gate.pushMpls.passes q.md with
  | false =>
    refine iff_of_true (run_egressOrder_of_not_both (.inr ?_)) fun h => Bool.noConfusion h
    rw [hpush, if_neg (hM ▸ Bool.false_ne_true)]
  | true =>
    cases hV : Gate.popVlan.passes q.md with
    | false =>
      refine iff_of_true (run_egressOrder_of_not_both (.inl ?_)) fun _ h => Bool.noConfusion h
      rw [hpop, if_neg (hV ▸ Bool.false_ne_true)]
    | true =>
      rw [if_pos hM] at hpush
      rw [if_pos hV] at hpop
      rw [run_egressOrder_of_both hpush hpop, hpushV]
      cases Gate.pushVlan.passes q.md <;> simp

def tagged : OfPacket 9 16 :=
  { OfPacket.start ethertypeVlan with vlanTag := ⟨true, ⟨0, 0, 5, ethertypeIpv4⟩⟩, ipv4 := ⟨true, ⟨64⟩⟩ }

theorem egress_actionSet_popVlan :
    processOfpatEgress (Tables.constant EgressTable.noArgs) (tagged.openflowApply 0x40000 7 0) =
      actionSetEgress (Tables.constant EgressTable.noArgs) (tagged.openflowApply 0x40000 7 0) :=
  (egress_actionSet_iff (Tables.constant EgressTable.noArgs) (tagged.openflowApply 0x40000 7 0)
    (allHit_constant _ _)).2 fun h => absurd h (by decide)

theorem egress_pushMpls_popVlan :
    tagged.vlanTag.valid = true ∧
      Gate.popMpls.passes (tagged.openflowApply 0xc0000 7 0).md = false ∧
      AllHit (Tables.constant EgressTable.noArgs) (tagged.openflowApply 0xc0000 7 0) ∧
      processOfpatEgress (Tables.constant EgressTable.noArgs) (tagged.openflowApply 0xc0000 7 0) ≠
        actionSetEgress (Tables.constant EgressTable.noArgs) (tagged.openflowApply 0xc0000 7 0) := by
  refine ⟨rfl, rfl, allHit_constant _ _, fun h => ?_⟩
  exact absurd (congrArg (fun p : OfPacket 9 16 => p.ethernet.etherType) h) (by decide)

end P4OfAgent.P4
