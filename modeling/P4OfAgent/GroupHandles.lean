import P4OfAgent.Groups

/-! Whether a group's `entry_priv` leads back to its id and type. The type is shifted out of a 32-bit
word before the id is added, and read back from bit 31, which belongs to the id. -/

namespace P4OfAgent
open Runs
variable {B : Type}

def RoundTrips (s : Groups B) (g : Group) : Prop :=
  (∀ buckets ans, ∀ c ∈ (groupModify s g.priv buckets ans).calls,
    c.groupId = g.groupId ∧ c.type = g.groupType.setWidth 32) ∧
  ∀ ans, ∀ c ∈ (groupDelete s g.priv ans).calls,
    c.groupId = g.groupId ∧ c.type = g.groupType.setWidth 32

def HandlesRoundTrip (w : GroupWorld B) : Prop := ∀ g ∈ w.live, RoundTrips w.groups g

def CreatesSmallAll : GroupOp B → Prop
  | .create id t _ _ => supportedType t = true → t = Ofpgt.all ∧ id.toNat < 2 ^ 31
  | _ => True

instance : ∀ op : GroupOp B, Decidable (CreatesSmallAll op)
  | .create id t _ _ =>
    inferInstanceAs (Decidable (supportedType t = true → t = Ofpgt.all ∧ id.toNat < 2 ^ 31))
  | .modify .. => isTrue trivial
  | .delete .. => isTrue trivial

theorem groupPriv_of_supported (id : BitVec 32) {t : BitVec 8} (ht : supportedType t = true) :
    groupPriv id t = id.setWidth 64 := by
  unfold supportedType at ht
  rw [Bool.or_eq_true, decide_eq_true_eq, decide_eq_true_eq] at ht
  rcases ht with rfl | rfl <;> exact BitVec.zero_add _

theorem groupId_of_priv (id : BitVec 32) : (id.setWidth 64).setWidth 32 = id := by
  rw [BitVec.setWidth_setWidth_of_le _ (by decide), BitVec.setWidth_eq]

theorem toNat_type_of_priv (id : BitVec 32) :
    ((id.setWidth 64 >>> 31).setWidth 32 : BitVec 32).toNat = id.toNat / 2 ^ 31 := by
  have hid := id.isLt
  simp only [BitVec.toNat_setWidth, BitVec.toNat_ushiftRight, Nat.shiftRight_eq_div_pow]
  omega

theorem toNat_type8_of_priv (id : BitVec 32) :
    (((id.setWidth 64 >>> 31).setWidth 8 : BitVec 8).setWidth 32 : BitVec 32).toNat =
      id.toNat / 2 ^ 31 := by
  have hid := id.isLt
  simp only [BitVec.toNat_setWidth, BitVec.toNat_ushiftRight, Nat.shiftRight_eq_div_pow]
  omega

theorem groupModify_calls (s : Groups B) (k : BitVec 64) (b : B) (ans : GroupAnswers) :
    ∀ c ∈ (groupModify s k b ans).calls, c.groupId = k.setWidth 32 ∧
      c.type = (k >>> 31).setWidth 32 := by
  unfold groupModify
  split_ifs <;> simp only [List.forall_mem_cons, GroupCall.groupId, GroupCall.type, and_self,
    List.not_mem_nil, IsEmpty.forall_iff, implies_true]

theorem groupDelete_calls (s : Groups B) (k : BitVec 64) (ans : GroupAnswers) :
    (groupDelete s k ans).calls =
      [.delete (k.setWidth 32) (((k >>> 31).setWidth 8 : BitVec 8).setWidth 32)] := by
  unfold groupDelete
  split_ifs <;> rfl

theorem small_of_roundTrips {s : Groups B} {g : Group} (ht : supportedType g.groupType = true)
    (hp : g.priv = groupPriv g.groupId g.groupType) (h : RoundTrips s g) :
    g.groupType = Ofpgt.all ∧ g.groupId.toNat < 2 ^ 31 := by
  rw [groupPriv_of_supported g.groupId ht] at hp
  have hcall : .delete (g.priv.setWidth 32) (((g.priv >>> 31).setWidth 8 : BitVec 8).setWidth 32) ∈
      (groupDelete s g.priv ⟨0, 0⟩).calls := by
    rw [groupDelete_calls]
    exact List.mem_singleton.2 rfl
  have htype := (h.2 ⟨0, 0⟩ _ hcall).2
  rw [GroupCall.type, hp] at htype
  have hn := congrArg BitVec.toNat htype
  rw [toNat_type8_of_priv] at hn
  have hid := g.groupId.isLt
  unfold supportedType at ht
  rw [Bool.or_eq_true, decide_eq_true_eq, decide_eq_true_eq] at ht
  rcases ht with ht | ht
  · have hzero : (Ofpgt.all.setWidth 32 : BitVec 32).toNat = 0 := rfl
    rw [ht, hzero] at hn
    exact ⟨ht, by omega⟩
  · -- 2 cannot come back out of one bit
    have htwo : (Ofpgt.indirect.setWidth 32 : BitVec 32).toNat = 2 := rfl
    rw [ht, htwo] at hn
    omega

theorem roundTrips_of_small (s : Groups B) {g : Group} (ht : supportedType g.groupType = true)
    (hp : g.priv = groupPriv g.groupId g.groupType) (hall : g.groupType = Ofpgt.all)
    (hlt : g.groupId.toNat < 2 ^ 31) : RoundTrips s g := by
  rw [groupPriv_of_supported g.groupId ht] at hp
  have hzero : g.groupId.toNat / 2 ^ 31 = 0 := Nat.div_eq_of_lt hlt
  refine ⟨fun b ans c hc => ?_, fun ans c hc => ?_⟩
  · obtain ⟨hid, htype⟩ := groupModify_calls s g.priv b ans c hc
    rw [hid, htype, hp, hall]
    refine ⟨groupId_of_priv g.groupId, BitVec.eq_of_toNat_eq ?_⟩
    rw [toNat_type_of_priv, hzero]
    rfl
  · rw [groupDelete_calls, List.mem_singleton] at hc
    rw [hc, GroupCall.groupId, GroupCall.type, hp, hall]
    refine ⟨groupId_of_priv g.groupId, BitVec.eq_of_toNat_eq ?_⟩
    rw [toNat_type8_of_priv, hzero]
    rfl

def Packed (w : GroupWorld B) : Prop := ∀ g ∈ w.live, supportedType g.groupType = true ∧
  g.priv = groupPriv g.groupId g.groupType ∧ g.groupType = Ofpgt.all ∧ g.groupId.toNat < 2 ^ 31

theorem Packed.roundTrip {w : GroupWorld B} (hw : Packed w) : HandlesRoundTrip w := fun g hg =>
  let ⟨ht, hp, hall, hlt⟩ := hw g hg
  roundTrips_of_small w.groups ht hp hall hlt

theorem groupCreate_ret (s : Groups B) (id : BitVec 32) (t : BitVec 8) (b : B) (ans : GroupAnswers) :
    (groupCreate s id t b ans).ret = .none ↔ supportedType t = true := by
  unfold groupCreate
  split_ifs with ht
  · exact iff_of_true rfl ht
  · exact iff_of_false not_false ht

theorem Packed.step {w : GroupWorld B} {op : GroupOp B} (hw : Packed w) (hq : CreatesSmallAll op) :
    Packed (GroupWorld.step w op) := by
  intro g hg
  unfold GroupWorld.step at hg
  dsimp only at hg
  split_ifs at hg with hr
  · cases op with
    | create id t b ans =>
      rcases List.mem_append.1 hg with hg | hg
      · exact hw g hg
      · have ht := (groupCreate_ret w.groups id t b ans).1 hr
        rw [List.mem_singleton.1 hg]
        exact ⟨ht, rfl, hq ht⟩
    | modify k b ans => exact hw g hg
    | delete k ans => exact hw g (Store.mem_of_mem_drop hg)
  · exact hw g hg

theorem CreatesSmallAll.of_roundTrip {w : GroupWorld B} {op : GroupOp B}
    (h : HandlesRoundTrip (GroupWorld.step w op)) : CreatesSmallAll op := by
  cases op with
  | create id t b ans =>
    intro ht
    have hr : ((GroupOp.create id t b ans).apply w.groups).ret = .none :=
      (groupCreate_ret w.groups id t b ans).2 ht
    have hg : (⟨id, t, groupPriv id t⟩ : Group) ∈
        (GroupWorld.step w (.create id t b ans)).live := by
      unfold GroupWorld.step
      dsimp only
      rw [if_pos hr]
      exact List.mem_append_right w.live (List.mem_singleton.2 rfl)
    exact small_of_roundTrips ht rfl (h _ hg)
  | modify k b ans => trivial
  | delete k ans => trivial

/-- Over any run every group's `entry_priv` leads back to its id and type in every state exactly when
all groups created are of type `OFPGT_ALL` with an id below `2 ^ 31`. -/
theorem handlesRoundTrip_iff (ops : List (GroupOp B)) :
    (∀ pre, pre <+: ops → HandlesRoundTrip (run GroupWorld.step GroupWorld.empty pre)) ↔
      ∀ op ∈ ops, CreatesSmallAll op := by
  have h0 : Packed (GroupWorld.empty : GroupWorld B) := fun g hg => absurd hg List.not_mem_nil
  rw [← along_iff_forall]
  refine reached_iff Packed _ (fun w hw => hw.roundTrip) (fun w op _ _ hr => ?_) (fun w op hw _ hq => ?_)
    h0 (along_true _ _)
  · exact .of_roundTrip hr
  · exact hw.step hq

theorem handlesRoundTrip_indirect :
    ¬ HandlesRoundTrip (run GroupWorld.step GroupWorld.empty
      [GroupOp.create 5 Ofpgt.indirect () ⟨0, 0⟩]) := by
  intro h
  have ht := ((h _ List.mem_cons_self).1 () ⟨0, 0⟩ _ List.mem_cons_self).2
  exact absurd ht (by decide)

end P4OfAgent
