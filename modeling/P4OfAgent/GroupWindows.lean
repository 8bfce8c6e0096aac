import P4OfAgent.GroupExecution

/-! What packets can meet while a group callback runs. A group is created in two calls, and a modify
deletes it before it does the same; in between the plugin does not hold it. -/

namespace P4OfAgent
open Function P4 Runs
variable {σ M B : Type} {w n : Nat}

def GroupOp.between (pl : GroupPlugin σ B) (s : Backed σ B) (op : GroupOp B) : List σ :=
  ((op.apply s.world.groups).calls.dropLast.scanl (fun p c => pl.call p c (op.answers.of c)) s.plugin).tail

def GroupOp.groupId : GroupOp B → BitVec 32
  | create id _ _ _ => id
  | modify k _ _ => k.setWidth 32
  | delete k _ => k.setWidth 32

section between
variable {pl : GroupPlugin σ B} {s : Backed σ B} {gs : List (OfGroup B)}

theorem GroupOp.between_create {id : BitVec 32} {t : BitVec 8} {b : B} {ans : GroupAnswers}
    (ht : supportedType t = true) : (GroupOp.create id t b ans).between pl s =
      [pl.call s.plugin (.alloc id b (t.setWidth 32)) 0] := by
  rw [GroupOp.between, GroupOp.apply, groupCreate, if_pos ht]
  rfl

theorem Packed.between_modify (hw : Packed s.world) {g : Group} (hg : g ∈ s.world.live) {b : B}
    {ans : GroupAnswers} (hd : ans.delete = 0) : (GroupOp.modify g.priv b ans).between pl s =
      let deleted := pl.callAll ans s.plugin [.delete g.groupId (g.groupType.setWidth 32)]
      [deleted, pl.call deleted (.alloc g.groupId b (g.groupType.setWidth 32)) 0] := by
  rw [GroupOp.between, hw.modify_calls hg b hd]
  rfl

theorem GroupsAgree.between (ha : GroupsAgree pl s gs) (hpl : pl.Works) {op : GroupOp B}
    (ho : CarefulGroup s.world op) :
    ∀ p ∈ op.between pl s, pl.held p = update (pl.held s.plugin) op.groupId none := by
  intro p hp
  cases op with
  | create id t b ans =>
    by_cases ht : supportedType t = true
    · rw [GroupOp.between_create ht] at hp
      rw [List.mem_singleton.1 hp, hpl.alloc, GroupOp.groupId, ← ha.absent ho.target, update_eq_self]
    · rw [GroupOp.between, GroupOp.apply, groupCreate, if_neg ht] at hp
      exact absurd hp List.not_mem_nil
  | modify k b ans =>
    by_cases hd : ans.delete = 0
    · obtain ⟨g, hg, rfl⟩ := ho.target
      have hall := (ha.packed g hg).2.2.1
      have hgone : pl.held (pl.callAll ans s.plugin [.delete g.groupId (g.groupType.setWidth 32)]) =
          update (pl.held s.plugin) g.groupId none := by
        rw [hall]
        exact (hpl.held_delete (ha.held_all g.groupId)).trans (if_pos hd)
      rw [ha.packed.between_modify hg hd] at hp
      rw [GroupOp.groupId, ((ha.packed.roundTrip g hg).unpack b).1]
      rcases List.mem_cons.1 hp with rfl | hp
      · exact hgone
      · rw [List.mem_singleton.1 hp, hpl.alloc]
        exact hgone
    · rw [GroupOp.between, GroupOp.apply, groupModify, if_pos hd] at hp
      exact absurd hp List.not_mem_nil
  | delete k ans =>
    rw [GroupOp.between, GroupOp.apply, groupDelete_calls] at hp
    exact absurd hp List.not_mem_nil

end between

end P4OfAgent
