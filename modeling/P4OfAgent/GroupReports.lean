import P4OfAgent.Groups

/-! Whether the return values of the group callbacks tell what happened to the plugin's groups.
`group_create` and `group_modify` drop the result of `ofpat_group_create`. -/

namespace P4OfAgent
open Function Runs
variable {B : Type}

def GroupOp.target : GroupOp B → Option (BitVec 32 × B)
  | .create id _ b _ => some (id, b)
  | .modify k b _ => some (k.setWidth 32, b)
  | .delete _ _ => none

/-- A success of `group_create` or `group_modify` means that the group is installed with the buckets of
the call; an error of any of the three, that the installed groups are as before. -/
structure Reports (w : GroupWorld B) (op : GroupOp B) : Prop where
  success : (op.apply w.groups).ret = .none → ∀ id b, op.target = some (id, b) →
    (op.apply w.groups).groups.installed id = some b
  error : (op.apply w.groups).ret ≠ .none →
    (op.apply w.groups).groups.installed = w.groups.installed

/-- `ofpat_group_create` succeeds whenever it is called, or else a `group_create` repeats buckets that
are already installed. -/
def CreatesInstall (w : GroupWorld B) : GroupOp B → Prop
  | .create id t b ans => supportedType t = true →
    ans.create = 0 ∨ w.groups.installed id = some b
  | .modify _ _ ans => ans.delete = 0 → ans.create = 0
  | .delete _ _ => True

theorem call_create_installed (g : Groups B) (id : BitVec 32) (b : B) (t t' : BitVec 32)
    (status : Int) : ((g.effect (.alloc id b t)).call status (.create id t')).installed =
      if status = 0 then update g.installed id (some b) else g.installed := by
  rw [Groups.call]
  split_ifs
  · simp only [Groups.effect, update_self]
  · rfl

theorem reports_of_done {w : GroupWorld B} {op : GroupOp B} {id : BitVec 32} {b : B}
    (htarget : op.target = some (id, b)) (hr : (op.apply w.groups).ret = .none) :
    Reports w op ↔ (op.apply w.groups).groups.installed id = some b := by
  constructor
  · intro h
    exact h.success hr id b htarget
  · intro h
    refine ⟨fun _ id' b' he => ?_, fun hne => absurd hr hne⟩
    obtain ⟨rfl, rfl⟩ := Prod.mk.inj (Option.some.inj (htarget.symm.trans he))
    exact h

theorem reports_of_refused {w : GroupWorld B} {op : GroupOp B} (hr : (op.apply w.groups).ret ≠ .none)
    (hgroups : (op.apply w.groups).groups = w.groups) : Reports w op :=
  ⟨fun hnone => absurd hnone hr, fun _ => congrArg Groups.installed hgroups⟩

theorem reports_create_iff (w : GroupWorld B) (id : BitVec 32) (t : BitVec 8) (b : B)
    (ans : GroupAnswers) :
    Reports w (.create id t b ans) ↔ CreatesInstall w (.create id t b ans) := by
  by_cases ht : supportedType t = true
  · have hr : ((GroupOp.create id t b ans).apply w.groups).ret = .none := by
      rw [GroupOp.apply, groupCreate, if_pos ht]
    have hi : ((GroupOp.create id t b ans).apply w.groups).groups.installed =
        if ans.create = 0 then update w.groups.installed id (some b) else w.groups.installed := by
      rw [GroupOp.apply, groupCreate, if_pos ht]
      exact call_create_installed ..
    rw [reports_of_done rfl hr, hi]
    split_ifs with hc
    · exact iff_of_true (update_self ..) fun _ => .inl hc
    · exact ⟨fun h _ => .inr h, fun h => (h ht).resolve_left hc⟩
  · have happ : (GroupOp.create id t b ans).apply w.groups = ⟨.notSupported, [], w.groups⟩ := by
      rw [GroupOp.apply, groupCreate, if_neg ht]
    refine iff_of_true (reports_of_refused ?_ ?_) fun h => absurd h ht
    · rw [happ]
      exact IndigoError.noConfusion
    · rw [happ]

theorem reports_modify_iff (w : GroupWorld B) (k : BitVec 64) (b : B) (ans : GroupAnswers) :
    Reports w (.modify k b ans) ↔ CreatesInstall w (.modify k b ans) := by
  by_cases hd : ans.delete = 0
  · have hr : ((GroupOp.modify k b ans).apply w.groups).ret = .none := by
      rw [GroupOp.apply, groupModify, if_neg (not_not.2 hd)]
    have hi : ((GroupOp.modify k b ans).apply w.groups).groups.installed (k.setWidth 32) =
        if ans.create = 0 then some b else none := by
      rw [GroupOp.apply, groupModify, if_neg (not_not.2 hd)]
      dsimp only
      rw [call_create_installed]
      split_ifs <;> exact update_self ..
    rw [reports_of_done rfl hr, hi]
    split_ifs with hc
    · exact iff_of_true rfl fun _ => hc
    · exact iff_of_false not_false fun h => hc (h hd)
  · have happ : ((GroupOp.modify k b ans).apply w.groups).ret = .unknown ∧
        ((GroupOp.modify k b ans).apply w.groups).groups = w.groups := by
      rw [GroupOp.apply, groupModify, if_pos hd]
      exact ⟨rfl, rfl⟩
    refine iff_of_true (reports_of_refused ?_ happ.2) fun h => absurd h hd
    rw [happ.1]
    exact IndigoError.noConfusion

theorem reports_delete (w : GroupWorld B) (k : BitVec 64) (ans : GroupAnswers) :
    Reports w (.delete k ans) := by
  refine ⟨fun _ id b he => absurd he.symm (Option.some_ne_none _), fun hr => ?_⟩
  rw [GroupOp.apply, groupDelete] at hr ⊢
  split_ifs at hr ⊢
  · rfl
  · exact absurd rfl hr

theorem reports_iff (ops : List (GroupOp B)) :
    Along GroupWorld.step Reports GroupWorld.empty ops ↔
      Along GroupWorld.step CreatesInstall GroupWorld.empty ops := by
  refine along_congr (fun w op => ?_) _ ops
  cases op with
  | create id t b ans => exact reports_create_iff w id t b ans
  | modify k b ans => exact reports_modify_iff w k b ans
  | delete k ans => exact iff_of_true (reports_delete w k ans) trivial

theorem not_reports_modify :
    ¬ Along GroupWorld.step Reports GroupWorld.empty
      [.create 5 Ofpgt.all () ⟨0, 0⟩, .modify 5 () ⟨0, 1⟩] := by
  rintro ⟨-, h, -⟩
  exact absurd (h.success rfl 5 () rfl) (by decide)

end P4OfAgent
