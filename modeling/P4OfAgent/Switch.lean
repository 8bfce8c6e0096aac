import P4OfAgent.FlowRuns
import P4OfAgent.Lib.Priority

/-! The switch that the controller sees: flows with an id, a table, a match, a priority and
instructions. It knows no handles, maps or pipeline store. -/

namespace P4OfAgent
open Priority Runs
variable {M K : Type}

structure OfFlow (M : Type) where
  id : BitVec 64
  tableId : BitVec 8
  pat : Option M
  priority : BitVec 16
  instructions : List Instruction

inductive FlowMod (M : Type)
  | add (flow : OfFlow M)
  | modify (id : BitVec 64) (instructions : List Instruction)
  | delete (id : BitVec 64)

namespace OfFlow

def step (flows : List (OfFlow M)) : FlowMod M → List (OfFlow M)
  | .add flow => flows ++ [flow]
  | .modify id is => Store.revise OfFlow.id id (fun g => { g with instructions := is }) flows
  | .delete id => Store.drop OfFlow.id id flows

def rule (h : Host) (g : OfFlow M) : Rule (Option M) PdAction :=
  ⟨g.pat, g.priority.toNat, ⟨g.id, h.parse g.instructions⟩⟩

end OfFlow

def ofRules (h : Host) (tid : BitVec 8) (flows : List (OfFlow M)) : List (Rule (Option M) PdAction) :=
  (flows.filter fun g => g.tableId = tid).map (OfFlow.rule h)

/-- The flows with a match by priority. The last flow without one is the default, below all of them
whatever its priority is. -/
def ofTable (h : Host) (tid : BitVec 8) (flows : List (OfFlow M)) : Table M PdAction :=
  compile (ofRules h tid flows)

def FlowAdd.ofFlow (add : FlowAdd M) (flowId : BitVec 64) : OfFlow M :=
  ⟨add.flowId flowId, add.tableId,
    if add.mlen.setWidth 64 - sizeofOfpMatch ≠ 0 then add.mf.toOption else none,
    add.priority, add.instructions⟩

def Op.flowMod : Op M → FlowMod M
  | create add fid _ => .add (add.ofFlow fid)
  | modify k is _ => .modify k is
  | delete k _ => .delete k

structure Twin (M : Type) where
  world : World M
  flows : List (OfFlow M)

namespace Twin

def empty : Twin M := ⟨World.empty, []⟩

def step (h : Host) (t : Twin M) (op : Op M) : Twin M :=
  ⟨World.step h t.world op,
    if (op.apply h t.world.state).ret = .none then OfFlow.step t.flows op.flowMod else t.flows⟩

theorem step_flows_done {h : Host} {t : Twin M} {op : Op M}
    (hr : (op.apply h t.world.state).ret = .none) :
    (step h t op).flows = OfFlow.step t.flows op.flowMod := if_pos hr

end Twin

section rules
variable {h : Host} {tid : BitVec 8} {flows : List (OfFlow M)}

theorem mem_patterns_ofRules {r : Rule M PdAction} :
    r ∈ patterns (ofRules h tid flows) ↔ ∃ g ∈ flows, g.tableId = tid ∧ g.rule h = r.lift := by
  simp only [mem_patterns, ofRules, List.mem_map, List.mem_filter, decide_eq_true_eq, and_assoc]

theorem lastDefault_ofRules : lastDefault (ofRules h tid flows) =
    (flows.filter fun g => g.pat.isNone && decide (g.tableId = tid)).getLast?.map
      fun g => (g.rule h).action := by
  simp only [lastDefault, ofRules, List.filter_map, List.filter_filter, List.getLast?_map, Option.map_map]
  rfl

theorem lastDefault_ofRules_append (g : OfFlow M) :
    lastDefault (ofRules h tid (flows ++ [g])) =
      if g.tableId = tid ∧ g.pat = none then some (g.rule h).action
      else lastDefault (ofRules h tid flows) := by
  simp only [lastDefault_ofRules, List.filter_append]
  by_cases hg : g.tableId = tid ∧ g.pat = none
  · have htrue : (g.pat.isNone && decide (g.tableId = tid)) = true := by
      simp only [hg.1, hg.2, Option.isNone_none, decide_true, Bool.and_self]
    rw [if_pos hg, List.filter_singleton, htrue, cond_true, List.getLast?_concat, Option.map_some]
  · have hfalse : (g.pat.isNone && decide (g.tableId = tid)) = false := by
      rcases not_and_or.1 hg with ht | hp
      · rw [decide_eq_false ht, Bool.and_false]
      · rw [Option.isNone_eq_false_iff.2 (Option.isSome_iff_ne_none.2 hp), Bool.false_and]
    rw [if_neg hg, List.filter_singleton, hfalse, cond_false, List.append_nil]

theorem lastDefault_ofRules_step {c : FlowMod M} {id : BitVec 64}
    (hc : (∃ is, c = .modify id is) ∨ c = .delete id)
    (hpat : ∀ g ∈ flows, g.id = id → g.pat.isSome = true) :
    lastDefault (ofRules h tid (OfFlow.step flows c)) = lastDefault (ofRules h tid flows) := by
  have hskip : ∀ g ∈ flows, g.id = id → (g.pat.isNone && decide (g.tableId = tid)) = false := by
    intro g hg he
    rw [Option.isNone_eq_false_iff.2 (hpat g hg he), Bool.false_and]
  rw [lastDefault_ofRules, lastDefault_ofRules]
  rcases hc with ⟨is, rfl⟩ | rfl
  · rw [OfFlow.step, Store.filter_revise (fun g => ?_) hskip]
    rfl
  · rw [OfFlow.step, Store.filter_drop hskip]

end rules
end P4OfAgent
