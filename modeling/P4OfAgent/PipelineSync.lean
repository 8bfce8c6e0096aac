import P4OfAgent.FlowRuns

/-! The pipeline store against the live flows. `flow_create` and `flow_modify` follow the
`no_pipeline` signal of their own table call; `flow_delete` always deletes a key. -/

namespace P4OfAgent
open Function Runs
variable {M : Type}

def Flow.entry (f : Flow) : Option Parsed := if f.noPipeline = 0 then some f.args else none

/-- A live flow has a pipeline entry exactly when the last create or modify left `no_pipeline` at
zero, and the entry holds the signature and arguments which that call parsed. -/
def PipelineConsistent (w : World M) : Prop := ∀ f ∈ w.live,
  ((w.state.plane.pipeline f.priv).isSome = true ↔ f.noPipeline = 0) ∧
    ∀ e, w.state.plane.pipeline f.priv = some e → e = f.args

def Call.Guarded (pipeline : BitVec 64 → Option Parsed) : Call M → Prop
  | .pipelineAdd k _ => (pipeline k).isSome = false
  | .pipelineMod k _ => (pipeline k).isSome = true
  | .pipelineDel k => (pipeline k).isSome = true
  | _ => True

def CallsGuarded (h : Host) (w : World M) (op : Op M) : Prop :=
  ∀ c ∈ (op.apply h w.state).calls, c.Guarded w.state.plane.pipeline

/-- A create files its flow under an id that no live flow has; a modify or delete is given the
`entry_priv` of a live flow. -/
def TargetsLive (w : World M) : Op M → Prop
  | .create add fid _ => ∀ f ∈ w.live, f.priv ≠ add.flowId fid
  | .modify k _ _ => ∃ f ∈ w.live, f.priv = k
  | .delete k _ => ∃ f ∈ w.live, f.priv = k

instance (w : World M) : ∀ op, Decidable (TargetsLive w op)
  | .create add fid _ => inferInstanceAs (Decidable (∀ f ∈ w.live, f.priv ≠ add.flowId fid))
  | .modify k _ _ => inferInstanceAs (Decidable (∃ f ∈ w.live, f.priv = k))
  | .delete k _ => inferInstanceAs (Decidable (∃ f ∈ w.live, f.priv = k))

def Successful (h : Host) (w : World M) (op : Op M) : Prop :=
  TargetsLive w op ∧ (op.apply h w.state).ret = .none

instance (h : Host) (w : World M) (op : Op M) : Decidable (Successful h w op) :=
  inferInstanceAs (Decidable (TargetsLive w op ∧ (op.apply h w.state).ret = .none))

def SignalStable (w : World M) : Op M → Prop
  | .create .. => True
  | .modify k _ ans => ∀ f ∈ w.live, f.priv = k → (ans.signal = 0 ↔ f.noPipeline = 0)
  | .delete k _ => ∀ f ∈ w.live, f.priv = k → f.noPipeline = 0

instance (w : World M) : ∀ op, Decidable (SignalStable w op)
  | .create .. => isTrue trivial
  | .modify k _ ans => inferInstanceAs (Decidable
    (∀ f ∈ w.live, f.priv = k → (ans.signal = 0 ↔ f.noPipeline = 0)))
  | .delete k _ => inferInstanceAs (Decidable (∀ f ∈ w.live, f.priv = k → f.noPipeline = 0))

structure Synced (w : World M) : Prop where
  distinct : Store.Distinct Flow.priv w.live
  holds : Store.Holds Flow.priv Flow.entry w.state.plane.pipeline w.live
  owned : Store.Owned Flow.priv w.state.plane.pipeline w.live

theorem synced_empty : Synced (World.empty : World M) :=
  ⟨List.nodup_nil, fun _ hf => absurd hf List.not_mem_nil, Store.owned_empty⟩

theorem Flow.entry_isSome (f : Flow) : f.entry.isSome = true ↔ f.noPipeline = 0 := by
  unfold Flow.entry
  split_ifs with hf
  · simp only [Option.isSome_some, hf]
  · simp only [Option.isSome_none, Bool.false_eq_true, hf]

theorem pipelineConsistent_iff (w : World M) : PipelineConsistent w ↔
    Store.Holds Flow.priv Flow.entry w.state.plane.pipeline w.live := by
  refine forall₂_congr fun f _ => ⟨fun ⟨hs, he⟩ => ?_, fun hf => ?_⟩
  · rw [Flow.entry]
    split_ifs with hz
    · obtain ⟨e, hp⟩ := Option.isSome_iff_exists.1 (hs.2 hz)
      rw [hp, he e hp]
    · exact Option.not_isSome_iff_eq_none.1 fun h => hz (hs.1 h)
  · rw [hf]
    refine ⟨f.entry_isSome, fun e he => ?_⟩
    unfold Flow.entry at he
    split_ifs at he
    exact (Option.some.inj he).symm

theorem mem_unlessSignalled {ans : Answers} {p q : Call M} :
    q ∈ (ans.unlessSignalled p).toList ↔ ans.signal = 0 ∧ q = p := by
  unfold Answers.unlessSignalled
  split_ifs with hs
  · simp only [Option.toList_some, List.mem_singleton, hs, true_and]
  · simp only [Option.toList_none, List.not_mem_nil, hs, false_and]

/-! What a successful operation calls, and what it makes of the pipeline store. -/

theorem create_pipeline {h : Host} {w : World M} {add : FlowAdd M} {fid : BitVec 64} {ans : Answers}
    (hr : ((Op.create add fid ans).apply h w.state).ret = .none)
    (ho : (w.state.plane.pipeline (add.flowId fid)) = none) :
    (World.step h w (.create add fid ans)).state.plane.pipeline =
      update w.state.plane.pipeline (add.flowId fid)
        (if ans.signal = 0 then some (h.parse add.instructions) else none) := by
  obtain ⟨_, call, hc, he⟩ := flowCreate_done h w.state ans hr
  rw [World.step_state, Op.apply, he]
  simp only [effects_pipeline _ _ _ _ hc, Answers.unlessSignalled]
  split_ifs
  · rfl
  · rw [← ho, update_eq_self]
    rfl

theorem modify_pipeline {h : Host} {w : World M} {k : BitVec 64} {is : List Instruction}
    {ans : Answers} (hr : ((Op.modify k is ans : Op M).apply h w.state).ret = .none) :
    (World.step h w (.modify k is ans)).state.plane.pipeline =
      if ans.signal = 0 then update w.state.plane.pipeline k
        ((w.state.plane.pipeline k).map fun _ => h.parse is)
      else w.state.plane.pipeline := by
  obtain ⟨eh, tid, _, _, he⟩ := flowModify_done h w.state ans hr
  rw [World.step_state, Op.apply, he]
  simp only [effects_pipeline _ _ _ _ (show (Call.mod tid (h.parse is) k eh : Call M).isTable = true
    from rfl), Answers.unlessSignalled]
  split_ifs <;> rfl

theorem delete_pipeline {h : Host} {w : World M} {k : BitVec 64} {ans : Answers}
    (hr : ((Op.delete k ans : Op M).apply h w.state).ret = .none) :
    (World.step h w (.delete k ans)).state.plane.pipeline = update w.state.plane.pipeline k none := by
  obtain ⟨eh, tid, _, _, he⟩ := flowDelete_done h w.state ans hr
  rw [World.step_state, Op.apply, he]
  rfl

theorem Call.guarded_of_isTable {p : BitVec 64 → Option Parsed} {c : Call M} (hc : c.isTable = true) :
    c.Guarded p := by
  cases c <;> trivial

theorem callsGuarded_create {h : Host} {w : World M} {add : FlowAdd M} {fid : BitVec 64}
    {ans : Answers} (hr : ((Op.create add fid ans).apply h w.state).ret = .none)
    (ho : (w.state.plane.pipeline (add.flowId fid)) = none) :
    CallsGuarded h w (.create add fid ans) := by
  obtain ⟨_, call, hc, he⟩ := flowCreate_done h w.state ans hr
  intro c hmem
  rw [Op.apply, he] at hmem
  rcases List.mem_cons.1 hmem with rfl | hmem
  · exact Call.guarded_of_isTable hc
  · rw [(mem_unlessSignalled.1 hmem).2]
    exact Option.isSome_eq_false_iff.2 (Option.isNone_iff_eq_none.2 ho)

theorem callsGuarded_modify_iff {h : Host} {w : World M} {k : BitVec 64} {is : List Instruction}
    {ans : Answers} (hr : ((Op.modify k is ans : Op M).apply h w.state).ret = .none) :
    CallsGuarded h w (.modify k is ans) ↔
      (ans.signal = 0 → (w.state.plane.pipeline k).isSome = true) := by
  obtain ⟨eh, tid, _, _, he⟩ := flowModify_done h w.state ans hr
  unfold CallsGuarded
  rw [Op.apply, he]
  simp only [List.forall_mem_cons, Call.guarded_of_isTable (show
    (Call.mod tid (h.parse is) k eh : Call M).isTable = true from rfl), true_and,
    mem_unlessSignalled, and_imp]
  exact ⟨fun hg hs => hg _ hs rfl, fun hg c hs hc => hc ▸ hg hs⟩

theorem callsGuarded_delete_iff {h : Host} {w : World M} {k : BitVec 64} {ans : Answers}
    (hr : ((Op.delete k ans : Op M).apply h w.state).ret = .none) :
    CallsGuarded h w (.delete k ans) ↔ (w.state.plane.pipeline k).isSome = true := by
  obtain ⟨eh, tid, _, _, he⟩ := flowDelete_done h w.state ans hr
  unfold CallsGuarded
  rw [Op.apply, he]
  simp only [List.forall_mem_cons, Call.Guarded, List.not_mem_nil, IsEmpty.forall_iff, implies_true,
    true_and, and_true]

/-! The invariant across one operation. -/

section step
variable {h : Host} {w : World M}

theorem Synced.absent (hw : Synced w) {k : BitVec 64} (hk : ∀ f ∈ w.live, f.priv ≠ k) :
    w.state.plane.pipeline k = none := by
  by_contra hne
  obtain ⟨f, hf, he⟩ := hw.owned k hne
  exact hk f hf he

theorem Synced.present_iff (hw : Synced w) {f : Flow} (hf : f ∈ w.live) :
    (w.state.plane.pipeline f.priv).isSome = true ↔ f.noPipeline = 0 := by
  rw [hw.holds f hf, f.entry_isSome]

theorem Synced.modify_pipeline (hw : Synced w) {k : BitVec 64} {is : List Instruction}
    {ans : Answers} (hs : Successful h w (.modify k is ans))
    (hq : SignalStable w (.modify k is ans : Op M)) :
    (World.step h w (.modify k is ans)).state.plane.pipeline =
      update w.state.plane.pipeline k (if ans.signal = 0 then some (h.parse is) else none) := by
  obtain ⟨⟨f, hf, rfl⟩, hr⟩ := hs
  rw [P4OfAgent.modify_pipeline hr]
  have hz := hq f hf rfl
  split_ifs with hsig
  · obtain ⟨e, he⟩ := Option.isSome_iff_exists.1 ((hw.present_iff hf).2 (hz.1 hsig))
    rw [he, Option.map_some]
  · have hno : w.state.plane.pipeline f.priv = none := by
      rw [← Option.not_isSome_iff_eq_none, hw.present_iff hf]
      exact fun h0 => hsig (hz.2 h0)
    rw [← hno, update_eq_self]

theorem Synced.create (hw : Synced w) {add : FlowAdd M} {fid : BitVec 64} {ans : Answers}
    (hs : Successful h w (.create add fid ans)) :
    Synced (World.step h w (.create add fid ans)) := by
  obtain ⟨ht, hr⟩ := hs
  have hl := World.step_live_done hr
  have hp := create_pipeline hr (hw.absent ht)
  refine ⟨?_, ?_, ?_⟩
  · rw [hl, Op.track, Store.distinct_append]
    exact ⟨hw.distinct, ht⟩
  · rw [hl, hp]
    exact hw.holds.insert ht
  · rw [hl, hp]
    refine hw.owned.insert ?_ _
    rfl

theorem Synced.modify (hw : Synced w) {k : BitVec 64} {is : List Instruction} {ans : Answers}
    (hs : Successful h w (.modify k is ans)) (hq : SignalStable w (.modify k is ans : Op M)) :
    Synced (World.step h w (.modify k is ans)) := by
  have hp := hw.modify_pipeline hs hq
  obtain ⟨ht, hr⟩ := hs
  have hl := World.step_live_done hr
  refine ⟨?_, ?_, ?_⟩
  · rw [hl, Op.track]
    refine Store.Distinct.revise ?_ hw.distinct k
    exact fun _ => rfl
  · rw [hl, hp, Op.track]
    refine Store.Holds.revise ?_ hw.holds fun _ _ _ => ?_
    · exact fun _ => rfl
    · rfl
  · rw [hl, hp, Op.track]
    refine Store.Owned.revise ?_ (hw.owned.update_of_mem ht _) k
    exact fun _ => rfl

theorem Synced.delete (hw : Synced w) {k : BitVec 64} {ans : Answers}
    (hr : ((Op.delete k ans : Op M).apply h w.state).ret = .none) :
    Synced (World.step h w (.delete k ans)) := by
  have hl := World.step_live_done hr
  have hp := delete_pipeline hr
  refine ⟨?_, ?_, ?_⟩
  · rw [hl]
    exact hw.distinct.drop k
  · rw [hl, hp]
    exact hw.holds.drop hw.distinct k none
  · rw [hl, hp]
    exact hw.owned.drop k

theorem Synced.step {op : Op M} (hw : Synced w) (hs : Successful h w op)
    (hq : SignalStable w op) : Synced (World.step h w op) := by
  cases op with
  | create add fid ans => exact hw.create hs
  | modify k is ans => exact hw.modify hs hq
  | delete k ans => exact hw.delete hs.2

theorem Synced.guarded {op : Op M} (hw : Synced w) (hs : Successful h w op)
    (hq : SignalStable w op) : CallsGuarded h w op := by
  obtain ⟨ht, hr⟩ := hs
  cases op with
  | create add fid ans => exact callsGuarded_create hr (hw.absent ht)
  | modify k is ans =>
    obtain ⟨f, hf, rfl⟩ := ht
    rw [callsGuarded_modify_iff hr]
    exact fun hsig => (hw.present_iff hf).2 ((hq f hf rfl).1 hsig)
  | delete k ans =>
    obtain ⟨f, hf, rfl⟩ := ht
    rw [callsGuarded_delete_iff hr]
    exact (hw.present_iff hf).2 (hq f hf rfl)

theorem Synced.signalStable {op : Op M} (hw : Synced w) (hs : Successful h w op)
    (hc : PipelineConsistent (World.step h w op)) (hg : CallsGuarded h w op) :
    SignalStable w op := by
  cases op with
  | create add fid ans => trivial
  | modify k is ans =>
    rintro f hf rfl
    rw [callsGuarded_modify_iff hs.2] at hg
    refine ⟨fun hsig => (hw.present_iff hf).1 (hg hsig), fun h0 => ?_⟩
    -- a signal that is now set would leave the old entry behind
    by_contra hsig
    have hmem : { f with noPipeline := ans.signal, args := h.parse is } ∈
        (World.step h w (.modify f.priv is ans)).live := by
      rw [World.step_live_done hs.2]
      exact List.mem_map.2 ⟨f, hf, if_pos rfl⟩
    have hstale := (hc _ hmem).1
    rw [P4OfAgent.modify_pipeline hs.2, if_neg hsig] at hstale
    exact hsig (hstale.1 ((hw.present_iff hf).2 h0))
  | delete k ans =>
    rintro f hf rfl
    rw [callsGuarded_delete_iff hs.2] at hg
    exact (hw.present_iff hf).1 hg

theorem Synced.step_iff {op : Op M} (hw : Synced w) (hs : Successful h w op) :
    (PipelineConsistent (World.step h w op) ∧ CallsGuarded h w op) ↔ SignalStable w op := by
  constructor
  · rintro ⟨hc, hg⟩
    exact hw.signalStable hs hc hg
  · intro hq
    exact ⟨(pipelineConsistent_iff _).2 (hw.step hs hq).holds, hw.guarded hs hq⟩

end step

/-- Over a run of successful operations on flows with ids of their own, the pipeline store agrees with
the live flows in every state and every pipeline call is guarded exactly when each modify repeats
the signal of its flow and no flow with the signal set is deleted. -/
theorem pipelineConsistent_iff_signalStable (h : Host) (ops : List (Op M))
    (hok : Along (World.step h) (Successful h) World.empty ops) :
    (∀ pre, pre <+: ops → PipelineConsistent (run (World.step h) World.empty pre)) ∧
        Along (World.step h) (CallsGuarded h) World.empty ops ↔
      Along (World.step h) SignalStable World.empty ops := by
  have h0 : PipelineConsistent (World.empty : World M) := (pipelineConsistent_iff _).2 synced_empty.holds
  rw [forall_prefix_iff, and_iff_right h0, ← along_and]
  exact along_iff_of_inv Synced _ (fun w op hw hs => hw.step_iff hs)
    (fun w op hw hs hq => hw.step hs hq) synced_empty hok

def stableRun : List (Op Unit) :=
  [.create (plainFlow 0 0) 10 ⟨0, 1, 0, 0⟩, .create (plainFlow 0 0) 11 ⟨0, 2, 1, 0⟩,
    .modify 10 [] ⟨0, 0, 0, 0⟩, .modify 11 [] ⟨0, 0, 1, 0⟩, .delete 10 ⟨0, 0, 0, 0⟩]

theorem pipelineConsistent_stableRun :
    (∀ pre, pre <+: stableRun →
        PipelineConsistent (run (World.step Host.full) World.empty pre)) ∧
      Along (World.step Host.full) (CallsGuarded Host.full) World.empty stableRun :=
  (pipelineConsistent_iff_signalStable Host.full stableRun (by decide)).2 (by decide)

def staleRun : List (Op Unit) := [.create (plainFlow 0 0) 10 ⟨0, 1, 0, 0⟩, .modify 10 [] ⟨0, 0, 1, 0⟩]

theorem pipelineConsistent_staleRun :
    Along (World.step Host.full) (Successful Host.full) World.empty staleRun ∧
      ¬ PipelineConsistent (run (World.step Host.full) World.empty staleRun) := by
  refine ⟨by decide, fun hc => ?_⟩
  exact absurd ((hc _ List.mem_cons_self).1.1 rfl) (by decide)

end P4OfAgent
