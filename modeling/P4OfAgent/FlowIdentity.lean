import P4OfAgent.FlowRuns

/-! Whether `entry_priv` identifies a flow. The id a flow is filed under is the state manager's,
unless the `flow_add` carries a cookie mask: then it is `cookie | cookie_mask`, which the controller
chose and nothing compares with the ids in use. -/

namespace P4OfAgent
open Function Runs
variable {M : Type}

def Bound (w : World M) : Prop :=
  Store.Holds Flow.priv (fun f => some (f.eh, f.tid)) w.state.ids.binding w.live

/-- `flow_modify` and `flow_delete` on a flow's `entry_priv` reach the PD tables with one call: of the
function of the flow's own table, on the flow's own handle. -/
structure InvokesOwn (h : Host) (s : State M) (f : Flow) : Prop where
  modify : h.mods f.tid = true → ∀ is ans,
    (flowModify h s f.priv is ans).calls.filter Call.isTable = [.mod f.tid (h.parse is) f.priv f.eh]
  delete : h.dels f.tid = true → ∀ ans,
    (flowDelete h s f.priv ans).calls.filter Call.isTable = [.del f.tid f.eh]

structure FlowIdentity (h : Host) (w : World M) : Prop where
  distinct : Store.Distinct Flow.priv w.live
  own : ∀ f ∈ w.live, InvokesOwn h w.state f

/-- An accepted `flow_create` that carries a mask, or meets a flow created with one, does not file
its flow under that flow's id. -/
def NoClash (h : Host) (w : World M) : Op M → Prop
  | .create add fid _ => add.accepted h = true → ∀ f ∈ w.live,
    (add.cookieMask ≠ 0 ∨ f.cookieMask ≠ 0) → add.flowId fid ≠ f.priv
  | _ => True

instance (h : Host) (w : World M) : ∀ op, Decidable (NoClash h w op)
  | .create add fid _ => inferInstanceAs (Decidable (add.accepted h = true → ∀ f ∈ w.live,
    (add.cookieMask ≠ 0 ∨ f.cookieMask ≠ 0) → add.flowId fid ≠ f.priv))
  | .modify .. => isTrue trivial
  | .delete .. => isTrue trivial

def FreshId (w : World M) : Op M → Prop
  | .create _ fid _ => ∀ f ∈ w.live, f.flowId ≠ fid
  | _ => True

/-- The invariant: flows filed apart, bound to their own entries, and under the state manager's id
where there was no mask. -/
structure Filed (w : World M) : Prop where
  distinct : Store.Distinct Flow.priv w.live
  bound : Bound w
  unmasked : ∀ f ∈ w.live, f.cookieMask = 0 → f.priv = f.flowId

theorem filed_empty : Filed (World.empty : World M) :=
  ⟨List.nodup_nil, fun _ hf => absurd hf List.not_mem_nil, fun _ hf => absurd hf List.not_mem_nil⟩

theorem InvokesOwn.of_bound (h : Host) {s : State M} {f : Flow}
    (hb : s.ids.binding f.priv = some (f.eh, f.tid)) : InvokesOwn h s f where
  modify hm is ans := by
    rw [flowModify_bound h s ans is hb hm]
    exact callsInTurn_tableCalls _ _ _ _ _ rfl fun _ => not_isTable_of_unlessSignalled rfl
  delete hd ans := by
    rw [flowDelete_bound h s ans hb hd]
    exact callsInTurn_tableCalls _ _ _ _ _ rfl fun p hp => Option.some.inj hp ▸ rfl

theorem Filed.identity (h : Host) {w : World M} (hw : Filed w) : FlowIdentity h w :=
  ⟨hw.distinct, fun f hf => .of_bound h (hw.bound f hf)⟩

theorem Filed.fresh_flowId {h : Host} {w : World M} (hw : Filed w) {add : FlowAdd M}
    {fid : BitVec 64} {ans : Answers} (hf : FreshId w (.create add fid ans))
    (hc : NoClash h w (.create add fid ans)) (ha : add.accepted h = true) :
    ∀ f ∈ w.live, f.priv ≠ add.flowId fid := by
  intro f hfl
  by_cases hmask : add.cookieMask ≠ 0 ∨ f.cookieMask ≠ 0
  · exact (hc ha f hfl hmask).symm
  · -- neither carries a mask, so both ids come from the state manager
    push Not at hmask
    rw [hw.unmasked f hfl hmask.2, FlowAdd.flowId, if_neg (not_not.2 hmask.1)]
    exact hf f hfl

section step
variable {h : Host} {w : World M}

theorem Filed.create (hw : Filed w) {add : FlowAdd M} {fid : BitVec 64} {ans : Answers}
    (hr : ((Op.create add fid ans).apply h w.state).ret = .none)
    (hne : ∀ f ∈ w.live, f.priv ≠ add.flowId fid) :
    Filed (World.step h w (.create add fid ans)) := by
  have hl := World.step_live_done hr
  have hids := apply_ids h w.state _ hr
  refine ⟨?_, ?_, ?_⟩
  · rw [hl, Op.track, Store.distinct_append]
    exact ⟨hw.distinct, hne⟩
  · unfold Bound
    rw [hl, World.step_state, hids, FlowIds.binding_record]
    exact hw.bound.insert hne
  · rw [hl, Op.track]
    intro f hfl hm
    rcases List.mem_append.1 hfl with hfl | hfl
    · exact hw.unmasked f hfl hm
    · rw [List.mem_singleton.1 hfl] at hm ⊢
      exact if_neg (not_not.2 hm)

theorem Filed.modify (hw : Filed w) {k : BitVec 64} {is : List Instruction} {ans : Answers}
    (hr : ((Op.modify k is ans : Op M).apply h w.state).ret = .none) :
    Filed (World.step h w (.modify k is ans)) := by
  have hl := World.step_live_done hr
  have hids := apply_ids h w.state _ hr
  refine ⟨?_, ?_, ?_⟩
  · rw [hl, Op.track]
    refine Store.Distinct.revise ?_ hw.distinct k
    exact fun _ => rfl
  · unfold Bound
    rw [hl, World.step_state, hids]
    intro f hfl
    obtain ⟨g, hg, rfl⟩ := List.mem_map.1 hfl
    have hgb := hw.bound g hg
    split_ifs <;> exact hgb
  · rw [hl]
    intro f hfl
    obtain ⟨g, hg, rfl⟩ := List.mem_map.1 hfl
    have hgu := hw.unmasked g hg
    split_ifs <;> exact hgu

theorem Filed.delete (hw : Filed w) {k : BitVec 64} {ans : Answers}
    (hr : ((Op.delete k ans : Op M).apply h w.state).ret = .none) :
    Filed (World.step h w (.delete k ans)) := by
  have hl := World.step_live_done hr
  have hids := apply_ids h w.state _ hr
  refine ⟨?_, ?_, ?_⟩
  · rw [hl]
    exact hw.distinct.drop k
  · unfold Bound
    rw [hl, World.step_state, hids]
    exact hw.bound.subset fun _ => Store.mem_of_mem_drop
  · rw [hl]
    exact fun f hfl => hw.unmasked f (Store.mem_of_mem_drop hfl)

theorem Filed.error (hw : Filed w) {op : Op M} (hr : (op.apply h w.state).ret ≠ .none) :
    Filed (World.step h w op) := by
  have hl := World.step_live_error hr
  have hids := apply_error_ids h w.state op hr
  refine ⟨?_, ?_, ?_⟩
  · rw [hl]
    exact hw.distinct
  · unfold Bound
    rw [hl, World.step_state, hids]
    exact hw.bound
  · rw [hl]
    exact hw.unmasked

theorem Filed.step (hw : Filed w) {op : Op M} (hf : FreshId w op) (hc : NoClash h w op) :
    Filed (World.step h w op) := by
  by_cases hr : (op.apply h w.state).ret = .none
  · cases op with
    | create add fid ans =>
      have ha := (flowCreate_done h w.state ans hr).1
      exact hw.create hr (hw.fresh_flowId hf hc ha)
    | modify k is ans => exact hw.modify hr
    | delete k ans => exact hw.delete hr
  · exact hw.error hr

end step

theorem NoClash.of_identity {h : Host} {w : World M} {op : Op M} (hs : op.Succeeds)
    (hi : FlowIdentity h (World.step h w op)) : NoClash h w op := by
  cases op with
  | create add fid ans =>
    intro ha f hfl _
    have hr : ((Op.create add fid ans).apply h w.state).ret = .none :=
      (create_ret_iff h w.state hs.1 hs.2).2 ha
    have hd := hi.distinct
    rw [World.step_live_done hr, Op.track, Store.distinct_append] at hd
    exact (hd.2 f hfl).symm
  | modify k is ans => trivial
  | delete k ans => trivial

/-! Flow ids issued once are fresh when they are issued. -/

theorem flowId_of_mem_step {h : Host} {w : World M} {op : Op M} {f : Flow}
    (hf : f ∈ (World.step h w op).live) : (∃ g ∈ w.live, g.flowId = f.flowId) ∨
      op.issued = some f.flowId := by
  by_cases hr : (op.apply h w.state).ret = .none
  · rw [World.step_live_done hr] at hf
    cases op with
    | create add fid ans =>
      rcases List.mem_append.1 hf with hf | hf
      · exact .inl ⟨f, hf, rfl⟩
      · exact .inr (by rw [List.mem_singleton.1 hf]; rfl)
    | modify k is ans =>
      obtain ⟨g, hg, rfl⟩ := List.mem_map.1 hf
      exact .inl ⟨g, hg, by split_ifs <;> rfl⟩
    | delete k ans => exact .inl ⟨f, Store.mem_of_mem_drop hf, rfl⟩
  · rw [World.step_live_error hr] at hf
    exact .inl ⟨f, hf, rfl⟩

theorem along_freshId (h : Host) {w : World M} {ops : List (Op M)}
    (hids : (ops.filterMap Op.issued).Nodup)
    (hw : ∀ f ∈ w.live, f.flowId ∉ ops.filterMap Op.issued) :
    Along (World.step h) FreshId w ops := by
  induction ops generalizing w with
  | nil => trivial
  | cons op ops ih =>
    have hsub : ∀ k, k ∈ ops.filterMap Op.issued → k ∈ (op :: ops).filterMap Op.issued := by
      intro k hk
      obtain ⟨o, ho, hok⟩ := List.mem_filterMap.1 hk
      exact List.mem_filterMap.2 ⟨o, List.mem_cons_of_mem op ho, hok⟩
    refine ⟨?_, ih (hids.sublist ?_) fun f hf hmem => ?_⟩
    · cases op with
      | create add fid ans =>
        exact fun f hf he => hw f hf (List.mem_filterMap.2 ⟨_, List.mem_cons_self, congrArg some he.symm⟩)
      | modify k is ans => trivial
      | delete k ans => trivial
    · exact (List.sublist_cons_self op ops).filterMap Op.issued
    · rcases flowId_of_mem_step hf with ⟨g, hg, he⟩ | hi
      · exact hw g hg (hsub _ (he ▸ hmem))
      · rw [List.filterMap_cons_some hi] at hids
        exact (List.nodup_cons.1 hids).1 hmem

/-- In a run whose backend calls succeed and whose flow ids differ, flows keep their identity in
every state exactly when no `flow_create` clashes. -/
theorem flowIdentity_iff (h : Host) (ops : List (Op M)) (hok : ∀ op ∈ ops, op.Succeeds)
    (hids : (ops.filterMap Op.issued).Nodup) :
    (∀ pre, pre <+: ops → FlowIdentity h (run (World.step h) World.empty pre)) ↔
      Along (World.step h) (NoClash h) World.empty ops := by
  have hfresh : Along (World.step h) FreshId (World.empty : World M) ops :=
    along_freshId h hids fun f hf => absurd hf List.not_mem_nil
  have hall : Along (World.step h) (fun _ op => op.Succeeds) (World.empty : World M) ops :=
    along_of_forall hok
  refine reached_iff Filed _ (fun w hw => hw.identity h) (fun w op _ ha => ?_) (fun w op hw ha hc => ?_)
    filed_empty ((along_and _ _).2 ⟨hall, hfresh⟩)
  · exact NoClash.of_identity ha.1
  · exact hw.step ha.2 hc

def mixedRun : List (Op Unit) :=
  [.create (plainFlow 1 0) 10 ⟨0, 1, 0, 0⟩, .create (plainFlow 1 2) 11 ⟨0, 2, 1, 0⟩,
    .modify 3 [] ⟨0, 0, 1, 0⟩, .delete 10 ⟨0, 0, 0, 0⟩]

theorem flowIdentity_mixedRun :
    FlowIdentity Host.full (run (World.step Host.full) World.empty mixedRun) :=
  (flowIdentity_iff Host.full mixedRun (by decide) (by decide)).2 (by decide) mixedRun
    (List.prefix_refl mixedRun)

def clashRun : List (Op Unit) :=
  [.create (plainFlow 1 2) 10 ⟨0, 1, 0, 0⟩, .create (plainFlow 3 1) 11 ⟨0, 2, 0, 0⟩]

theorem flowIdentity_clashRun :
    (∀ op ∈ clashRun, op.Succeeds) ∧ (clashRun.filterMap Op.issued).Nodup ∧
      Along (World.step Host.full) HandleFresh World.empty clashRun ∧
      ¬ FlowIdentity Host.full (run (World.step Host.full) World.empty clashRun) := by
  refine ⟨by decide, by decide, by decide, fun hi => ?_⟩
  exact absurd hi.distinct (by rw [Store.Distinct]; decide)

end P4OfAgent
