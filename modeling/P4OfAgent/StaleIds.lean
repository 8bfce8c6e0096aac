import P4OfAgent.FlowRuns

/-! Which ids the two maps of `state.c` know. `flow_create` adds to both; nothing ever removes an id,
`flow_delete` included. -/

namespace P4OfAgent
open Function Runs
variable {M : Type}

def LiveId (w : World M) (k : BitVec 64) : Prop := ∃ f ∈ w.live, f.priv = k

structure DomainsLive (w : World M) : Prop where
  entryHdl : ∀ k, (w.state.ids.entryHdl k).isSome = true ↔ LiveId w k
  tableId : ∀ k, (w.state.ids.tableId k).isSome = true ↔ LiveId w k

/-- The domains of the maps are the live ids, and an operation on any other id is refused before it
calls the backend. -/
structure NoStaleIds (h : Host) (w : World M) : Prop where
  domains : DomainsLive w
  modify : ∀ k, ¬ LiveId w k → ∀ is ans, flowModify h w.state k is ans = ⟨.notFound, [], w.state⟩
  delete : ∀ k, ¬ LiveId w k → ∀ ans, flowDelete h w.state k ans = ⟨.notFound, [], w.state⟩

def KeepsId (h : Host) (w : World M) : Op M → Prop
  | .delete k _ => ∀ tid, w.state.ids.tableIdGet k = some tid → h.dels tid = true →
    ∃ f ∈ Store.drop Flow.priv k w.live, f.priv = k
  | _ => True

instance (h : Host) (w : World M) : ∀ op, Decidable (KeepsId h w op)
  | .create .. => isTrue trivial
  | .modify .. => isTrue trivial
  | .delete k _ =>
    match ht : w.state.ids.tableIdGet k with
    | none => isTrue fun _ hs => absurd (ht.symm.trans hs).symm (Option.some_ne_none _)
    | some t => decidable_of_iff (h.dels t = true → ∃ f ∈ Store.drop Flow.priv k w.live, f.priv = k)
      ⟨fun hk _ hs => Option.some.inj (ht.symm.trans hs) ▸ hk, fun hk => hk t ht⟩

theorem domainsLive_empty : DomainsLive (World.empty : World M) := by
  constructor <;> intro k <;> simp [World.empty, State.empty, FlowIds.empty, LiveId]

theorem DomainsLive.binding_eq_none {w : World M} (hw : DomainsLive w) {k : BitVec 64}
    (hk : ¬ LiveId w k) : w.state.ids.binding k = none := by
  have hn : w.state.ids.entryHdl k = none := Option.not_isSome_iff_eq_none.1 fun hs => hk ((hw.1 k).1 hs)
  unfold FlowIds.binding FlowIds.entryHdlGet
  rw [hn]
  rfl

theorem DomainsLive.noStaleIds (h : Host) {w : World M} (hw : DomainsLive w) : NoStaleIds h w where
  domains := hw
  modify _ hk is ans := flowModify_notFound h w.state ans is (hw.binding_eq_none hk)
  delete _ hk ans := flowDelete_notFound h w.state ans (hw.binding_eq_none hk)

theorem DomainsLive.congr {w w' : World M} (hw : DomainsLive w) (hids : w'.state.ids = w.state.ids)
    (hl : ∀ k, LiveId w' k ↔ LiveId w k) : DomainsLive w' :=
  ⟨fun k => by rw [hids, hl, hw.1], fun k => by rw [hids, hl, hw.2]⟩

theorem liveId_append {w : World M} {r : Flow} {k : BitVec 64} {s : State M} :
    LiveId ⟨s, w.live ++ [r]⟩ k ↔ LiveId w k ∨ r.priv = k := by
  simp only [LiveId, List.mem_append, List.mem_singleton, or_and_right, exists_or, exists_eq_left]

theorem DomainsLive.record {w : World M} (hw : DomainsLive w) (r : Flow) {s : State M}
    (hs : s.ids = w.state.ids.record r.priv r.eh r.tid) : DomainsLive ⟨s, w.live ++ [r]⟩ := by
  constructor <;> intro k <;> rw [liveId_append, hs]
  · rw [← hw.1 k]
    by_cases hk : k = r.priv
    · simp only [FlowIds.record, FlowIds.entryHdlSet, FlowIds.tableIdSet, hk, update_self,
        Option.isSome_some, or_true]
    · simp only [FlowIds.record, FlowIds.entryHdlSet, FlowIds.tableIdSet, update_of_ne hk,
        Ne.symm hk, or_false]
  · rw [← hw.2 k]
    by_cases hk : k = r.priv
    · simp only [FlowIds.record, FlowIds.entryHdlSet, FlowIds.tableIdSet, hk, update_self,
        Option.isSome_some, or_true]
    · simp only [FlowIds.record, FlowIds.entryHdlSet, FlowIds.tableIdSet, update_of_ne hk,
        Ne.symm hk, or_false]

theorem liveId_drop_of_ne {w : World M} {k k' : BitVec 64} (hne : k' ≠ k) :
    (∃ f ∈ Store.drop Flow.priv k w.live, f.priv = k') ↔ LiveId w k' :=
  ⟨fun ⟨f, hf, he⟩ => ⟨f, Store.mem_of_mem_drop hf, he⟩,
    fun ⟨f, hf, he⟩ => ⟨f, Store.mem_drop_of_ne (he ▸ hne) hf, he⟩⟩

theorem DomainsLive.step {h : Host} {w : World M} {op : Op M} (hw : DomainsLive w)
    (hq : KeepsId h w op) : DomainsLive (World.step h w op) := by
  by_cases hr : (op.apply h w.state).ret = .none
  · have hids := apply_ids h w.state op hr
    have hl := World.step_live_done hr
    cases op with
    | create add fid ans =>
      have hstep : World.step h w (.create add fid ans) = ⟨_, w.live ++ [_]⟩ :=
        congrArg (World.mk _) hl
      rw [hstep]
      exact hw.record _ hids
    | modify k is ans =>
      refine hw.congr hids fun k' => ?_
      rw [LiveId, hl, Op.track]
      refine Store.exists_key_revise ?_ k k'
      exact fun _ => rfl
    | delete k ans =>
      refine hw.congr hids fun k' => ?_
      rw [LiveId, hl, Op.track]
      by_cases hk : k' = k
      · obtain ⟨eh, tid, hb, hd, _⟩ := flowDelete_done h w.state ans hr
        obtain ⟨f, hf, he⟩ := hq tid ((w.state.ids.binding_eq_some k).1 hb).2 hd
        subst hk
        exact ⟨fun _ => ⟨f, Store.mem_of_mem_drop hf, he⟩, fun _ => ⟨f, hf, he⟩⟩
      · exact liveId_drop_of_ne hk
  · refine hw.congr (apply_error_ids h w.state op hr) fun k => ?_
    rw [LiveId, World.step_live_error hr, LiveId]

theorem KeepsId.of_domainsLive {h : Host} {w : World M} {op : Op M} (hw : DomainsLive w)
    (hs : op.Succeeds) (hd : DomainsLive (World.step h w op)) : KeepsId h w op := by
  cases op with
  | create add fid ans => trivial
  | modify k is ans => trivial
  | delete k ans =>
    intro tid ht hdel
    have hk : LiveId w k := (hw.2 k).1 (by
      unfold FlowIds.tableIdGet at ht
      exact Option.isSome_of_mem (Option.map_eq_some_iff.1 ht).choose_spec.1)
    obtain ⟨x, hx⟩ := Option.isSome_iff_exists.1 ((hw.1 k).2 hk)
    have hb : w.state.ids.binding k = some (x.setWidth 32, tid) :=
      (w.state.ids.binding_eq_some k).2 ⟨by rw [FlowIds.entryHdlGet, hx]; rfl, ht⟩
    have hr : ((Op.delete k ans : Op M).apply h w.state).ret = .none := by
      rw [Op.apply, flowDelete_bound h w.state ans hb hdel]
      exact callsInTurn_ret _ _ _ _ _ hs.1 hs.2
    have hstill := (hd.1 k).1 (by
      rw [World.step_state, apply_ids h w.state _ hr]
      exact (hw.1 k).2 hk)
    rw [LiveId, World.step_live_done hr] at hstill
    exact hstill

/-- In a run whose backend calls succeed, the maps are free of stale ids in every state exactly when
no delete that goes through takes the last live flow from its id. -/
theorem noStaleIds_iff (h : Host) (ops : List (Op M)) (hok : ∀ op ∈ ops, op.Succeeds) :
    (∀ pre, pre <+: ops → NoStaleIds h (run (World.step h) World.empty pre)) ↔
      Along (World.step h) (KeepsId h) World.empty ops := by
  refine reached_iff DomainsLive _ (fun w hw => hw.noStaleIds h) (fun w op hw hs hn => ?_)
    (fun w op hw _ hq => ?_) domainsLive_empty (along_of_forall hok)
  · exact .of_domainsLive hw hs hn.domains
  · exact hw.step hq

def sharedIdRun : List (Op Unit) :=
  [.create (plainFlow 1 2) 10 ⟨0, 1, 0, 0⟩, .create (plainFlow 1 2) 11 ⟨0, 2, 0, 0⟩,
    .modify 3 [] ⟨0, 0, 0, 0⟩, .delete 3 ⟨0, 0, 0, 0⟩]

theorem noStaleIds_sharedIdRun :
    NoStaleIds Host.full (run (World.step Host.full) World.empty sharedIdRun) :=
  (noStaleIds_iff Host.full sharedIdRun (by decide)).2 (by decide) sharedIdRun
    (List.prefix_refl sharedIdRun)

def recycledRun : List (Op Unit) :=
  [.create (plainFlow 0 0) 10 ⟨0, 7, 0, 0⟩, .delete 10 ⟨0, 0, 0, 0⟩,
    .create (plainFlow 0 0) 11 ⟨0, 7, 0, 0⟩]

theorem noStaleIds_recycledRun :
    (∀ op ∈ recycledRun, op.Succeeds) ∧
      Along (World.step Host.full) HandleFresh World.empty recycledRun ∧
      let w := run (World.step Host.full) World.empty recycledRun
      ¬ LiveId w 10 ∧ (w.state.ids.entryHdl 10).isSome = true ∧
        flowDelete Host.full w.state 10 ⟨0, 0, 0, 0⟩ ≠ ⟨.notFound, [], w.state⟩ := by
  refine ⟨by decide, by decide, ?_, by decide, fun he => ?_⟩
  · rw [LiveId]
    decide
  · exact absurd (congrArg (fun r : Result Unit => r.calls.length) he) (by decide)

end P4OfAgent
