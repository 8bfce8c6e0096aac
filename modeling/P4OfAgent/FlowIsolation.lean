import P4OfAgent.FlowLedger
import P4OfAgent.FlowWindows

/-! Flows do not meet. What the agent and the backend hold for one id after a run, failures included, is
what they hold after the operations on that id alone. -/

namespace P4OfAgent
open Function Runs
variable {M : Type}

/-! ## What an operation reads -/

section apply
variable {h : Host} {s s' : State M}

theorem callsInTurn_ret_congr (ids ids' : FlowIds) (ans : Answers) (call : Call M)
    (pcall : Option (Call M)) :
    (callsInTurn s ids ans call pcall).ret = (callsInTurn s' ids' ans call pcall).ret := by
  cases pcall <;> simp only [callsInTurn] <;> split_ifs <;> rfl

theorem apply_ret_congr {op : Op M} (hb : s.ids.binding op.id = s'.ids.binding op.id) :
    (op.apply h s).ret = (op.apply h s').ret := by
  cases op with
  | create add fid ans =>
    cases hi : add.install h (add.flowId fid) (h.parse add.instructions) with
    | error e =>
      rw [Op.apply, Op.apply, flowCreate_refused h s ans hi, flowCreate_refused h s' ans hi]
    | ok call =>
      rw [Op.apply, Op.apply, flowCreate_installed h s ans hi, flowCreate_installed h s' ans hi]
      exact callsInTurn_ret_congr ..
  | modify k is ans =>
    rw [Op.apply, Op.apply]
    cases hs : s.ids.binding k with
    | none => rw [flowModify_notFound h s ans is hs, flowModify_notFound h s' ans is (hb ▸ hs)]
    | some b =>
      obtain ⟨eh, tid⟩ := b
      cases hm : h.mods tid with
      | false =>
        rw [flowModify_unregistered h s ans is hs hm, flowModify_unregistered h s' ans is (hb ▸ hs) hm]
      | true =>
        rw [flowModify_bound h s ans is hs hm, flowModify_bound h s' ans is (hb ▸ hs) hm]
        exact callsInTurn_ret_congr ..
  | delete k ans =>
    rw [Op.apply, Op.apply]
    cases hs : s.ids.binding k with
    | none => rw [flowDelete_notFound h s ans hs, flowDelete_notFound h s' ans (hb ▸ hs)]
    | some b =>
      obtain ⟨eh, tid⟩ := b
      cases hd : h.dels tid with
      | false =>
        rw [flowDelete_unregistered h s ans hs hd, flowDelete_unregistered h s' ans (hb ▸ hs) hd]
      | true =>
        rw [flowDelete_bound h s ans hs hd, flowDelete_bound h s' ans (hb ▸ hs) hd]
        exact callsInTurn_ret_congr ..

def Op.stored (h : Host) (b : Option (EntryHdl × BitVec 8)) (v : Option Parsed) : Op M → Option Parsed
  | create add _ ans =>
    if add.accepted h = true ∧ (ans.status = 0 ∧ ans.pipeline = 0) ∧ ans.signal = 0 then
      some (h.parse add.instructions)
    else v
  | modify _ is ans =>
    if b.any (fun p => h.mods p.2) = true ∧ (ans.status = 0 ∧ ans.pipeline = 0) ∧ ans.signal = 0 then
      v.map fun _ => h.parse is
    else v
  | delete _ ans =>
    if b.any (fun p => h.dels p.2) = true ∧ ans.status = 0 ∧ ans.pipeline = 0 then none else v

theorem callsInTurn_pipeline (ids : FlowIds) {ans : Answers} {call : Call M} (pcall : Option (Call M))
    (hc : call.isTable = true) : (callsInTurn s ids ans call pcall).state.plane.pipeline =
      if ans.status = 0 ∧ ans.pipeline = 0 then
        pcall.elim s.plane.pipeline fun p => (s.plane.effect ans.eh p).pipeline
      else s.plane.pipeline := by
  cases pcall with
  | none =>
    simp only [callsInTurn, Option.elim_none, ite_self]
    split_ifs
    · rfl
    · exact effect_pipeline call s.plane ans.eh hc
  | some p =>
    have hp := effect_pipeline call s.plane ans.eh hc
    by_cases hs : ans.status = 0
    · by_cases hf : ans.pipeline = 0
      · simp only [callsInTurn, hs, hf, ne_eq, not_true_eq_false, if_false, and_self, if_true,
          Option.elim_some]
        exact effect_pipeline_congr p ans.eh hp
      · simp only [callsInTurn, hs, hf, ne_eq, not_true_eq_false, if_false, not_false_eq_true, if_true,
          and_false]
        exact hp
    · simp only [callsInTurn, hs, ne_eq, not_false_eq_true, if_true, false_and, if_false]

theorem unlessSignalled_elim {α : Type} {ans : Answers} {p : Call M} (z : α) (f : Call M → α) :
    (ans.unlessSignalled p).elim z f = if ans.signal = 0 then f p else z := by
  unfold Answers.unlessSignalled
  split_ifs <;> rfl

theorem ite_update {α β : Type} [DecidableEq α] (c : Prop) [Decidable c] (m : α → β) (a : α) (b : β) :
    (if c then update m a b else m) = update m a (if c then b else m a) := by
  split_ifs
  · rfl
  · rw [update_eq_self]

theorem apply_pipeline (op : Op M) : (op.apply h s).state.plane.pipeline =
    update s.plane.pipeline op.id
      (op.stored h (s.ids.binding op.id) (s.plane.pipeline op.id)) := by
  cases op with
  | create add fid ans =>
    cases ha : add.accepted h with
    | false =>
      obtain ⟨e, -, hi⟩ := FlowAdd.install_refused h (add.flowId fid) (h.parse add.instructions) ha
      rw [Op.apply, flowCreate_refused h s ans hi, Op.stored, ha,
        if_neg fun hc => Bool.false_ne_true hc.1, update_eq_self]
    | true =>
      obtain ⟨call, hi, hc⟩ := FlowAdd.install_accepted h (add.flowId fid) (h.parse add.instructions) ha
      rw [Op.apply, flowCreate_installed h s ans hi, callsInTurn_pipeline _ _ hc, unlessSignalled_elim,
        Plane.effect, ite_update, ite_update]
      simp only [Op.stored, Op.id, ha, true_and, ite_and]
  | modify k is ans =>
    cases hb : s.ids.binding k with
    | none =>
      rw [Op.apply, flowModify_notFound h s ans is hb, Op.stored, Op.id, hb, Option.any_none,
        if_neg fun hc => Bool.false_ne_true hc.1, update_eq_self]
    | some b =>
      obtain ⟨eh, tid⟩ := b
      cases hm : h.mods tid with
      | false =>
        rw [Op.apply, flowModify_unregistered h s ans is hb hm, Op.stored, Op.id, hb, Option.any_some, hm,
          if_neg fun hc => Bool.false_ne_true hc.1, update_eq_self]
      | true =>
        rw [Op.apply, flowModify_bound h s ans is hb hm, callsInTurn_pipeline _ _ rfl,
          unlessSignalled_elim, Plane.effect, ite_update, ite_update]
        simp only [Op.stored, Op.id, hb, Option.any_some, hm, true_and, ite_and]
  | delete k ans =>
    cases hb : s.ids.binding k with
    | none =>
      rw [Op.apply, flowDelete_notFound h s ans hb, Op.stored, Op.id, hb, Option.any_none,
        if_neg fun hc => Bool.false_ne_true hc.1, update_eq_self]
    | some b =>
      obtain ⟨eh, tid⟩ := b
      cases hd : h.dels tid with
      | false =>
        rw [Op.apply, flowDelete_unregistered h s ans hb hd, Op.stored, Op.id, hb, Option.any_some, hd,
          if_neg fun hc => Bool.false_ne_true hc.1, update_eq_self]
      | true =>
        rw [Op.apply, flowDelete_bound h s ans hb hd, callsInTurn_pipeline _ _ rfl, Option.elim_some,
          Plane.effect, ite_update]
        simp only [Op.stored, Op.id, hb, Option.any_some, hd, true_and]

theorem apply_binding (op : Op M) : (op.apply h s).state.ids.binding =
    if (op.apply h s).ret = .none then
      match op with
      | .create add fid ans => update s.ids.binding (add.flowId fid) (some (ans.eh, add.tableId))
      | _ => s.ids.binding
    else s.ids.binding := by
  split_ifs with hr
  · rw [apply_ids h s op hr]
    cases op with
    | create add fid ans => exact FlowIds.binding_record ..
    | modify k is ans => rfl
    | delete k ans => rfl
  · rw [apply_error_ids h s op hr]

end apply

/-! ## The entries of one id -/

def mine (k : BitVec 64) (m : Place → Option (PdEntry M)) : Place → Option (PdEntry M) := fun p =>
  (m p).filter fun e => e.action.flowId = k

section mine
variable {k : BitVec 64} {m : Place → Option (PdEntry M)} {v : Option (PdEntry M)}

theorem mine_update (p : Place) : mine k (update m p v) =
    update (mine k m) p (v.filter fun e => e.action.flowId = k) := by
  funext q
  by_cases hq : q = p
  · subst hq
    simp only [mine, update_self]
  · simp only [mine, update_of_ne hq]

theorem filter_eq_self (hv : ∀ e ∈ v, e.action.flowId = k) :
    v.filter (fun e => e.action.flowId = k) = v := by
  cases v with
  | none => rfl
  | some e => exact Option.filter_some_pos (decide_eq_true (hv e rfl))

theorem filter_eq_none {j : BitVec 64} (hj : j ≠ k) (hv : ∀ e ∈ v, e.action.flowId = j) :
    v.filter (fun e => e.action.flowId = k) = none := by
  cases v with
  | none => rfl
  | some e =>
    refine Option.filter_some_neg ?_
    rw [hv e rfl]
    exact decide_eq_false hj

theorem mine_update_other {j : BitVec 64} (hj : j ≠ k) {p : Place} (hm : ∀ e ∈ m p, e.action.flowId = j)
    (hv : ∀ e ∈ v, e.action.flowId = j) : mine k (update m p v) = mine k m := by
  have hp : mine k m p = none := filter_eq_none hj hm
  rw [mine_update, filter_eq_none hj hv, ← hp, update_eq_self]

end mine

theorem Accounts.flowId_at {s : State M} {live : List Filing} {l : Ledger M} (ha : Accounts s live l)
    {g : Filing} (hg : g ∈ live) : ∀ e ∈ s.plane.entryAt g.place, e.action.flowId = g.priv := by
  intro e he
  obtain ⟨r, hr, hplace, rfl⟩ := (ha.entryAt_iff g.place e).1 he
  rcases List.mem_append.1 hr with hr | hr
  · exact (ha.id_iff hr hg).2 hplace
  · exact absurd hplace.symm (ha.orphans r hr g hg)

/-! ## Two runs -/

/-- What belongs to an id is the same in both worlds, and the second holds nothing else. -/
structure Isolated (k : BitVec 64) (w w' : World M) : Prop where
  live : w'.live = w.live.filter fun f => f.priv = k
  binding : w'.state.ids.binding k = w.state.ids.binding k
  pipeline : w'.state.plane.pipeline k = w.state.plane.pipeline k
  entries : w'.state.plane.entryAt = mine k w.state.plane.entryAt

section step
variable {h : Host} {k : BitVec 64} {w w' : World M} {l : Ledger M} {op : Op M}

theorem track_own (hk : op.id = k) (live : List Flow) :
    (op.track h live).filter (fun f => f.priv = k) = op.track h (live.filter fun f => f.priv = k) := by
  subst hk
  cases op with
  | create add fid ans =>
    rw [Op.track, List.filter_append]
    refine congrArg (_ ++ ·) (List.filter_cons_of_pos ?_)
    exact decide_eq_true rfl
  | modify k is ans =>
    rw [Op.track, Op.track]
    refine Store.filter_key_revise (fun f => ?_) k
    rfl
  | delete k ans => exact Store.filter_key_drop k

theorem track_other (hk : op.id ≠ k) (live : List Flow) :
    (op.track h live).filter (fun f => f.priv = k) = live.filter fun f => f.priv = k := by
  have hskip : ∀ f ∈ live, f.priv = op.id → decide (f.priv = k) = false := fun f _ hf =>
    decide_eq_false (hf ▸ hk)
  cases op with
  | create add fid ans =>
    rw [Op.track, List.filter_append]
    refine (congrArg (_ ++ ·) (List.filter_cons_of_neg ?_)).trans (List.append_nil _)
    exact fun hc => hk (of_decide_eq_true hc)
  | modify k is ans =>
    rw [Op.track]
    refine Store.filter_revise (fun f => ?_) hskip
    rfl
  | delete k ans => exact Store.filter_drop hskip

theorem Managed.isolated (hi : Isolated k w w') (ho : Managed w op) (hk : op.id = k) :
    Managed w' op := by
  have hsub : ∀ f ∈ w'.live, f ∈ w.live := fun f hf => (List.mem_filter.1 (hi.live ▸ hf)).1
  have hkept : ∀ f ∈ w.live, f.priv = k → f ∈ w'.live := fun f hf hp =>
    hi.live ▸ List.mem_filter.2 ⟨hf, decide_eq_true hp⟩
  subst hk
  cases op with
  | create add fid ans =>
    refine ⟨fun f hf => ho.target f (hsub f hf), fun f hf => ho.free f (hsub f hf), ?_⟩
    have hfresh : w.state.plane.entryAt (add.tableId, ans.eh) = none :=
      Option.isNone_iff_eq_none.1 ho.fresh
    refine Option.isNone_iff_eq_none.2 ?_
    change w'.state.plane.entryAt (add.tableId, ans.eh) = none
    rw [hi.entries, mine, hfresh, Option.filter_none]
  | modify k is ans =>
    obtain ⟨f, hf, hp⟩ := ho.target
    exact ⟨⟨f, hkept f hf hp, hp⟩, trivial, trivial⟩
  | delete k ans =>
    obtain ⟨f, hf, hp⟩ := ho.target
    exact ⟨⟨f, hkept f hf hp, hp⟩, trivial, trivial⟩

theorem entries_own (ha : Accounts w.state w.filings l) (hi : Isolated k w w') (ho : Managed w op)
    (hk : op.id = k) : (op.apply h w'.state).state.plane.entryAt =
      mine k (op.apply h w.state).state.plane.entryAt := by
  have ho' := ho.isolated hi hk
  subst hk
  cases op with
  | create add fid ans =>
    have hfresh : w.state.plane.entryAt (add.tableId, ans.eh) = none :=
      Option.isNone_iff_eq_none.1 ho.fresh
    have hfresh' : w'.state.plane.entryAt (add.tableId, ans.eh) = none :=
      Option.isNone_iff_eq_none.1 ho'.fresh
    have hnew : ∀ e ∈ (add.ofFlow fid).entry h, e.action.flowId = add.flowId fid := by
      intro e he
      obtain ⟨mf, -, rfl⟩ := Option.map_eq_some_iff.1 he
      rfl
    rw [Op.apply, Op.apply, flowCreate_entryAt hfresh, flowCreate_entryAt hfresh', hi.entries]
    split_ifs
    · rw [mine_update, Op.id, filter_eq_self hnew]
    · rfl
  | modify k is ans =>
    obtain ⟨f, hf, rfl⟩ := ho.target
    have hg : f.filing ∈ w.filings := List.mem_map_of_mem hf
    have hb : w.state.ids.binding f.priv = some (f.eh, f.tid) := ha.bound f.filing hg
    have hold : mine f.priv w.state.plane.entryAt f.place = w.state.plane.entryAt f.place :=
      filter_eq_self (ha.flowId_at hg)
    have hnew : ∀ e ∈ (w.state.plane.entryAt f.place).map fun e =>
        { e with action := ⟨f.priv, h.parse is⟩ }, e.action.flowId = f.priv := by
      intro e he
      obtain ⟨e', -, rfl⟩ := Option.map_eq_some_iff.1 he
      rfl
    have hb' : w'.state.ids.binding f.priv = some (f.eh, f.tid) := hi.binding.trans hb
    rw [Op.apply, Op.apply, flowModify_entryAt hb, flowModify_entryAt hb', hi.entries]
    split_ifs
    · rw [mine_update]
      refine congrArg _ ?_
      exact (congrArg _ hold).trans (filter_eq_self hnew).symm
    · rfl
  | delete k ans =>
    obtain ⟨f, hf, rfl⟩ := ho.target
    have hb : w.state.ids.binding f.priv = some (f.eh, f.tid) :=
      ha.bound f.filing (List.mem_map_of_mem hf)
    have hb' : w'.state.ids.binding f.priv = some (f.eh, f.tid) := hi.binding.trans hb
    rw [Op.apply, Op.apply, flowDelete_entryAt hb, flowDelete_entryAt hb', hi.entries]
    split_ifs
    · rw [mine_update, Option.filter_none]
    · rfl

theorem entries_other (ha : Accounts w.state w.filings l) (ho : Managed w op) (hk : op.id ≠ k) :
    mine k (op.apply h w.state).state.plane.entryAt = mine k w.state.plane.entryAt := by
  cases op with
  | create add fid ans =>
    have hfresh : w.state.plane.entryAt (add.tableId, ans.eh) = none :=
      Option.isNone_iff_eq_none.1 ho.fresh
    rw [Op.apply, flowCreate_entryAt hfresh]
    split_ifs
    · refine mine_update_other hk (fun e he => ?_) fun e he => ?_
      · exact absurd (hfresh.symm.trans he) (Option.some_ne_none e).symm
      · obtain ⟨mf, -, rfl⟩ := Option.map_eq_some_iff.1 he
        rfl
    · rfl
  | modify j is ans =>
    obtain ⟨f, hf, rfl⟩ := ho.target
    have hg : f.filing ∈ w.filings := List.mem_map_of_mem hf
    have hb : w.state.ids.binding f.priv = some (f.eh, f.tid) := ha.bound f.filing hg
    rw [Op.apply, flowModify_entryAt hb]
    split_ifs
    · refine mine_update_other hk (ha.flowId_at hg) fun e he => ?_
      obtain ⟨e', -, rfl⟩ := Option.map_eq_some_iff.1 he
      rfl
    · rfl
  | delete j ans =>
    obtain ⟨f, hf, rfl⟩ := ho.target
    have hg : f.filing ∈ w.filings := List.mem_map_of_mem hf
    have hb : w.state.ids.binding f.priv = some (f.eh, f.tid) := ha.bound f.filing hg
    rw [Op.apply, flowDelete_entryAt hb]
    split_ifs
    · exact mine_update_other hk (ha.flowId_at hg) fun e he => absurd he (Option.not_mem_none e)
    · rfl

theorem Isolated.own (ha : Accounts w.state w.filings l) (hi : Isolated k w w') (ho : Managed w op)
    (hk : op.id = k) : Isolated k (World.step h w op) (World.step h w' op) := by
  have hentries := entries_own (h := h) ha hi ho hk
  have hbind : w'.state.ids.binding op.id = w.state.ids.binding op.id := hk ▸ hi.binding
  have hret := apply_ret_congr (h := h) hbind
  refine ⟨?_, ?_, ?_, hentries⟩
  · rw [World.step, World.step, hret]
    split_ifs
    · rw [hi.live, track_own hk]
    · exact hi.live
  · rw [World.step_state, World.step_state, apply_binding, apply_binding, hret]
    split_ifs
    · subst hk
      cases op with
      | create add fid ans => simp only [Op.id, update_self]
      | modify j is ans => exact hi.binding
      | delete j ans => exact hi.binding
    · exact hi.binding
  · have hpipe : w'.state.plane.pipeline op.id = w.state.plane.pipeline op.id := hk ▸ hi.pipeline
    rw [World.step_state, World.step_state, apply_pipeline, apply_pipeline, hbind, hpipe, hk, update_self,
      update_self]

theorem Isolated.other (ha : Accounts w.state w.filings l) (hi : Isolated k w w') (ho : Managed w op)
    (hk : op.id ≠ k) : Isolated k (World.step h w op) w' := by
  refine ⟨?_, ?_, ?_, hi.entries.trans (entries_other ha ho hk).symm⟩
  · rw [World.step, hi.live]
    split_ifs
    · rw [track_other hk]
    · rfl
  · rw [World.step_state, apply_binding, hi.binding]
    split_ifs
    · cases op with
      | create add fid ans => exact (update_of_ne hk.symm ..).symm
      | modify j is ans => rfl
      | delete j ans => rfl
    · rfl
  · rw [World.step_state, apply_pipeline, update_of_ne hk.symm, hi.pipeline]

end step

/-- After any run, whatever backend calls failed, the live flow, the binding, the pipeline entry and the
table entries of an id are those after the operations on it alone, which would be a run of their own. -/
theorem flows_isolated (h : Host) (ops : List (Op M)) (k : BitVec 64)
    (ho : Along (World.step h) Managed World.empty ops) :
    Along (World.step h) Managed World.empty (ops.filter fun op => op.id = k) ∧
      Isolated k (run (World.step h) World.empty ops)
        (run (World.step h) World.empty (ops.filter fun op => op.id = k)) := by
  let R : World M → World M → Prop := fun w w' => (∃ l, Accounts w.state w.filings l) ∧ Isolated k w w'
  have hempty : R World.empty World.empty := ⟨⟨_, accounts_empty⟩, ⟨rfl, rfl, rfl, rfl⟩⟩
  have hown : ∀ w w' op, R w w' → Managed w op → decide (op.id = k) = true →
      Managed w' op ∧ R (World.step h w op) (World.step h w' op) := by
    rintro w w' op ⟨⟨l, ha⟩, hi⟩ hop hk
    have hk := of_decide_eq_true hk
    exact ⟨hop.isolated hi hk, ⟨_, ha.step hop⟩, hi.own ha hop hk⟩
  have hother : ∀ w w' op, R w w' → Managed w op → decide (op.id = k) = false →
      R (World.step h w op) w' := by
    rintro w w' op ⟨⟨l, ha⟩, hi⟩ hop hk
    exact ⟨⟨_, ha.step hop⟩, hi.other ha hop (of_decide_eq_false hk)⟩
  obtain ⟨hrun, -, hi⟩ := run_filter hown hother hempty ho
  exact ⟨hrun, hi⟩

theorem flows_isolated_failures :
    Along (World.step Host.full) Managed World.empty (failures.filter fun op => op.id = 11) ∧
      Isolated 11 (run (World.step Host.full) World.empty failures)
        (run (World.step Host.full) World.empty (failures.filter fun op => op.id = 11)) :=
  flows_isolated Host.full failures 11 (by decide)

end P4OfAgent
