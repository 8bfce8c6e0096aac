import P4OfAgent.FlowTables

/-! The PD tables when backend calls fail. A ledger of the entries is kept by the table calls alone; the
entry of a create that fails at the pipeline store is in it, and no operation reaches it again. -/

namespace P4OfAgent
open Function Runs
variable {M : Type}

structure Row (M : Type) where
  place : Place
  id : BitVec 64
  mf : M
  priority : BitVec 16
  args : Parsed

def Row.entry (r : Row M) : PdEntry M := ⟨r.mf, r.priority, 3, ⟨r.id, r.args⟩⟩

def Row.modify (h : Host) (k : BitVec 64) (is : List Instruction) (r : Row M) : Row M :=
  if r.id = k ∧ h.mods r.place.1 = true then { r with args := h.parse is } else r

/-- The entries of flows that were filed, and those whose create failed after its table call. -/
structure Ledger (M : Type) where
  filed : List (Row M)
  orphans : List (Row M)

def FlowAdd.row (h : Host) (add : FlowAdd M) (flowId : BitVec 64) (ans : Answers) : Option (Row M) :=
  if add.accepted h = true ∧ ans.status = 0 then
    (add.ofFlow flowId).pat.map fun mf =>
      ⟨(add.tableId, ans.eh), add.flowId flowId, mf, add.priority, h.parse add.instructions⟩
  else none

namespace Ledger

def empty : Ledger M := ⟨[], []⟩

def rows (l : Ledger M) : List (Row M) := l.filed ++ l.orphans

def step (h : Host) (l : Ledger M) : Op M → Ledger M
  | .create add fid ans =>
    if ans.CreateOk then { l with filed := l.filed ++ (add.row h fid ans).toList }
    else { l with orphans := l.orphans ++ (add.row h fid ans).toList }
  | .modify k is ans =>
    if ans.status = 0 then
      { l with filed := l.filed.map (Row.modify h k is) }
    else l
  | .delete k ans =>
    if ans.status = 0 then
      { l with filed := l.filed.filter fun r => ¬ (r.id = k ∧ h.dels r.place.1 = true) }
    else l

end Ledger

/-! ## The entries after one operation -/

section ops
variable {h : Host} {s : State M} {ans : Answers}

theorem callsInTurn_status (ids : FlowIds) (call : Call M) (pcall : Option (Call M))
    (hs : ans.status ≠ 0) : callsInTurn s ids ans call pcall = ⟨.unknown, [call], s⟩ := if_pos hs

theorem callsInTurn_tables (ids : FlowIds) (call : Call M) {pcall : Option (Call M)}
    (hs : ans.status = 0) (hp : ∀ p ∈ pcall, p.isTable = false) :
    (callsInTurn s ids ans call pcall).state.plane.tables = (s.plane.effect ans.eh call).tables := by
  cases pcall with
  | none => simp only [callsInTurn, hs, ne_eq, not_true_eq_false, if_false]
  | some p =>
    simp only [callsInTurn, hs, ne_eq, not_true_eq_false, if_false]
    split_ifs
    · exact effect_tables _ _ (hp p rfl)
    · rfl

theorem flowCreate_entryAt {add : FlowAdd M} {fid : BitVec 64}
    (hfree : s.plane.entryAt (add.tableId, ans.eh) = none) :
    (flowCreate h s add fid ans).state.plane.entryAt =
      if add.accepted h = true ∧ ans.status = 0 then
        update s.plane.entryAt (add.tableId, ans.eh) ((add.ofFlow fid).entry h)
      else s.plane.entryAt := by
  cases ha : add.accepted h with
  | false =>
    obtain ⟨e, -, hi⟩ := FlowAdd.install_refused h (add.flowId fid) (h.parse add.instructions) ha
    rw [flowCreate_refused h s ans hi, if_neg fun hc => Bool.false_ne_true hc.1]
  | true =>
    obtain ⟨call, hi, -⟩ := FlowAdd.install_accepted h (add.flowId fid) (h.parse add.instructions) ha
    rw [flowCreate_installed h s ans hi]
    by_cases hs : ans.status = 0
    · rw [if_pos ⟨rfl, hs⟩, ← install_entryAt hi hfree]
      exact entryAt_congr (callsInTurn_tables _ call hs fun _ => not_isTable_of_unlessSignalled rfl)
    · rw [callsInTurn_status _ _ _ hs, if_neg fun hc => hs hc.2]

theorem flowModify_entryAt {k : BitVec 64} {is : List Instruction} {eh : EntryHdl} {tid : BitVec 8}
    (hb : s.ids.binding k = some (eh, tid)) :
    (flowModify h s k is ans).state.plane.entryAt =
      if h.mods tid = true ∧ ans.status = 0 then
        update s.plane.entryAt (tid, eh)
          ((s.plane.entryAt (tid, eh)).map fun e => { e with action := ⟨k, h.parse is⟩ })
      else s.plane.entryAt := by
  cases hm : h.mods tid with
  | false => rw [flowModify_unregistered h s ans is hb hm, if_neg fun hc => Bool.false_ne_true hc.1]
  | true =>
    rw [flowModify_bound h s ans is hb hm]
    by_cases hs : ans.status = 0
    · rw [if_pos ⟨rfl, hs⟩, ← entryAt_mod s.plane ans.eh]
      exact entryAt_congr (callsInTurn_tables _ _ hs fun _ => not_isTable_of_unlessSignalled rfl)
    · rw [callsInTurn_status _ _ _ hs, if_neg fun hc => hs hc.2]

theorem flowDelete_entryAt {k : BitVec 64} {eh : EntryHdl} {tid : BitVec 8}
    (hb : s.ids.binding k = some (eh, tid)) :
    (flowDelete h s k ans).state.plane.entryAt =
      if h.dels tid = true ∧ ans.status = 0 then update s.plane.entryAt (tid, eh) none
      else s.plane.entryAt := by
  cases hd : h.dels tid with
  | false => rw [flowDelete_unregistered h s ans hb hd, if_neg fun hc => Bool.false_ne_true hc.1]
  | true =>
    rw [flowDelete_bound h s ans hb hd]
    by_cases hs : ans.status = 0
    · rw [if_pos ⟨rfl, hs⟩, ← entryAt_del s.plane ans.eh]
      exact entryAt_congr (callsInTurn_tables _ _ hs fun p hp => Option.some.inj hp ▸ rfl)
    · rw [callsInTurn_status _ _ _ hs, if_neg fun hc => hs hc.2]

end ops

/-! ## The ledger across one operation -/

/-- The state manager asks for flows it has and files new ones under ids of their own; a handle that is
given out is neither in use in its table nor that of a live flow. Backend calls may fail. -/
structure Managed (w : World M) (op : Op M) : Prop where
  target : TargetsLive w op
  free : HandleFree w op
  fresh : HandleFresh w op

instance (w : World M) (op : Op M) : Decidable (Managed w op) :=
  decidable_of_iff (TargetsLive w op ∧ HandleFree w op ∧ HandleFresh w op)
    ⟨fun ho => ⟨ho.1, ho.2.1, ho.2.2⟩, fun ho => ⟨ho.target, ho.free, ho.fresh⟩⟩

def Filing.place (g : Filing) : Place := (g.tid, g.eh)

def World.filings (w : World M) : List Filing := w.live.map Flow.filing

/-- Live flows are told apart by their ids and by their places, a filed row is that of a live flow, no
orphan has the place of one, and the tables hold the rows. -/
structure Accounts (s : State M) (live : List Filing) (l : Ledger M) : Prop where
  distinct : Store.Distinct Filing.priv live
  apart : Store.Distinct Filing.place live
  bound : Store.Holds Filing.priv (fun g => some (g.eh, g.tid)) s.ids.binding live
  filed : ∀ r ∈ l.filed, ∃ g ∈ live, g.priv = r.id ∧ g.place = r.place
  orphans : ∀ r ∈ l.orphans, ∀ g ∈ live, g.place ≠ r.place
  entries : Store.Holds Row.place (fun r => some r.entry) s.plane.entryAt l.rows
  owned : Store.Owned Row.place s.plane.entryAt l.rows

theorem accounts_empty : Accounts (State.empty : State M) [] Ledger.empty :=
  ⟨List.nodup_nil, List.nodup_nil, fun _ hg => absurd hg List.not_mem_nil,
    fun _ hr => absurd hr List.not_mem_nil, fun _ hr => absurd hr List.not_mem_nil,
    fun _ hr => absurd hr List.not_mem_nil, Store.owned_empty⟩

theorem FlowAdd.row_eq {h : Host} {add : FlowAdd M} {fid : BitVec 64} {ans : Answers} {r : Row M}
    (hr : add.row h fid ans = some r) : r.place = (add.tableId, ans.eh) ∧ r.id = add.flowId fid := by
  unfold FlowAdd.row at hr
  split_ifs at hr with ha
  obtain ⟨mf, -, rfl⟩ := Option.map_eq_some_iff.1 hr
  exact ⟨rfl, rfl⟩

section step
variable {h : Host} {s s' : State M} {live : List Filing} {l : Ledger M}

theorem Accounts.id_iff (ha : Accounts s live l) {r : Row M} (hr : r ∈ l.filed) {g : Filing}
    (hg : g ∈ live) : r.id = g.priv ↔ r.place = g.place := by
  obtain ⟨f, hf, hid, hplace⟩ := ha.filed r hr
  rw [← hid, ← hplace]
  exact ha.distinct.key_iff ha.apart hf hg

theorem FlowAdd.entry_eq_row {add : FlowAdd M} {fid : BitVec 64} {ans : Answers}
    (hc : add.accepted h = true ∧ ans.status = 0) :
    (add.ofFlow fid).entry h = (add.row h fid ans).map Row.entry := by
  rw [FlowAdd.row, if_pos hc, Option.map_map]
  rfl

theorem create_rows {rows rows' : List (Row M)} {add : FlowAdd M} {fid : BitVec 64} {ans : Answers}
    (he : Store.Holds Row.place (fun r => some r.entry) s.plane.entryAt rows)
    (ho : Store.Owned Row.place s.plane.entryAt rows)
    (hfresh : s.plane.entryAt (add.tableId, ans.eh) = none)
    (hmem : ∀ r, r ∈ rows' ↔ r ∈ rows ∨ add.row h fid ans = some r) :
    let m := (flowCreate h s add fid ans).state.plane.entryAt
    Store.Holds Row.place (fun r => some r.entry) m rows' ∧ Store.Owned Row.place m rows' := by
  have hm : (flowCreate h s add fid ans).state.plane.entryAt =
      update s.plane.entryAt (add.tableId, ans.eh) ((add.row h fid ans).map Row.entry) := by
    rw [flowCreate_entryAt hfresh]
    split_ifs with hc
    · rw [FlowAdd.entry_eq_row hc]
    · rw [FlowAdd.row, if_neg hc, Option.map_none, ← hfresh, update_eq_self]
  intro m
  refine ⟨fun r hr => ?_, fun k hk => ?_⟩
  · rw [show m = _ from hm]
    rcases (hmem r).1 hr with hr | hr
    · have hne : r.place ≠ (add.tableId, ans.eh) := by
        intro hp
        exact Option.some_ne_none _ ((he r hr).symm.trans (hp ▸ hfresh))
      rw [update_of_ne hne]
      exact he r hr
    · rw [(FlowAdd.row_eq hr).1, hr, update_self, Option.map_some]
  · rw [show m = _ from hm] at hk
    by_cases hp : k = (add.tableId, ans.eh)
    · rw [hp, update_self] at hk
      obtain ⟨e, hrow⟩ := Option.ne_none_iff_exists'.1 hk
      obtain ⟨r, hr, -⟩ := Option.map_eq_some_iff.1 hrow
      exact ⟨r, (hmem r).2 (.inr hr), (FlowAdd.row_eq hr).1.trans hp.symm⟩
    · rw [update_of_ne hp] at hk
      obtain ⟨r, hr, hrk⟩ := ho k hk
      exact ⟨r, (hmem r).2 (.inl hr), hrk⟩

theorem Accounts.create_failed (ha : Accounts s live l) {add : FlowAdd M} {fid : BitVec 64} {ans : Answers}
    (hfree : ∀ g ∈ live, g.place ≠ (add.tableId, ans.eh))
    (hfresh : s.plane.entryAt (add.tableId, ans.eh) = none)
    (hr : (flowCreate h s add fid ans).ret ≠ .none) :
    Accounts (flowCreate h s add fid ans).state live
      { l with orphans := l.orphans ++ (add.row h fid ans).toList } := by
  have hmem : ∀ r, r ∈ l.filed ++ (l.orphans ++ (add.row h fid ans).toList) ↔
      r ∈ l.rows ∨ add.row h fid ans = some r := fun r => by
    simp only [Ledger.rows, List.mem_append, Option.mem_toList, or_assoc]
  obtain ⟨he, ho⟩ := create_rows ha.entries ha.owned hfresh hmem
  refine ⟨ha.distinct, ha.apart, ?_, ha.filed, fun r hr g hg => ?_, he, ho⟩
  · have hids : (flowCreate h s add fid ans).state.ids = s.ids :=
      apply_error_ids h s (.create add fid ans) hr
    rw [hids]
    exact ha.bound
  · rcases List.mem_append.1 hr with hr | hr
    · exact ha.orphans r hr g hg
    · rw [(FlowAdd.row_eq (Option.mem_toList.1 hr)).1]
      exact hfree g hg

theorem Accounts.create_filed (ha : Accounts s live l) {add : FlowAdd M} {fid : BitVec 64} {ans : Answers}
    (htarget : ∀ g ∈ live, g.priv ≠ add.flowId fid)
    (hfree : ∀ g ∈ live, g.place ≠ (add.tableId, ans.eh))
    (hfresh : s.plane.entryAt (add.tableId, ans.eh) = none)
    (hr : (flowCreate h s add fid ans).ret = .none) :
    Accounts (flowCreate h s add fid ans).state (live ++ [⟨add.flowId fid, add.tableId, ans.eh⟩])
      { l with filed := l.filed ++ (add.row h fid ans).toList } := by
  have hmem : ∀ r, r ∈ l.filed ++ (add.row h fid ans).toList ++ l.orphans ↔
      r ∈ l.rows ∨ add.row h fid ans = some r := fun r => by
    simp only [Ledger.rows, List.mem_append, Option.mem_toList, or_right_comm]
  obtain ⟨he, ho⟩ := create_rows ha.entries ha.owned hfresh hmem
  have hids := apply_ids h s (.create add fid ans) hr
  refine ⟨(Store.distinct_append _).2 ⟨ha.distinct, htarget⟩, (Store.distinct_append _).2
    ⟨ha.apart, hfree⟩, ?_, fun r hr => ?_, fun r hr g hg => ?_, he, ho⟩
  · rw [show (flowCreate h s add fid ans).state.ids = _ from hids, FlowIds.binding_record]
    refine Store.Holds.insert (r := (⟨add.flowId fid, add.tableId, ans.eh⟩ : Filing)) ha.bound ?_
    exact htarget
  · rcases List.mem_append.1 hr with hr | hr
    · obtain ⟨g, hg, hid⟩ := ha.filed r hr
      exact ⟨g, List.mem_append_left _ hg, hid⟩
    · obtain ⟨hplace, hid⟩ := FlowAdd.row_eq (Option.mem_toList.1 hr)
      exact ⟨_, List.mem_append_right _ List.mem_cons_self, hid.symm, hplace.symm⟩
  · rcases List.mem_append.1 hg with hg | hg
    · exact ha.orphans r hr g hg
    · rw [List.mem_singleton.1 hg]
      -- the table still holds the orphan
      intro hp
      have hold := ha.entries r (List.mem_append_right _ hr)
      rw [← hp] at hold
      exact Option.some_ne_none _ (hold.symm.trans hfresh)

theorem Row.place_modify (k : BitVec 64) (is : List Instruction) (r : Row M) :
    (r.modify h k is).place = r.place := by
  unfold Row.modify
  split_ifs <;> rfl

theorem Row.id_modify (k : BitVec 64) (is : List Instruction) (r : Row M) :
    (r.modify h k is).id = r.id := by
  unfold Row.modify
  split_ifs <;> rfl

theorem Accounts.holds_modify (ha : Accounts s live l) {g : Filing} (hg : g ∈ live)
    (is : List Instruction) {r : Row M} (hr : r ∈ l.filed) :
    (if h.mods g.tid = true then
        update s.plane.entryAt g.place
          ((s.plane.entryAt g.place).map fun e => { e with action := ⟨g.priv, h.parse is⟩ })
      else s.plane.entryAt) r.place = some (r.modify h g.priv is).entry := by
  have hrow := ha.entries r (List.mem_append_left _ hr)
  have hiff := ha.id_iff hr hg
  by_cases hp : r.place = g.place
  · have hpid := hiff.2 hp
    have htid : r.place.1 = g.tid := congrArg Prod.fst hp
    by_cases hmods : h.mods g.tid = true
    · have hnew : r.modify h g.priv is = { r with args := h.parse is } := if_pos ⟨hpid, htid ▸ hmods⟩
      rw [if_pos hmods, hnew, hp, update_self, ← hp, hrow, ← hpid]
      rfl
    · have hold : r.modify h g.priv is = r := if_neg fun hc => hmods (htid ▸ hc.2)
      rw [if_neg hmods, hold]
      exact hrow
  · have hold : r.modify h g.priv is = r := if_neg fun hc => hp (hiff.1 hc.1)
    rw [hold]
    split_ifs
    · rw [update_of_ne hp]
      exact hrow
    · exact hrow

theorem Accounts.modify (ha : Accounts s live l) {g : Filing} (hg : g ∈ live) {is : List Instruction}
    {ans : Answers} (hids : (flowModify h s g.priv is ans).state.ids = s.ids) :
    Accounts (flowModify h s g.priv is ans).state live (l.step h (.modify g.priv is ans)) := by
  have hm : (flowModify h s g.priv is ans).state.plane.entryAt =
      if h.mods g.tid = true ∧ ans.status = 0 then
        update s.plane.entryAt g.place
          ((s.plane.entryAt g.place).map fun e => { e with action := ⟨g.priv, h.parse is⟩ })
      else s.plane.entryAt := flowModify_entryAt (ha.bound g hg)
  by_cases hs : ans.status = 0
  · rw [Ledger.step, if_pos hs]
    simp only [hs, and_true] at hm
    refine ⟨ha.distinct, ha.apart, hids ▸ ha.bound, fun r' hr' => ?_, ha.orphans, fun r' hr' => ?_,
      fun k hk => ?_⟩
    · obtain ⟨r, hr, rfl⟩ := List.mem_map.1 hr'
      rw [r.place_modify, r.id_modify]
      exact ha.filed r hr
    · rw [hm]
      rcases List.mem_append.1 hr' with hr' | hr
      · obtain ⟨r, hr, rfl⟩ := List.mem_map.1 hr'
        rw [r.place_modify]
        exact ha.holds_modify hg is hr
      · have hrow := ha.entries r' (List.mem_append_right _ hr)
        split_ifs
        · rw [update_of_ne fun hp => ha.orphans r' hr g hg hp.symm]
          exact hrow
        · exact hrow
    · have howned : Store.Owned Row.place (flowModify h s g.priv is ans).state.plane.entryAt l.rows := by
        rw [hm]
        split_ifs
        · exact ha.owned.update_map _ _
        · exact ha.owned
      obtain ⟨r, hr, hrk⟩ := howned k hk
      rcases List.mem_append.1 hr with hr | hr
      · exact ⟨_, List.mem_append_left _ (List.mem_map_of_mem hr), (r.place_modify ..).trans hrk⟩
      · exact ⟨r, List.mem_append_right _ hr, hrk⟩
  · rw [if_neg fun hc => hs hc.2] at hm
    rw [Ledger.step, if_neg hs]
    exact ⟨ha.distinct, ha.apart, hids ▸ ha.bound, ha.filed, ha.orphans, hm ▸ ha.entries, hm ▸ ha.owned⟩

theorem Accounts.delete (ha : Accounts s live l) {g : Filing} (hg : g ∈ live) {ans : Answers}
    (hids : (flowDelete h s g.priv ans).state.ids = s.ids) :
    Accounts (flowDelete h s g.priv ans).state live (l.step h (.delete g.priv ans)) := by
  have hm : (flowDelete h s g.priv ans).state.plane.entryAt =
      if h.dels g.tid = true ∧ ans.status = 0 then update s.plane.entryAt g.place none
      else s.plane.entryAt := flowDelete_entryAt (ha.bound g hg)
  by_cases hs : ans.status = 0
  · rw [Ledger.step, if_pos hs]
    have hkept : ∀ r ∈ l.filed, r ∈ l.filed.filter (fun r => ¬ (r.id = g.priv ∧ h.dels r.place.1 = true)) ↔
        ¬ (r.place = g.place ∧ h.dels g.tid = true) := by
      intro r hr
      rw [List.mem_filter, decide_eq_true_eq, and_iff_right hr, ha.id_iff hr hg]
      refine not_congr (and_congr_right fun hp => ?_)
      rw [show r.place.1 = g.tid from congrArg Prod.fst hp]
    have hother : ∀ k, ¬ (k = g.place ∧ h.dels g.tid = true) →
        (flowDelete h s g.priv ans).state.plane.entryAt k = s.plane.entryAt k := by
      intro k hk
      rw [hm]
      split_ifs with hc
      · rw [update_of_ne fun hp => hk ⟨hp, hc.1⟩]
      · rfl
    refine ⟨ha.distinct, ha.apart, hids ▸ ha.bound, fun r hr => ha.filed r (List.mem_filter.1 hr).1,
      ha.orphans, fun r hr => ?_, fun k hk => ?_⟩
    · rcases List.mem_append.1 hr with hr | hr
      · have hr' := (List.mem_filter.1 hr).1
        rw [hother _ ((hkept r hr').1 hr)]
        exact ha.entries r (List.mem_append_left _ hr')
      · rw [hother _ fun hc => ha.orphans r hr g hg hc.1.symm]
        exact ha.entries r (List.mem_append_right _ hr)
    · have hne : ¬ (k = g.place ∧ h.dels g.tid = true) := by
        rintro ⟨rfl, hd⟩
        rw [hm, if_pos ⟨hd, hs⟩, update_self] at hk
        exact hk rfl
      rw [hother k hne] at hk
      obtain ⟨r, hr, rfl⟩ := ha.owned k hk
      rcases List.mem_append.1 hr with hr | hr
      · exact ⟨r, List.mem_append_left _ ((hkept r hr).2 hne), rfl⟩
      · exact ⟨r, List.mem_append_right _ hr, rfl⟩
  · rw [if_neg fun hc => hs hc.2] at hm
    rw [Ledger.step, if_neg hs]
    exact ⟨ha.distinct, ha.apart, hids ▸ ha.bound, ha.filed, ha.orphans, hm ▸ ha.entries, hm ▸ ha.owned⟩

theorem Accounts.give_up (ha : Accounts s live l) {k : BitVec 64} (hk : ∀ r ∈ l.filed, r.id ≠ k) :
    Accounts s (Store.drop Filing.priv k live) l := by
  have hsub : ∀ g ∈ Store.drop Filing.priv k live, g ∈ live := fun _ => Store.mem_of_mem_drop
  refine ⟨ha.distinct.drop k, ?_, ha.bound.subset hsub, fun r hr => ?_,
    fun r hr g hg => ha.orphans r hr g (hsub g hg), ha.entries, ha.owned⟩
  · exact List.Nodup.sublist (List.Sublist.map _ List.eraseP_sublist) ha.apart
  · obtain ⟨g, hg, hid, hplace⟩ := ha.filed r hr
    exact ⟨g, Store.mem_drop_of_ne (hid ▸ hk r hr) hg, hid, hplace⟩

theorem Accounts.deleted (ha : Accounts s live l) {g : Filing} (hg : g ∈ live) {ans : Answers}
    (hr : (flowDelete h s g.priv ans).ret = .none) :
    ∀ r ∈ (l.step h (.delete g.priv ans)).filed, r.id ≠ g.priv := by
  obtain ⟨eh, tid, hb, hd, -⟩ := flowDelete_done h s ans hr
  obtain ⟨rfl, rfl⟩ := Prod.mk.inj (Option.some.inj ((ha.bound g hg).symm.trans hb))
  rw [flowDelete_bound h s ans hb hd, callsInTurn_ret_iff] at hr
  rw [Ledger.step, if_pos hr.1]
  intro r hr' hid
  obtain ⟨hmem, hkeep⟩ := List.mem_filter.1 hr'
  have hplace := (ha.id_iff hmem hg).1 hid
  refine (of_decide_eq_true hkeep) ⟨hid, ?_⟩
  rw [hplace]
  exact hd

end step

section run
variable {h : Host} {w : World M} {l : Ledger M}

theorem World.filings_error {op : Op M} (hr : (op.apply h w.state).ret ≠ .none) :
    (World.step h w op).filings = w.filings := by
  rw [World.filings, World.step_live_error hr, World.filings]

theorem World.filings_modify (k : BitVec 64) (is : List Instruction) (ans : Answers) :
    (World.step h w (.modify k is ans)).filings = w.filings := by
  by_cases hr : ((Op.modify k is ans : Op M).apply h w.state).ret = .none
  · rw [World.filings, World.step_live_done hr, World.filings, Op.track, Store.revise, List.map_map]
    refine List.map_congr_left fun f _ => ?_
    simp only [comp_apply]
    split_ifs <;> rfl
  · exact World.filings_error hr

theorem Accounts.step (ha : Accounts w.state w.filings l) {op : Op M} (ho : Managed w op) :
    Accounts (World.step h w op).state (World.step h w op).filings (l.step h op) := by
  have hlive {p : Filing → Prop} (hp : ∀ f ∈ w.live, p f.filing) : ∀ g ∈ w.filings, p g :=
    List.forall_mem_map.2 hp
  cases op with
  | create add fid ans =>
    have htarget : ∀ g ∈ w.filings, g.priv ≠ add.flowId fid := hlive ho.target
    have hfree : ∀ g ∈ w.filings, g.place ≠ (add.tableId, ans.eh) := hlive ho.free
    have hfresh := Option.isNone_iff_eq_none.1 ho.fresh
    by_cases hr : ((Op.create add fid ans).apply h w.state).ret = .none
    · have hfilings : (World.step h w (.create add fid ans)).filings =
          w.filings ++ [⟨add.flowId fid, add.tableId, ans.eh⟩] := by
        rw [World.filings, World.step_live_done hr, Op.track, List.map_append]
        rfl
      rw [hfilings, Ledger.step, if_pos ((flowCreate_ret_iff h w.state ans).1 hr).2]
      exact ha.create_filed htarget hfree hfresh hr
    · rw [World.filings_error hr, Ledger.step]
      split_ifs with hok
      · -- refused before it got to its table
        have hna : ¬ (add.accepted h = true ∧ ans.status = 0) := fun hc =>
          hr ((flowCreate_ret_iff h w.state ans).2 ⟨hc.1, hok⟩)
        have hsame := ha.create_failed hfree hfresh hr
        rw [FlowAdd.row, if_neg hna, Option.toList_none, List.append_nil] at hsame ⊢
        exact hsame
      · exact ha.create_failed hfree hfresh hr
  | modify k is ans =>
    obtain ⟨f, hf, rfl⟩ := ho.target
    have hids : (flowModify h w.state f.priv is ans).state.ids = w.state.ids := by
      by_cases hr : ((Op.modify f.priv is ans : Op M).apply h w.state).ret = .none
      · exact apply_ids h w.state _ hr
      · exact apply_error_ids h w.state _ hr
    rw [World.filings_modify]
    exact ha.modify (g := f.filing) (List.mem_map_of_mem hf) hids
  | delete k ans =>
    obtain ⟨f, hf, rfl⟩ := ho.target
    have hg : f.filing ∈ w.filings := List.mem_map_of_mem hf
    by_cases hr : ((Op.delete f.priv ans : Op M).apply h w.state).ret = .none
    · have hfilings : (World.step h w (.delete f.priv ans)).filings =
          Store.drop Filing.priv f.priv w.filings := by
        rw [World.filings, World.step_live_done hr, Op.track]
        refine Store.map_drop (fun g _ => ?_) f.priv
        rfl
      rw [hfilings]
      exact (ha.delete (g := f.filing) hg (apply_ids h w.state _ hr)).give_up (ha.deleted hg hr)
    · rw [World.filings_error hr]
      exact ha.delete (g := f.filing) hg (apply_error_ids h w.state _ hr)

theorem Accounts.run (ha : Accounts w.state w.filings l) {ops : List (Op M)}
    (ho : Along (World.step h) Managed w ops) :
    Accounts (run (World.step h) w ops).state (run (World.step h) w ops).filings
      (Runs.run (Ledger.step h) l ops) := by
  induction ops generalizing w l with
  | nil => exact ha
  | cons op ops ih => exact ih (ha.step ho.1) ho.2

theorem Accounts.entryAt_iff {s : State M} {live : List Filing} (ha : Accounts s live l) (k : Place)
    (e : PdEntry M) : s.plane.entryAt k = some e ↔ ∃ r ∈ l.rows, r.place = k ∧ r.entry = e := by
  constructor
  · intro he
    obtain ⟨r, hr, rfl⟩ := ha.owned k (by rw [he]; exact Option.some_ne_none e)
    exact ⟨r, hr, rfl, Option.some.inj ((ha.entries r hr).symm.trans he)⟩
  · rintro ⟨r, hr, rfl, rfl⟩
    exact ha.entries r hr

end run

/-- After any run, whatever backend calls failed, the PD tables hold exactly the rows of the ledger. -/
theorem ledger_entries (h : Host) (ops : List (Op M)) (ho : Along (World.step h) Managed World.empty ops)
    (k : Place) (e : PdEntry M) :
    (run (World.step h) World.empty ops).state.plane.entryAt k = some e ↔
      ∃ r ∈ (run (Ledger.step h) Ledger.empty ops).rows, r.place = k ∧ r.entry = e :=
  (Accounts.run accounts_empty ho).entryAt_iff k e

/-! ## Orphans -/

theorem mem_orphans_step {h : Host} {l : Ledger M} {r : Row M} (hr : r ∈ l.orphans) (op : Op M) :
    r ∈ (l.step h op).orphans := by
  cases op with
  | create add fid ans =>
    rw [Ledger.step]
    split_ifs
    · exact hr
    · exact List.mem_append_left _ hr
  | modify k is ans =>
    rw [Ledger.step]
    split_ifs <;> exact hr
  | delete k ans =>
    rw [Ledger.step]
    split_ifs <;> exact hr

theorem mem_orphans_create {h : Host} {l : Ledger M} {add : FlowAdd M} {fid : BitVec 64} {ans : Answers}
    (hok : ¬ ans.CreateOk) {r : Row M} (hr : add.row h fid ans = some r) :
    r ∈ (l.step h (.create add fid ans)).orphans := by
  rw [Ledger.step, if_neg hok]
  exact List.mem_append_right _ (Option.mem_toList.2 hr)

/-- A create whose pipeline call fails is reported as failed, and its entry stays in its table as it is
through every run that follows. -/
theorem orphan_stays (h : Host) (pre post : List (Op M)) {add : FlowAdd M} {fid : BitVec 64}
    {ans : Answers} {mf : M}
    (ho : Along (World.step h) Managed World.empty (pre ++ .create add fid ans :: post))
    (hpat : (add.ofFlow fid).pat = some mf) (ha : add.accepted h = true) (hs : ans.status = 0)
    (hok : ¬ ans.CreateOk) :
    (flowCreate h (run (World.step h) World.empty pre).state add fid ans).ret ≠ .none ∧
      (run (World.step h) World.empty (pre ++ .create add fid ans :: post)).state.plane.entryAt
        (add.tableId, ans.eh) =
          some ⟨mf, add.priority, 3, ⟨add.flowId fid, h.parse add.instructions⟩⟩ := by
  let r : Row M :=
    ⟨(add.tableId, ans.eh), add.flowId fid, mf, add.priority, h.parse add.instructions⟩
  have hrow : add.row h fid ans = some r := by
    rw [FlowAdd.row, if_pos ⟨ha, hs⟩, hpat, Option.map_some]
  have hmem : r ∈ (run (Ledger.step h) Ledger.empty (pre ++ .create add fid ans :: post)).orphans := by
    rw [run_append, run_cons]
    exact run_inv (I := fun l : Ledger M => r ∈ l.orphans) (fun l op _ hl => mem_orphans_step hl op)
      (mem_orphans_create hok hrow)
  refine ⟨fun hr => hok ((flowCreate_ret_iff h _ ans).1 hr).2, ?_⟩
  exact ((Accounts.run accounts_empty ho).entryAt_iff _ _).2 ⟨r, List.mem_append_right _ hmem, rfl, rfl⟩

def failures : List (Op (BitVec 8)) :=
  [.create (keyFlowIn 0 7 5) 10 ⟨0, 1, 0, 1⟩, .create (keyFlowIn 0 9 6) 11 ⟨0, 2, 0, 0⟩,
    .modify 11 [] ⟨0, 0, 0, 1⟩, .delete 11 ⟨0, 0, 0, 1⟩, .create (keyFlowIn 0 3 5) 10 ⟨0, 3, 0, 0⟩]

theorem ledger_entries_failures :
    (run (World.step Host.full) World.empty failures).state.plane.entryAt (0, 1) =
      some ⟨5, 7, 3, ⟨10, Host.full.parse []⟩⟩ :=
  (ledger_entries Host.full failures (by decide) (0, 1) _).2
    ⟨⟨(0, 1), 10, 5, 7, Host.full.parse []⟩, by
      refine List.mem_append_right _ (List.mem_cons_self (l := [])), rfl, rfl⟩

theorem orphan_stays_failures :
    (flowCreate Host.full (run (World.step Host.full) World.empty []).state (keyFlowIn 0 7 5) 10
      ⟨0, 1, 0, 1⟩).ret ≠ .none ∧
      (run (World.step Host.full) World.empty failures).state.plane.entryAt (0, 1) =
        some ⟨5, 7, 3, ⟨10, Host.full.parse []⟩⟩ :=
  @orphan_stays (BitVec 8) Host.full [] failures.tail (keyFlowIn 0 7 5) 10 ⟨0, 1, 0, 1⟩ 5 (by decide)
    rfl rfl rfl (by decide)

end P4OfAgent
