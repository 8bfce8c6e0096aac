import P4OfAgent.PipelineSync
import P4OfAgent.Switch

/-! The PD tables against the switch that the controller sees. A flow of the switch is found in its
table under the handle that its `flow_create` obtained, and nothing else is. -/

namespace P4OfAgent
open Function Priority Runs
variable {M K : Type}

def PdEntry.rule (e : PdEntry M) : Rule M PdAction := ⟨e.mf, e.priority.toNat, e.action⟩

def PdTable.rules (t : PdTable M) : Set (Rule M PdAction) :=
  {r | ∃ eh e, t.entries eh = some e ∧ e.rule = r}

def PdTable.Selects (Matches : M → K → Prop) (t : PdTable M) (key : K) (a : PdAction) : Prop :=
  SelectsAmong Matches t.rules t.dflt key a

abbrev Place := BitVec 8 × EntryHdl

def Plane.entryAt (d : Plane M) (k : Place) : Option (PdEntry M) := (d.tables k.1).entries k.2

def OfFlow.entry (h : Host) (g : OfFlow M) : Option (PdEntry M) :=
  g.pat.map fun mf => ⟨mf, g.priority, 3, ⟨g.id, h.parse g.instructions⟩⟩

def Flow.place (f : Flow) : Place := (f.tid, f.eh)

structure Pair (M : Type) where
  live : Flow
  flow : OfFlow M

namespace Pair

def id (p : Pair M) : BitVec 64 := p.live.priv
def place (p : Pair M) : Place := p.live.place
def binding (p : Pair M) : Option (EntryHdl × BitVec 8) := some (p.live.eh, p.live.tid)
def entry (h : Host) (p : Pair M) : Option (PdEntry M) := p.flow.entry h

def modify (is : List Instruction) (noPipeline : BitVec 8) (args : Parsed) (p : Pair M) : Pair M :=
  ⟨{ p.live with noPipeline, args }, { p.flow with instructions := is }⟩

end Pair

/-- The agent and the switch hold the same flows in the same order; the handles of live flows differ,
and a place of the PD tables holds an entry exactly if it is that of a flow with a match. -/
structure Mirrors (h : Host) (t : Twin M) (pairs : List (Pair M)) : Prop where
  live : pairs.map Pair.live = t.world.live
  flows : pairs.map Pair.flow = t.flows
  agree : ∀ p ∈ pairs, p.flow.id = p.id ∧ p.flow.tableId = p.live.tid ∧
    p.live.args = h.parse p.flow.instructions
  distinct : Store.Distinct Pair.id pairs
  apart : Store.Distinct Pair.place pairs
  bound : Store.Holds Pair.id Pair.binding t.world.state.ids.binding pairs
  entries : Store.Holds Pair.place (Pair.entry h) t.world.state.plane.entryAt pairs
  owned : Store.Owned Pair.place t.world.state.plane.entryAt pairs

def HandleFree (w : World M) : Op M → Prop
  | .create add _ ans => ∀ f ∈ w.live, f.place ≠ (add.tableId, ans.eh)
  | _ => True

instance (w : World M) : ∀ op, Decidable (HandleFree w op)
  | .create add _ ans => inferInstanceAs (Decidable (∀ f ∈ w.live, f.place ≠ (add.tableId, ans.eh)))
  | .modify .. => isTrue trivial
  | .delete .. => isTrue trivial

/-- The state manager asks for flows it has and files new ones under ids of their own, the tables give
out handles of their own, and the pipeline calls succeed. -/
structure Orderly (t : Twin M) (op : Op M) : Prop where
  target : TargetsLive t.world op
  handle : HandleFree t.world op
  pipeline : op.answers.pipeline = 0

instance (t : Twin M) (op : Op M) : Decidable (Orderly t op) :=
  decidable_of_iff (TargetsLive t.world op ∧ HandleFree t.world op ∧ op.answers.pipeline = 0)
    ⟨fun ho => ⟨ho.1, ho.2.1, ho.2.2⟩, fun ho => ⟨ho.target, ho.handle, ho.pipeline⟩⟩

/-! ## The entries after one call -/

section calls
variable (d : Plane M) (eh : EntryHdl)

theorem entryAt_onTable (tid : BitVec 8) (f : PdTable M → PdTable M) (hdl : EntryHdl)
    (e : Option (PdEntry M)) (hf : (f (d.tables tid)).entries = update (d.tables tid).entries hdl e) :
    (d.onTable tid f).entryAt = update d.entryAt (tid, hdl) e := by
  funext ⟨tid', hdl'⟩
  by_cases ht : tid' = tid
  · subst ht
    simp only [Plane.entryAt, Plane.onTable, update_self, hf]
    by_cases hh : hdl' = hdl
    · rw [hh, update_self, update_self]
    · have hne : (tid', hdl') ≠ (tid', hdl) := fun he => hh (congrArg Prod.snd he)
      rw [update_of_ne hh, update_of_ne hne]
      rfl
  · have hne : (tid', hdl') ≠ (tid, hdl) := fun he => ht (congrArg Prod.fst he)
    simp only [Plane.entryAt, Plane.onTable, update_of_ne ht, update_of_ne hne]

theorem entryAt_add (tid : BitVec 8) (mf : M) (args : Parsed) (id : BitVec 64) (pr : BitVec 16)
    (ttl : BitVec 32) : (d.effect eh (.add tid mf args id pr ttl)).entryAt =
      update d.entryAt (tid, eh) (some ⟨mf, pr, ttl, ⟨id, args⟩⟩) := by
  rw [Plane.effect]
  exact entryAt_onTable d tid _ eh _ rfl

theorem entryAt_mod (tid : BitVec 8) (args : Parsed) (id : BitVec 64) (hdl : EntryHdl) :
    (d.effect eh (.mod tid args id hdl)).entryAt = update d.entryAt (tid, hdl)
      ((d.entryAt (tid, hdl)).map fun e => { e with action := ⟨id, args⟩ }) := by
  rw [Plane.effect]
  exact entryAt_onTable d tid _ hdl _ rfl

theorem entryAt_del (tid : BitVec 8) (hdl : EntryHdl) :
    (d.effect eh (.del tid hdl)).entryAt = update d.entryAt (tid, hdl) none := by
  rw [Plane.effect]
  exact entryAt_onTable d tid _ hdl _ rfl

theorem entryAt_setDef (tid : BitVec 8) (args : Parsed) (id : BitVec 64) :
    (d.effect eh (.setDef tid args id)).entryAt = d.entryAt := by
  funext ⟨tid', hdl⟩
  by_cases ht : tid' = tid
  · subst ht
    simp only [Plane.entryAt, Plane.effect, Plane.onTable, update_self]
  · simp only [Plane.entryAt, Plane.effect, Plane.onTable, update_of_ne ht]

theorem dflt_onTable {tid' : BitVec 8} {f : PdTable M → PdTable M}
    (hf : (f (d.tables tid')).dflt = (d.tables tid').dflt) (tid : BitVec 8) :
    ((d.onTable tid' f).tables tid).dflt = (d.tables tid).dflt := by
  by_cases ht : tid = tid'
  · subst ht
    simp only [Plane.onTable, update_self, hf]
  · simp only [Plane.onTable, update_of_ne ht]

theorem dflt_mod (tid' : BitVec 8) (args : Parsed) (id : BitVec 64) (hdl : EntryHdl) (tid : BitVec 8) :
    ((d.effect eh (.mod tid' args id hdl)).tables tid).dflt = (d.tables tid).dflt := by
  rw [Plane.effect]
  refine dflt_onTable d ?_ tid
  rfl

theorem dflt_del (tid' : BitVec 8) (hdl : EntryHdl) (tid : BitVec 8) :
    ((d.effect eh (.del tid' hdl)).tables tid).dflt = (d.tables tid).dflt := by
  rw [Plane.effect]
  refine dflt_onTable d ?_ tid
  rfl

theorem effect_tables {c : Call M} (hc : c.isTable = false) : (d.effect eh c).tables = d.tables := by
  cases c <;> first | rfl | exact absurd hc Bool.noConfusion

theorem effects_tables {c : Call M} {pcall : Option (Call M)} (hp : ∀ p ∈ pcall, p.isTable = false) :
    (d.effects eh (c :: pcall.toList)).tables = (d.effect eh c).tables := by
  cases pcall with
  | none => rfl
  | some p => exact effect_tables _ eh (hp p rfl)

theorem entryAt_congr {d d' : Plane M} (h : d.tables = d'.tables) : d.entryAt = d'.entryAt := by
  funext k
  simp only [Plane.entryAt, h]

end calls

/-! ## The tables after one operation -/

section ops
variable {h : Host} {s : State M}

theorem install_entryAt {d : Plane M} {add : FlowAdd M} {fid : BitVec 64} {eh : EntryHdl} {call : Call M}
    (hi : add.install h (add.flowId fid) (h.parse add.instructions) = .ok call)
    (hfree : d.entryAt (add.tableId, eh) = none) :
    (d.effect eh call).entryAt = update d.entryAt (add.tableId, eh) ((add.ofFlow fid).entry h) := by
  unfold FlowAdd.install at hi
  unfold FlowAdd.ofFlow OfFlow.entry
  by_cases hm : add.mlen.setWidth 64 - sizeofOfpMatch ≠ 0
  · simp only [if_pos hm] at hi ⊢
    cases hmf : add.mf with
    | error e => simp only [hmf, reduceCtorEq] at hi
    | ok mf =>
      simp only [hmf] at hi
      split_ifs at hi
      obtain rfl := Except.ok.inj hi
      exact entryAt_add d eh ..
  · simp only [if_neg hm] at hi ⊢
    split_ifs at hi
    obtain rfl := Except.ok.inj hi
    rw [entryAt_setDef, Option.map_none, ← hfree, update_eq_self]

theorem install_dflt {d : Plane M} {add : FlowAdd M} {fid : BitVec 64} {eh : EntryHdl} {call : Call M}
    (hi : add.install h (add.flowId fid) (h.parse add.instructions) = .ok call) (tid : BitVec 8) :
    ((d.effect eh call).tables tid).dflt =
      if add.tableId = tid ∧ (add.ofFlow fid).pat = none then some ((add.ofFlow fid).rule h).action
      else (d.tables tid).dflt := by
  unfold FlowAdd.install at hi
  unfold FlowAdd.ofFlow OfFlow.rule
  by_cases hm : add.mlen.setWidth 64 - sizeofOfpMatch ≠ 0
  · simp only [if_pos hm] at hi ⊢
    cases hmf : add.mf with
    | error e => simp only [hmf, reduceCtorEq] at hi
    | ok mf =>
      simp only [hmf] at hi
      split_ifs at hi
      obtain rfl := Except.ok.inj hi
      rw [if_neg fun he => Option.some_ne_none mf he.2]
      by_cases ht : tid = add.tableId
      · subst ht
        simp only [Plane.effect, Plane.onTable, update_self]
      · simp only [Plane.effect, Plane.onTable, update_of_ne ht]
  · simp only [if_neg hm] at hi ⊢
    split_ifs at hi
    obtain rfl := Except.ok.inj hi
    by_cases ht : tid = add.tableId
    · subst ht
      simp only [Plane.effect, Plane.onTable, update_self, and_self, if_true]
    · rw [if_neg fun he => ht he.1.symm]
      simp only [Plane.effect, Plane.onTable, update_of_ne ht]

theorem flowCreate_tables {add : FlowAdd M} {fid : BitVec 64} {ans : Answers}
    (hr : (flowCreate h s add fid ans).ret = .none) :
    ∃ call, add.install h (add.flowId fid) (h.parse add.instructions) = .ok call ∧
      (flowCreate h s add fid ans).state.plane.tables = (s.plane.effect ans.eh call).tables := by
  obtain ⟨call, hi, _⟩ := FlowAdd.install_accepted h (add.flowId fid) (h.parse add.instructions)
    ((flowCreate_ret_iff h s ans).1 hr).1
  rw [flowCreate_installed h s ans hi] at hr ⊢
  rw [callsInTurn_of_ret _ _ _ _ _ hr]
  exact ⟨call, hi, effects_tables _ _ fun _ => not_isTable_of_unlessSignalled rfl⟩

theorem flowModify_tables {k : BitVec 64} {is : List Instruction} {ans : Answers} {eh : EntryHdl}
    {tid : BitVec 8} (hb : s.ids.binding k = some (eh, tid))
    (hr : (flowModify h s k is ans).ret = .none) :
    (flowModify h s k is ans).state.plane.tables =
      (s.plane.effect ans.eh (.mod tid (h.parse is) k eh)).tables := by
  obtain ⟨eh', tid', hb', _, he⟩ := flowModify_done h s ans hr
  obtain ⟨rfl, rfl⟩ := Prod.mk.inj (Option.some.inj (hb.symm.trans hb'))
  rw [he]
  exact effects_tables _ _ fun _ => not_isTable_of_unlessSignalled rfl

theorem flowDelete_tables {k : BitVec 64} {ans : Answers} {eh : EntryHdl} {tid : BitVec 8}
    (hb : s.ids.binding k = some (eh, tid)) (hr : (flowDelete h s k ans).ret = .none) :
    (flowDelete h s k ans).state.plane.tables = (s.plane.effect ans.eh (.del tid eh)).tables := by
  obtain ⟨eh', tid', hb', _, he⟩ := flowDelete_done h s ans hr
  obtain ⟨rfl, rfl⟩ := Prod.mk.inj (Option.some.inj (hb.symm.trans hb'))
  have hp : ∀ p ∈ some (Call.pipelineDel k : Call M), p.isTable = false :=
    fun p hp => Option.some.inj hp ▸ rfl
  rw [he]
  exact effects_tables s.plane ans.eh hp

end ops

/-! ## The pairs across one operation -/

theorem mirrors_empty (h : Host) : Mirrors h (Twin.empty : Twin M) [] :=
  ⟨rfl, rfl, fun _ hp => absurd hp List.not_mem_nil, List.nodup_nil, List.nodup_nil,
    fun _ hp => absurd hp List.not_mem_nil, fun _ hp => absurd hp List.not_mem_nil, Store.owned_empty⟩

section step
variable {h : Host} {t : Twin M} {pairs : List (Pair M)}

theorem Mirrors.mem_live (hm : Mirrors h t pairs) {p : Pair M} (hp : p ∈ pairs) :
    p.live ∈ t.world.live :=
  hm.live ▸ List.mem_map_of_mem hp

theorem Mirrors.target (hm : Mirrors h t pairs) {k : BitVec 64} (ht : ∃ f ∈ t.world.live, f.priv = k) :
    ∃ p ∈ pairs, p.id = k ∧ t.world.state.ids.binding k = some (p.live.eh, p.live.tid) ∧
      t.world.state.plane.entryAt (p.live.tid, p.live.eh) = p.entry h := by
  obtain ⟨f, hf, rfl⟩ := ht
  rw [← hm.live] at hf
  obtain ⟨p, hp, rfl⟩ := List.mem_map.1 hf
  exact ⟨p, hp, rfl, hm.bound p hp, hm.entries p hp⟩

theorem Mirrors.create (hm : Mirrors h t pairs) {add : FlowAdd M} {fid : BitVec 64} {ans : Answers}
    (ho : Orderly t (.create add fid ans))
    (hr : ((Op.create add fid ans).apply h t.world.state).ret = .none) :
    ∃ pairs', Mirrors h (Twin.step h t (.create add fid ans)) pairs' := by
  have hlive := World.step_live_done hr
  have hids := apply_ids h t.world.state _ hr
  obtain ⟨call, hi, htables⟩ := flowCreate_tables hr
  have hid : ∀ p ∈ pairs, p.id ≠ add.flowId fid := fun p hp => ho.target p.live (hm.mem_live hp)
  have hplace : ∀ p ∈ pairs, p.place ≠ (add.tableId, ans.eh) :=
    fun p hp => ho.handle p.live (hm.mem_live hp)
  have hfree : t.world.state.plane.entryAt (add.tableId, ans.eh) = none := by
    by_contra hne
    obtain ⟨p, hp, hk⟩ := hm.owned _ hne
    exact hplace p hp hk
  have hentries := (entryAt_congr htables).trans (install_entryAt hi hfree)
  refine ⟨pairs ++ [⟨⟨fid, add.cookieMask, add.flowId fid, add.tableId, ans.eh, ans.signal,
    h.parse add.instructions⟩, add.ofFlow fid⟩], ?_, ?_, ?_, ?_, ?_, ?_, ?_, ?_⟩
  · rw [List.map_append, hm.live]
    exact hlive.symm
  · rw [List.map_append, hm.flows]
    exact (Twin.step_flows_done hr).symm
  · intro p hp
    rcases List.mem_append.1 hp with hp | hp
    · exact hm.agree p hp
    · rw [List.mem_singleton.1 hp]
      exact ⟨rfl, rfl, rfl⟩
  · exact (Store.distinct_append _).2 ⟨hm.distinct, hid⟩
  · exact (Store.distinct_append _).2 ⟨hm.apart, hplace⟩
  · rw [Twin.step, World.step_state, hids, FlowIds.binding_record]
    refine Store.Holds.insert hm.bound ?_
    exact hid
  · rw [Twin.step, World.step_state, Op.apply, hentries]
    refine Store.Holds.insert hm.entries ?_
    exact hplace
  · rw [Twin.step, World.step_state, Op.apply, hentries]
    refine Store.Owned.insert hm.owned ?_ _
    rfl

theorem Mirrors.modify (hm : Mirrors h t pairs) {k : BitVec 64} {is : List Instruction} {ans : Answers}
    (ho : Orderly t (.modify k is ans))
    (hr : ((Op.modify k is ans : Op M).apply h t.world.state).ret = .none) :
    ∃ pairs', Mirrors h (Twin.step h t (.modify k is ans)) pairs' := by
  have hlive := World.step_live_done hr
  have hids := apply_ids h t.world.state _ hr
  obtain ⟨p, hp, rfl, hb, hentry⟩ := hm.target ho.target
  have hentries := (entryAt_congr (flowModify_tables hb hr)).trans (entryAt_mod ..)
  set f : Pair M → Pair M := Pair.modify is ans.signal (h.parse is) with hf
  have hid : ∀ q, (f q).id = q.id := fun _ => rfl
  have hplace : ∀ q, (f q).place = q.place := fun _ => rfl
  have hsame : Store.revise Pair.id p.id f pairs = Store.revise Pair.place p.place f pairs :=
    hm.distinct.revise_eq hm.apart hp f
  refine ⟨Store.revise Pair.id p.id f pairs, ?_, ?_, ?_, ?_, ?_, ?_, ?_, ?_⟩
  · rw [Twin.step, hlive, Op.track, ← hm.live]
    refine Store.map_revise (fun q _ => ?_) (fun q => ?_) p.id
    · rfl
    · rfl
  · rw [Twin.step_flows_done hr, Op.flowMod, OfFlow.step, ← hm.flows]
    refine Store.map_revise (fun q hq => ?_) (fun q => ?_) p.id
    · exact (hm.agree q hq).1
    · rfl
  · exact Store.forall_revise (fun q hq => ⟨hq.1, hq.2.1, rfl⟩) hm.agree p.id
  · exact Store.Distinct.revise hid hm.distinct _
  · rw [hsame]
    exact Store.Distinct.revise hplace hm.apart _
  · rw [Twin.step, World.step_state, hids]
    refine Store.forall_revise (fun q hq => ?_) hm.bound p.id
    exact hq
  · rw [Twin.step, World.step_state, Op.apply, hentries, hsame]
    refine Store.Holds.revise hplace hm.entries fun q hq hk => ?_
    -- the entry of the flow, if it has one, gets the new action
    obtain rfl := hm.apart.inj hq hp hk
    rw [hentry]
    have hfid := (hm.agree q hq).1
    cases hpat : q.flow.pat with
    | none => simp only [hf, Pair.entry, Pair.modify, OfFlow.entry, hpat, Option.map_none]
    | some mf => simp only [hf, Pair.entry, Pair.modify, OfFlow.entry, hpat, Option.map_some, hfid]
  · rw [Twin.step, World.step_state, Op.apply, hentries, hsame]
    refine Store.Owned.revise hplace ?_ _
    exact hm.owned.update_of_mem ⟨p, hp, rfl⟩ _

theorem Mirrors.delete (hm : Mirrors h t pairs) {k : BitVec 64} {ans : Answers}
    (ho : Orderly t (.delete k ans))
    (hr : ((Op.delete k ans : Op M).apply h t.world.state).ret = .none) :
    ∃ pairs', Mirrors h (Twin.step h t (.delete k ans)) pairs' := by
  have hlive := World.step_live_done hr
  have hids := apply_ids h t.world.state _ hr
  obtain ⟨p, hp, rfl, hb, _⟩ := hm.target ho.target
  have hentries := (entryAt_congr (flowDelete_tables hb hr)).trans (entryAt_del ..)
  have hsame : Store.drop Pair.id p.id pairs = Store.drop Pair.place p.place pairs :=
    hm.distinct.drop_eq hm.apart hp
  have hsub : ∀ q ∈ Store.drop Pair.id p.id pairs, q ∈ pairs := fun _ => Store.mem_of_mem_drop
  refine ⟨Store.drop Pair.id p.id pairs, ?_, ?_, ?_, ?_, ?_, ?_, ?_, ?_⟩
  · rw [Twin.step, hlive, Op.track, ← hm.live]
    refine Store.map_drop (fun q _ => ?_) p.id
    rfl
  · rw [Twin.step_flows_done hr, Op.flowMod, OfFlow.step, ← hm.flows]
    exact Store.map_drop (fun q hq => (hm.agree q hq).1) p.id
  · exact fun q hq => hm.agree q (hsub q hq)
  · exact hm.distinct.drop p.id
  · rw [hsame]
    exact hm.apart.drop p.place
  · rw [Twin.step, World.step_state, hids]
    exact hm.bound.subset hsub
  · rw [Twin.step, World.step_state, Op.apply, hentries, hsame]
    exact hm.entries.drop hm.apart p.place none
  · rw [Twin.step, World.step_state, Op.apply, hentries, hsame]
    exact hm.owned.drop p.place

theorem Twin.step_error {op : Op M} (hp : op.answers.pipeline = 0)
    (hr : (op.apply h t.world.state).ret ≠ .none) : Twin.step h t op = t := by
  have hstate : (op.apply h t.world.state).state = t.world.state := by
    rcases apply_error h t.world.state op hr with ⟨_, hs⟩ | ⟨_, hf, _⟩
    · exact hs
    · exact absurd hp hf
  rw [Twin.step, if_neg hr, World.step, if_neg hr, hstate]

theorem Mirrors.step (hm : ∃ pairs, Mirrors h t pairs) {op : Op M} (ho : Orderly t op) :
    ∃ pairs, Mirrors h (Twin.step h t op) pairs := by
  obtain ⟨pairs, hm⟩ := hm
  by_cases hr : (op.apply h t.world.state).ret = .none
  · cases op with
    | create add fid ans => exact hm.create ho hr
    | modify k is ans => exact hm.modify ho hr
    | delete k ans => exact hm.delete ho hr
  · rw [Twin.step_error ho.pipeline hr]
    exact ⟨pairs, hm⟩

end step

/-! ## Lookups -/

/-- Flows without a match are neither modified nor deleted: `mod_f` and `del_f` do not reach the
default of a table. -/
def KeepsMiss (t : Twin M) : Op M → Prop
  | .create .. => True
  | .modify k _ _ => ∀ g ∈ t.flows, g.id = k → g.pat.isSome = true
  | .delete k _ => ∀ g ∈ t.flows, g.id = k → g.pat.isSome = true

instance (t : Twin M) : ∀ op, Decidable (KeepsMiss t op)
  | .create .. => isTrue trivial
  | .modify k _ _ => inferInstanceAs (Decidable (∀ g ∈ t.flows, g.id = k → g.pat.isSome = true))
  | .delete k _ => inferInstanceAs (Decidable (∀ g ∈ t.flows, g.id = k → g.pat.isSome = true))

def DefaultsMirror (h : Host) (t : Twin M) : Prop :=
  ∀ tid, (t.world.state.plane.tables tid).dflt = lastDefault (ofRules h tid t.flows)

section lookup
variable {h : Host} {t : Twin M}

theorem DefaultsMirror.step (hd : DefaultsMirror h t) (hm : ∃ pairs, Mirrors h t pairs) {op : Op M}
    (ho : Orderly t op) (hk : KeepsMiss t op) : DefaultsMirror h (Twin.step h t op) := by
  obtain ⟨pairs, hm⟩ := hm
  by_cases hr : (op.apply h t.world.state).ret = .none
  · intro tid
    rw [Twin.step_flows_done hr]
    cases op with
    | create add fid ans =>
      obtain ⟨call, hi, htables⟩ := flowCreate_tables hr
      have htid := (congrArg (fun tables => (tables tid).dflt) htables).trans (install_dflt hi tid)
      rw [Op.flowMod, OfFlow.step, lastDefault_ofRules_append, ← hd tid]
      exact htid
    | modify k is ans =>
      obtain ⟨p, hp, rfl, hb, _⟩ := hm.target ho.target
      have htid := congrArg (fun tables => (tables tid).dflt) (flowModify_tables hb hr)
      rw [Op.flowMod, lastDefault_ofRules_step (.inl ⟨is, rfl⟩) hk, ← hd tid]
      exact htid.trans (dflt_mod _ _ _ _ _ _ tid)
    | delete k ans =>
      obtain ⟨p, hp, rfl, hb, _⟩ := hm.target ho.target
      have htid := congrArg (fun tables => (tables tid).dflt) (flowDelete_tables hb hr)
      rw [Op.flowMod, lastDefault_ofRules_step (.inr rfl) hk, ← hd tid]
      exact htid.trans (dflt_del _ _ _ _ tid)
  · rw [Twin.step_error ho.pipeline hr]
    exact hd

theorem Mirrors.mem_rules {pairs : List (Pair M)} (hm : Mirrors h t pairs) (tid : BitVec 8)
    (r : Rule M PdAction) : r ∈ (t.world.state.plane.tables tid).rules ↔
      r ∈ patterns (ofRules h tid t.flows) := by
  rw [mem_patterns_ofRules]
  constructor
  · rintro ⟨eh, e, he, rfl⟩
    obtain ⟨p, hp, hplace⟩ := hm.owned (tid, eh) (by rw [Plane.entryAt, he]; exact Option.some_ne_none e)
    have hentry := hm.entries p hp
    rw [hplace, Plane.entryAt, he, Pair.entry] at hentry
    refine ⟨p.flow, hm.flows ▸ List.mem_map_of_mem hp, ?_, ?_⟩
    · exact (hm.agree p hp).2.1.trans (congrArg Prod.fst hplace)
    · obtain ⟨mf, hmf, rfl⟩ := Option.map_eq_some_iff.1 hentry.symm
      simp only [OfFlow.rule, hmf, PdEntry.rule, Rule.lift]
  · rintro ⟨g, hg, rfl, hr⟩
    rw [← hm.flows] at hg
    obtain ⟨p, hp, rfl⟩ := List.mem_map.1 hg
    have hentry := hm.entries p hp
    obtain ⟨mf, pr, a⟩ := r
    obtain ⟨hmf, rfl, rfl⟩ := Rule.mk.inj hr
    rw [Pair.entry, OfFlow.entry, hmf, Option.map_some] at hentry
    rw [(hm.agree p hp).2.1]
    exact ⟨p.live.eh, _, hentry, rfl⟩

theorem Mirrors.selects_iff {pairs : List (Pair M)} (hm : Mirrors h t pairs) (hd : DefaultsMirror h t)
    (Matches : M → K → Prop) (tid : BitVec 8) (key : K) (a : PdAction) :
    (t.world.state.plane.tables tid).Selects Matches key a ↔
      (ofTable h tid t.flows).Selects Matches key a := by
  have hrules : (t.world.state.plane.tables tid).rules = {r | r ∈ patterns (ofRules h tid t.flows)} :=
    Set.ext (hm.mem_rules tid)
  rw [ofTable, compile_eq, Table.selects_iff, PdTable.Selects, hrules, hd tid]

end lookup

/-- After any run of orderly flow operations that leaves flows without a match alone, a lookup in a PD
table runs what a lookup by priority among the flows with a match runs, and on a miss the last flow
without one. -/
theorem flowTables_refine (h : Host) (Matches : M → K → Prop) (ops : List (Op M))
    (ho : Along (Twin.step h) Orderly Twin.empty ops)
    (hk : Along (Twin.step h) KeepsMiss Twin.empty ops) :
    let t := run (Twin.step h) Twin.empty ops
    ∀ tid key a, (t.world.state.plane.tables tid).Selects Matches key a ↔
      (ofTable h tid t.flows).Selects Matches key a := by
  have hrun : (∃ pairs, Mirrors h (run (Twin.step h) Twin.empty ops) pairs) ∧
      DefaultsMirror h (run (Twin.step h) Twin.empty ops) := by
    refine run_inv_along (I := fun t => (∃ pairs, Mirrors h t pairs) ∧ DefaultsMirror h t)
      (fun t op hi hop => ⟨Mirrors.step hi.1 hop.1, hi.2.step hi.1 hop.1 hop.2⟩) ?_
      ((along_and _ _).2 ⟨ho, hk⟩)
    exact ⟨⟨[], mirrors_empty h⟩, fun _ => rfl⟩
  obtain ⟨⟨pairs, hm⟩, hd⟩ := hrun
  intro t tid key a
  exact hm.selects_iff hd Matches tid key a

def keyFlowIn (tableId : BitVec 8) (priority : BitVec 16) (key : BitVec 8) : FlowAdd (BitVec 8) :=
  ⟨tableId, priority, 0, 0, 16, .ok key, []⟩

def churn : List (Op (BitVec 8)) :=
  [.create (keyFlowIn 0 7 5) 10 ⟨0, 1, 0, 0⟩, .create (keyFlowIn 0 9 5) 11 ⟨0, 2, 0, 0⟩,
    .delete 11 ⟨0, 0, 0, 0⟩, .create (keyFlowIn 0 3 5) 12 ⟨0, 2, 1, 0⟩, .modify 12 [] ⟨1, 0, 0, 0⟩,
    .create ⟨0, 0, 0, 0, 8, .ok 0, []⟩ 13 ⟨0, 4, 0, 0⟩, .create (keyFlowIn 1 9 5) 14 ⟨0, 1, 0, 0⟩,
    .modify 10 [] ⟨0, 0, 0, 0⟩]

theorem flowTables_refine_churn :
    ((run (Twin.step Host.full) Twin.empty churn).world.state.plane.tables 0).Selects Eq (5 : BitVec 8)
      ⟨10, Host.full.parse []⟩ := by
  refine (flowTables_refine Host.full Eq churn (by decide) (by decide) 0 5 _).2 ?_
  rw [ofTable, compile_eq]
  refine .inl ⟨⟨5, 7, ⟨10, Host.full.parse []⟩⟩, ⟨List.mem_cons_self, rfl, fun q hq _ => ?_⟩, rfl⟩
  rcases List.mem_cons.1 hq with rfl | hq
  · exact le_rfl
  · rw [List.mem_singleton.1 hq]
    decide

end P4OfAgent
