import P4OfAgent.FlowCallbacks
import P4OfAgent.Lib.Runs
import P4OfAgent.Lib.Store

/-! Runs of the flow callbacks. Beside the agent's state a run keeps the flows that are live for the
state manager: those whose `flow_create` succeeded and that no successful `flow_delete` gave up. -/

namespace P4OfAgent
open Function Runs
variable {M : Type}

/-- A live flow. `flowId` and `cookieMask` are what its `flow_create` was called with, `priv` is the
`entry_priv` stored for it, `tid` and `eh` are the table it was created in and the handle obtained
there; `noPipeline` and `args` belong to the last create or modify. -/
structure Flow where
  flowId : BitVec 64
  cookieMask : BitVec 64
  priv : BitVec 64
  tid : BitVec 8
  eh : EntryHdl
  noPipeline : BitVec 8
  args : Parsed

inductive Op (M : Type)
  | create (add : FlowAdd M) (flowId : BitVec 64) (ans : Answers)
  | modify (entryPriv : BitVec 64) (instructions : List Instruction) (ans : Answers)
  | delete (entryPriv : BitVec 64) (ans : Answers)

namespace Op

def answers : Op M → Answers
  | create _ _ ans => ans
  | modify _ _ ans => ans
  | delete _ ans => ans

def Succeeds (op : Op M) : Prop := op.answers.status = 0 ∧ op.answers.pipeline = 0

instance (op : Op M) : Decidable op.Succeeds :=
  inferInstanceAs (Decidable (op.answers.status = 0 ∧ op.answers.pipeline = 0))

def issued : Op M → Option (BitVec 64)
  | create _ fid _ => some fid
  | _ => none

def apply (h : Host) (s : State M) : Op M → Result M
  | create add fid ans => flowCreate h s add fid ans
  | modify k is ans => flowModify h s k is ans
  | delete k ans => flowDelete h s k ans

def track (h : Host) (live : List Flow) : Op M → List Flow
  | create add fid ans => live ++
    [⟨fid, add.cookieMask, add.flowId fid, add.tableId, ans.eh, ans.signal, h.parse add.instructions⟩]
  | modify k is ans => Store.revise Flow.priv k
    (fun f => { f with noPipeline := ans.signal, args := h.parse is }) live
  | delete k _ => Store.drop Flow.priv k live

end Op

structure World (M : Type) where
  state : State M
  live : List Flow

def plainFlow (cookie cookieMask : BitVec 64) : FlowAdd Unit :=
  ⟨0, 0, cookie, cookieMask, 16, .ok (), []⟩

def HandleFresh (w : World M) : Op M → Prop
  | .create add _ ans => ((w.state.plane.tables add.tableId).entries ans.eh).isNone = true
  | _ => True

instance (w : World M) : ∀ op, Decidable (HandleFresh w op)
  | .create .. => inferInstanceAs (Decidable (_ = true))
  | .modify .. => isTrue trivial
  | .delete .. => isTrue trivial

namespace World

def empty : World M := ⟨State.empty, []⟩

def step (h : Host) (w : World M) (op : Op M) : World M :=
  let r := op.apply h w.state
  ⟨r.state, if r.ret = .none then op.track h w.live else w.live⟩

theorem step_state (h : Host) (w : World M) (op : Op M) :
    (step h w op).state = (op.apply h w.state).state := rfl

theorem step_live_done {h : Host} {w : World M} {op : Op M} (hr : (op.apply h w.state).ret = .none) :
    (step h w op).live = op.track h w.live := if_pos hr

theorem step_live_error {h : Host} {w : World M} {op : Op M}
    (hr : (op.apply h w.state).ret ≠ .none) : (step h w op).live = w.live := if_neg hr

end World

section apply
variable (h : Host) (s : State M) (op : Op M)

theorem not_isTable_of_unlessSignalled {ans : Answers} {p q : Call M} (hp : p.isTable = false)
    (hq : q ∈ ans.unlessSignalled p) : q.isTable = false := by
  unfold Answers.unlessSignalled at hq
  split_ifs at hq
  · exact Option.some.inj hq ▸ hp
  · exact absurd hq (Option.not_mem_none q)

/-- Each operation is refused without a backend call, or calls a table function and then perhaps a
pipeline function. -/
theorem apply_shape :
    (∃ e, e ≠ .none ∧ op.apply h s = ⟨e, [], s⟩) ∨
    ∃ ids call pcall, op.apply h s = callsInTurn s ids op.answers call pcall ∧
      call.isTable = true ∧ ∀ p ∈ pcall, p.isTable = false := by
  cases op with
  | create add fid ans =>
    cases ha : add.accepted h with
    | false =>
      obtain ⟨e, he, hi⟩ := FlowAdd.install_refused h (add.flowId fid) (h.parse add.instructions) ha
      exact .inl ⟨e, he, flowCreate_refused h s ans hi⟩
    | true =>
      obtain ⟨call, hi, hc⟩ :=
        FlowAdd.install_accepted h (add.flowId fid) (h.parse add.instructions) ha
      exact .inr ⟨_, call, _, flowCreate_installed h s ans hi, hc,
        fun _ => not_isTable_of_unlessSignalled rfl⟩
  | modify k is ans =>
    cases hb : s.ids.binding k with
    | none => exact .inl ⟨_, IndigoError.noConfusion, flowModify_notFound h s ans is hb⟩
    | some b =>
      cases hm : h.mods b.2 with
      | false => exact .inl ⟨_, IndigoError.noConfusion, flowModify_unregistered h s ans is hb hm⟩
      | true =>
        exact .inr ⟨_, _, _, flowModify_bound h s ans is hb hm, rfl,
          fun _ => not_isTable_of_unlessSignalled rfl⟩
  | delete k ans =>
    cases hb : s.ids.binding k with
    | none => exact .inl ⟨_, IndigoError.noConfusion, flowDelete_notFound h s ans hb⟩
    | some b =>
      cases hd : h.dels b.2 with
      | false => exact .inl ⟨_, IndigoError.noConfusion, flowDelete_unregistered h s ans hb hd⟩
      | true =>
        exact .inr ⟨_, _, _, flowDelete_bound h s ans hb hd, rfl,
          fun p hp => Option.some.inj hp ▸ rfl⟩

theorem apply_error (hr : (op.apply h s).ret ≠ .none) :
    ((op.apply h s).calls.length ≤ 1 ∧ (op.apply h s).state = s) ∨
    op.answers.status = 0 ∧ op.answers.pipeline ≠ 0 ∧ ∃ call p : Call M,
      call.isTable = true ∧ p.isTable = false ∧ (op.apply h s).calls = [call, p] ∧
      (op.apply h s).state = ⟨s.ids, s.plane.effect op.answers.eh call⟩ := by
  rcases apply_shape h s op with ⟨e, _, he⟩ | ⟨ids, call, pcall, he, hc, hp⟩
  · rw [he]
    exact .inl ⟨Nat.zero_le 1, rfl⟩
  · rw [he] at hr ⊢
    rcases callsInTurn_error s ids op.answers call pcall hr with hu | ⟨hs, hf, p, hpm, hu⟩
    · rw [hu]
      exact .inl ⟨le_rfl, rfl⟩
    · rw [hu]
      exact .inr ⟨hs, hf, call, p, hc, hp p hpm, rfl, rfl⟩

theorem apply_error_ids (hr : (op.apply h s).ret ≠ .none) : (op.apply h s).state.ids = s.ids := by
  rcases apply_error h s op hr with ⟨_, hs⟩ | ⟨_, _, _, _, _, _, _, hs⟩ <;> rw [hs]

theorem apply_ids (hr : (op.apply h s).ret = .none) :
    (op.apply h s).state.ids = match op with
      | .create add fid ans => s.ids.record (add.flowId fid) ans.eh add.tableId
      | _ => s.ids := by
  cases op with
  | create add fid ans =>
    obtain ⟨_, call, _, he⟩ := flowCreate_done h s ans hr
    exact congrArg (·.state.ids) he
  | modify k is ans =>
    obtain ⟨_, _, _, _, he⟩ := flowModify_done h s ans hr
    exact congrArg (·.state.ids) he
  | delete k ans =>
    obtain ⟨_, _, _, _, he⟩ := flowDelete_done h s ans hr
    exact congrArg (·.state.ids) he

theorem create_ret_iff {add : FlowAdd M} {fid : BitVec 64} {ans : Answers} (hs : ans.status = 0)
    (hp : ans.pipeline = 0) : (flowCreate h s add fid ans).ret = .none ↔ add.accepted h = true := by
  rw [flowCreate_ret_iff]
  exact and_iff_left ⟨hs, fun _ => hp⟩

end apply

/-! ## Flows are filed once -/

structure Filing where
  priv : BitVec 64
  tid : BitVec 8
  eh : EntryHdl
deriving DecidableEq

def Flow.filing (f : Flow) : Filing := ⟨f.priv, f.tid, f.eh⟩

def Op.filing (h : Host) : Op M → Option Filing
  | create add fid ans =>
    if add.accepted h = true ∧ ans.CreateOk then some ⟨add.flowId fid, add.tableId, ans.eh⟩ else none
  | _ => none

section filing
variable {h : Host} {w : World M} {op : Op M}

theorem live_of_filing {e : Filing} (he : op.filing h = some e) :
    ∃ f, (World.step h w op).live = w.live ++ [f] ∧ f.filing = e := by
  cases op with
  | create add fid ans =>
    simp only [Op.filing, Option.ite_none_right_eq_some] at he
    have hr : ((Op.create add fid ans).apply h w.state).ret = .none :=
      (flowCreate_ret_iff h w.state ans).2 he.1
    exact ⟨_, World.step_live_done hr, Option.some.inj he.2⟩
  | modify k is ans => exact absurd he (Option.some_ne_none e).symm
  | delete k ans => exact absurd he (Option.some_ne_none e).symm

theorem filing_of_mem_step {f : Flow} (hf : f ∈ (World.step h w op).live) :
    (∃ g ∈ w.live, g.filing = f.filing) ∨ op.filing h = some f.filing := by
  by_cases hr : (op.apply h w.state).ret = .none
  · rw [World.step_live_done hr] at hf
    cases op with
    | create add fid ans =>
      rcases List.mem_append.1 hf with hf | hf
      · exact .inl ⟨f, hf, rfl⟩
      · refine .inr ?_
        rw [List.mem_singleton.1 hf]
        exact if_pos ((flowCreate_ret_iff h w.state ans).1 hr)
    | modify k is ans =>
      obtain ⟨g, hg, rfl⟩ := List.mem_map.1 hf
      exact .inl ⟨g, hg, by split_ifs <;> rfl⟩
    | delete k ans => exact .inl ⟨f, Store.mem_of_mem_drop hf, rfl⟩
  · rw [World.step_live_error hr] at hf
    exact .inl ⟨f, hf, rfl⟩

end filing
end P4OfAgent
