import P4OfAgent.State

/-! `flow_create`, `flow_modify` and `flow_delete` of `callbacks.c`. -/

namespace P4OfAgent
variable {M : Type}

/-- The fields of `of_flow_add_t` that `flow_create` reads. `mlen` is what `of_match_bytes` gives for
the encoded match, `mf` the outcome of `of_flow_add_match_get`. -/
structure FlowAdd (M : Type) where
  tableId : BitVec 8
  priority : BitVec 16
  cookie : BitVec 64
  cookieMask : BitVec 64
  mlen : BitVec 16
  mf : Except Nat M
  instructions : List Instruction

/-- What the backend answers during one callback: the status of the table function, the entry handle
and the `no_pipeline` signal it leaves, and the status of the pipeline function. -/
structure Answers where
  status : Int
  eh : EntryHdl
  signal : BitVec 8
  pipeline : Int
deriving DecidableEq

structure Result (M : Type) where
  ret : IndigoError
  calls : List (Call M)
  state : State M

def sizeofOfpMatch : BitVec 64 := 8

/-- The id under which `flow_create` files a flow, which it also stores in `*entry_priv`. -/
def FlowAdd.flowId (add : FlowAdd M) (flowId : BitVec 64) : BitVec 64 :=
  if add.cookieMask ≠ 0 then add.cookie ||| add.cookieMask else flowId

/-- The call that installs the flow: `add_f` for a match with fields, `def_f` for an empty one. -/
def FlowAdd.install (h : Host) (add : FlowAdd M) (flowId : BitVec 64) (ac : Parsed) :
    Except IndigoError (Call M) :=
  if add.mlen.setWidth 64 - sizeofOfpMatch ≠ 0 then
    match add.mf with
    | .error status => .error (.loci status)
    | .ok mf =>
      if h.adds add.tableId then .ok (.add add.tableId mf ac flowId add.priority 3)
      else .error .badTableId
  else if h.defs add.tableId then .ok (.setDef add.tableId ac flowId)
  else .error .badTableId

def flowCreate (h : Host) (s : State M) (add : FlowAdd M) (flowId : BitVec 64) (ans : Answers) :
    Result M :=
  let flowId := add.flowId flowId
  let ac := parseInstructions h.toMachine add.instructions Parsed.empty
  match add.install h flowId ac with
  | .error e => ⟨e, [], s⟩
  | .ok call =>
    if ans.status ≠ 0 then ⟨.unknown, [call], s⟩
    else
      let plane := s.plane.effect ans.eh call
      let ids := (s.ids.entryHdlSet flowId ans.eh).tableIdSet flowId add.tableId
      if ans.signal = 0 then
        let pcall := .pipelineAdd flowId ac
        if ans.pipeline ≠ 0 then ⟨.unknown, [call, pcall], ⟨s.ids, plane⟩⟩
        else ⟨.none, [call, pcall], ⟨ids, plane.effect ans.eh pcall⟩⟩
      else ⟨.none, [call], ⟨ids, plane⟩⟩

/-- `flow_modify`; the table id of the message is overwritten before it is used. -/
def flowModify (h : Host) (s : State M) (entryPriv : BitVec 64) (instructions : List Instruction)
    (ans : Answers) : Result M :=
  let ac := parseInstructions h.toMachine instructions Parsed.empty
  match s.ids.entryHdlGet entryPriv, s.ids.tableIdGet entryPriv with
  | some eh, some tid =>
    if h.mods tid then
      let call := .mod tid ac entryPriv eh
      if ans.status ≠ 0 then ⟨.unknown, [call], s⟩
      else
        let plane := s.plane.effect ans.eh call
        if ans.signal = 0 then
          let pcall := .pipelineMod entryPriv ac
          if ans.pipeline ≠ 0 then ⟨.unknown, [call, pcall], ⟨s.ids, plane⟩⟩
          else ⟨.none, [call, pcall], ⟨s.ids, plane.effect ans.eh pcall⟩⟩
        else ⟨.none, [call], ⟨s.ids, plane⟩⟩
    else ⟨.badTableId, [], s⟩
  | _, _ => ⟨.notFound, [], s⟩

def flowDelete (h : Host) (s : State M) (entryPriv : BitVec 64) (ans : Answers) : Result M :=
  match s.ids.entryHdlGet entryPriv, s.ids.tableIdGet entryPriv with
  | some eh, some tid =>
    if h.dels tid then
      let call := .del tid eh
      if ans.status ≠ 0 then ⟨.unknown, [call], s⟩
      else
        let plane := s.plane.effect ans.eh call
        let pcall := .pipelineDel entryPriv
        if ans.pipeline ≠ 0 then ⟨.unknown, [call, pcall], ⟨s.ids, plane⟩⟩
        else ⟨.none, [call, pcall], ⟨s.ids, plane.effect ans.eh pcall⟩⟩
    else ⟨.badTableId, [], s⟩
  | _, _ => ⟨.notFound, [], s⟩

/-! ## What one callback can do

A callback is refused before it reaches the backend, or makes one call on the PD tables and then at
most one on the pipeline store, and leaves by the first that fails. -/

def callsInTurn (s : State M) (ids : FlowIds) (ans : Answers) (call : Call M)
    (pcall : Option (Call M)) : Result M :=
  if ans.status ≠ 0 then ⟨.unknown, [call], s⟩
  else
    let plane := s.plane.effect ans.eh call
    match pcall with
    | none => ⟨.none, [call], ⟨ids, plane⟩⟩
    | some p =>
      if ans.pipeline ≠ 0 then ⟨.unknown, [call, p], ⟨s.ids, plane⟩⟩
      else ⟨.none, [call, p], ⟨ids, plane.effect ans.eh p⟩⟩

def Answers.unlessSignalled (ans : Answers) (p : Call M) : Option (Call M) :=
  if ans.signal = 0 then some p else none

def Call.isTable : Call M → Bool
  | .pipelineAdd .. | .pipelineMod .. | .pipelineDel .. => false
  | _ => true

def FlowAdd.accepted (h : Host) (add : FlowAdd M) : Bool :=
  if add.mlen.setWidth 64 - sizeofOfpMatch ≠ 0 then add.mf.isOk && h.adds add.tableId
  else h.defs add.tableId

def Plane.effects (d : Plane M) (eh : EntryHdl) (calls : List (Call M)) : Plane M :=
  calls.foldl (fun d c => d.effect eh c) d

section spec
variable (h : Host) (s : State M) (ids : FlowIds) (ans : Answers) (call : Call M)
  (pcall : Option (Call M))

theorem effect_pipeline (d : Plane M) (eh : EntryHdl) (hc : call.isTable = true) :
    (d.effect eh call).pipeline = d.pipeline := by
  cases call <;> first | rfl | exact absurd hc Bool.false_ne_true

theorem effect_pipeline_congr {d d' : Plane M} (eh : EntryHdl) (hd : d.pipeline = d'.pipeline) :
    (d.effect eh call).pipeline = (d'.effect eh call).pipeline := by
  cases call <;> simp only [Plane.effect, Plane.onTable, hd]

theorem effects_pipeline (d : Plane M) (eh : EntryHdl) (hc : call.isTable = true) :
    (d.effects eh (call :: pcall.toList)).pipeline =
      pcall.elim d.pipeline fun p => (d.effect eh p).pipeline := by
  cases pcall with
  | none => exact effect_pipeline call d eh hc
  | some p => exact effect_pipeline_congr p eh (effect_pipeline call d eh hc)

theorem callsInTurn_of_ret (hr : (callsInTurn s ids ans call pcall).ret = .none) :
    callsInTurn s ids ans call pcall =
      ⟨.none, call :: pcall.toList, ⟨ids, s.plane.effects ans.eh (call :: pcall.toList)⟩⟩ := by
  cases pcall with
  | none =>
    simp only [callsInTurn] at hr ⊢
    split_ifs at hr ⊢
    rfl
  | some p =>
    simp only [callsInTurn] at hr ⊢
    split_ifs at hr ⊢
    rfl

theorem callsInTurn_ret_iff : (callsInTurn s ids ans call pcall).ret = .none ↔
    ans.status = 0 ∧ (pcall.isSome = true → ans.pipeline = 0) := by
  by_cases hs : ans.status = 0
  · cases pcall with
    | none => simp only [callsInTurn, hs, ne_eq, not_true_eq_false, if_false, Option.isSome_none,
        Bool.false_eq_true, false_implies, and_self]
    | some p =>
      by_cases hp : ans.pipeline = 0
      · simp only [callsInTurn, hs, hp, ne_eq, not_true_eq_false, if_false, implies_true, and_self]
      · simp only [callsInTurn, hs, hp, ne_eq, not_true_eq_false, if_false, not_false_eq_true, if_true,
          Option.isSome_some, imp_false, and_false, reduceCtorEq]
  · simp only [callsInTurn, hs, ne_eq, not_false_eq_true, if_true, false_and, reduceCtorEq]

theorem callsInTurn_ret (hs : ans.status = 0) (hp : ans.pipeline = 0) :
    (callsInTurn s ids ans call pcall).ret = .none :=
  (callsInTurn_ret_iff s ids ans call pcall).2 ⟨hs, fun _ => hp⟩

theorem callsInTurn_tableCalls (hc : call.isTable = true) (hp : ∀ p ∈ pcall, p.isTable = false) :
    (callsInTurn s ids ans call pcall).calls.filter Call.isTable = [call] := by
  cases pcall with
  | none =>
    simp only [callsInTurn]
    split_ifs <;> simp only [List.filter_cons_of_pos hc, List.filter_nil]
  | some p =>
    have hpt : ¬ p.isTable = true := by simp only [hp p rfl, Bool.false_eq_true, not_false_eq_true]
    simp only [callsInTurn]
    split_ifs <;> simp only [List.filter_cons_of_pos hc, List.filter_cons_of_neg hpt, List.filter_nil]

theorem callsInTurn_error (hr : (callsInTurn s ids ans call pcall).ret ≠ .none) :
    callsInTurn s ids ans call pcall = ⟨.unknown, [call], s⟩ ∨
    ans.status = 0 ∧ ans.pipeline ≠ 0 ∧ ∃ p ∈ pcall, callsInTurn s ids ans call pcall =
      ⟨.unknown, [call, p], ⟨s.ids, s.plane.effect ans.eh call⟩⟩ := by
  cases pcall with
  | none =>
    simp only [callsInTurn] at hr ⊢
    split_ifs at hr ⊢
    · exact .inl rfl
    · exact absurd rfl hr
  | some p =>
    simp only [callsInTurn] at hr ⊢
    split_ifs at hr ⊢ with hs hp
    · exact .inl rfl
    · exact .inr ⟨not_not.1 hs, hp, p, rfl, rfl⟩
    · exact absurd rfl hr

abbrev Host.parse (h : Host) (is : List Instruction) : Parsed :=
  parseInstructions h.toMachine is Parsed.empty

theorem FlowAdd.install_accepted {add : FlowAdd M} (k : BitVec 64) (ac : Parsed)
    (ha : add.accepted h = true) : ∃ call, add.install h k ac = .ok call ∧ call.isTable = true := by
  unfold FlowAdd.accepted at ha
  unfold FlowAdd.install
  by_cases hm : add.mlen.setWidth 64 - sizeofOfpMatch ≠ 0
  · rw [if_pos hm, Bool.and_eq_true_iff] at ha
    rw [if_pos hm]
    cases hmf : add.mf with
    | error e =>
      rw [hmf] at ha
      exact absurd ha.1 Bool.false_ne_true
    | ok mf => exact ⟨_, if_pos ha.2, rfl⟩
  · rw [if_neg hm] at ha ⊢
    exact ⟨_, if_pos ha, rfl⟩

theorem FlowAdd.install_refused {add : FlowAdd M} (k : BitVec 64) (ac : Parsed)
    (ha : add.accepted h = false) : ∃ e, e ≠ .none ∧ add.install h k ac = .error e := by
  unfold FlowAdd.accepted at ha
  unfold FlowAdd.install
  by_cases hm : add.mlen.setWidth 64 - sizeofOfpMatch ≠ 0
  · rw [if_pos hm, Bool.and_eq_false_iff] at ha
    rw [if_pos hm]
    cases hmf : add.mf with
    | error e => exact ⟨.loci e, IndigoError.noConfusion, rfl⟩
    | ok mf =>
      rw [hmf] at ha
      rcases ha with ha | ha
      · exact absurd ha Bool.noConfusion
      · exact ⟨.badTableId, IndigoError.noConfusion, if_neg (Bool.eq_false_iff.1 ha)⟩
  · rw [if_neg hm] at ha ⊢
    exact ⟨.badTableId, IndigoError.noConfusion, if_neg (Bool.eq_false_iff.1 ha)⟩

theorem flowCreate_refused {add : FlowAdd M} {fid : BitVec 64} {e : IndigoError}
    (hi : add.install h (add.flowId fid) (h.parse add.instructions) = .error e) :
    flowCreate h s add fid ans = ⟨e, [], s⟩ := by
  simp only [flowCreate, hi]

theorem flowCreate_installed {add : FlowAdd M} {fid : BitVec 64} {call : Call M}
    (hi : add.install h (add.flowId fid) (h.parse add.instructions) = .ok call) :
    flowCreate h s add fid ans =
      callsInTurn s (s.ids.record (add.flowId fid) ans.eh add.tableId) ans call
        (ans.unlessSignalled (.pipelineAdd (add.flowId fid) (h.parse add.instructions))) := by
  simp only [flowCreate, hi, callsInTurn, Answers.unlessSignalled]
  split_ifs <;> rfl

theorem flowModify_notFound {k : BitVec 64} (is : List Instruction)
    (hb : s.ids.binding k = none) : flowModify h s k is ans = ⟨.notFound, [], s⟩ := by
  unfold flowModify
  split
  · rename_i eh tid he ht
    rw [(s.ids.binding_eq_some k).2 ⟨he, ht⟩] at hb
    exact absurd hb (Option.some_ne_none _)
  · rfl

theorem flowModify_unregistered {k : BitVec 64} (is : List Instruction) {eh : EntryHdl}
    {tid : BitVec 8} (hb : s.ids.binding k = some (eh, tid)) (hm : h.mods tid = false) :
    flowModify h s k is ans = ⟨.badTableId, [], s⟩ := by
  obtain ⟨he, ht⟩ := (s.ids.binding_eq_some k).1 hb
  simp only [flowModify, he, ht, hm, Bool.false_eq_true, if_false]

theorem flowModify_bound {k : BitVec 64} (is : List Instruction) {eh : EntryHdl} {tid : BitVec 8}
    (hb : s.ids.binding k = some (eh, tid)) (hm : h.mods tid = true) :
    flowModify h s k is ans = callsInTurn s s.ids ans (.mod tid (h.parse is) k eh)
      (ans.unlessSignalled (.pipelineMod k (h.parse is))) := by
  obtain ⟨he, ht⟩ := (s.ids.binding_eq_some k).1 hb
  simp only [flowModify, he, ht, hm, if_true, callsInTurn, Answers.unlessSignalled]
  split_ifs <;> rfl

theorem flowDelete_notFound {k : BitVec 64} (hb : s.ids.binding k = none) :
    flowDelete h s k ans = ⟨.notFound, [], s⟩ := by
  unfold flowDelete
  split
  · rename_i eh tid he ht
    rw [(s.ids.binding_eq_some k).2 ⟨he, ht⟩] at hb
    exact absurd hb (Option.some_ne_none _)
  · rfl

theorem flowDelete_unregistered {k : BitVec 64} {eh : EntryHdl} {tid : BitVec 8}
    (hb : s.ids.binding k = some (eh, tid)) (hd : h.dels tid = false) :
    flowDelete h s k ans = ⟨.badTableId, [], s⟩ := by
  obtain ⟨he, ht⟩ := (s.ids.binding_eq_some k).1 hb
  simp only [flowDelete, he, ht, hd, Bool.false_eq_true, if_false]

theorem flowDelete_bound {k : BitVec 64} {eh : EntryHdl} {tid : BitVec 8}
    (hb : s.ids.binding k = some (eh, tid)) (hd : h.dels tid = true) :
    flowDelete h s k ans = callsInTurn s s.ids ans (.del tid eh) (some (.pipelineDel k)) := by
  obtain ⟨he, ht⟩ := (s.ids.binding_eq_some k).1 hb
  simp only [flowDelete, he, ht, hd, if_true, callsInTurn]

/-! Inversion: what is known of a callback that returned `INDIGO_ERROR_NONE`. -/

theorem flowCreate_done {add : FlowAdd M} {fid : BitVec 64}
    (hr : (flowCreate h s add fid ans).ret = .none) :
    add.accepted h = true ∧ ∃ call : Call M, call.isTable = true ∧
      flowCreate h s add fid ans =
        let calls := call ::
          (ans.unlessSignalled (.pipelineAdd (add.flowId fid) (h.parse add.instructions))).toList
        ⟨.none, calls, ⟨s.ids.record (add.flowId fid) ans.eh add.tableId,
          s.plane.effects ans.eh calls⟩⟩ := by
  cases ha : add.accepted h with
  | false =>
    obtain ⟨e, he, hi⟩ := FlowAdd.install_refused h (add.flowId fid) (h.parse add.instructions) ha
    rw [flowCreate_refused h s ans hi] at hr
    exact absurd hr he
  | true =>
    obtain ⟨call, hi, hc⟩ :=
      FlowAdd.install_accepted h (add.flowId fid) (h.parse add.instructions) ha
    rw [flowCreate_installed h s ans hi] at hr ⊢
    exact ⟨rfl, call, hc, callsInTurn_of_ret _ _ _ _ _ hr⟩

def Answers.CreateOk (ans : Answers) : Prop :=
  ans.status = 0 ∧ (ans.signal = 0 → ans.pipeline = 0)

instance (ans : Answers) : Decidable ans.CreateOk :=
  inferInstanceAs (Decidable (ans.status = 0 ∧ (ans.signal = 0 → ans.pipeline = 0)))

theorem flowCreate_ret_iff {add : FlowAdd M} {fid : BitVec 64} :
    (flowCreate h s add fid ans).ret = .none ↔ add.accepted h = true ∧ ans.CreateOk := by
  cases ha : add.accepted h with
  | false =>
    obtain ⟨e, he, hi⟩ := FlowAdd.install_refused h (add.flowId fid) (h.parse add.instructions) ha
    rw [flowCreate_refused h s ans hi]
    exact iff_of_false he fun h => Bool.false_ne_true h.1
  | true =>
    obtain ⟨call, hi, _⟩ := FlowAdd.install_accepted h (add.flowId fid) (h.parse add.instructions) ha
    have hsignal : ∀ p : Call M, (ans.unlessSignalled p).isSome = true ↔ ans.signal = 0 := by
      intro p
      unfold Answers.unlessSignalled
      by_cases hs : ans.signal = 0
      · simp only [hs, if_true, Option.isSome_some]
      · simp only [hs, if_false, Option.isSome_none, Bool.false_eq_true]
    rw [flowCreate_installed h s ans hi, callsInTurn_ret_iff, hsignal, Answers.CreateOk]
    exact (and_iff_right rfl).symm

theorem flowModify_done {k : BitVec 64} {is : List Instruction}
    (hr : (flowModify h s k is ans).ret = .none) :
    ∃ eh tid, s.ids.binding k = some (eh, tid) ∧ h.mods tid = true ∧
      flowModify h s k is ans =
        let calls := .mod tid (h.parse is) k eh ::
          (ans.unlessSignalled (.pipelineMod k (h.parse is))).toList
        ⟨.none, calls, ⟨s.ids, s.plane.effects ans.eh calls⟩⟩ := by
  cases hb : s.ids.binding k with
  | none =>
    rw [flowModify_notFound h s ans is hb] at hr
    exact IndigoError.noConfusion hr
  | some b =>
    obtain ⟨eh, tid⟩ := b
    cases hm : h.mods tid with
    | false =>
      rw [flowModify_unregistered h s ans is hb hm] at hr
      exact IndigoError.noConfusion hr
    | true =>
      rw [flowModify_bound h s ans is hb hm] at hr ⊢
      exact ⟨eh, tid, rfl, hm, callsInTurn_of_ret _ _ _ _ _ hr⟩

theorem flowDelete_done {k : BitVec 64} (hr : (flowDelete h s k ans).ret = .none) :
    ∃ eh tid, s.ids.binding k = some (eh, tid) ∧ h.dels tid = true ∧
      flowDelete h s k ans =
        let calls := [.del tid eh, .pipelineDel k]
        ⟨.none, calls, ⟨s.ids, s.plane.effects ans.eh calls⟩⟩ := by
  cases hb : s.ids.binding k with
  | none =>
    rw [flowDelete_notFound h s ans hb] at hr
    exact IndigoError.noConfusion hr
  | some b =>
    obtain ⟨eh, tid⟩ := b
    cases hd : h.dels tid with
    | false =>
      rw [flowDelete_unregistered h s ans hb hd] at hr
      exact IndigoError.noConfusion hr
    | true =>
      rw [flowDelete_bound h s ans hb hd] at hr ⊢
      exact ⟨eh, tid, rfl, hd, callsInTurn_of_ret _ _ _ _ _ hr⟩

end spec
end P4OfAgent
