import P4OfAgent.FlowCallbacks
import P4OfAgent.Lib.Priority
import P4OfAgent.Lib.Runs

/-! Table lookup against OpenFlow's priorities. `flow_create` hands the priority of a flow to `add_f`;
a flow with an empty match becomes the default of the table, and its priority is dropped. -/

namespace P4OfAgent
open Priority Runs
variable {M K : Type}

structure Create (M : Type) where
  add : FlowAdd M
  flowId : BitVec 64
  ans : Answers

namespace Create
variable (h : Host) (s : State M) (c : Create M)

def apply : Result M := flowCreate h s c.add c.flowId c.ans

def Succeeds : Prop := (c.apply h s).ret = .none

instance : Decidable (c.Succeeds h s) := inferInstanceAs (Decidable (_ = _))

def flow : Rule (Option M) PdAction :=
  ⟨if c.add.mlen.setWidth 64 - sizeofOfpMatch ≠ 0 then c.add.mf.toOption else none,
    c.add.priority.toNat, ⟨c.add.flowId c.flowId, h.parse c.add.instructions⟩⟩

end Create

def onCall (tid : BitVec 8) (t : Table M PdAction) : Call M → Table M PdAction
  | .add tid' mf args flowId priority _ =>
    if tid' = tid then { t with rules := t.rules ++ [⟨mf, priority.toNat, ⟨flowId, args⟩⟩] } else t
  | .setDef tid' args flowId => if tid' = tid then { t with dflt := some ⟨flowId, args⟩ } else t
  | _ => t

def createCalls (h : Host) : State M → List (Create M) → List (Call M)
  | _, [] => []
  | s, c :: cs => (c.apply h s).calls ++ createCalls h (c.apply h s).state cs

def pdTable (h : Host) (tid : BitVec 8) (creates : List (Create M)) : Table M PdAction :=
  (createCalls h State.empty creates).foldl (onCall tid) .empty

def tableFlows (h : Host) (tid : BitVec 8) (creates : List (Create M)) : List (Rule (Option M) PdAction) :=
  (creates.filter fun c => c.add.tableId = tid).map (Create.flow h)

section create
variable {h : Host} {s : State M} {c : Create M} {tid : BitVec 8}

theorem onCall_install (t : Table M PdAction) {call : Call M}
    (hi : c.add.install h (c.add.flowId c.flowId) (h.parse c.add.instructions) = .ok call) :
    onCall tid t call = if c.add.tableId = tid then t.insert (c.flow h) else t := by
  unfold FlowAdd.install at hi
  unfold Create.flow
  by_cases hm : c.add.mlen.setWidth 64 - sizeofOfpMatch ≠ 0
  · rw [if_pos hm] at hi ⊢
    cases hmf : c.add.mf with
    | error e => simp only [hmf, reduceCtorEq] at hi
    | ok mf =>
      simp only [hmf] at hi
      split_ifs at hi
      obtain rfl := Except.ok.inj hi
      rfl
  · rw [if_neg hm] at hi ⊢
    split_ifs at hi
    obtain rfl := Except.ok.inj hi
    rfl

theorem onCall_create (t : Table M PdAction) (hc : c.Succeeds h s) :
    (c.apply h s).calls.foldl (onCall tid) t =
      if c.add.tableId = tid then t.insert (c.flow h) else t := by
  have hret := hc
  unfold Create.Succeeds Create.apply at hret
  obtain ⟨call, hi, _⟩ := FlowAdd.install_accepted h (c.add.flowId c.flowId)
    (h.parse c.add.instructions) ((flowCreate_ret_iff h s c.ans).1 hret).1
  rw [Create.apply]
  rw [flowCreate_installed h s c.ans hi] at hret ⊢
  rw [callsInTurn_of_ret _ _ _ _ _ hret, List.foldl_cons, onCall_install t hi]
  unfold Answers.unlessSignalled
  split_ifs <;> rfl

theorem createCalls_foldl (creates : List (Create M)) (t : Table M PdAction)
    (hok : Along (fun s c => (Create.apply h s c).state) (fun s c => c.Succeeds h s) s creates) :
    (createCalls h s creates).foldl (onCall tid) t = (tableFlows h tid creates).foldl Table.insert t := by
  induction creates generalizing s t with
  | nil => rfl
  | cons c cs ih =>
    obtain ⟨hc, hcs⟩ := hok
    rw [createCalls, List.foldl_append, onCall_create t hc, ih _ hcs, tableFlows, tableFlows,
      List.filter_cons]
    by_cases ht : c.add.tableId = tid
    · simp only [ht, if_true, decide_true, List.map_cons, List.foldl_cons]
    · simp only [ht, if_false, decide_false, Bool.false_eq_true]

theorem pdTable_eq (creates : List (Create M))
    (hok : Along (fun s c => (Create.apply h s c).state) (fun s c => c.Succeeds h s) State.empty creates) :
    pdTable h tid creates = compile (tableFlows h tid creates) :=
  createCalls_foldl creates .empty hok

end create

/-- Of the flows that successful creates put into a table, the table runs the one that OpenFlow
chooses, at every key where it chooses one, exactly if the default agrees with that choice. -/
theorem flowCreate_lookup_iff (h : Host) (Matches : M → K → Prop) (tid : BitVec 8)
    (creates : List (Create M))
    (hok : Along (fun s c => (Create.apply h s c).state) (fun s c => c.Succeeds h s) State.empty creates) :
    (∀ key f, IsChoice (MatchesOpt Matches) (tableFlows h tid creates) key f →
        ∀ a, (pdTable h tid creates).Selects Matches key a ↔ a = f.action) ↔
      DefaultAgrees Matches (tableFlows h tid creates) := by
  rw [pdTable_eq creates hok]
  exact selects_choice_iff Matches (tableFlows h tid creates)

def keyFlow (priority : BitVec 16) (key : BitVec 8) : FlowAdd (BitVec 8) :=
  ⟨0, priority, 0, 0, 16, .ok key, []⟩

def anyFlow (priority : BitVec 16) : FlowAdd (BitVec 8) := ⟨0, priority, 0, 0, 8, .ok 0, []⟩

def keyThenAny (keyPriority anyPriority : BitVec 16) : List (Create (BitVec 8)) :=
  [⟨keyFlow keyPriority 5, 10, ⟨0, 1, 0, 0⟩⟩, ⟨anyFlow anyPriority, 11, ⟨0, 2, 0, 0⟩⟩]

theorem tableFlows_keyThenAny (keyPriority anyPriority : BitVec 16) :
    tableFlows Host.full 0 (keyThenAny keyPriority anyPriority) =
      [⟨some 5, keyPriority.toNat, ⟨10, Host.full.parse []⟩⟩,
        ⟨none, anyPriority.toNat, ⟨11, Host.full.parse []⟩⟩] := by
  have h16 : (16 : BitVec 16).setWidth 64 - sizeofOfpMatch ≠ 0 := by decide
  have h8 : ¬ (8 : BitVec 16).setWidth 64 - sizeofOfpMatch ≠ 0 := by decide
  simp only [tableFlows, keyThenAny, keyFlow, anyFlow, decide_true, List.filter_cons, List.filter_nil,
    if_true, List.map_cons, List.map_nil, Create.flow, if_pos h16, if_neg h8]
  rfl

theorem flowCreate_lookup_keyFlow :
    (pdTable Host.full 0 (keyThenAny 10 1)).Selects Eq 5 ⟨10, Host.full.parse []⟩ := by
  have hagrees : DefaultAgrees Eq (tableFlows Host.full 0 (keyThenAny 10 1)) := by
    rw [tableFlows_keyThenAny]
    intro key r hr hpat
    have hany : r = ⟨none, 1, ⟨11, Host.full.parse []⟩⟩ := by
      rcases List.mem_cons.1 hr.mem with rfl | hmem
      · exact absurd hpat (Option.some_ne_none _)
      · exact List.mem_singleton.1 hmem
    have hkey : ¬ (5 : BitVec 8) = key := by
      intro hkey
      have hne : ⟨some 5, 10, ⟨10, Host.full.parse []⟩⟩ ≠ r := by
        rw [hany]
        simp
      have hlt := hr.top _ List.mem_cons_self hkey hne
      rw [hany] at hlt
      exact absurd hlt (by decide)
    refine ⟨fun q hq => ?_, fun _ => ?_⟩
    · obtain rfl := List.mem_singleton.1 hq.mem
      exact absurd hq.hit hkey
    · rw [hany]
      rfl
  have hchoice : IsChoice (MatchesOpt Eq) (tableFlows Host.full 0 (keyThenAny 10 1)) 5
      ⟨some 5, 10, ⟨10, Host.full.parse []⟩⟩ := by
    rw [tableFlows_keyThenAny]
    refine ⟨List.mem_cons_self, rfl, fun q hq _ hne => ?_⟩
    rcases List.mem_cons.1 hq with rfl | hq
    · exact absurd rfl hne
    · rw [List.mem_singleton.1 hq]
      decide
  have hlookup := (flowCreate_lookup_iff Host.full Eq 0 (keyThenAny 10 1) (by decide)).2 hagrees
  exact (hlookup 5 _ hchoice _).2 rfl

theorem flowCreate_lookup_anyFlow :
    Along (fun s c => (Create.apply Host.full s c).state) (fun s c => c.Succeeds Host.full s)
        State.empty (keyThenAny 1 10) ∧
      IsChoice (MatchesOpt Eq) (tableFlows Host.full 0 (keyThenAny 1 10)) (5 : BitVec 8)
        ⟨none, 10, ⟨11, Host.full.parse []⟩⟩ ∧
      ¬ (pdTable Host.full 0 (keyThenAny 1 10)).Selects Eq (5 : BitVec 8) ⟨11, Host.full.parse []⟩ := by
  have hok : Along (fun s c => (Create.apply Host.full s c).state) (fun s c => c.Succeeds Host.full s)
      State.empty (keyThenAny 1 10) := by decide
  refine ⟨hok, ?_, ?_⟩
  · rw [tableFlows_keyThenAny]
    refine ⟨List.mem_cons_of_mem _ List.mem_cons_self, trivial, fun q hq _ hne => ?_⟩
    rcases List.mem_cons.1 hq with rfl | hq
    · decide
    · exact absurd (List.mem_singleton.1 hq) hne
  · rw [pdTable_eq _ hok, compile_eq, tableFlows_keyThenAny]
    rintro (⟨r, hr, ha⟩ | ⟨hnone, _⟩)
    · rw [List.mem_singleton.1 hr.mem] at ha
      exact absurd (congrArg PdAction.flowId ha) (by decide)
    · exact hnone _ List.mem_cons_self rfl

end P4OfAgent
