import P4OfAgent.FlowRuns

/-! What an operation that reports an error leaves behind. There is no rollback: an error of the
pipeline call finds the table call already done. -/

namespace P4OfAgent
open Function Runs
variable {M : Type}

structure ErrorFrame (s : State M) (ans : Answers) (r : Result M) : Prop where
  ids : r.state.ids = s.ids
  pipeline : r.state.plane.pipeline = s.plane.pipeline
  early : r.calls.length ≤ 1 → r.state = s
  /-- Otherwise the table call succeeded, the pipeline call failed, and the effect of the table call
  is what remains. -/
  late : 1 < r.calls.length → ans.status = 0 ∧ ans.pipeline ≠ 0 ∧ ∃ call p : Call M,
    call.isTable = true ∧ p.isTable = false ∧ r.calls = [call, p] ∧
      r.state.plane = s.plane.effect ans.eh call

theorem apply_errorFrame (h : Host) (s : State M) (op : Op M)
    (hr : (op.apply h s).ret ≠ .none) : ErrorFrame s op.answers (op.apply h s) := by
  rcases apply_error h s op hr with ⟨hl, hs⟩ | ⟨hst, hpl, call, p, hc, hp, hcalls, hs⟩
  · refine ⟨by rw [hs], by rw [hs], fun _ => hs, fun hl' => ?_⟩
    exact absurd hl (not_le.2 hl')
  · have hlen : (op.apply h s).calls.length = 2 := by rw [hcalls]; rfl
    refine ⟨by rw [hs], ?_, fun hl => ?_, fun _ => ?_⟩
    · rw [hs]
      exact effect_pipeline call s.plane _ hc
    · exact absurd (hlen ▸ hl) (by decide)
    · exact ⟨hst, hpl, call, p, hc, hp, hcalls, by rw [hs]⟩

theorem flowCreate_halfway :
    let r := flowCreate Host.full State.empty (plainFlow 0 0) 10 ⟨0, 7, 0, 1⟩
    r.ret ≠ .none ∧ r.state ≠ State.empty := by
  refine ⟨by decide, fun hs => ?_⟩
  have he := congrArg (fun s : State Unit => ((s.plane.tables 0).entries 7).isSome) hs
  exact absurd he (by decide)

theorem apply_errorFrame_create :
    ErrorFrame State.empty ⟨0, 7, 0, 1⟩
      ((Op.create (plainFlow 0 0) 10 ⟨0, 7, 0, 1⟩).apply Host.full State.empty) :=
  apply_errorFrame Host.full State.empty (.create (plainFlow 0 0) 10 ⟨0, 7, 0, 1⟩) (by decide)

end P4OfAgent
