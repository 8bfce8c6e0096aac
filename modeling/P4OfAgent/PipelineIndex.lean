import P4OfAgent.FlowRuns
import P4OfAgent.OfpatTables

/-! Flow ids in the data plane. The id a flow is filed under has 64 bits in the agent and 32 bits in
`openflow_metadata.index`, which ties a packet to the flow's entries in the `ofpat` tables. -/

namespace P4OfAgent
open Function Runs
variable {M : Type}

/-- What the plugin writes into the flow's `openflow_apply` entry and its pipeline entries. -/
def Flow.index (f : Flow) : BitVec 32 := f.priv.setWidth 32

/-- The pipeline entries of a flow read its index; group and port are invalid in their key. -/
def Flow.Matches {w : Nat} (f : Flow) (key : P4.Key w) : Prop := key.index = f.index

def IndicesApart (w : World M) : Prop :=
  ∀ f ∈ w.live, ∀ g ∈ w.live, f.priv ≠ g.priv → f.index ≠ g.index ∧
    ∀ (bits m : Nat) (p : P4.OfPacket bits m) (bmap groupId : BitVec 32),
      ¬ g.Matches (p.openflowApply bmap f.index groupId).ingressKey ∧
        ¬ g.Matches (p.openflowApply bmap f.index groupId).egressKey

def IndexFresh (h : Host) (w : World M) (op : Op M) : Prop :=
  ∀ e ∈ op.filing h, ∀ f ∈ w.live, f.priv ≠ e.priv → f.index ≠ e.priv.setWidth 32

theorem indicesApart_iff (w : World M) : IndicesApart w ↔
    ∀ f ∈ w.live, ∀ g ∈ w.live, f.priv ≠ g.priv → f.index ≠ g.index := by
  constructor
  · intro h f hf g hg hne
    exact (h f hf g hg hne).1
  · intro h f hf g hg hne
    exact ⟨h f hf g hg hne, fun _ _ _ _ _ => ⟨h f hf g hg hne, h f hf g hg hne⟩⟩

section step
variable {h : Host} {w : World M} {op : Op M}

theorem IndicesApart.step (hw : IndicesApart w) (hfresh : IndexFresh h w op) :
    IndicesApart (World.step h w op) := by
  rw [indicesApart_iff] at hw ⊢
  have hpriv : ∀ {f g : Flow}, g.filing = f.filing → g.priv = f.priv := fun h => congrArg Filing.priv h
  intro f hf g hg hne
  unfold Flow.index
  rcases filing_of_mem_step hf with ⟨f', hf', hff⟩ | hfe <;>
    rcases filing_of_mem_step hg with ⟨g', hg', hgg⟩ | hge
  · rw [← hpriv hff, ← hpriv hgg] at hne ⊢
    exact hw f' hf' g' hg' hne
  · rw [← hpriv hff] at hne ⊢
    exact hfresh _ hge f' hf' hne
  · rw [← hpriv hgg] at hne ⊢
    exact (hfresh _ hfe g' hg' hne.symm).symm
  · exact absurd (hpriv (Option.some.inj (hfe.symm.trans hge))) hne

theorem IndexFresh.of_step (hw : IndicesApart (World.step h w op)) : IndexFresh h w op := by
  rw [indicesApart_iff] at hw
  intro e he f hf hne
  obtain ⟨g, hlive, rfl⟩ := live_of_filing (w := w) he
  rw [hlive] at hw
  exact hw f (List.mem_append_left [g] hf) g (List.mem_append_right w.live List.mem_cons_self) hne

end step

theorem indicesApart_empty : IndicesApart (World.empty : World M) :=
  fun _ hf => absurd hf List.not_mem_nil

theorem indicesApart_iff_fresh (h : Host) (ops : List (Op M)) :
    (∀ pre, pre <+: ops → IndicesApart (run (World.step h) World.empty pre)) ↔
      Along (World.step h) (IndexFresh h) World.empty ops := by
  refine reached_iff IndicesApart _ (fun _ hw => hw) (fun w op _ _ hapart => ?_)
    (fun w op hw _ hfresh => ?_) indicesApart_empty (along_true _ _)
  · exact .of_step hapart
  · exact hw.step hfresh

def wideRun : List (Op Unit) :=
  [.create (plainFlow 0 0) 1 ⟨0, 1, 0, 0⟩, .create (plainFlow 0 0) 0x100000001 ⟨0, 2, 0, 0⟩]

theorem indicesApart_wideRun :
    (∀ op ∈ wideRun, op.Succeeds) ∧
      ¬ IndicesApart (run (World.step Host.full) World.empty wideRun) := by
  refine ⟨by decide, fun hw => ?_⟩
  rw [indicesApart_iff] at hw
  exact absurd hw (by decide)

end P4OfAgent
