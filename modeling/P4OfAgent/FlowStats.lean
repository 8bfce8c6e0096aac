import P4OfAgent.FlowRuns

/-! `flow_stats_get` of `callbacks.c`. The counter functions take an entry handle, and what they are
given is the flow id. -/

namespace P4OfAgent
open Runs
variable {M : Type}

/-- The per-flow counter functions that `openflow_init` registered, by table id. -/
structure Counters where
  packets : BitVec 64 → Option (EntryHdl → BitVec 64)
  bytes : BitVec 64 → Option (EntryHdl → BitVec 64)

structure FlowStats where
  packets : BitVec 64
  bytes : BitVec 64

structure StatsResult where
  ret : IndigoError
  handles : List EntryHdl
  stats : FlowStats

/-- `flow_stats_get`, with the handles it passes to the counter functions. The 64-bit id is cut to
the width of a `p4_pd_entry_hdl_t` as it is passed. -/
def flowStatsGet (c : Counters) (tablePriv entryPriv : BitVec 64) (stats : FlowStats) : StatsResult :=
  let tid := tablePriv
  let fid := entryPriv
  match c.packets tid with
  | none => ⟨.badTableId, [], stats⟩
  | some packetsCounter =>
    let stats := { stats with packets := packetsCounter (fid.setWidth 32) }
    match c.bytes tid with
    | none => ⟨.badTableId, [fid.setWidth 32], stats⟩
    | some bytesCounter =>
      ⟨.none, [fid.setWidth 32, fid.setWidth 32], { stats with bytes := bytesCounter (fid.setWidth 32) }⟩

structure OwnStats (c : Counters) (f : Flow) (r : StatsResult) : Prop where
  handles : ∀ eh ∈ r.handles, eh = f.eh
  packets : ∀ get ∈ c.packets (f.tid.setWidth 64), r.stats.packets = get f.eh
  bytes : r.ret = .none → ∀ get ∈ c.bytes (f.tid.setWidth 64), r.stats.bytes = get f.eh

def StatsOwn (c : Counters) (w : World M) : Prop :=
  ∀ f ∈ w.live, ∀ stats, OwnStats c f (flowStatsGet c (f.tid.setWidth 64) f.priv stats)

def HandleIsId (c : Counters) (h : Host) (op : Op M) : Prop :=
  ∀ e ∈ op.filing h, (c.packets (e.tid.setWidth 64)).isSome = true → e.priv.setWidth 32 = e.eh

theorem ownStats_iff (c : Counters) (f : Flow) :
    (∀ stats, OwnStats c f (flowStatsGet c (f.tid.setWidth 64) f.priv stats)) ↔
      ((c.packets (f.tid.setWidth 64)).isSome = true → f.priv.setWidth 32 = f.eh) := by
  cases hp : c.packets (f.tid.setWidth 64) with
  | none =>
    refine iff_of_true (fun stats => ?_) fun h => absurd h Bool.false_ne_true
    simp only [flowStatsGet, hp]
    refine ⟨fun eh h => absurd h List.not_mem_nil, fun get h => ?_, fun h => IndigoError.noConfusion h⟩
    exact absurd (hp.symm.trans h) (Option.some_ne_none get).symm
  | some packetsCounter =>
    simp only [Option.isSome_some, true_implies]
    constructor
    · intro h
      refine (h ⟨0, 0⟩).handles _ ?_
      simp only [flowStatsGet, hp]
      cases c.bytes (f.tid.setWidth 64) <;> exact List.mem_cons_self
    · intro hid stats
      have hpackets : ∀ get ∈ c.packets (f.tid.setWidth 64), packetsCounter f.eh = get f.eh :=
        fun get h => by rw [Option.some.inj (hp.symm.trans h)]
      cases hb : c.bytes (f.tid.setWidth 64) with
      | none =>
        simp only [flowStatsGet, hp, hb, hid]
        exact ⟨fun eh h => List.mem_singleton.1 h, hpackets, fun h => IndigoError.noConfusion h⟩
      | some bytesCounter =>
        simp only [flowStatsGet, hp, hb, hid]
        refine ⟨fun eh h => ?_, hpackets, fun _ get h => ?_⟩
        · exact (List.mem_cons.1 h).elim id fun h => List.mem_singleton.1 h
        · rw [Option.some.inj (hb.symm.trans h)]

theorem statsOwn_iff (c : Counters) (w : World M) : StatsOwn c w ↔
    ∀ f ∈ w.live, (c.packets (f.tid.setWidth 64)).isSome = true → f.priv.setWidth 32 = f.eh :=
  forall₂_congr fun f _ => ownStats_iff c f

section step
variable {c : Counters} {h : Host} {w : World M} {op : Op M}

theorem StatsOwn.step (hw : StatsOwn c w) (hop : HandleIsId c h op) :
    StatsOwn c (World.step h w op) := by
  rw [statsOwn_iff] at hw ⊢
  intro f hf
  rcases filing_of_mem_step hf with ⟨g, hg, hfiling⟩ | he
  · obtain ⟨hpriv, htid, heh⟩ : g.priv = f.priv ∧ g.tid = f.tid ∧ g.eh = f.eh := by
      simpa only [Flow.filing, Filing.mk.injEq] using hfiling
    rw [← hpriv, ← htid, ← heh]
    exact hw g hg
  · exact hop f.filing he

theorem HandleIsId.of_step (hw : StatsOwn c (World.step h w op)) : HandleIsId c h op := by
  rw [statsOwn_iff] at hw
  intro e he
  obtain ⟨f, hlive, rfl⟩ := live_of_filing (w := w) he
  rw [hlive] at hw
  exact hw f (List.mem_append_right w.live List.mem_cons_self)

end step

theorem statsOwn_empty (c : Counters) : StatsOwn c (World.empty : World M) :=
  fun _ hf => absurd hf List.not_mem_nil

/-- In every state of a run the flows read their own counters exactly when every flow whose table
counts packets got its id as handle. -/
theorem statsOwn_iff_handleIsId (c : Counters) (h : Host) (ops : List (Op M)) :
    (∀ pre, pre <+: ops → StatsOwn c (run (World.step h) World.empty pre)) ↔
      ∀ op ∈ ops, HandleIsId c h op := by
  have hall : Along (World.step h) (fun _ op => HandleIsId c h op) World.empty ops ↔
      ∀ op ∈ ops, HandleIsId c h op := along_iff_forall
  rw [← hall]
  refine reached_iff (StatsOwn c) _ (fun _ hw => hw) (fun w op _ _ hown => ?_) (fun w op hw _ hop => ?_)
    (statsOwn_empty c) (along_true _ _)
  · exact .of_step hown
  · exact hw.step hop

def countHandles : Counters := ⟨fun _ => some (BitVec.setWidth 64), fun _ => some (BitVec.setWidth 64)⟩

def statsRun : List (Op Unit) := [.create (plainFlow 0 0) 10 ⟨0, 1, 0, 0⟩]

theorem statsOwn_statsRun :
    (∀ op ∈ statsRun, op.Succeeds) ∧
      ¬ StatsOwn countHandles (run (World.step Host.full) World.empty statsRun) := by
  refine ⟨by decide, fun hw => ?_⟩
  rw [statsOwn_iff] at hw
  exact absurd (hw _ List.mem_cons_self rfl) (by decide)

end P4OfAgent
