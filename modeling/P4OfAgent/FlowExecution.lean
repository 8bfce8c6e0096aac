import P4OfAgent.ActionLists
import P4OfAgent.FlowTables
import P4OfAgent.PipelineIndex

/-! From the flow callbacks to the packets. A packet for which the switch chooses a flow goes through
the tables that the agent has set up for the flow, and gets the flow's action list. -/

namespace P4OfAgent
open Function P4 Priority Runs
variable {M K : Type} {w n : Nat}

def PdAction.run (a : PdAction) (groupId : BitVec 32) (q : OfPacket w n) : OfPacket w n :=
  q.openflowApply a.args.sig (a.flowId.setWidth 32) groupId

/-- The plugin's tables hold the entries of every flow of the pipeline store, under its index. -/
structure Realises (t : Tables w n) (pipeline : BitVec 64 → Option Parsed) : Prop where
  egress : ∀ k p, pipeline k = some p → Installs t p (k.setWidth 32)
  output : ∀ k p, pipeline k = some p → InstallsOutput t p (k.setWidth 32)

def KeysApart (pipeline : BitVec 64 → Option Parsed) : Prop :=
  ∀ k k', pipeline k ≠ none → pipeline k' ≠ none → k.setWidth 32 = k'.setWidth 32 → k = k'

theorem keysApart_of_synced {w : World M} (hs : Synced w) (hi : IndicesApart w) :
    KeysApart w.state.plane.pipeline := by
  rw [indicesApart_iff] at hi
  intro k k' hk hk' hindex
  obtain ⟨f, hf, rfl⟩ := hs.owned k hk
  obtain ⟨g, hg, rfl⟩ := hs.owned k' hk'
  by_contra hne
  exact hi f hf g hg hne hindex

/-- What the state manager and the tables see to in the runs below: flows are theirs, a signal does
not change, and every flow gets an index of its own. -/
structure Careful (h : Host) (t : Twin M) (op : Op M) : Prop where
  orderly : Orderly t op
  signal : SignalStable t.world op
  index : IndexFresh h t.world op

instance (h : Host) (w : World M) (op : Op M) : Decidable (IndexFresh h w op) :=
  inferInstanceAs (Decidable (∀ e ∈ op.filing h, ∀ f ∈ w.live, f.priv ≠ e.priv →
    f.index ≠ e.priv.setWidth 32))

instance (h : Host) (t : Twin M) (op : Op M) : Decidable (Careful h t op) :=
  decidable_of_iff (Orderly t op ∧ SignalStable t.world op ∧ IndexFresh h t.world op)
    ⟨fun hc => ⟨hc.1, hc.2.1, hc.2.2⟩, fun hc => ⟨hc.orderly, hc.signal, hc.index⟩⟩

structure Sound (h : Host) (t : Twin M) : Prop where
  mirrors : ∃ pairs, Mirrors h t pairs
  synced : Synced t.world
  apart : IndicesApart t.world

section run
variable {h : Host} {t : Twin M}

theorem Sound.step (ht : Sound h t) {op : Op M} (hc : Careful h t op) : Sound h (Twin.step h t op) := by
  refine ⟨Mirrors.step ht.mirrors hc.orderly, ?_, ht.apart.step hc.index⟩
  by_cases hr : (op.apply h t.world.state).ret = .none
  · exact ht.synced.step ⟨hc.orderly.target, hr⟩ hc.signal
  · rw [Twin.step_error hc.orderly.pipeline hr]
    exact ht.synced

theorem sound_run (h : Host) (ops : List (Op M)) (hc : Along (Twin.step h) (Careful h) Twin.empty ops) :
    Sound h (run (Twin.step h) Twin.empty ops) := by
  refine run_inv_along (fun t op ht hop => ht.step hop) ?_ hc
  exact ⟨⟨[], mirrors_empty h⟩, synced_empty, indicesApart_empty⟩

theorem Mirrors.selects_choice {pairs : List (Pair M)} (hm : Mirrors h t pairs)
    {Matches : M → K → Prop} {key : K} {g : OfFlow M} {mf : M} (hmf : g.pat = some mf)
    (hg : IsChoice (MatchesOpt Matches) (ofRules h g.tableId t.flows) key (g.rule h)) (a : PdAction) :
    (t.world.state.plane.tables g.tableId).Selects Matches key a ↔ a = (g.rule h).action := by
  have hlift : g.rule h = (⟨mf, g.priority.toNat, (g.rule h).action⟩ : Rule M PdAction).lift := by
    simp only [OfFlow.rule, hmf, Rule.lift]
  rw [hlift] at hg
  have hchoice := hg.patterns
  have hrules : (t.world.state.plane.tables g.tableId).rules =
      {r | r ∈ patterns (ofRules h g.tableId t.flows)} := Set.ext (hm.mem_rules g.tableId)
  rw [PdTable.Selects, hrules]
  constructor
  · rintro (⟨r, hr, hit, htop, rfl⟩ | ⟨hnone, _⟩)
    · rw [IsTop.eq_of_isChoice ⟨hr, hit, htop⟩ hchoice]
    · exact absurd hchoice.hit (hnone _ hchoice.mem)
  · rintro rfl
    exact .inl ⟨_, hchoice.mem, hchoice.hit, hchoice.isTop.top, rfl⟩

theorem Sound.pipeline_eq (ht : Sound h t) {g : OfFlow M} (hg : g ∈ t.flows)
    (hsignal : ∀ f ∈ t.world.live, f.priv = g.id → f.noPipeline = 0) :
    t.world.state.plane.pipeline g.id = some (h.parse g.instructions) := by
  obtain ⟨pairs, hm⟩ := ht.mirrors
  rw [← hm.flows] at hg
  obtain ⟨p, hp, rfl⟩ := List.mem_map.1 hg
  obtain ⟨hid, _, hargs⟩ := hm.agree p hp
  have hlive := hm.mem_live hp
  have hheld := ht.synced.holds p.live hlive
  rw [Flow.entry, if_pos (hsignal p.live hlive hid.symm), hargs] at hheld
  rw [hid]
  exact hheld

end run

/-- After any run, a packet for which the switch chooses a flow with a match runs the action list that is
the flow's first instruction: it leaves at the port of the last OUTPUT, and every copy of it has the header
actions done. If the first instruction is another one, no action is run, whatever lists follow. -/
theorem flow_executes (h : Host) (Matches : M → K → Prop) (ops : List (Op M))
    (hc : Along (Twin.step h) (Careful h) Twin.empty ops) (t : Tables w n)
    (trafficManager : OfPacket w n → List (BitVec w))
    (hplugin : KeysApart (run (Twin.step h) Twin.empty ops).world.state.plane.pipeline →
      Realises t (run (Twin.step h) Twin.empty ops).world.state.plane.pipeline)
    (groupId : BitVec 32) (hgroup : ∀ port, t.ofpatGroupEgress groupId port = none) :
    let s := run (Twin.step h) Twin.empty ops
    ∀ g ∈ s.flows, ∀ key mf, g.pat = some mf →
      IsChoice (MatchesOpt Matches) (ofRules h g.tableId s.flows) key (g.rule h) →
      (∀ f ∈ s.world.live, f.priv = g.id → f.noPipeline = 0) → KnownFirst g.instructions →
      let as := (firstList g.instructions).getD []
      (∀ a ∈ as, a.Executed) → (as.filterMap Action.rewrite).Pairwise InBlockOrder →
      let a : PdAction := ⟨g.id, h.parse g.instructions⟩
      (∀ b, (s.world.state.plane.tables g.tableId).Selects Matches key b ↔ b = a) ∧
        ∀ q : OfPacket w n,
          P4.pipeline t trafficManager (a.run groupId q) =
            runList trafficManager as (a.run groupId q) := by
  intro s g hg key mf hmf hchoice hsignal hknown as has hord a
  have hs : Sound h s := sound_run h ops hc
  obtain ⟨pairs, hm⟩ := hs.mirrors
  refine ⟨hm.selects_choice hmf hchoice, fun q => ?_⟩
  cases hfirst : firstList g.instructions with
  | none =>
    have hnil : as = [] := by
      simp only [as, hfirst, Option.getD_none]
    rw [hnil]
    exact pipeline_idle trafficManager (not_passes_of_firstList h.toMachine hknown hfirst rfl) hgroup
  | some list =>
    obtain rfl : as = list := by
      simp only [as, hfirst, Option.getD_some]
    have hreal := hplugin (keysApart_of_synced hs.synced hs.apart)
    have hstored := hs.pipeline_eq hg hsignal
    have hparse : h.parse g.instructions = parseActions h.toMachine as .empty :=
      parseInstructions_firstList h.toMachine hfirst .empty
    have hinst := hreal.egress g.id _ hstored
    have houtput := hreal.output g.id _ hstored
    rw [hparse] at hinst houtput
    simp only [a, PdAction.run, hparse]
    rw [pipeline_keptBy trafficManager q (g.id.setWidth 32) groupId has has hord
      (.of_installs hinst houtput) hgroup, keptBy_self]

def outputPushSet : List Action :=
  [⟨Ofpat.output, [0, 0, 0, 3]⟩, ⟨Ofpat.pushVlan, [0x81, 0]⟩,
    ⟨Ofpat.setField, [0x80, 0, 0xc, 2, 0x10, 5]⟩]

def stayRun : List (Op (BitVec 8)) :=
  [.create ⟨0, 7, 0, 0, 16, .ok 5, [.applyActions outputPushSet]⟩ 10 ⟨0, 1, 0, 0⟩,
    .create (keyFlowIn 0 9 5) 11 ⟨0, 2, 0, 0⟩, .delete 11 ⟨0, 0, 0, 0⟩]

def outputTables : Tables 9 16 :=
  { Tables.constant vid5ttl10 with ofpatOutput := fun _ => some 3 }

theorem realises_stayRun : Realises outputTables
    (run (Twin.step Host.full) Twin.empty stayRun).world.state.plane.pipeline := by
  have hs := sound_run Host.full stayRun (by decide)
  have honly : ∀ k p,
      (run (Twin.step Host.full) Twin.empty stayRun).world.state.plane.pipeline k = some p →
        p = Host.full.parse [.applyActions outputPushSet] := by
    intro k p hp
    obtain ⟨f, hf, rfl⟩ := hs.synced.owned k (hp ▸ Option.some_ne_none p)
    obtain rfl := List.mem_singleton.1 hf
    exact (Option.some.inj hp).symm
  have hparse : Host.full.parse [.applyActions outputPushSet] =
      parseActions Host.full.toMachine outputPushSet .empty :=
    parseInstructions_applyActions _ _ _
  refine ⟨fun k p hp => ?_, fun k p hp => ?_⟩
  · rw [honly k p hp, hparse]
    have hinst : Installs (Tables.constant vid5ttl10 : Tables 9 16)
        (parseActions Host.full.toMachine outputPushSet .empty) (k.setWidth 32) := by
      refine installs_constant _ fun table => ?_
      cases table <;> decide
    exact hinst
  · rw [honly k p hp, hparse]
    intro key _ ptr port hptr hload
    obtain ⟨ptr', hptr', hload'⟩ := parseActions_output Host.full.toMachine outputPushSet
      (show lastOutput outputPushSet = some 3 by decide)
    obtain rfl := Option.some.inj (hptr.symm.trans hptr')
    obtain rfl := ArgVal.u32.inj (Option.some.inj (hload.symm.trans hload'))
    rfl

theorem flow_executes_stayRun :
    let a : PdAction := ⟨10, Host.full.parse [.applyActions outputPushSet]⟩
    let out := (a.run 0 ipv4Packet).ofpatOutput 3
    P4.pipeline outputTables (fun q => [q.egressSpec]) (a.run 0 ipv4Packet) =
      (out, [Rewrite.run (.setVlanVid 5) (Rewrite.run .pushVlan { out with egressPort := 3 })]) := by
  intro a out
  have hchoice : IsChoice (MatchesOpt Eq)
      (ofRules Host.full 0 (run (Twin.step Host.full) Twin.empty stayRun).flows) (5 : BitVec 8)
      ⟨some 5, 7, a⟩ := by
    refine ⟨List.mem_cons_self, rfl, fun q hq _ hne => ?_⟩
    exact absurd (List.mem_singleton.1 hq) hne
  exact (flow_executes Host.full Eq stayRun (by decide) outputTables (fun q => [q.egressSpec])
    (fun _ => realises_stayRun) 0 (fun _ => rfl) ⟨10, 0, some 5, 7, [.applyActions outputPushSet]⟩
    List.mem_cons_self 5 5 rfl hchoice (by decide) (by decide) (by decide) (by decide)).2 ipv4Packet

end P4OfAgent
