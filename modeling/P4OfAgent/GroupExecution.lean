import P4OfAgent.FlowExecution
import P4OfAgent.GroupTables

/-! Groups from the callbacks to the packets. A flow that names a group leaves it to the group's ingress
entry and to the target which copies are made; each copy gets the header actions of the flow and then
those of the bucket of its port. -/

namespace P4OfAgent
open Function P4 Priority Runs
variable {σ M K : Type} {w n : Nat}

def Action.Grouped (a : Action) : Prop := a.rewrite.isSome = true ∨ a.type = Ofpat.group

instance (a : Action) : Decidable a.Grouped :=
  inferInstanceAs (Decidable (a.rewrite.isSome = true ∨ a.type = Ofpat.group))

def lastGroup (as : List Action) : Option (BitVec 32) := (lastOfType Ofpat.group as).map Action.groupId

structure Bucket where
  actions : List Action
deriving DecidableEq

def Bucket.port (w : Nat) (b : Bucket) : Option (BitVec w) :=
  (lastOutput b.actions).map (BitVec.setWidth w)

def bucketPorts (w : Nat) (bs : List Bucket) : List (BitVec w) := bs.filterMap (Bucket.port w)

theorem Action.Grouped.routed {a : Action} (ha : a.Grouped) : a.Routed := ha.imp_left .inl

theorem lastGroup_mem {as : List Action} {id : BitVec 32} (hid : lastGroup as = some id) :
    ∃ a ∈ as, a.type = Ofpat.group := by
  obtain ⟨a, hlast, -⟩ := Option.map_eq_some_iff.1 hid
  refine lastOfType_isSome.1 ?_
  rw [hlast, Option.isSome_some]

theorem parseActions_group (m : Machine) (as : List Action) {id : BitVec 32}
    (hid : lastGroup as = some id) :
    ∃ ptr, (parseActions m as .empty).aargs Ofpat.group = some ptr ∧
      (parseActions m as .empty).heap.load ptr = some (.u32 id) := by
  obtain ⟨a, hlast, rfl⟩ := Option.map_eq_some_iff.1 hid
  have ha := lastOfType_type hlast
  have hmem : a.type ∈ argumentTypes := by
    rw [ha]
    decide
  obtain ⟨ptr, v, hv, haargs, hload⟩ := parseActions_last m as hmem (ha ▸ hlast)
  have hne : Ofpat.group ≠ Ofpat.output := by decide
  rw [Action.argument, ha, if_neg hne, if_pos rfl] at hv
  obtain rfl := Option.some.inj hv
  exact ⟨ptr, ha ▸ haargs, hload⟩

/-! ## The blocks on a flow with a group -/

namespace P4
open Slots

structure HoldsBoth (t : Tables w n) (m : Machine) (as bs : List Action) (key : Key w) : Prop where
  flow : ∀ (table : EgressTable) r, (parseActions m as .empty).rewrite table.gate = some r →
    (∀ b ∈ bs, b.type ≠ table.gate.type) → ∃ args, t.egress table key = some args ∧ table.rewrite args = r
  bucket : ∀ (table : EgressTable) r, (parseActions m bs .empty).rewrite table.gate = some r →
    (∀ a ∈ as, a.type ≠ table.gate.type) → ∃ args, t.egress table key = some args ∧ table.rewrite args = r

section block
variable {m : Machine} {as bs : List Action} {t : Tables w n} {q : OfPacket w n}

theorem processOfpatIngress_group (has : ∀ a ∈ as, a.Grouped) (hgroup : ∃ a ∈ as, a.type = Ofpat.group)
    (hmd : q.md.bmap = (parseActions m as .empty).sig) :
    processOfpatIngress t q = q.applyGroupIngress t := by
  have hpass := fun g : Gate => passes_routed (m := m) (fun a ha => (has a ha).routed) hmd g
  have houtput : ¬ Gate.output.passes q.md = true := by
    rw [hpass]
    rintro ⟨a, ha, htype⟩
    rcases has a ha with hr | hg
    · obtain ⟨r, hr⟩ := Option.isSome_iff_exists.1 hr
      exact r.type_ne_output ((Action.rewrite_eq_some hr).1.trans htype)
    · exact absurd (hg.symm.trans htype) (by decide)
  simp only [processOfpatIngress, (hpass .group).2 hgroup, if_true, applyGroupIngress_md, if_neg houtput]

theorem passes_both (has : ∀ a ∈ as, a.Routed) (hbs : ∀ b ∈ bs, b.Routed) {md : OpenflowMetadata}
    (hmd : md.bmap = (parseActions m as .empty).sig ||| (parseActions m bs .empty).sig) (g : Gate) :
    g.passes md = true ↔ (∃ a ∈ as, a.type = g.type) ∨ ∃ b ∈ bs, b.type = g.type := by
  have ha : g.passes { md with bmap := (parseActions m as .empty).sig } = true ↔
      ∃ a ∈ as, a.type = g.type := passes_routed has rfl g
  have hb : g.passes { md with bmap := (parseActions m bs .empty).sig } = true ↔
      ∃ b ∈ bs, b.type = g.type := passes_routed hbs rfl g
  rw [g.passes_iff] at ha hb ⊢
  rw [← ha, ← hb, hmd, BitVec.getLsbD_or, Bool.or_eq_true]

theorem exists_of_fill {g : Gate} {r : Rewrite}
    (hr : fill Rewrite.gate (as.filterMap Action.rewrite) g = some r) : ∃ a ∈ as, a.type = g.type := by
  obtain ⟨hmem, rfl⟩ := fill_some hr
  obtain ⟨a, ha, har⟩ := List.mem_filterMap.1 hmem
  exact ⟨a, ha, (Action.rewrite_eq_some har).1.symm⟩

theorem fill_of_exists {g : Gate} (hg : g ≠ .output ∧ g ≠ .group) (has : ∀ a ∈ as, a.Routed)
    (hex : ∃ a ∈ as, a.type = g.type) :
    (fill Rewrite.gate (as.filterMap Action.rewrite) g).isSome = true := by
  obtain ⟨a, ha, htype⟩ := hex
  rcases has a ha with (hr | hout) | hgroup
  · obtain ⟨r, hr⟩ := Option.isSome_iff_exists.1 hr
    refine fill_isSome.2 ⟨r, List.mem_filterMap.2 ⟨a, ha, hr⟩, ?_⟩
    exact Gate.type_injective ((Action.rewrite_eq_some hr).1.trans htype)
  · have htypes : g.type = Gate.output.type := htype.symm.trans hout
    exact absurd (Gate.type_injective htypes) hg.1
  · have htypes : g.type = Gate.group.type := htype.symm.trans hgroup
    exact absurd (Gate.type_injective htypes) hg.2

theorem program_both (has : ∀ a ∈ as, a.Routed) (hbs : ∀ b ∈ bs, b.Routed)
    (hapart : ∀ a ∈ as, ∀ b ∈ bs, a.type ≠ b.type)
    (hmd : q.md.bmap = (parseActions m as .empty).sig ||| (parseActions m bs .empty).sig)
    (ht : HoldsBoth t m as bs q.egressKey) {g : Gate} (hg : g ≠ .output ∧ g ≠ .group) {p : OfPacket w n}
    (hp : p.control = q.control) :
    ((program t q g).elim p fun r => r.run p) =
      (fill Rewrite.gate ((as ++ bs).filterMap Action.rewrite) g).elim p fun r => r.run p := by
  have hpass := passes_both has hbs hmd g
  rw [List.filterMap_append, fill_append_list]
  cases hb : fill Rewrite.gate (bs.filterMap Action.rewrite) g with
  | some r =>
    obtain ⟨b, hbmem, htype⟩ := exists_of_fill hb
    obtain rfl := (fill_some hb).2
    refine program_run (hpass.2 (.inr ⟨b, hbmem, htype⟩)) (fun table htable => ?_) hp
    refine ht.bucket table r ?_ fun a ha => ?_
    · rw [htable]
      exact (stores_routed m bs hbs).rewrite r.gate r hb
    · rw [htable, ← htype]
      exact hapart a ha b hbmem
  | none =>
    rw [Option.none_or]
    cases ha : fill Rewrite.gate (as.filterMap Action.rewrite) g with
    | some r =>
      obtain ⟨a, hamem, htype⟩ := exists_of_fill ha
      obtain rfl := (fill_some ha).2
      refine program_run (hpass.2 (.inl ⟨a, hamem, htype⟩)) (fun table htable => ?_) hp
      refine ht.flow table r ?_ fun b hbmem => ?_
      · rw [htable]
        exact (stores_routed m as has).rewrite r.gate r ha
      · rw [htable, ← htype]
        exact (hapart a hamem b hbmem).symm
    | none =>
      have hnot : ¬ g.passes q.md = true := by
        rw [hpass]
        rintro (hex | hex)
        · have hsome := fill_of_exists hg has hex
          rw [ha] at hsome
          exact absurd hsome Bool.false_ne_true
        · have hsome := fill_of_exists hg hbs hex
          rw [hb] at hsome
          exact absurd hsome Bool.false_ne_true
      rw [program, if_neg hnot]

theorem processOfpatEgress_both (has : ∀ a ∈ as, a.Routed) (hbs : ∀ b ∈ bs, b.Routed)
    (hapart : ∀ a ∈ as, ∀ b ∈ bs, a.type ≠ b.type)
    (hord : ((as ++ bs).filterMap Action.rewrite).Pairwise InBlockOrder)
    (hmd : (q.applyGroupEgress t).md.bmap =
      (parseActions m as .empty).sig ||| (parseActions m bs .empty).sig)
    (ht : HoldsBoth t m as bs (q.applyGroupEgress t).egressKey) :
    processOfpatEgress t q =
      ((as ++ bs).filterMap Action.rewrite).foldl (fun q r => r.run q) (q.applyGroupEgress t) := by
  have horder : egressOrder.Pairwise fun g g' => egressOrder.idxOf g < egressOrder.idxOf g' := by decide
  rw [processOfpatEgress_run]
  refine Eq.trans (run_congr_of_inv (I := fun p => p.control = (q.applyGroupEgress t).control)
    (fun r p hp => (r.control_run p).trans hp) (fun g hg p hp => ?_) rfl)
    (run_fill horder (fun r _ => r.mem_egressOrder) (hord.imp InBlockOrder.inOrder))
  refine program_both has hbs hapart hmd ht ⟨?_, ?_⟩ hp
  · rintro rfl
    exact absurd hg (by decide)
  · rintro rfl
    exact absurd hg (by decide)

end block
end P4

/-! ## The plugin's tables with groups -/

def GroupPlugin.buckets {B : Type} (pl : GroupPlugin σ B) (p : σ) (id : BitVec 32) : Option B :=
  (pl.held p id).map Prod.snd

theorem GroupsAgree.buckets {B : Type} {pl : GroupPlugin σ B} {s : Backed σ B} {gs : List (OfGroup B)}
    (ha : GroupsAgree pl s gs) {x : OfGroup B} (hx : x ∈ gs) (hc : x.created = true) :
    pl.buckets s.plugin x.groupId = some x.buckets := by
  rw [GroupPlugin.buckets, ha.installed hx hc, Option.map_some]

theorem GroupsAgree.of_buckets {B : Type} {pl : GroupPlugin σ B} {s : Backed σ B} {gs : List (OfGroup B)}
    (ha : GroupsAgree pl s gs) {id : BitVec 32} {b : B} (hb : pl.buckets s.plugin id = some b) :
    ∃ x ∈ gs, x.groupId = id ∧ x.buckets = b := by
  obtain ⟨g, hg, rfl⟩ := Option.map_eq_some_iff.1 hb
  obtain ⟨x, hx, rfl⟩ := ha.owned id (hg ▸ Option.some_ne_none g)
  have hi := (ha.holds x hx).symm.trans hg
  unfold OfGroup.installed at hi
  split_ifs at hi
  exact ⟨x, hx, rfl, congrArg Prod.snd (Option.some.inj hi)⟩

def FlowLacks (pipeline : BitVec 64 → Option Parsed) (index : BitVec 32) (type : BitVec 16) : Prop :=
  ∀ k p, pipeline k = some p → k.setWidth 32 = index → p.aargs type = none

def BucketLacks (groups : BitVec 32 → Option (List Bucket)) (groupId : BitVec 32) (port : BitVec w)
    (type : BitVec 16) : Prop :=
  ∀ bs, groups groupId = some bs → ∀ b ∈ bs, b.port w = some port → ∀ a ∈ b.actions, a.type ≠ type

/-- The plugin's tables hold the entries of every flow of the pipeline store under its index, and those of
the buckets under group and port; which of two entries a packet takes is left open. The group tables have
entries for the groups that are held and no others. -/
structure RealisesGroups (t : Tables w n) (m : Machine) (pipeline : BitVec 64 → Option Parsed)
    (groups : BitVec 32 → Option (List Bucket)) : Prop where
  flow : ∀ k p, pipeline k = some p → ∀ key : Key w, key.index = k.setWidth 32 →
    ∀ (table : EgressTable) r, p.rewrite table.gate = some r →
      BucketLacks groups key.groupId key.port table.gate.type →
        ∃ args, t.egress table key = some args ∧ table.rewrite args = r
  bucket : ∀ id bs, groups id = some bs → (bucketPorts w bs).Nodup → ∀ b ∈ bs, ∀ key : Key w,
    key.groupId = id → b.port w = some key.port →
      ∀ (table : EgressTable) r, (parseActions m b.actions .empty).rewrite table.gate = some r →
        FlowLacks pipeline key.index table.gate.type →
          ∃ args, t.egress table key = some args ∧ table.rewrite args = r
  update : ∀ id bs, groups id = some bs → (bucketPorts w bs).Nodup → ∀ b ∈ bs, ∀ port,
    b.port w = some port → t.ofpatGroupEgress id port = some (parseActions m b.actions .empty).sig
  updateOnly : ∀ id (port : BitVec w), (∀ bs, groups id = some bs → ∀ b ∈ bs, b.port w ≠ some port) →
    t.ofpatGroupEgress id port = none
  ingressOnly : ∀ id, groups id = none → t.ofpatGroupIngress id = none

/-- The action of a PD table passes on the group that the parser stored. -/
def PassesGroup (a : PdAction) (groupId : BitVec 32) : Prop :=
  ∀ ptr id, a.args.aargs Ofpat.group = some ptr → a.args.heap.load ptr = some (.u32 id) → groupId = id

def bucketActions (bs : List Bucket) (port : BitVec w) : List Action :=
  ((bs.find? fun b => b.port w = some port).map Bucket.actions).getD []

def groupCopy (m : Machine) (as : List Action) (bs : List Bucket) (p : OfPacket w n) (port : BitVec w) :
    OfPacket w n :=
  ((as ++ bucketActions bs port).filterMap Action.rewrite).foldl (fun q r => r.run q)
    ({ p with egressPort := port }.ofpatGroupEgressUpdate
      (parseActions m (bucketActions bs port) .empty).sig)

structure Joins (as bs : List Action) : Prop where
  executed : ∀ b ∈ bs, b.Executed
  apart : ∀ a ∈ as, ∀ b ∈ bs, a.type ≠ b.type
  ordered : ((as ++ bs).filterMap Action.rewrite).Pairwise InBlockOrder

instance (as bs : List Action) : Decidable (Joins as bs) :=
  decidable_of_iff ((∀ b ∈ bs, b.Executed) ∧ (∀ a ∈ as, ∀ b ∈ bs, a.type ≠ b.type) ∧
      ((as ++ bs).filterMap Action.rewrite).Pairwise InBlockOrder)
    ⟨fun h => ⟨h.1, h.2.1, h.2.2⟩, fun h => ⟨h.executed, h.apart, h.ordered⟩⟩

section bucket
variable {as : List Action} {bs : List Bucket}

theorem eq_of_port (hports : (bucketPorts w bs).Nodup) {b b' : Bucket} (hb : b ∈ bs) (hb' : b' ∈ bs)
    {port : BitVec w} (hp : b.port w = some port) (hp' : b'.port w = some port) : b = b' := by
  by_contra hne
  have hpair := List.pairwise_filterMap.1 hports
  have hsymm : Std.Symm fun a a' : Bucket =>
      ∀ x, a.port w = some x → ∀ y, a'.port w = some y → x ≠ y :=
    ⟨fun a a' h x hx y hy => (h y hy x hx).symm⟩
  exact hpair.forall hb hb' hne port hp port hp' rfl

theorem bucketActions_cases (bs : List Bucket) (port : BitVec w) :
    (∃ b ∈ bs, b.port w = some port ∧ bucketActions bs port = b.actions) ∨
      (∀ b ∈ bs, b.port w ≠ some port) ∧ bucketActions bs port = [] := by
  unfold bucketActions
  cases hfind : bs.find? fun b => b.port w = some port with
  | some b =>
    have hport := List.find?_some hfind
    rw [decide_eq_true_eq] at hport
    exact .inl ⟨b, List.mem_of_find?_eq_some hfind, hport, rfl⟩
  | none =>
    refine .inr ⟨fun b hb hport => ?_, rfl⟩
    exact absurd (decide_eq_true hport) (List.find?_eq_none.1 hfind b hb)

theorem joins_nil (hord : (as.filterMap Action.rewrite).Pairwise InBlockOrder) : Joins as [] := by
  refine ⟨fun b hb => absurd hb List.not_mem_nil, fun a _ b hb => absurd hb List.not_mem_nil, ?_⟩
  rw [List.append_nil]
  exact hord

theorem joins_bucketActions (hord : (as.filterMap Action.rewrite).Pairwise InBlockOrder)
    (hjoins : ∀ b ∈ bs, Joins as b.actions) (port : BitVec w) : Joins as (bucketActions bs port) := by
  rcases bucketActions_cases bs port with ⟨b, hb, -, heq⟩ | ⟨-, heq⟩
  · rw [heq]
    exact hjoins b hb
  · rw [heq]
    exact joins_nil hord

theorem ofpatGroupEgressUpdate_nil (m : Machine) (q : OfPacket w n) :
    q.ofpatGroupEgressUpdate (parseActions m [] .empty).sig = q := by
  have hsig : (parseActions m [] .empty).sig = 0#32 := rfl
  simp only [OfPacket.ofpatGroupEgressUpdate, hsig, BitVec.or_zero]

end bucket

section realised
variable {m : Machine} {t : Tables w n} {pipeline : BitVec 64 → Option Parsed}
  {groups : BitVec 32 → Option (List Bucket)} {as : List Action} {k : BitVec 64} {id : BitVec 32}

theorem eq_some_of_mem {b : Bucket} (hb : b ∈ (groups id).getD []) :
    groups id = some ((groups id).getD []) := by
  cases hid : groups id with
  | none =>
    rw [hid] at hb
    exact absurd hb List.not_mem_nil
  | some bs => rfl

namespace RealisesGroups

theorem applyGroupEgress (hreal : RealisesGroups t m pipeline groups)
    (hports : (bucketPorts w ((groups id).getD [])).Nodup) {q : OfPacket w n} (hid : q.md.groupId = id) :
    q.applyGroupEgress t = q.ofpatGroupEgressUpdate
      (parseActions m (bucketActions ((groups id).getD []) q.egressPort) .empty).sig := by
  rcases bucketActions_cases ((groups id).getD []) q.egressPort with ⟨b, hb, hport, heq⟩ | ⟨hnone, heq⟩
  · have hupdate := hreal.update id _ (eq_some_of_mem hb) hports b hb q.egressPort hport
    simp only [OfPacket.applyGroupEgress, hid, hupdate, heq]
  · have hlacks : t.ofpatGroupEgress q.md.groupId q.egressPort = none := by
      refine hreal.updateOnly _ _ fun bs hbs b hb => hnone b ?_
      rw [← hid, hbs]
      exact hb
    rw [applyGroupEgress_of_none hlacks, heq, ofpatGroupEgressUpdate_nil]

theorem holdsBoth (hreal : RealisesGroups t m pipeline groups) (hkeys : KeysApart pipeline)
    (hflow : pipeline k = some (parseActions m as .empty))
    (hports : (bucketPorts w ((groups id).getD [])).Nodup) (port : BitVec w) :
    HoldsBoth t m as (bucketActions ((groups id).getD []) port) ⟨k.setWidth 32, id, port⟩ := by
  refine ⟨fun table r hr hlacks => ?_, fun table r hr hlacks => ?_⟩
  · refine hreal.flow k _ hflow _ rfl table r hr fun bs hbs b hb hport => ?_
    have hb' : b ∈ (groups id).getD [] := by
      rw [hbs]
      exact hb
    rcases bucketActions_cases ((groups id).getD []) port with ⟨b', hmem, hport', heq⟩ | ⟨hnone, -⟩
    · rw [eq_of_port hports hb' hmem hport hport', ← heq]
      exact hlacks
    · exact absurd hport (hnone b hb')
  · rcases bucketActions_cases ((groups id).getD []) port with ⟨b, hb, hport, heq⟩ | ⟨-, heq⟩
    · rw [heq] at hr
      refine hreal.bucket id _ (eq_some_of_mem hb) hports b hb _ rfl hport table r hr
        fun k' p hp hindex => ?_
      obtain rfl := hkeys k' k (hp ▸ Option.some_ne_none p) (hflow ▸ Option.some_ne_none _) hindex
      obtain rfl := Option.some.inj (hp.symm.trans hflow)
      refine Option.not_isSome_iff_eq_none.1 fun hsome => ?_
      rcases (parseActions_isSome m .empty as table.gate.type).1 hsome with hempty | ⟨a, ha, htype⟩
      · exact Bool.false_ne_true hempty
      · exact hlacks a ha htype
    · rw [heq, rewrite_nil] at hr
      exact absurd hr.symm (Option.some_ne_none r)

theorem pipeline_group (hreal : RealisesGroups t m pipeline groups) (hkeys : KeysApart pipeline)
    (hflow : pipeline k = some (parseActions m as .empty)) (has : ∀ a ∈ as, a.Grouped)
    (hid : ∃ a ∈ as, a.type = Ofpat.group) (hord : (as.filterMap Action.rewrite).Pairwise InBlockOrder)
    (hports : (bucketPorts w ((groups id).getD [])).Nodup)
    (hjoins : ∀ b ∈ (groups id).getD [], Joins as b.actions) {q : OfPacket w n}
    (hmd : q.md = ⟨k.setWidth 32, (parseActions m as .empty).sig, id, 1⟩)
    (trafficManager : OfPacket w n → List (BitVec w)) :
    P4.pipeline t trafficManager q = (q.applyGroupIngress t,
      (trafficManager (q.applyGroupIngress t)).map
        (groupCopy m as ((groups id).getD []) (q.applyGroupIngress t))) := by
  have hin := processOfpatIngress_group (t := t) has hid (congrArg (fun md => md.bmap) hmd)
  have hmdin : (q.applyGroupIngress t).md = ⟨k.setWidth 32, (parseActions m as .empty).sig, id, 1⟩ :=
    (applyGroupIngress_md t q).trans hmd
  rw [P4.pipeline, hin]
  refine Prod.ext rfl (List.map_congr_left fun port _ => ?_)
  have hegress := hreal.applyGroupEgress hports
    (q := { q.applyGroupIngress t with egressPort := port }) (congrArg (fun md => md.groupId) hmdin)
  have hjoin := joins_bucketActions hord hjoins port
  refine (processOfpatEgress_both (m := m) (fun a ha => (has a ha).routed)
    (fun b hb => .inl (hjoin.executed b hb)) hjoin.apart hjoin.ordered ?_ ?_).trans ?_
  · rw [hegress]
    simp only [OfPacket.ofpatGroupEgressUpdate, hmdin]
  · rw [hegress]
    simp only [OfPacket.ofpatGroupEgressUpdate, OfPacket.egressKey, hmdin]
    exact hreal.holdsBoth hkeys hflow hports port
  · rw [hegress]
    rfl

theorem pipeline_held (hreal : RealisesGroups t m pipeline groups) (hkeys : KeysApart pipeline)
    (hflow : pipeline k = some (parseActions m as .empty)) (has : ∀ a ∈ as, a.Grouped)
    (hid : ∃ a ∈ as, a.type = Ofpat.group) (hord : (as.filterMap Action.rewrite).Pairwise InBlockOrder)
    {bs : List Bucket} (hgroup : groups id = some bs) (hports : (bucketPorts w bs).Nodup)
    (hjoins : ∀ b ∈ bs, Joins as b.actions) {q : OfPacket w n}
    (hmd : q.md = ⟨k.setWidth 32, (parseActions m as .empty).sig, id, 1⟩)
    (trafficManager : OfPacket w n → List (BitVec w)) :
    P4.pipeline t trafficManager q = (q.applyGroupIngress t,
      (trafficManager (q.applyGroupIngress t)).map (groupCopy m as bs (q.applyGroupIngress t))) := by
  obtain rfl : (groups id).getD [] = bs := by rw [hgroup, Option.getD_some]
  exact hreal.pipeline_group hkeys hflow has hid hord hports hjoins hmd trafficManager

end RealisesGroups
end realised

theorem passesGroup_lastGroup (h : Host) (k : BitVec 64) {is : List Instruction} {as : List Action}
    {id : BitVec 32} (hfirst : firstList is = some as) (hid : lastGroup as = some id) :
    PassesGroup ⟨k, h.parse is⟩ id := by
  have hparse : h.parse is = parseActions h.toMachine as .empty :=
    parseInstructions_firstList h.toMachine hfirst .empty
  intro ptr id' hptr hload
  obtain ⟨ptr', hptr', hload'⟩ := parseActions_group h.toMachine as hid
  rw [← hparse] at hptr' hload'
  obtain rfl := Option.some.inj (hptr.symm.trans hptr')
  exact (ArgVal.u32.inj (Option.some.inj (hload.symm.trans hload'))).symm

structure HandsOver (h : Host) (pipeline : BitVec 64 → Option Parsed) (a : PdAction) (as : List Action)
    (id : BitVec 32) : Prop where
  stored : pipeline a.flowId = some (parseActions h.toMachine as .empty)
  sig : a.args.sig = (parseActions h.toMachine as .empty).sig
  group : ∀ groupId, PassesGroup a groupId → groupId = id

section sound
variable {h : Host} {s : Twin M} {g : OfFlow M} {as : List Action} {id : BitVec 32}

theorem Sound.handsOver (hs : Sound h s) (hgs : g ∈ s.flows)
    (hsignal : ∀ f ∈ s.world.live, f.priv = g.id → f.noPipeline = 0)
    (hfirst : firstList g.instructions = some as) (hgroup : lastGroup as = some id) :
    HandsOver h s.world.state.plane.pipeline ⟨g.id, h.parse g.instructions⟩ as id := by
  have hparse : h.parse g.instructions = parseActions h.toMachine as .empty :=
    parseInstructions_firstList h.toMachine hfirst .empty
  obtain ⟨ptr, hptr, hload⟩ := parseActions_group h.toMachine as hgroup
  rw [hparse]
  refine ⟨?_, rfl, fun groupId hpass => hpass ptr id hptr hload⟩
  rw [← hparse]
  exact hs.pipeline_eq hgs hsignal

theorem HandsOver.run_md {pipeline : BitVec 64 → Option Parsed} {a : PdAction}
    (ha : HandsOver h pipeline a as id) {groupId : BitVec 32} (hpass : PassesGroup a groupId)
    (q : OfPacket w n) : (a.run groupId q).md =
      ⟨a.flowId.setWidth 32, (parseActions h.toMachine as .empty).sig, id, 1⟩ := by
  rw [← ha.sig, ← ha.group groupId hpass]
  rfl

end sound

/-- After any runs of the flow and the group callbacks, a packet for which the switch chooses a flow whose
first instruction names a created group is handed over to that group: each copy that the target makes has
the header actions of the flow done, and then those of the bucket for its port. -/
theorem group_executes (h : Host) (Matches : M → K → Prop) (ops : List (Op M))
    (hc : Along (Twin.step h) (Careful h) Twin.empty ops) (pl : GroupPlugin σ (List Bucket))
    (hpl : pl.Works) (p₀ : σ) (hp₀ : pl.held p₀ = fun _ => none) (gops : List (GroupOp (List Bucket)))
    (hg : Along GroupWorld.step CarefulGroup GroupWorld.empty gops) (t : Tables w n)
    (hplugin : KeysApart (run (Twin.step h) Twin.empty ops).world.state.plane.pipeline →
      RealisesGroups t h.toMachine (run (Twin.step h) Twin.empty ops).world.state.plane.pipeline
        (pl.buckets (run (Backed.step pl) ⟨GroupWorld.empty, p₀⟩ gops).plugin))
    (trafficManager : OfPacket w n → List (BitVec w)) :
    let s := run (Twin.step h) Twin.empty ops
    ∀ g ∈ s.flows, ∀ key mf as, g.pat = some mf →
      IsChoice (MatchesOpt Matches) (ofRules h g.tableId s.flows) key (g.rule h) →
      (∀ f ∈ s.world.live, f.priv = g.id → f.noPipeline = 0) →
      firstList g.instructions = some as → (∀ a ∈ as, a.Grouped) →
      (as.filterMap Action.rewrite).Pairwise InBlockOrder →
      ∀ x ∈ run OfGroup.step [] gops, x.created = true → lastGroup as = some x.groupId →
      (bucketPorts w x.buckets).Nodup → (∀ b ∈ x.buckets, Joins as b.actions) →
      let a : PdAction := ⟨g.id, h.parse g.instructions⟩
      (∀ b, (s.world.state.plane.tables g.tableId).Selects Matches key b ↔ b = a) ∧
        ∀ (groupId : BitVec 32), PassesGroup a groupId → ∀ q : OfPacket w n,
          let p := (a.run groupId q).applyGroupIngress t
          P4.pipeline t trafficManager (a.run groupId q) =
            (p, (trafficManager p).map (groupCopy h.toMachine as x.buckets p)) := by
  intro s g hgs key mf as hmf hchoice hsignal hfirst has hord x hx hcreated hgroup hports hjoins a
  have hs : Sound h s := sound_run h ops hc
  obtain ⟨pairs, hm⟩ := hs.mirrors
  refine ⟨hm.selects_choice hmf hchoice, fun groupId hpass q => ?_⟩
  have hkeys := keysApart_of_synced hs.synced hs.apart
  have hover : HandsOver h s.world.state.plane.pipeline a as x.groupId :=
    hs.handsOver hgs hsignal hfirst hgroup
  have hheld := ((groupsAgree_empty hp₀).run hpl hg).buckets hx hcreated
  exact (hplugin hkeys).pipeline_held hkeys hover.stored has (lastGroup_mem hgroup) hord hheld hports
    hjoins (hover.run_md hpass q) trafficManager

def pushToGroup : List Action := [⟨Ofpat.pushVlan, [0x81, 0]⟩, ⟨Ofpat.group, [0, 0, 0, 5]⟩]

def taggedBucket : Bucket :=
  ⟨[⟨Ofpat.setField, [0x80, 0, 0xc, 2, 0x10, 5]⟩, ⟨Ofpat.output, [0, 0, 0, 3]⟩]⟩

def plainBucket : Bucket := ⟨[⟨Ofpat.output, [0, 0, 0, 4]⟩]⟩

def groupFlowRun : List (Op (BitVec 8)) :=
  [.create ⟨0, 7, 0, 0, 16, .ok 5, [.applyActions pushToGroup]⟩ 10 ⟨0, 1, 0, 0⟩]

def bucketRun : List (GroupOp (List Bucket)) :=
  [.create 5 Ofpgt.all [plainBucket] ⟨0, 0⟩, .modify 5 [taggedBucket, plainBucket] ⟨0, 0⟩]

def bucketSig (b : Bucket) : BitVec 32 := (parseActions Host.full.toMachine b.actions .empty).sig

def groupTables : Tables 9 16 where
  ofpatGroupIngress := fun id => if id = 5 then some (.mc 1) else none
  ofpatOutput := fun _ => none
  ofpatGroupEgress := fun id port =>
    if id = 5 ∧ port = 3 then some (bucketSig taggedBucket)
    else if id = 5 ∧ port = 4 then some (bucketSig plainBucket) else none
  egress := fun t key =>
    if key.index = 10 ∧ t = .pushVlan ∨ key.groupId = 5 ∧ key.port = 3 ∧ t = .setField then
      some (vid5ttl10 t)
    else none

theorem entry_of_rewrite {p : Parsed} {P : EgressTable → Prop}
    (h : ∀ table : EgressTable, p.rewrite table.gate = none ∨
      P table ∧ p.rewrite table.gate = some (table.rewrite (vid5ttl10 table)))
    {table : EgressTable} {r : Rewrite} (hr : p.rewrite table.gate = some r) :
    P table ∧ table.rewrite (vid5ttl10 table) = r := by
  rcases h table with hnone | ⟨hp, hsome⟩
  · exact absurd (hr.symm.trans hnone) (Option.some_ne_none r)
  · exact ⟨hp, Option.some.inj (hsome.symm.trans hr)⟩

theorem groupFlowRun_stored {k : BitVec 64} {p : Parsed}
    (hp : (run (Twin.step Host.full) Twin.empty groupFlowRun).world.state.plane.pipeline k = some p) :
    k = 10 ∧ p = parseActions Host.full.toMachine pushToGroup .empty := by
  have hs := sound_run Host.full groupFlowRun (by decide)
  obtain ⟨f, hf, rfl⟩ := hs.synced.owned k (hp ▸ Option.some_ne_none p)
  obtain rfl := List.mem_singleton.1 hf
  refine ⟨rfl, (Option.some.inj hp).symm.trans ?_⟩
  exact parseInstructions_applyActions Host.full.toMachine pushToGroup .empty

theorem groupFlowRun_entry {k : BitVec 64} {p : Parsed} {table : EgressTable} {r : Rewrite}
    (hp : (run (Twin.step Host.full) Twin.empty groupFlowRun).world.state.plane.pipeline k = some p)
    (hr : p.rewrite table.gate = some r) :
    k = 10 ∧ table = .pushVlan ∧ table.rewrite (vid5ttl10 table) = r := by
  obtain ⟨rfl, rfl⟩ := groupFlowRun_stored hp
  exact ⟨rfl, entry_of_rewrite (P := (· = .pushVlan)) (fun t => by cases t <;> decide) hr⟩

def bucketState : Backed (TypedGroups (List Bucket)) (List Bucket) :=
  run (Backed.step typedPlugin) ⟨GroupWorld.empty, TypedGroups.empty⟩ bucketRun

theorem groupsAgree_bucketState :
    GroupsAgree typedPlugin bucketState [⟨5, Ofpgt.all, [taggedBucket, plainBucket], true⟩] := by
  have hempty : typedPlugin.held (TypedGroups.empty : TypedGroups (List Bucket)) = fun _ => none := rfl
  have hbuckets : Along GroupWorld.step CarefulGroup GroupWorld.empty bucketRun := by decide
  exact (groupsAgree_empty hempty).run typedPlugin_works hbuckets

theorem realisesGroups_groupTables : RealisesGroups groupTables Host.full.toMachine
    (run (Twin.step Host.full) Twin.empty groupFlowRun).world.state.plane.pipeline
    (typedPlugin.buckets bucketState.plugin) := by
  have hheld : typedPlugin.buckets bucketState.plugin 5 = some [taggedBucket, plainBucket] :=
    groupsAgree_bucketState.buckets List.mem_cons_self rfl
  have hgroup : ∀ id bs, typedPlugin.buckets bucketState.plugin id = some bs →
      id = 5 ∧ bs = [taggedBucket, plainBucket] := by
    intro id bs hbs
    obtain ⟨x, hx, rfl, rfl⟩ := groupsAgree_bucketState.of_buckets hbs
    obtain rfl := List.mem_singleton.1 hx
    exact ⟨rfl, rfl⟩
  refine ⟨fun k p hp key hkey table r hr _ => ?_, fun id bs hbs _ b hb key hid hport table r hr _ => ?_,
    fun id bs hbs _ b hb port hport => ?_, fun id port hnone => ?_, fun id hnone => ?_⟩
  · obtain ⟨rfl, rfl, hr⟩ := groupFlowRun_entry hp hr
    exact ⟨_, if_pos (.inl ⟨hkey, rfl⟩), hr⟩
  · obtain ⟨rfl, rfl⟩ := hgroup id bs hbs
    rcases List.mem_cons.1 hb with rfl | hb
    · obtain ⟨rfl, hr⟩ := entry_of_rewrite (P := (· = .setField)) (fun t => by cases t <;> decide) hr
      have hthree : key.port = 3 := (Option.some.inj hport).symm
      exact ⟨_, if_pos (.inr ⟨hid, hthree, rfl⟩), hr⟩
    · obtain rfl := List.mem_singleton.1 hb
      exact (entry_of_rewrite (P := fun _ => False) (fun t => by cases t <;> decide) hr).1.elim
  · obtain ⟨rfl, rfl⟩ := hgroup id bs hbs
    rcases List.mem_cons.1 hb with rfl | hb
    · obtain rfl := Option.some.inj hport
      rfl
    · obtain rfl := List.mem_singleton.1 hb
      obtain rfl := Option.some.inj hport
      rfl
  · have htagged : ¬ (id = 5 ∧ port = 3) := by
      rintro ⟨rfl, rfl⟩
      exact hnone _ hheld taggedBucket List.mem_cons_self rfl
    have hplain : ¬ (id = 5 ∧ port = 4) := by
      rintro ⟨rfl, rfl⟩
      exact hnone _ hheld plainBucket (List.mem_cons_of_mem _ List.mem_cons_self) rfl
    exact (if_neg htagged).trans (if_neg hplain)
  · have hne : id ≠ 5 := by
      rintro rfl
      exact absurd (hheld.symm.trans hnone) (Option.some_ne_none _)
    exact if_neg hne

def replicate (q : OfPacket 9 16) : List (BitVec 9) := if q.mcastGrp = 1 then [4, 3, 7] else []

theorem group_executes_twoBuckets :
    let a : PdAction := ⟨10, Host.full.parse [.applyActions pushToGroup]⟩
    let p := (a.run 5 ipv4Packet).applyGroupIngress groupTables
    P4.pipeline groupTables replicate (a.run 5 ipv4Packet) = (p, [4, 3, 7].map
      (groupCopy Host.full.toMachine pushToGroup [taggedBucket, plainBucket] p)) := by
  intro a p
  have hchoice : IsChoice (MatchesOpt Eq)
      (ofRules Host.full 0 (run (Twin.step Host.full) Twin.empty groupFlowRun).flows) (5 : BitVec 8)
      ⟨some 5, 7, a⟩ := by
    refine ⟨List.mem_cons_self, rfl, fun q hq _ hne => ?_⟩
    exact absurd (List.mem_singleton.1 hq) hne
  have hpass : PassesGroup a 5 := passesGroup_lastGroup Host.full 10 rfl (by decide)
  exact (group_executes Host.full Eq groupFlowRun (by decide) typedPlugin typedPlugin_works
    TypedGroups.empty rfl bucketRun (by decide) groupTables (fun _ => realisesGroups_groupTables) replicate
    ⟨10, 0, some 5, 7, [.applyActions pushToGroup]⟩ List.mem_cons_self 5 5 pushToGroup rfl hchoice
    (by decide) rfl (by decide) (by decide) ⟨5, Ofpgt.all, [taggedBucket, plainBucket], true⟩
    (List.mem_singleton.2 rfl) rfl (by decide) (by decide) (by decide)).2 5 hpass ipv4Packet

end P4OfAgent
