import P4OfAgent.ActionOrder
import P4OfAgent.ActionArguments
import P4OfAgent.TableInfluence

/-! Lists of header actions and OUTPUT through both control blocks: ingress takes the packet to the
port of the last OUTPUT, egress runs the header actions on the copy of every port. The bitmap comes
with the packet and the entries from the tables, so they can be those of two different lists. -/

namespace P4OfAgent
open P4 Function

def Action.Executed (a : Action) : Prop := a.rewrite.isSome = true ∨ a.type = Ofpat.output

instance (a : Action) : Decidable a.Executed :=
  inferInstanceAs (Decidable (a.rewrite.isSome = true ∨ a.type = Ofpat.output))

def Action.Routed (a : Action) : Prop := a.Executed ∨ a.type = Ofpat.group

def lastOfType (type : BitVec 16) (as : List Action) : Option Action :=
  (as.filter fun a => a.type = type).getLast?

def lastOutput (as : List Action) : Option (BitVec 32) :=
  (lastOfType Ofpat.output as).map Action.outputPort

def keptBy (new old : List Action) : List Action := old.filter fun a => ∃ b ∈ new, b.type = a.type

theorem keptBy_self (as : List Action) : keptBy as as = as := by
  refine List.filter_eq_self.2 fun a ha => ?_
  exact decide_eq_true ⟨a, ha, rfl⟩

theorem lastOfType_append (type : BitVec 16) (as : List Action) (a : Action) :
    lastOfType type (as ++ [a]) = if a.type = type then some a else lastOfType type as := by
  unfold lastOfType
  rw [List.filter_append]
  by_cases ha : a.type = type
  · simp only [ha, decide_true, List.filter_cons_of_pos, List.filter_nil, List.getLast?_concat, if_true]
  · simp only [ha, decide_false, Bool.false_eq_true, not_false_eq_true, List.filter_cons_of_neg,
      List.filter_nil, List.append_nil, if_false]

theorem lastOfType_isSome {type : BitVec 16} {as : List Action} :
    (lastOfType type as).isSome = true ↔ ∃ a ∈ as, a.type = type := by
  rw [lastOfType, List.getLast?_isSome, ne_eq, List.filter_eq_nil_iff]
  simp only [decide_eq_true_eq, not_forall, not_not, exists_prop]

theorem lastOutput_isSome {as : List Action} :
    (lastOutput as).isSome = true ↔ ∃ a ∈ as, a.type = Ofpat.output := by
  rw [lastOutput, Option.isSome_map]
  exact lastOfType_isSome

theorem lastOutput_keptBy (new old : List Action) :
    lastOutput (keptBy new old) = if ∃ b ∈ new, b.type = Ofpat.output then lastOutput old else none := by
  unfold lastOutput lastOfType keptBy
  rw [List.filter_filter]
  by_cases hnew : ∃ b ∈ new, b.type = Ofpat.output
  · rw [if_pos hnew, List.filter_congr fun a _ => ?_]
    by_cases ha : a.type = Ofpat.output
    · simp only [ha, hnew, decide_true, Bool.and_self]
    · simp only [ha, decide_false, Bool.false_and]
  · rw [if_neg hnew, List.filter_eq_nil_iff.2 fun a _ => ?_]
    · rfl
    · by_cases ha : a.type = Ofpat.output
      · simp only [ha, hnew, decide_true, decide_false, Bool.and_false, Bool.false_eq_true,
          not_false_eq_true]
      · simp only [ha, decide_false, Bool.false_and, Bool.false_eq_true, not_false_eq_true]

theorem filterMap_keptBy (new old : List Action) :
    (keptBy new old).filterMap Action.rewrite =
      (old.filterMap Action.rewrite).filter fun r => ∃ b ∈ new, b.type = r.gate.type := by
  unfold keptBy
  induction old with
  | nil => rfl
  | cons a old ih =>
    cases hr : a.rewrite with
    | none =>
      rw [List.filterMap_cons_none hr, ← ih, List.filter_cons]
      split_ifs
      · exact List.filterMap_cons_none hr
      · rfl
    | some r =>
      rw [List.filterMap_cons_some hr, List.filter_cons, List.filter_cons, ← ih,
        (Action.rewrite_eq_some hr).1]
      split_ifs
      · exact List.filterMap_cons_some hr
      · rfl

namespace P4

theorem Rewrite.type_ne_output (r : Rewrite) : r.gate.type ≠ Ofpat.output := by
  have hgate : r.gate ≠ .output := by
    cases r <;> exact Gate.noConfusion
  exact fun ht => hgate (Gate.type_injective ht)

theorem Rewrite.type_ne_group (r : Rewrite) : r.gate.type ≠ Ofpat.group := by
  have hgate : r.gate ≠ .group := by
    cases r <;> exact Gate.noConfusion
  exact fun ht => hgate (Gate.type_injective ht)

theorem Rewrite.type_ne_of_routed (r : Rewrite) {a : Action} (ha : a.Routed) (hr : a.rewrite = none) :
    r.gate.type ≠ a.type := by
  rcases ha with (hs | ht) | ht
  · rw [hr] at hs
    exact absurd hs Bool.false_ne_true
  · exact ht ▸ r.type_ne_output
  · exact ht ▸ r.type_ne_group

theorem applyGroupEgress_of_none {w n : Nat} {t : Tables w n} {p : OfPacket w n}
    (h : t.ofpatGroupEgress p.md.groupId p.egressPort = none) : p.applyGroupEgress t = p := by
  rw [OfPacket.applyGroupEgress, h]

end P4

section stores
variable {m : Machine} {rs : List Rewrite} {a : Action}

theorem stores_other {s : ActionLoop} (hp : Stores s.out rs) (hr : ∀ r : Rewrite, r.gate.type ≠ a.type) :
    Stores (parseActionsStep m s a).out rs := by
  have hne : a.type ≠ Ofpat.setField := fun h => hr (.setVlanVid 0) h.symm
  rw [parseActionsStep_plain m s a hne]
  refine ⟨fun g r hg => ?_, ?_⟩
  · have htype : g.type ≠ a.type := (Slots.fill_some hg).2 ▸ hr r
    refine Parsed.rewrite_mono ?_ (fun ptr v => Heap.load_allocate _ _ _) (hp.rewrite g r hg)
    simp only [Parsed.stored, update_of_ne htype, update_of_ne hne.symm, Heap.array_allocate]
  · intro root hroot
    simp only [update_of_ne hne.symm] at hroot
    obtain ⟨n, arr, hn, harr, hkey⟩ := hp.root root hroot
    exact ⟨n, arr, hn, (Heap.array_allocate _ _ _ root).trans harr, hkey⟩

theorem stores_routed (m : Machine) (as : List Action) (has : ∀ a ∈ as, a.Routed) :
    Stores (parseActions m as .empty) (as.filterMap Action.rewrite) := by
  rw [parseActions_eq]
  induction as using List.reverseRecOn with
  | nil => exact stores_parseActions m [] fun a ha => absurd ha List.not_mem_nil
  | append_singleton as a ih =>
    have hstart := ih fun b hb => has b (List.mem_append_left [a] hb)
    rw [actionLoop_append, List.filterMap_append]
    cases hr : a.rewrite with
    | some r =>
      rw [List.filterMap_cons_some hr, List.filterMap_nil]
      exact stores_step hstart hr
    | none =>
      rw [List.filterMap_cons_none hr, List.filterMap_nil, List.append_nil]
      refine stores_other hstart fun r => ?_
      exact r.type_ne_of_routed (has a (List.mem_append_right as List.mem_cons_self)) hr

theorem parseActions_last (m : Machine) (as : List Action) {a : Action} (ha : a.type ∈ argumentTypes)
    (hlast : lastOfType a.type as = some a) :
    ∃ ptr v, a.argument = some v ∧ (parseActions m as .empty).aargs a.type = some ptr ∧
      (parseActions m as .empty).heap.load ptr = some v := by
  rw [parseActions_eq]
  induction as using List.reverseRecOn with
  | nil => exact absurd hlast (Option.some_ne_none a).symm
  | append_singleton as b ih =>
    rw [lastOfType_append] at hlast
    rw [actionLoop_append]
    split_ifs at hlast with hb
    · obtain rfl := Option.some.inj hlast
      exact parseActionsStep_entry m (s := actionLoop m .empty as) ha
    · obtain ⟨ptr, v, hv, haargs, hload⟩ := ih hlast
      refine ⟨ptr, v, hv, (parseActionsStep_aargs_of_ne m _ b hb).trans haargs, ?_⟩
      rw [parseActionsStep_load]
      exact Heap.load_allocate _ _ _ hload

theorem lastOfType_type {type : BitVec 16} {as : List Action} (hlast : lastOfType type as = some a) :
    a.type = type :=
  of_decide_eq_true (List.mem_filter.1 (List.mem_of_getLast? hlast)).2

theorem parseActions_output (m : Machine) (as : List Action) {port : BitVec 32}
    (hport : lastOutput as = some port) :
    ∃ ptr, (parseActions m as .empty).aargs Ofpat.output = some ptr ∧
      (parseActions m as .empty).heap.load ptr = some (.u32 port) := by
  obtain ⟨a, hlast, rfl⟩ := Option.map_eq_some_iff.1 hport
  have ha := lastOfType_type hlast
  have hmem : a.type ∈ argumentTypes := ha ▸ List.mem_cons_self
  obtain ⟨ptr, v, hv, haargs, hload⟩ := parseActions_last m as hmem (ha ▸ hlast)
  rw [Action.argument, if_pos ha] at hv
  obtain rfl := Option.some.inj hv
  exact ⟨ptr, ha ▸ haargs, hload⟩

theorem rewrite_nil (m : Machine) (g : P4.Gate) : (parseActions m [] .empty).rewrite g = none := by
  refine Option.bind_eq_none_iff.2 fun ptr hptr => ?_
  unfold Parsed.stored at hptr
  split_ifs at hptr <;> exact absurd hptr (Option.some_ne_none ptr).symm

end stores

namespace P4
open Slots
variable {w n : Nat}

/-- The entry of `ofpat_output` for the index takes the packet to the port stored for OUTPUT. -/
def InstallsOutput (t : Tables w n) (p : Parsed) (index : BitVec 32) : Prop :=
  ∀ key : Key w, key.index = index → ∀ ptr port, p.aargs Ofpat.output = some ptr →
    p.heap.load ptr = some (.u32 port) → t.ofpatOutput key = some (port.setWidth w)

def OfPacket.output (port : Option (BitVec 32)) (q : OfPacket w n) : OfPacket w n :=
  port.elim q fun port => q.ofpatOutput (port.setWidth w)

/-- For the index the tables hold the entries of the list `old`, and none for the types that only the
list `new` has. -/
structure Holds (t : Tables w n) (m : Machine) (old new : List Action) (index : BitVec 32) : Prop where
  egress : Installs t (parseActions m old .empty) index
  output : InstallsOutput t (parseActions m old .empty) index
  egressMiss : ∀ key : Key w, key.index = index → ∀ table : EgressTable,
    (∃ b ∈ new, b.type = table.gate.type) → (∀ a ∈ old, a.type ≠ table.gate.type) →
      t.egress table key = none
  outputMiss : ∀ key : Key w, key.index = index →
    (∃ b ∈ new, b.type = Ofpat.output) → (∀ a ∈ old, a.type ≠ Ofpat.output) → t.ofpatOutput key = none

section block
variable {m : Machine} {old new : List Action} {t : Tables w n} {q : OfPacket w n}

theorem passes_routed (hnew : ∀ a ∈ new, a.Routed) {md : OpenflowMetadata}
    (hmd : md.bmap = (parseActions m new .empty).sig) (g : Gate) :
    g.passes md = true ↔ ∃ b ∈ new, b.type = g.type := by
  refine g.passes_signature m (fun a ha => ?_) (fun k hk => ?_) hmd
  · rcases hnew a ha with (hr | ht) | ht
    · obtain ⟨r, hr⟩ := Option.isSome_iff_exists.1 hr
      rw [← (Action.rewrite_eq_some hr).1]
      exact r.gate.type_lt
    · rw [ht]
      decide
    · rw [ht]
      decide
  · exact absurd (hk.symm.trans BitVec.getLsbD_zero) Bool.noConfusion

theorem passes_executed (hnew : ∀ a ∈ new, a.Executed)
    (hmd : q.md.bmap = (parseActions m new .empty).sig) (g : Gate) :
    g.passes q.md = true ↔ ∃ b ∈ new, b.type = g.type :=
  passes_routed (fun a ha => .inl (hnew a ha)) hmd g

theorem program_run {r : Rewrite} (hpass : r.gate.passes q.md = true)
    (hentry : ∀ table : EgressTable, table.gate = r.gate →
      ∃ args, t.egress table q.egressKey = some args ∧ table.rewrite args = r) {p : OfPacket w n}
    (hp : p.control = q.control) :
    ((program t q r.gate).elim p fun r => r.run p) = r.run p := by
  rw [program, if_pos hpass]
  cases htable : r.gate.table q with
  | none => exact (Rewrite.run_of_table_none ((table_congr hp _).trans htable)).symm
  | some table =>
    obtain ⟨args, hargs, hr⟩ := hentry table ((r.gate.table_eq_some q table).1 htable).1.symm
    rw [Option.bind_some, hargs, Option.map_some, hr, Option.elim_some]

theorem processOfpatIngress_executed (hnew : ∀ a ∈ new, a.Executed)
    (hmd : q.md.bmap = (parseActions m new .empty).sig) (ht : Holds t m old new q.md.index) :
    processOfpatIngress t q = q.output (lastOutput (keptBy new old)) := by
  have hgroup : ¬ Gate.group.passes q.md = true := by
    rw [passes_executed hnew hmd]
    rintro ⟨b, hb, htype⟩
    rcases hnew b hb with hr | hout
    · obtain ⟨r, hr⟩ := Option.isSome_iff_exists.1 hr
      exact r.type_ne_group ((Action.rewrite_eq_some hr).1.trans htype)
    · exact absurd (htype.symm.trans hout) (by decide)
  have houtput : Gate.output.passes q.md = true ↔ ∃ b ∈ new, b.type = Ofpat.output :=
    passes_executed hnew hmd .output
  simp only [processOfpatIngress, if_neg hgroup, houtput, lastOutput_keptBy]
  by_cases hout : ∃ b ∈ new, b.type = Ofpat.output
  · rw [if_pos hout, if_pos hout, OfPacket.applyOutput]
    cases hport : lastOutput old with
    | none =>
      have hmiss : ∀ a ∈ old, a.type ≠ Ofpat.output := by
        intro a ha htype
        have hsome := lastOutput_isSome.2 ⟨a, ha, htype⟩
        rw [hport] at hsome
        exact absurd hsome Bool.false_ne_true
      rw [ht.outputMiss q.ingressKey rfl hout hmiss]
      rfl
    | some port =>
      obtain ⟨ptr, haargs, hload⟩ := parseActions_output m old hport
      rw [ht.output q.ingressKey rfl ptr port haargs hload]
      rfl
  · rw [if_neg hout, if_neg hout]
    rfl

theorem program_executed (hold : ∀ a ∈ old, a.Executed) (hnew : ∀ a ∈ new, a.Executed)
    (hmd : q.md.bmap = (parseActions m new .empty).sig) (ht : Holds t m old new q.md.index) {g : Gate}
    (hg : g ≠ .output) {p : OfPacket w n} (hp : p.control = q.control) :
    ((program t q g).elim p fun r => r.run p) =
      (fill Rewrite.gate ((keptBy new old).filterMap Action.rewrite) g).elim p fun r => r.run p := by
  have hpass := passes_executed hnew hmd g
  rw [filterMap_keptBy, fill_filter fun g : Gate => decide (∃ b ∈ new, b.type = g.type)]
  simp only [decide_eq_true_eq]
  by_cases hin : ∃ b ∈ new, b.type = g.type
  · rw [if_pos hin]
    cases hfill : fill Rewrite.gate (old.filterMap Action.rewrite) g with
    | none =>
      have hmiss : ∀ a ∈ old, a.type ≠ g.type := by
        intro a ha htype
        rcases hold a ha with hr | hout
        · obtain ⟨r, hr⟩ := Option.isSome_iff_exists.1 hr
          have hslot : r.gate = g := Gate.type_injective ((Action.rewrite_eq_some hr).1.trans htype)
          have hsome := fill_isSome.2 ⟨r, List.mem_filterMap.2 ⟨a, ha, hr⟩, hslot⟩
          rw [hfill] at hsome
          exact absurd hsome Bool.false_ne_true
        · exact hg (Gate.type_injective (htype.symm.trans hout))
      rw [program, if_pos (hpass.2 hin)]
      cases htable : g.table q with
      | none => rfl
      | some table =>
        obtain rfl := ((g.table_eq_some q table).1 htable).1
        rw [Option.bind_some, ht.egressMiss q.egressKey rfl table hin hmiss]
        rfl
    | some r =>
      obtain rfl := (fill_some hfill).2
      refine program_run (hpass.2 hin) (fun table htable => ?_) hp
      refine ht.egress q.egressKey rfl table r ?_
      rw [htable]
      exact (stores_routed m old fun a ha => .inl (hold a ha)).rewrite r.gate r hfill
  · rw [if_neg hin, program, if_neg fun hp => hin (hpass.1 hp)]

theorem processOfpatEgress_executed (hold : ∀ a ∈ old, a.Executed) (hnew : ∀ a ∈ new, a.Executed)
    (hmd : q.md.bmap = (parseActions m new .empty).sig) (ht : Holds t m old new q.md.index)
    (hgroup : q.applyGroupEgress t = q)
    (hord : (old.filterMap Action.rewrite).Pairwise InBlockOrder) :
    processOfpatEgress t q =
      ((keptBy new old).filterMap Action.rewrite).foldl (fun q r => r.run q) q := by
  have horder : egressOrder.Pairwise fun g g' => egressOrder.idxOf g < egressOrder.idxOf g' := by decide
  have hkept : ((keptBy new old).filterMap Action.rewrite).Pairwise InBlockOrder := by
    rw [filterMap_keptBy]
    exact hord.sublist List.filter_sublist
  rw [processOfpatEgress_run, hgroup]
  refine Eq.trans (run_congr_of_inv (I := fun p => p.control = q.control) (fun r p hp => ?_)
    (fun g hg p hp => ?_) rfl)
    (run_fill horder (fun r _ => r.mem_egressOrder) (hkept.imp InBlockOrder.inOrder))
  · exact (r.control_run p).trans hp
  · refine program_executed hold hnew hmd ht ?_ hp
    rintro rfl
    exact absurd hg (by decide)

end block

def runList (trafficManager : OfPacket w n → List (BitVec w)) (as : List Action) (q : OfPacket w n) :
    OfPacket w n × List (OfPacket w n) :=
  let out := q.output (lastOutput as)
  (out, (trafficManager out).map fun port =>
    (as.filterMap Action.rewrite).foldl (fun q r => r.run q) { out with egressPort := port })

/-- A packet with the bitmap of one list, in tables with the entries of another one, gets those
actions of the other list whose types its own list has, if the other list is in the order of the egress
block. -/
theorem pipeline_keptBy {m : Machine} {old new : List Action} {t : Tables w n}
    (trafficManager : OfPacket w n → List (BitVec w)) (q : OfPacket w n) (index groupId : BitVec 32)
    (hold : ∀ a ∈ old, a.Executed) (hnew : ∀ a ∈ new, a.Executed)
    (hord : (old.filterMap Action.rewrite).Pairwise InBlockOrder) (ht : Holds t m old new index)
    (hgroup : ∀ port, t.ofpatGroupEgress groupId port = none) :
    let q := q.openflowApply (parseActions m new .empty).sig index groupId
    pipeline t trafficManager q = runList trafficManager (keptBy new old) q := by
  intro q
  have hmd : (q.output (lastOutput (keptBy new old))).md = q.md := by
    unfold OfPacket.output
    cases lastOutput (keptBy new old) <;> rfl
  unfold pipeline runList
  rw [processOfpatIngress_executed hnew rfl ht]
  refine Prod.ext rfl (List.map_congr_left fun port _ => ?_)
  refine processOfpatEgress_executed (m := m) hold hnew (congrArg (fun md => md.bmap) hmd) ?_ ?_ hord
  · exact congrArg (fun md => md.index) hmd ▸ ht
  · have hgid := congrArg (fun md => md.groupId) hmd
    exact applyGroupEgress_of_none ((congrArg (t.ofpatGroupEgress · port) hgid).trans (hgroup port))

theorem Holds.of_installs {t : Tables w n} {m : Machine} {as : List Action} {index : BitVec 32}
    (hinst : Installs t (parseActions m as .empty) index)
    (houtput : InstallsOutput t (parseActions m as .empty) index) : Holds t m as as index where
  egress := hinst
  output := houtput
  egressMiss := fun _ _ _ ⟨b, hb, ht⟩ hne => absurd ht (hne b hb)
  outputMiss := fun _ _ ⟨b, hb, ht⟩ hne => absurd ht (hne b hb)

theorem pipeline_idle {t : Tables w n} (trafficManager : OfPacket w n → List (BitVec w))
    {q : OfPacket w n} (hpass : ∀ g : Gate, ¬ g.passes q.md = true)
    (hgroup : ∀ port, t.ofpatGroupEgress q.md.groupId port = none) :
    pipeline t trafficManager q = runList trafficManager [] q := by
  have hin : processOfpatIngress t q = q := by
    simp only [processOfpatIngress, if_neg (hpass .group), if_neg (hpass .output)]
  unfold pipeline runList
  rw [hin]
  refine Prod.ext rfl (List.map_congr_left fun port _ => ?_)
  have hmiss : ({ q with egressPort := port } : OfPacket w n).applyGroupEgress t =
      { q with egressPort := port } := applyGroupEgress_of_none (hgroup port)
  rw [processOfpatEgress_eq, hmiss]
  exact List.foldl_fixed' (fun g => if_neg (hpass g)) egressOrder

end P4

/-! ## The instruction that counts -/

section instructions
variable {w n : Nat} {is : List Instruction}

/-- The action list that the first instruction holds. It ends the loop of `parse_instructions`. -/
def firstList : List Instruction → Option (List Action)
  | i :: _ => if instrCase i.type = .actions then some i.actions else none
  | [] => none

def KnownFirst : List Instruction → Prop
  | i :: _ => i.type ∈ Ofpit.known
  | [] => True

instance : ∀ is, Decidable (KnownFirst is)
  | i :: _ => inferInstanceAs (Decidable (i.type ∈ Ofpit.known))
  | [] => isTrue trivial

theorem firstList_cons (i : Instruction) (rest : List Instruction) :
    firstList (i :: rest) = if instrCase i.type = .actions then some i.actions else none := rfl

theorem parseInstructions_firstList (m : Machine) {as : List Action} (hfirst : firstList is = some as)
    (p : Parsed) : parseInstructions m is p = parseActions m as p := by
  cases is with
  | nil => exact absurd hfirst (Option.some_ne_none as).symm
  | cons i rest =>
    rw [firstList_cons] at hfirst
    split_ifs at hfirst with hcase
    obtain rfl := Option.some.inj hfirst
    rw [← i.be16_encodeList rest] at hcase
    rw [parseInstructions, parseInstructionsLoop_eq, iterations_actions _ _ hcase]
    rfl

theorem mem_recordedInstructions {t : BitVec 16} (ht : t ∈ Ofpit.known) (hcase : instrCase t ≠ .actions) :
    t ∈ recordedInstructions := by
  simp only [Ofpit.known, List.mem_cons, List.not_mem_nil, or_false] at ht
  rcases ht with rfl | rfl | rfl | rfl | rfl | rfl <;> revert hcase <;> decide

theorem toNat_recordedInstructions {t : BitVec 16} (ht : t ∈ recordedInstructions) : t.toNat < 64 := by
  simp only [recordedInstructions, List.mem_cons, List.not_mem_nil, or_false] at ht
  rcases ht with rfl | rfl | rfl <;> decide

theorem recorded_of_firstList {i : Instruction} {rest : List Instruction} (hknown : KnownFirst (i :: rest))
    (hfirst : firstList (i :: rest) = none) :
    instrCase i.type ≠ .actions ∧ i.type ∈ recordedInstructions := by
  have hcase : instrCase i.type ≠ .actions := by
    intro hcase
    rw [firstList_cons, if_pos hcase] at hfirst
    exact Option.some_ne_none i.actions hfirst
  exact ⟨hcase, mem_recordedInstructions hknown hcase⟩

/-- Where the first instruction is no action list, those behind it are lost and no test passes. -/
theorem not_passes_of_firstList (m : Machine) (hknown : KnownFirst is) (hfirst : firstList is = none)
    {md : OpenflowMetadata} (hmd : md.bmap = (parseInstructions m is .empty).sig) (g : Gate) :
    ¬ g.passes md = true := by
  rw [g.passes_iff, hmd]
  cases is with
  | nil => exact fun hbit => absurd (hbit.symm.trans BitVec.getLsbD_zero) Bool.noConfusion
  | cons i rest =>
    obtain ⟨hcase, hi⟩ := recorded_of_firstList hknown hfirst
    rw [parseInstructions, parseInstructionsLoop_eq, foldl_apply_getLsbD m _ g.type_lt]
    rintro (hbit | ⟨it, hit, t, ht, hbit⟩)
    · exact absurd (hbit.symm.trans BitVec.getLsbD_zero) Bool.noConfusion
    · have hreached := (exists_keys i rest .undef Heap.empty t).1 ⟨it, hit, ht⟩
      rw [Instruction.reached, if_neg hcase] at hreached
      obtain rfl := List.mem_singleton.1 hreached
      exact g.type_not_instruction _ hi ((getLsbD_shl64 m (toNat_recordedInstructions hi) _).1 hbit)

def Parsed.Lists (m : Machine) (p : Parsed) (as : List Action) : Prop :=
  p = parseActions m as .empty ∨ as = [] ∧ ∀ g : Gate, p.aargs g.type = none

theorem Parsed.Lists.exists_type {m : Machine} {p : Parsed} {as : List Action} (hp : p.Lists m as)
    {g : Gate} (hg : (p.aargs g.type).isSome = true) : ∃ a ∈ as, a.type = g.type := by
  rcases hp with rfl | ⟨_, hnone⟩
  · rcases (parseActions_isSome m .empty as g.type).1 hg with hempty | hmem
    · exact absurd hempty Bool.false_ne_true
    · exact hmem
  · rw [hnone g] at hg
    exact absurd hg Bool.false_ne_true

end instructions

end P4OfAgent
