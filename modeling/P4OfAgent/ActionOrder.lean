import P4OfAgent.ParseInstructions
import P4OfAgent.Rewrites

/-! APPLY_ACTIONS against the egress block. Of a list of header actions the agent keeps one value for
each type and the set of types, so the list is compiled into a program of slots, and the block runs
the slots in its own order. -/

namespace P4OfAgent
open P4 Function

def Action.rewrite (a : Action) : Option Rewrite :=
  if a.type = Ofpat.popMpls then some .popMpls
  else if a.type = Ofpat.pushMpls then some .pushMpls
  else if a.type = Ofpat.decMplsTtl then some .decMplsTtl
  else if a.type = Ofpat.setMplsTtl then some (.setMplsTtl a.mplsTtl)
  else if a.type = Ofpat.popVlan then some .popVlan
  else if a.type = Ofpat.pushVlan then some .pushVlan
  else if a.type = Ofpat.setField ∧ a.oxmField >>> 1 = ofpxmtOfbVlanVid then
    some (.setVlanVid (a.vlanVid.setWidth 12))
  else if a.type = Ofpat.decNwTtl then some .decNwTtl
  else if a.type = Ofpat.setNwTtl then some (.setNwTtl a.nwTtl)
  else none

def P4.Gate.rewrite : Gate → Option ArgVal → Option Rewrite
  | popMpls, _ => some .popMpls
  | pushMpls, _ => some .pushMpls
  | decMplsTtl, _ => some .decMplsTtl
  | setMplsTtl, some (.u8 ttl) => some (.setMplsTtl ttl)
  | popVlan, _ => some .popVlan
  | pushVlan, _ => some .pushVlan
  | setField, some (.u16 vid) => some (.setVlanVid (vid.setWidth 12))
  | decNwTtl, _ => some .decNwTtl
  | setNwTtl, some (.u8 ttl) => some (.setNwTtl ttl)
  | _, _ => none

namespace Parsed

/-- The pointer stored for the type of a test; with `OFPAT_SET_FIELD` the one for the VLAN id. -/
def stored (p : Parsed) (g : Gate) : Option Ptr :=
  if g = .setField then
    (p.aargs Ofpat.setField).bind fun root => (p.heap.array root).bind fun a => a ofpxmtOfbVlanVid
  else p.aargs g.type

def rewrite (p : Parsed) (g : Gate) : Option Rewrite :=
  (p.stored g).bind fun ptr => g.rewrite (p.heap.load ptr)

end Parsed

namespace P4

theorem Gate.type_injective : Function.Injective Gate.type := by
  intro g g' h
  cases g <;> cases g' <;> first | rfl | exact absurd h (by decide)

theorem Gate.rewrite_of_none {g : Gate} {r : Rewrite} (h : g.rewrite none = some r)
    (arg : Option ArgVal) : g.rewrite arg = some r := by
  cases g <;> first | exact h | exact absurd h (Option.some_ne_none r).symm

end P4

theorem Action.rewrite_eq_some {a : Action} {r : Rewrite} (h : a.rewrite = some r) :
    r.gate.type = a.type ∧ r.gate.rewrite a.argument = some r := by
  unfold Action.rewrite at h
  split_ifs at h with h1 h2 h3 h4 h5 h6 h7 h8 h9 <;> obtain rfl := Option.some.inj h
  · exact ⟨h1.symm, rfl⟩
  · exact ⟨h2.symm, rfl⟩
  · exact ⟨h3.symm, rfl⟩
  · refine ⟨h4.symm, ?_⟩
    simp only [Action.argument, h4]
    rfl
  · exact ⟨h5.symm, rfl⟩
  · exact ⟨h6.symm, rfl⟩
  · refine ⟨h7.1.symm, ?_⟩
    simp only [Action.argument, h7]
    rfl
  · exact ⟨h8.symm, rfl⟩
  · refine ⟨h9.symm, ?_⟩
    simp only [Action.argument, h9]
    rfl

/-! ## What `parse_actions` stores -/

structure Stores (p : Parsed) (rs : List Rewrite) : Prop where
  rewrite : ∀ g r, Slots.fill Rewrite.gate rs g = some r → p.rewrite g = some r
  root : ∀ root, p.aargs Ofpat.setField = some root → ∃ n arr, root = .root n ∧
    p.heap.array root = some arr ∧ (arr ofpxmtOfbVlanVid).isSome = true

section stores
variable {m : Machine} {p p' : Parsed} {rs : List Rewrite} {g : Gate} {r : Rewrite} {a : Action}

theorem Parsed.rewrite_mono (hs : p'.stored g = p.stored g)
    (hl : ∀ ptr v, p.heap.load ptr = some v → p'.heap.load ptr = some v)
    (h : p.rewrite g = some r) : p'.rewrite g = some r := by
  obtain ⟨ptr, hptr, hr⟩ := Option.bind_eq_some_iff.1 h
  rw [Parsed.rewrite, hs, hptr, Option.bind_some]
  cases hv : p.heap.load ptr with
  | some v =>
    rw [hl ptr v hv, ← hv]
    exact hr
  | none =>
    rw [hv] at hr
    exact Gate.rewrite_of_none hr _

theorem rewrite_append (hp : ∀ g r, Slots.fill Rewrite.gate rs g = some r → p.rewrite g = some r)
    (hnew : p'.rewrite r.gate = some r) (hs : ∀ g, g ≠ r.gate → p'.stored g = p.stored g)
    (hl : ∀ ptr v, p.heap.load ptr = some v → p'.heap.load ptr = some v) :
    ∀ g r', Slots.fill Rewrite.gate (rs ++ [r]) g = some r' → p'.rewrite g = some r' := by
  intro g r' h
  rw [Slots.fill_append] at h
  by_cases hg : g = r.gate
  · rw [hg, update_self] at h
    obtain rfl := Option.some.inj h
    rwa [hg]
  · rw [update_of_ne hg] at h
    exact Parsed.rewrite_mono (hs g hg) hl (hp g r' h)

theorem rewrite_allocate (h : Heap) (arg : Ptr) (ha : a.rewrite = some r) :
    r.gate.rewrite ((h.allocate arg a.argument).2.load (h.allocate arg a.argument).1) = some r := by
  have hr := (Action.rewrite_eq_some ha).2
  cases hv : a.argument with
  | none =>
    rw [hv] at hr
    exact Gate.rewrite_of_none hr _
  | some v =>
    rw [hv] at hr
    rw [Heap.allocate, h.load_malloc v]
    exact hr

theorem stores_plain {s : ActionLoop} (hp : Stores s.out rs) (ha : a.rewrite = some r)
    (ht : a.type ≠ Ofpat.setField) : Stores (parseActionsStep m s a).out (rs ++ [r]) := by
  have htype := (Action.rewrite_eq_some ha).1
  have hgate : r.gate ≠ .setField := fun h => ht (htype ▸ h ▸ rfl)
  rw [parseActionsStep_plain m s a ht]
  refine ⟨rewrite_append hp.rewrite ?_ ?_ fun ptr v => Heap.load_allocate _ _ _, ?_⟩
  · rw [Parsed.rewrite, Parsed.stored, if_neg hgate, htype]
    simp only [update_self, Option.bind_some]
    exact rewrite_allocate s.out.heap s.arg ha
  · intro g hg
    have hne : g.type ≠ a.type := fun h => hg (Gate.type_injective (h.trans htype.symm))
    simp only [Parsed.stored, update_of_ne hne, update_of_ne ht.symm, Heap.array_allocate]
  · intro root hroot
    simp only [update_of_ne ht.symm] at hroot
    obtain ⟨n, arr, hn, harr, hkey⟩ := hp.root root hroot
    exact ⟨n, arr, hn, (Heap.array_allocate _ _ _ root).trans harr, hkey⟩

theorem stores_field {s : ActionLoop} (hp : Stores s.out rs) (ha : a.rewrite = some r)
    (ht : a.type = Ofpat.setField) {heap : Heap} {n : Nat} {arr : BitVec 8 → Option Ptr}
    (hblocks : heap.blocks = (s.out.heap.allocate s.arg a.argument).2.blocks)
    (harr : heap.array (.root n) = some arr) (hroot : p'.aargs Ofpat.setField = some (.root n))
    (hrest : ∀ k, k ≠ Ofpat.setField → p'.aargs k = s.out.aargs k)
    (hheap : p'.heap = heap.poke (.root n) ofpxmtOfbVlanVid (s.out.heap.allocate s.arg a.argument).1) :
    Stores p' (rs ++ [r]) := by
  have hgate : r.gate = .setField :=
    Gate.type_injective ((Action.rewrite_eq_some ha).1.trans ht)
  have hload : ∀ ptr, p'.heap.load ptr = (s.out.heap.allocate s.arg a.argument).2.load ptr := by
    rw [hheap]
    exact Heap.load_congr ((heap.blocks_poke ..).trans hblocks)
  have hpoke := heap.array_poke harr ofpxmtOfbVlanVid (s.out.heap.allocate s.arg a.argument).1
  rw [← hheap] at hpoke
  refine ⟨rewrite_append hp.rewrite ?_ ?_ ?_, ?_⟩
  · rw [Parsed.rewrite, Parsed.stored, if_pos hgate]
    simp only [hroot, hpoke, Option.bind_some, update_self, hload]
    exact rewrite_allocate s.out.heap s.arg ha
  · intro g hg
    have hg' : g ≠ .setField := hgate ▸ hg
    simp only [Parsed.stored, if_neg hg']
    exact hrest _ fun h => hg' (Gate.type_injective h)
  · intro ptr v hv
    rw [hload]
    exact Heap.load_allocate _ _ _ hv
  · intro root h
    obtain rfl := Option.some.inj (hroot.symm.trans h)
    exact ⟨n, _, rfl, hpoke, by rw [update_self, Option.isSome_some]⟩

theorem Action.oxmField_of_rewrite (ha : a.rewrite = some r) (ht : a.type = Ofpat.setField) :
    a.oxmField >>> 1 = ofpxmtOfbVlanVid := by
  by_contra hne
  simp only [Action.rewrite, ht, hne, and_false] at ha
  exact absurd ha (Option.some_ne_none r).symm

theorem stores_step {s : ActionLoop} (hp : Stores s.out rs) (ha : a.rewrite = some r) :
    Stores (parseActionsStep m s a).out (rs ++ [r]) := by
  by_cases ht : a.type = Ofpat.setField
  · simp only [parseActionsStep, parseOfpat_eq, ht, if_true, Action.oxmField_of_rewrite ha ht]
    cases hroot : s.out.aargs Ofpat.setField with
    | some root =>
      obtain ⟨n, arr, rfl, harr, hkey⟩ := hp.root root hroot
      have harr' := (Heap.array_allocate s.out.heap s.arg a.argument (.root n)).trans harr
      have hjli := Heap.jli_present (m := m) _ harr' hkey
      exact stores_field hp ha ht rfl harr' hroot (fun _ _ => rfl) (by simp only [hjli])
    | none =>
      refine stores_field hp ha ht (Heap.blocks_jli _ m .null ofpxmtOfbVlanVid)
        (Heap.array_jli_null _ m ofpxmtOfbVlanVid) ?_ (fun k hk => update_of_ne hk _ _) rfl
      simp only [update_self, Heap.jli_null]
  · exact stores_plain hp ha ht

theorem stores_parseActions (m : Machine) (as : List Action) (h : ∀ a ∈ as, a.rewrite.isSome = true) :
    Stores (parseActions m as .empty) (as.filterMap Action.rewrite) := by
  rw [parseActions_eq]
  induction as using List.reverseRecOn with
  | nil =>
    refine ⟨fun g r h => absurd h (Option.some_ne_none r).symm, fun root h => ?_⟩
    exact absurd h (Option.some_ne_none root).symm
  | append_singleton as a ih =>
    obtain ⟨r, hr⟩ := Option.isSome_iff_exists.1 (h a (List.mem_append_right as List.mem_cons_self))
    have hstart := ih fun b hb => h b (List.mem_append_left [a] hb)
    rw [actionLoop_append, List.filterMap_append, List.filterMap_cons_some hr, List.filterMap_nil]
    exact stores_step hstart hr

end stores

namespace P4
open Slots
variable {w n : Nat}

/-! ## The block on a flow of one action list -/

/-- For the index the tables hold an entry for every type that is present, with the argument stored
for the type. -/
def Installs (t : Tables w n) (p : Parsed) (index : BitVec 32) : Prop :=
  ∀ key : Key w, key.index = index → ∀ table r, p.rewrite (EgressTable.gate table) = some r →
    ∃ args, t.egress table key = some args ∧ table.rewrite args = r

section block
variable {m : Machine} {as : List Action} {t : Tables w n} {q : OfPacket w n}

theorem passes_fill (g : Gate) (has : ∀ a ∈ as, a.rewrite.isSome = true)
    (hmd : q.md.bmap = (parseActions m as .empty).sig) :
    g.passes q.md = true ↔ (fill Rewrite.gate (as.filterMap Action.rewrite) g).isSome = true := by
  have htype : ∀ a ∈ as, a.type.toNat < 32 := by
    intro a ha
    obtain ⟨r, hr⟩ := Option.isSome_iff_exists.1 (has a ha)
    rw [← (Action.rewrite_eq_some hr).1]
    exact r.gate.type_lt
  have hsig : ∀ k, Parsed.empty.sig.getLsbD k = true → ∃ t ∈ recordedInstructions, t.toNat = k := by
    intro k hk
    exact absurd (hk.symm.trans BitVec.getLsbD_zero) Bool.noConfusion
  rw [g.passes_signature m htype hsig hmd, fill_isSome]
  constructor
  · rintro ⟨a, ha, htg⟩
    obtain ⟨r, hr⟩ := Option.isSome_iff_exists.1 (has a ha)
    exact ⟨r, List.mem_filterMap.2 ⟨a, ha, hr⟩,
      Gate.type_injective ((Action.rewrite_eq_some hr).1.trans htg)⟩
  · rintro ⟨r, hr, rfl⟩
    obtain ⟨a, ha, har⟩ := List.mem_filterMap.1 hr
    exact ⟨a, ha, (Action.rewrite_eq_some har).1.symm⟩

theorem program_fill (has : ∀ a ∈ as, a.rewrite.isSome = true)
    (hmd : q.md.bmap = (parseActions m as .empty).sig)
    (hinst : Installs t (parseActions m as .empty) q.md.index) (g : Gate) {p : OfPacket w n}
    (hp : p.control = q.control) :
    ((program t q g).elim p fun r => r.run p) =
      (fill Rewrite.gate (as.filterMap Action.rewrite) g).elim p fun r => r.run p := by
  have hpass := passes_fill (m := m) g has hmd
  cases hfill : fill Rewrite.gate (as.filterMap Action.rewrite) g with
  | none =>
    rw [hfill] at hpass
    rw [program, if_neg fun h => absurd (hpass.1 h) Bool.false_ne_true]
  | some r =>
    rw [hfill] at hpass
    obtain rfl := (fill_some hfill).2
    rw [program, if_pos (hpass.2 rfl)]
    cases htable : r.gate.table q with
    | none =>
      exact (Rewrite.run_of_table_none ((table_congr hp _).trans htable)).symm
    | some table =>
      have hgate := ((r.gate.table_eq_some q table).1 htable).1
      have hstored := (stores_parseActions m as has).rewrite r.gate r hfill
      rw [hgate] at hstored
      obtain ⟨args, hargs, hr⟩ := hinst q.egressKey rfl table r hstored
      rw [Option.bind_some, hargs, Option.map_some, hr]

end block

/-- Of two actions of a list, the later one overrides the earlier one if they have the same type, and
if not, the block runs it later or they do not touch the same part of the packet. -/
def InBlockOrder (b a : Rewrite) : Prop :=
  if b.gate = a.gate then a ≠ .decMplsTtl ∧ a ≠ .decNwTtl
  else egressOrder.idxOf b.gate < egressOrder.idxOf a.gate ∨ a.gate.Independent b.gate

instance (b a : Rewrite) : Decidable (InBlockOrder b a) :=
  inferInstanceAs (Decidable (if b.gate = a.gate then _ else _))

theorem InBlockOrder.inOrder {b a : Rewrite} (h : InBlockOrder b a) :
    InOrder (Rewrite.run : Rewrite → OfPacket w n → OfPacket w n) Rewrite.gate
      (fun g => egressOrder.idxOf g) b a := by
  unfold InBlockOrder at h
  unfold InOrder
  split_ifs at h ⊢ with hgate
  · exact Rewrite.absorbs hgate.symm h.1 h.2
  · exact h.imp_right Rewrite.commutes

/-- The block runs the last action of each type of the list, in its own order. For a list in that
order, up to actions that do not interfere, this is the list. -/
theorem applyActions_egress (m : Machine) (as : List Action) (has : ∀ a ∈ as, a.rewrite.isSome = true)
    (t : Tables w n) (q : OfPacket w n) (index groupId : BitVec 32)
    (hinst : Installs t (parseInstructions m [.applyActions as] .empty) index)
    (hgroup : (q.openflowApply (parseInstructions m [.applyActions as] .empty).sig index
        groupId).applyGroupEgress t =
      q.openflowApply (parseInstructions m [.applyActions as] .empty).sig index groupId) :
    let q := q.openflowApply (parseInstructions m [.applyActions as] .empty).sig index groupId
    let rs := as.filterMap Action.rewrite
    processOfpatEgress t q = Slots.run Rewrite.run egressOrder (fill Rewrite.gate rs) q ∧
      (rs.Pairwise InBlockOrder → processOfpatEgress t q = rs.foldl (fun q r => r.run q) q) := by
  intro q' rs
  rw [parseInstructions_applyActions] at hinst hgroup
  have hq : q' = q.openflowApply (parseActions m as .empty).sig index groupId :=
    congrArg (fun p : Parsed => q.openflowApply p.sig index groupId)
      (parseInstructions_applyActions m as .empty)
  clear_value q'
  have hlast : processOfpatEgress t q' = Slots.run Rewrite.run egressOrder (fill Rewrite.gate rs) q' := by
    rw [← hq] at hgroup
    rw [processOfpatEgress_run, hgroup]
    refine run_congr_of_inv (I := fun p => p.control = q'.control) ?_ ?_ rfl
    · intro r p hp
      exact (r.control_run p).trans hp
    · intro g _ p hp
      exact program_fill (m := m) has (hq ▸ rfl) (hq ▸ hinst) g hp
  refine ⟨hlast, fun hrs => ?_⟩
  rw [hlast]
  have hord : egressOrder.Pairwise fun g g' => egressOrder.idxOf g < egressOrder.idxOf g' := by decide
  refine run_fill hord (fun r _ => r.mem_egressOrder) ?_
  exact hrs.imp InBlockOrder.inOrder

theorem installs_constant {args : (t : EgressTable) → t.Args} {p : Parsed} (index : BitVec 32)
    (h : ∀ table : EgressTable, p.rewrite table.gate = none ∨
      p.rewrite table.gate = some (table.rewrite (args table))) :
    Installs (Tables.constant args : Tables w n) p index := by
  intro key _ table r hr
  rcases h table with hnone | hsome
  · exact absurd (hnone.symm.trans hr) (Option.some_ne_none r).symm
  · exact ⟨args table, rfl, Option.some.inj (hsome.symm.trans hr)⟩

def vid5ttl10 : (t : EgressTable) → t.Args
  | .popMpls => ()
  | .pushMpls => ()
  | .decMplsTtl => ()
  | .setMplsTtl => 10#8
  | .popVlan => ()
  | .pushVlan => ()
  | .setField => 5#12
  | .decNwTtlIpv4 => ()
  | .decNwTtlIpv6 => 0#8
  | .setNwTtlIpv4 => 10#8
  | .setNwTtlIpv6 => 10#8

def ipv4Packet : OfPacket 9 16 := { OfPacket.start ethertypeIpv4 with ipv4 := ⟨true, ⟨64⟩⟩ }

def pushThenSet : List Action :=
  [⟨Ofpat.pushVlan, [0x81, 0]⟩, ⟨Ofpat.setField, [0x80, 0, 0xc, 2, 0x10, 5]⟩]

theorem applyActions_pushThenSet :
    let p := parseInstructions ⟨fun _ _ => false, fun _ => 0⟩ [.applyActions pushThenSet] .empty
    let q := ipv4Packet.openflowApply p.sig 7 0
    processOfpatEgress (Tables.constant vid5ttl10) q =
      Rewrite.run (.setVlanVid 5) (Rewrite.run .pushVlan q) := by
  have hinst : Installs (Tables.constant vid5ttl10 : Tables 9 16)
      (parseInstructions ⟨fun _ _ => false, fun _ => 0⟩ [.applyActions pushThenSet] .empty) 7 := by
    rw [parseInstructions_applyActions]
    refine installs_constant 7 fun table => ?_
    cases table <;> decide
  exact (applyActions_egress _ pushThenSet (by decide) (Tables.constant vid5ttl10) ipv4Packet 7 0
    hinst rfl).2 (by decide)

def setThenDec : List Action := [⟨Ofpat.setNwTtl, [10, 0, 0, 0]⟩, ⟨Ofpat.decNwTtl, [0, 0, 0, 0]⟩]

theorem applyActions_setThenDec :
    let p := parseInstructions ⟨fun _ _ => false, fun _ => 0⟩ [.applyActions setThenDec] .empty
    let q := ipv4Packet.openflowApply p.sig 7 0
    (∀ a ∈ setThenDec, a.rewrite.isSome = true) ∧
      Installs (Tables.constant vid5ttl10 : Tables 9 16) p 7 ∧
      processOfpatEgress (Tables.constant vid5ttl10) q ≠
        (setThenDec.filterMap Action.rewrite).foldl (fun q r => r.run q) q := by
  intro p q
  refine ⟨by decide, ?_, fun h => ?_⟩
  · refine installs_constant 7 fun table => ?_
    cases table <;> decide
  · exact absurd (congrArg (fun q : OfPacket 9 16 => q.ipv4.fields.ttl) h) (by decide)

end P4
end P4OfAgent
