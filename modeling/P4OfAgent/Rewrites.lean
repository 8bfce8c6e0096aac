import P4OfAgent.Lib.Slots
import P4OfAgent.OfpatGates

/-! The header actions as a language of their own. What the egress block does to a packet is a
program in it: the tests are the slots, the tables fill them, and the block runs them in its order. -/

namespace P4OfAgent.P4
open Headers Slots
variable {w m : Nat}

inductive Rewrite
  | popMpls | pushMpls | decMplsTtl | setMplsTtl (ttl : BitVec 8)
  | popVlan | pushVlan | setVlanVid (vid : BitVec 12)
  | decNwTtl | setNwTtl (ttl : BitVec 8)
deriving DecidableEq, Repr

def OfPacket.onNw (f4 : Ipv4 → Ipv4) (f6 : Ipv6 → Ipv6) (p : OfPacket w m) : OfPacket w m :=
  { p with ipv4 := p.ipv4.modify f4, ipv6 := if p.ipv4.valid then p.ipv6 else p.ipv6.modify f6 }

namespace Rewrite

def gate : Rewrite → Gate
  | popMpls => .popMpls
  | pushMpls => .pushMpls
  | decMplsTtl => .decMplsTtl
  | setMplsTtl _ => .setMplsTtl
  | popVlan => .popVlan
  | pushVlan => .pushVlan
  | setVlanVid _ => .setField
  | decNwTtl => .decNwTtl
  | setNwTtl _ => .setNwTtl

def run : Rewrite → OfPacket w m → OfPacket w m
  | popMpls, p => p.ofpatPopMpls
  | pushMpls, p => p.ofpatPushMpls
  | decMplsTtl, p => p.ofpatDecMplsTtl
  | setMplsTtl ttl, p => p.ofpatSetMplsTtl ttl
  | popVlan, p => p.ofpatPopVlan
  | pushVlan, p => p.ofpatPushVlan
  | setVlanVid vid, p => p.ofpatSetVlanVid vid
  | decNwTtl, p => p.onNw (fun h => { h with ttl := h.ttl - 1 }) fun h =>
      { h with hopLimit := h.hopLimit - 1 }
  | setNwTtl ttl, p => p.onNw (fun h => { h with ttl := ttl }) fun h => { h with hopLimit := ttl }

end Rewrite

def EgressTable.rewrite : (t : EgressTable) → t.Args → Rewrite
  | popMpls, _ => .popMpls
  | pushMpls, _ => .pushMpls
  | decMplsTtl, _ => .decMplsTtl
  | setMplsTtl, ttl => .setMplsTtl ttl
  | popVlan, _ => .popVlan
  | pushVlan, _ => .pushVlan
  | setField, vid => .setVlanVid vid
  | decNwTtlIpv4, _ => .decNwTtl
  | decNwTtlIpv6, _ => .decNwTtl
  | setNwTtlIpv4, ttl => .setNwTtl ttl
  | setNwTtlIpv6, ttl => .setNwTtl ttl

theorem EgressTable.rewrite_gate (t : EgressTable) (args : t.Args) : (t.rewrite args).gate = t.gate := by
  cases t <;> rfl

theorem onNw_ipv4 (f4 : Ipv4 → Ipv4) (f6 : Ipv6 → Ipv6) {p : OfPacket w m} (h : p.ipv4.valid = true) :
    p.onNw f4 f6 = { p with ipv4 := p.ipv4.modify f4 } := by
  simp only [OfPacket.onNw, h, if_true]

theorem onNw_ipv6 (f4 : Ipv4 → Ipv4) (f6 : Ipv6 → Ipv6) {p : OfPacket w m} (h : p.ipv4.valid = false) :
    p.onNw f4 f6 = { p with ipv6 := p.ipv6.modify f6 } := by
  simp only [OfPacket.onNw, h, Inst.modify, Bool.false_eq_true, if_false]

theorem EgressTable.action_eq (t : EgressTable) (args : t.Args) {p : OfPacket w m}
    (hv : t.HeaderValid p) : t.action args p = (t.rewrite args).run p := by
  cases t with
  | decNwTtlIpv4 => exact (onNw_ipv4 _ _ hv).symm
  | decNwTtlIpv6 => exact (onNw_ipv6 _ _ hv.1).symm
  | setNwTtlIpv4 => exact (onNw_ipv4 _ _ hv).symm
  | setNwTtlIpv6 => exact (onNw_ipv6 _ _ hv.1).symm
  | _ => rfl

/-! ## The program of a packet -/

def OfPacket.control (p : OfPacket w m) : OpenflowMetadata × BitVec w × Bool × Bool :=
  (p.md, p.egressPort, p.ipv4.valid, p.ipv6.valid)

def program (t : Tables w m) (p : OfPacket w m) (g : Gate) : Option Rewrite :=
  if g.passes p.md then
    (g.table p).bind fun table => (t.egress table p.egressKey).map table.rewrite
  else none

theorem onNw_control (f4 : Ipv4 → Ipv4) (f6 : Ipv6 → Ipv6) (p : OfPacket w m) :
    (p.onNw f4 f6).control = p.control := by
  have h6 : (if p.ipv4.valid then p.ipv6 else p.ipv6.modify f6).valid = p.ipv6.valid := by
    split_ifs
    · rfl
    · exact Inst.valid_modify f6 p.ipv6
  simp only [OfPacket.control, OfPacket.onNw, Inst.valid_modify, h6]

theorem Rewrite.control_run (r : Rewrite) (p : OfPacket w m) : (r.run p).control = p.control := by
  cases r with
  | decNwTtl => exact onNw_control _ _ p
  | setNwTtl ttl => exact onNw_control _ _ p
  | _ => rfl

theorem table_congr {p q : OfPacket w m} (h : q.control = p.control) (g : Gate) :
    g.table q = g.table p := by
  have h4 : q.ipv4.valid = p.ipv4.valid := congrArg (fun c => c.2.2.1) h
  have h6 : q.ipv6.valid = p.ipv6.valid := congrArg (fun c => c.2.2.2) h
  cases g <;> simp only [Gate.table, h4, h6]

theorem program_congr (t : Tables w m) {p q : OfPacket w m} (h : q.control = p.control) :
    program t q = program t p := by
  have hmd : q.md = p.md := congrArg (fun c => c.1) h
  have hport : q.egressPort = p.egressPort := congrArg (fun c => c.2.1) h
  funext g
  simp only [program, OfPacket.egressKey, table_congr h, hmd, hport]

theorem gated_eq (t : Tables w m) (g : Gate) (p : OfPacket w m) :
    gated t g p = (program t p g).elim p fun r => r.run p := by
  unfold gated program
  split_ifs
  · cases htable : g.table p with
    | none => rfl
    | some table =>
      have hv := ((g.table_eq_some p table).1 htable).2
      simp only [Option.elim_some, Option.bind_some, OfPacket.apply]
      cases t.egress table p.egressKey with
      | none => rfl
      | some args => exact table.action_eq args hv
  · rfl

theorem foldl_gated (t : Tables w m) (order : List Gate) (p : OfPacket w m) :
    order.foldl (fun p g => gated t g p) p = Slots.run Rewrite.run order (program t p) p := by
  induction order generalizing p with
  | nil => rfl
  | cons g order ih =>
    rw [List.foldl_cons, gated_eq, ih, Slots.run_cons]
    cases program t p g with
    | none => rfl
    | some r =>
      simp only [Option.elim_some]
      rw [program_congr t (r.control_run p)]

theorem processOfpatEgress_run (t : Tables w m) (p : OfPacket w m) :
    processOfpatEgress t p = Slots.run Rewrite.run egressOrder
      (program t (p.applyGroupEgress t)) (p.applyGroupEgress t) := by
  rw [processOfpatEgress_eq, foldl_gated]

theorem program_gate {t : Tables w m} {p : OfPacket w m} {g : Gate} {r : Rewrite}
    (h : program t p g = some r) : r.gate = g := by
  unfold program at h
  split_ifs at h
  obtain ⟨table, htable, hr⟩ := Option.bind_eq_some_iff.1 h
  obtain ⟨args, _, rfl⟩ := Option.map_eq_some_iff.1 hr
  rw [table.rewrite_gate]
  exact ((g.table_eq_some p table).1 htable).1.symm

theorem run_filter_gates {σ : Type} {act : Rewrite → σ → σ} {t : Tables w m} {q : OfPacket w m}
    {s : σ} (gates : List Gate) (h : ∀ r : Rewrite, r.gate ∉ gates → ∀ s, act r s = s) :
    Slots.run act egressOrder (program t q) s =
      Slots.run act (egressOrder.filter fun g => g ∈ gates) (program t q) s := by
  refine Slots.run_filter fun g _ hg r hr => h r ?_
  rw [program_gate hr]
  exact of_decide_eq_false hg

theorem egress_part {τ : Type} {act : Rewrite → τ → τ} {π : OfPacket w m → τ} (gates : List Gate)
    (hrun : ∀ (r : Rewrite) q, π (r.run q) = act r (π q))
    (hidle : ∀ r : Rewrite, r.gate ∉ gates → ∀ s, act r s = s) (t : Tables w m) (p : OfPacket w m) :
    π (processOfpatEgress t p) = Slots.run act (egressOrder.filter fun g => g ∈ gates)
      (program t (p.applyGroupEgress t)) (π (p.applyGroupEgress t)) := by
  have hmap : π (Slots.run Rewrite.run egressOrder (program t (p.applyGroupEgress t))
      (p.applyGroupEgress t)) = Slots.run act egressOrder (program t (p.applyGroupEgress t))
        (π (p.applyGroupEgress t)) := Slots.run_map hrun egressOrder
  rw [processOfpatEgress_run, hmap]
  exact run_filter_gates gates hidle

def AllHit (t : Tables w m) (p : OfPacket w m) : Prop :=
  ∀ table, p.Applied table → (t.egress table p.egressKey).isSome = true

def Tables.constant (args : (t : EgressTable) → t.Args) : Tables w m :=
  { Tables.empty with egress := fun t _ => some (args t) }

theorem allHit_constant (args : (t : EgressTable) → t.Args) (p : OfPacket w m) :
    AllHit (Tables.constant args) p := fun _ _ => rfl

def EgressTable.noArgs : (t : EgressTable) → t.Args
  | popMpls => ()
  | pushMpls => ()
  | decMplsTtl => ()
  | setMplsTtl => 0#8
  | popVlan => ()
  | pushVlan => ()
  | setField => 0#12
  | decNwTtlIpv4 => ()
  | decNwTtlIpv6 => 0#8
  | setNwTtlIpv4 => 0#8
  | setNwTtlIpv6 => 0#8

theorem program_isSome {t : Tables w m} {p : OfPacket w m} (hit : AllHit t p) {g : Gate}
    (hg : ∃ table, g.table p = some table) : (program t p g).isSome = true ↔ g.passes p.md = true := by
  obtain ⟨table, htable⟩ := hg
  unfold program
  split_ifs with hp
  · rw [htable, Option.bind_some, Option.isSome_map]
    exact iff_of_true (hit table ⟨g, hp, htable⟩) hp
  · exact iff_of_false Bool.false_ne_true hp

def chainGates : List Gate := [.popMpls, .pushMpls, .popVlan, .pushVlan]

def plainGates : List Gate := [.popMpls, .pushMpls, .decMplsTtl, .popVlan, .pushVlan, .decNwTtl]

theorem Rewrite.eq_of_gate {r r' : Rewrite} (hr : r.gate ∈ plainGates) (h : r'.gate = r.gate) :
    r' = r := by
  cases r <;> cases r' <;> simp [Rewrite.gate, plainGates] at hr h ⊢

theorem program_plainGate {t : Tables w m} {q : OfPacket w m} (hit : AllHit t q) {r : Rewrite}
    (hr : r.gate ∈ plainGates) (hg : ∃ table, r.gate.table q = some table) :
    program t q r.gate = if r.gate.passes q.md then some r else none := by
  have hsome := program_isSome hit hg
  cases hprog : program t q r.gate with
  | none =>
    rw [hprog] at hsome
    rw [if_neg fun hp => absurd (hsome.2 hp) Bool.false_ne_true]
  | some r' =>
    rw [hprog] at hsome
    rw [if_pos (hsome.1 rfl), Rewrite.eq_of_gate hr (program_gate hprog)]

theorem program_popMpls {t : Tables w m} {q : OfPacket w m} (hit : AllHit t q) :
    program t q .popMpls = if Gate.popMpls.passes q.md then some .popMpls else none :=
  program_plainGate hit (r := .popMpls) (by decide) ⟨.popMpls, rfl⟩

theorem program_pushMpls {t : Tables w m} {q : OfPacket w m} (hit : AllHit t q) :
    program t q .pushMpls = if Gate.pushMpls.passes q.md then some .pushMpls else none :=
  program_plainGate hit (r := .pushMpls) (by decide) ⟨.pushMpls, rfl⟩

theorem program_popVlan {t : Tables w m} {q : OfPacket w m} (hit : AllHit t q) :
    program t q .popVlan = if Gate.popVlan.passes q.md then some .popVlan else none :=
  program_plainGate hit (r := .popVlan) (by decide) ⟨.popVlan, rfl⟩

theorem program_pushVlan {t : Tables w m} {q : OfPacket w m} (hit : AllHit t q) :
    program t q .pushVlan = if Gate.pushVlan.passes q.md then some .pushVlan else none :=
  program_plainGate hit (r := .pushVlan) (by decide) ⟨.pushVlan, rfl⟩

theorem program_decMplsTtl {t : Tables w m} {q : OfPacket w m} (hit : AllHit t q) :
    program t q .decMplsTtl = if Gate.decMplsTtl.passes q.md then some .decMplsTtl else none :=
  program_plainGate hit (r := .decMplsTtl) (by decide) ⟨.decMplsTtl, rfl⟩

theorem Rewrite.mem_egressOrder (r : Rewrite) : r.gate ∈ egressOrder := by
  cases r <;> simp only [gate, egressOrder, List.mem_cons, true_or, or_true]

theorem Rewrite.run_of_table_none {r : Rewrite} {p : OfPacket w m} (h : r.gate.table p = none) :
    r.run p = p := by
  have hidle : ∀ x y : EgressTable,
      (if p.ipv4.valid then some x else if p.ipv6.valid then some y else none) = none →
        ∀ f4 f6, p.onNw f4 f6 = p := by
    intro x y hnone f4 f6
    cases h4 : p.ipv4.valid with
    | true => simp only [h4, if_true, reduceCtorEq] at hnone
    | false =>
      cases h6 : p.ipv6.valid with
      | true => simp only [h4, h6, if_true, Bool.false_eq_true, if_false, reduceCtorEq] at hnone
      | false => simp only [OfPacket.onNw, Inst.modify, h4, h6, Bool.false_eq_true, if_false]
  cases r with
  | decNwTtl => exact hidle _ _ h _ _
  | setNwTtl ttl => exact hidle _ _ h _ _
  | _ => exact absurd h (Option.some_ne_none _)

/-! ## Independent actions -/

inductive Part
  | etherType | vlanTag | mpls | nw
deriving DecidableEq

def Gate.parts : Gate → List Part
  | group => []
  | output => []
  | popMpls => [.mpls]
  | pushMpls => [.etherType, .mpls]
  | decMplsTtl => [.mpls]
  | setMplsTtl => [.mpls]
  | popVlan => [.etherType, .vlanTag]
  | pushVlan => [.etherType, .vlanTag]
  | setField => [.vlanTag]
  | decNwTtl => [.nw]
  | setNwTtl => [.nw]

def Gate.Independent (g g' : Gate) : Prop := ∀ x ∈ g.parts, x ∉ g'.parts

instance (g g' : Gate) : Decidable (g.Independent g') :=
  inferInstanceAs (Decidable (∀ x ∈ g.parts, x ∉ g'.parts))

theorem Rewrite.commutes {a b : Rewrite} (h : a.gate.Independent b.gate) :
    Commutes (Rewrite.run : Rewrite → OfPacket w m → OfPacket w m) a b := by
  intro p
  cases a <;> cases b <;> first
    | rfl
    | simp [Gate.Independent, Gate.parts, Rewrite.gate] at h

theorem add_add {H : Type} [Header H] (i : Inst H) : i.add.add = i.add := Inst.add_of_valid i.valid_add

theorem onNw_onNw (f4 g4 : Ipv4 → Ipv4) (f6 g6 : Ipv6 → Ipv6) (p : OfPacket w m) :
    (p.onNw g4 g6).onNw f4 f6 = p.onNw (f4 ∘ g4) (f6 ∘ g6) := by
  simp only [OfPacket.onNw, Inst.modify_modify, Inst.valid_modify]
  split_ifs
  · rfl
  · rw [Inst.modify_modify]

theorem Rewrite.absorbs {a b : Rewrite} (h : a.gate = b.gate) (hm : a ≠ .decMplsTtl)
    (hn : a ≠ .decNwTtl) :
    Absorbs (Rewrite.run : Rewrite → OfPacket w m → OfPacket w m) a b := by
  intro p
  cases a with
  | popMpls =>
    cases b <;> first | rfl | exact Gate.noConfusion h
  | popVlan => cases b <;> first | rfl | exact Gate.noConfusion h
  | pushMpls =>
    cases b <;> try exact Gate.noConfusion h
    simp only [run, OfPacket.ofpatPushMpls, OfPacket.setEtherType, add_add]
  | pushVlan =>
    cases b <;> try exact Gate.noConfusion h
    have hv : (p.vlanTag.add.modify fun h => { h with etherType := ethertypeIpv4 }).valid = true := by
      rw [Inst.valid_modify, Inst.valid_add]
    simp only [run, OfPacket.ofpatPushVlan, OfPacket.setEtherType, Inst.add_of_valid hv,
      Inst.modify_modify]
    rfl
  | setMplsTtl ttl =>
    cases b <;> try exact Gate.noConfusion h
    simp only [run, OfPacket.ofpatSetMplsTtl, Inst.modify_modify]
    rfl
  | setVlanVid vid =>
    cases b <;> try exact Gate.noConfusion h
    simp only [run, OfPacket.ofpatSetVlanVid, Inst.modify_modify]
    rfl
  | setNwTtl ttl =>
    cases b <;> try exact Gate.noConfusion h
    simp only [run, onNw_onNw]
    rfl
  | decMplsTtl => exact absurd rfl hm
  | decNwTtl => exact absurd rfl hn

end P4OfAgent.P4
