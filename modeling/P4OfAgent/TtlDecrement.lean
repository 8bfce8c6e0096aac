import P4OfAgent.Lib.Runs
import P4OfAgent.Rewrites

/-! TTLs in the egress block. A decrement is one of an 8-bit field, so zero becomes 255, and a label
that is pushed over a popped one starts at zero. A SET comes after the decrement and overrides it. -/

namespace P4OfAgent.P4
open Headers Slots
variable {w m : Nat}

def OfPacket.nwTtl (p : OfPacket w m) : Option (BitVec 8) :=
  if p.ipv4.valid then some p.ipv4.fields.ttl
  else if p.ipv6.valid then some p.ipv6.fields.hopLimit else none

structure NwFalls (before after : OfPacket w m) : Prop where
  ipv4 : after.ipv4.fields.ttl ≤ before.ipv4.fields.ttl
  ipv6 : after.ipv6.fields.hopLimit ≤ before.ipv6.fields.hopLimit

theorem NwFalls.refl (p : OfPacket w m) : NwFalls p p := ⟨BitVec.le_refl _, BitVec.le_refl _⟩

theorem NwFalls.trans {p q r : OfPacket w m} (h : NwFalls p q) (h' : NwFalls q r) : NwFalls p r :=
  ⟨BitVec.le_trans h'.ipv4 h.ipv4, BitVec.le_trans h'.ipv6 h.ipv6⟩

structure Falls (before after : OfPacket w m) : Prop extends NwFalls before after where
  mpls : before.mpls.valid = true → after.mpls.valid = true →
    after.mpls.fields.ttl ≤ before.mpls.fields.ttl

namespace Tables
variable (t : Tables w m)

def ofpatSetMplsTtl (key : Key w) : Option (BitVec 8) := t.egress .setMplsTtl key
def ofpatSetNwTtlIpv4 (key : Key w) : Option (BitVec 8) := t.egress .setNwTtlIpv4 key
def ofpatSetNwTtlIpv6 (key : Key w) : Option (BitVec 8) := t.egress .setNwTtlIpv6 key

def setMplsTtl (p : OfPacket w m) : Option (BitVec 8) :=
  if Gate.setMplsTtl.passes p.md then t.ofpatSetMplsTtl p.egressKey else none

def setNwTtl (p : OfPacket w m) : Option (BitVec 8) :=
  if Gate.setNwTtl.passes p.md then
    if p.ipv4.valid then t.ofpatSetNwTtlIpv4 p.egressKey
    else if p.ipv6.valid then t.ofpatSetNwTtlIpv6 p.egressKey else none
  else none

end Tables

/-- A network header of TTL zero is not decremented; one that is set is not set to more. -/
def NwKept (dec : Bool) (set ttl : Option (BitVec 8)) : Prop :=
  match set with
  | none => dec = true → ttl ≠ some 0
  | some value => ∀ before ∈ ttl, value ≤ before

/-- A label of TTL zero is not decremented, nor one of less than 255 popped, pushed again and
decremented; one that is set is not set to more, unless it is popped. -/
def LabelKept (popM pushM decM : Bool) (set : Option (BitVec 8)) (i : Inst Mpls) : Prop :=
  match set with
  | none => decM = true → i.valid = true →
      if popM then pushM = true → i.fields.ttl = 255 else i.fields.ttl ≠ 0
  | some value => i.valid = true → (popM = true → pushM = true) → value ≤ i.fields.ttl

instance (dec : Bool) (ttl : Option (BitVec 8)) :
    (set : Option (BitVec 8)) → Decidable (NwKept dec set ttl)
  | none => inferInstanceAs (Decidable (dec = true → ttl ≠ some 0))
  | some value => inferInstanceAs (Decidable (∀ before ∈ ttl, value ≤ before))

instance (popM pushM decM : Bool) (i : Inst Mpls) :
    (set : Option (BitVec 8)) → Decidable (LabelKept popM pushM decM set i)
  | none => inferInstanceAs (Decidable (_ → _ → ite _ _ _))
  | some value => inferInstanceAs (Decidable (_ → _ → value ≤ i.fields.ttl))

def TtlsKept (t : Tables w m) (p : OfPacket w m) : Prop :=
  NwKept (Gate.decNwTtl.passes p.md) (t.setNwTtl p) p.nwTtl ∧
    LabelKept (Gate.popMpls.passes p.md) (Gate.pushMpls.passes p.md) (Gate.decMplsTtl.passes p.md)
      (t.setMplsTtl p) p.mpls

instance (t : Tables w m) (p : OfPacket w m) : Decidable (TtlsKept t p) :=
  inferInstanceAs (Decidable (_ ∧ _))

/-! ## The block on labels and network headers -/

def Rewrite.onMpls : Rewrite → Inst Mpls → Inst Mpls
  | popMpls, i => i.remove
  | pushMpls, i => i.add
  | decMplsTtl, i => i.modify fun h => { h with ttl := h.ttl - 1 }
  | setMplsTtl ttl, i => i.modify fun h => { h with ttl := ttl }
  | _, i => i

def Rewrite.onIp : Rewrite → Inst Ipv4 × Inst Ipv6 → Inst Ipv4 × Inst Ipv6
  | decNwTtl, i => (i.1.modify fun h => { h with ttl := h.ttl - 1 },
      if i.1.valid then i.2 else i.2.modify fun h => { h with hopLimit := h.hopLimit - 1 })
  | setNwTtl ttl, i => (i.1.modify fun h => { h with ttl := ttl },
      if i.1.valid then i.2 else i.2.modify fun h => { h with hopLimit := ttl })
  | _, i => i

theorem Rewrite.mpls_run (r : Rewrite) (p : OfPacket w m) : (r.run p).mpls = r.onMpls p.mpls := by
  cases r <;> rfl

theorem Rewrite.ip_run (r : Rewrite) (p : OfPacket w m) :
    ((r.run p).ipv4, (r.run p).ipv6) = r.onIp (p.ipv4, p.ipv6) := by
  cases r <;> rfl

def mplsGates : List Gate := [.popMpls, .pushMpls, .decMplsTtl, .setMplsTtl]

def nwGates : List Gate := [.decNwTtl, .setNwTtl]

theorem Rewrite.onMpls_idle {r : Rewrite} (h : r.gate ∉ mplsGates) (i : Inst Mpls) : r.onMpls i = i := by
  cases r <;> first | rfl | simp [gate, mplsGates] at h

theorem Rewrite.onIp_idle {r : Rewrite} (h : r.gate ∉ nwGates) (i : Inst Ipv4 × Inst Ipv6) :
    r.onIp i = i := by
  cases r <;> first | rfl | simp [gate, nwGates] at h

section egress
variable {t : Tables w m} {p : OfPacket w m}

theorem mpls_egress : (processOfpatEgress t p).mpls = Slots.run Rewrite.onMpls mplsGates
    (program t (p.applyGroupEgress t)) (p.applyGroupEgress t).mpls :=
  egress_part mplsGates (fun r q => r.mpls_run q) (fun _ hr => Rewrite.onMpls_idle hr) t p

theorem ip_egress : ((processOfpatEgress t p).ipv4, (processOfpatEgress t p).ipv6) =
    Slots.run Rewrite.onIp nwGates (program t (p.applyGroupEgress t))
      ((p.applyGroupEgress t).ipv4, (p.applyGroupEgress t).ipv6) :=
  egress_part (π := fun p : OfPacket w m => (p.ipv4, p.ipv6)) nwGates (fun r q => r.ip_run q)
    (fun _ hr => Rewrite.onIp_idle hr) t p

theorem applyGroupEgress_headers (t : Tables w m) (p : OfPacket w m) :
    (p.applyGroupEgress t).mpls = p.mpls ∧ (p.applyGroupEgress t).ipv4 = p.ipv4 ∧
      (p.applyGroupEgress t).ipv6 = p.ipv6 := by
  unfold OfPacket.applyGroupEgress
  split <;> exact ⟨rfl, rfl, rfl⟩

end egress

/-! ## When a TTL grows -/

theorem sub_one_le_iff (x : BitVec 8) : x - 1 ≤ x ↔ x ≠ 0 := by
  bv_omega

theorem zero_sub_one_le_iff (x : BitVec 8) : 0 - 1 ≤ x ↔ x = 255 := by
  bv_omega

def labelAfter (popM pushM decM : Bool) (set : Option (BitVec 8)) (i : Inst Mpls) : Inst Mpls :=
  let i := if popM then i.remove else i
  let i := if pushM then i.add else i
  let i := if decM then i.modify fun h => { h with ttl := h.ttl - 1 } else i
  set.elim i fun ttl => (Rewrite.setMplsTtl ttl).onMpls i

def LabelFalls (before after : Inst Mpls) : Prop :=
  before.valid = true → after.valid = true → after.fields.ttl ≤ before.fields.ttl

theorem labelAfter_falls_iff (popM pushM decM : Bool) (fields : Mpls) :
    LabelFalls ⟨true, fields⟩ (labelAfter popM pushM decM none ⟨true, fields⟩) ↔
      (decM = true → if popM then pushM = true → fields.ttl = 255 else fields.ttl ≠ 0) := by
  cases decM with
  | false =>
    refine iff_of_true (fun _ _ => ?_) fun h => Bool.noConfusion h
    cases popM with
    | false => cases pushM <;> exact BitVec.le_refl _
    | true =>
      cases pushM with
      | false => exact BitVec.le_refl _
      | true => exact BitVec.le_def.2 (Nat.zero_le _)
  | true =>
    cases popM with
    | false =>
      -- a push finds the label there
      have hlabel : labelAfter false pushM true none ⟨true, fields⟩ =
          ⟨true, { fields with ttl := fields.ttl - 1 }⟩ := by cases pushM <;> rfl
      rw [hlabel]
      exact ⟨fun h _ => (sub_one_le_iff _).1 (h rfl rfl), fun h _ _ => (sub_one_le_iff _).2 (h rfl)⟩
    | true =>
      cases pushM with
      | false => exact iff_of_true (fun _ h => Bool.noConfusion h) fun _ h => Bool.noConfusion h
      | true =>
        exact ⟨fun h _ _ => (zero_sub_one_le_iff _).1 (h rfl rfl),
          fun h _ _ => (zero_sub_one_le_iff _).2 (h rfl rfl)⟩

theorem labelAfter_set (popM pushM decM : Bool) (ttl : BitVec 8) (fields : Mpls) :
    LabelFalls ⟨true, fields⟩ (labelAfter popM pushM decM (some ttl) ⟨true, fields⟩) ↔
      ((popM = true → pushM = true) → ttl ≤ fields.ttl) := by
  cases popM with
  | false =>
    have hlabel : (labelAfter false pushM decM (some ttl) ⟨true, fields⟩).fields.ttl = ttl := by
      cases pushM <;> cases decM <;> rfl
    have hvalid : (labelAfter false pushM decM (some ttl) ⟨true, fields⟩).valid = true := by
      cases pushM <;> cases decM <;> rfl
    rw [LabelFalls, hlabel, hvalid]
    exact ⟨fun h _ => h rfl rfl, fun h _ _ => h fun hpop => Bool.noConfusion hpop⟩
  | true =>
    cases pushM with
    | false =>
      have hgone : (labelAfter true false decM (some ttl) ⟨true, fields⟩).valid = false := by
        cases decM <;> rfl
      rw [LabelFalls, hgone]
      exact iff_of_true (fun _ h => Bool.noConfusion h) fun h => Bool.noConfusion (h rfl)
    | true =>
      have hlabel : (labelAfter true true decM (some ttl) ⟨true, fields⟩).fields.ttl = ttl := by
        cases decM <;> rfl
      have hvalid : (labelAfter true true decM (some ttl) ⟨true, fields⟩).valid = true := by
        cases decM <;> rfl
      rw [LabelFalls, hlabel, hvalid]
      exact ⟨fun h _ => h rfl rfl, fun h _ _ => h fun _ => rfl⟩

theorem labelKept_iff (popM pushM decM : Bool) (set : Option (BitVec 8)) (i : Inst Mpls) :
    LabelFalls i (labelAfter popM pushM decM set i) ↔ LabelKept popM pushM decM set i := by
  obtain ⟨valid, fields⟩ := i
  cases valid with
  | false =>
    refine iff_of_true (fun h => Bool.noConfusion h) ?_
    cases set with
    | none => exact fun _ h => Bool.noConfusion h
    | some ttl => exact fun h => Bool.noConfusion h
  | true =>
    cases set with
    | none =>
      rw [labelAfter_falls_iff]
      exact ⟨fun h hdec _ => h hdec, fun h hdec => h hdec rfl⟩
    | some ttl =>
      rw [labelAfter_set]
      exact ⟨fun h _ => h, fun h => h rfl⟩

def ipAfter (dec : Bool) (set : Option (BitVec 8)) (i : Inst Ipv4 × Inst Ipv6) : Inst Ipv4 × Inst Ipv6 :=
  let i := if dec then Rewrite.decNwTtl.onIp i else i
  set.elim i fun ttl => (Rewrite.setNwTtl ttl).onIp i

theorem decKept_iff (dec : Bool) (p : OfPacket w m) :
    (ipAfter dec none (p.ipv4, p.ipv6)).1.fields.ttl ≤ p.ipv4.fields.ttl ∧
        (ipAfter dec none (p.ipv4, p.ipv6)).2.fields.hopLimit ≤ p.ipv6.fields.hopLimit ↔
      (dec = true → p.nwTtl ≠ some 0) := by
  cases dec with
  | false => exact iff_of_true ⟨BitVec.le_refl _, BitVec.le_refl _⟩ fun h => Bool.noConfusion h
  | true =>
    simp only [ipAfter, if_true, Option.elim_none, Rewrite.onIp, OfPacket.nwTtl, Inst.modify, forall_const]
    cases h4 : p.ipv4.valid with
    | true =>
      simp only [if_true, BitVec.le_refl, and_true, sub_one_le_iff, ne_eq, Option.some.injEq]
    | false =>
      cases h6 : p.ipv6.valid with
      | true =>
        simp only [if_true, if_false, Bool.false_eq_true, BitVec.le_refl, true_and, sub_one_le_iff, ne_eq,
          Option.some.injEq]
      | false =>
        simp only [if_false, Bool.false_eq_true, BitVec.le_refl, and_self, ne_eq, reduceCtorEq,
          not_false_eq_true]

theorem setKept_iff (dec : Bool) (ttl : BitVec 8) (p : OfPacket w m) :
    (ipAfter dec (some ttl) (p.ipv4, p.ipv6)).1.fields.ttl ≤ p.ipv4.fields.ttl ∧
        (ipAfter dec (some ttl) (p.ipv4, p.ipv6)).2.fields.hopLimit ≤ p.ipv6.fields.hopLimit ↔
      ∀ before ∈ p.nwTtl, ttl ≤ before := by
  -- what is set does not depend on a decrement before it
  have hset : ipAfter dec (some ttl) (p.ipv4, p.ipv6) = (Rewrite.setNwTtl ttl).onIp (p.ipv4, p.ipv6) := by
    cases dec with
    | false => rfl
    | true =>
      simp only [ipAfter, if_true, Option.elim_some, Rewrite.onIp, Inst.modify_modify, Inst.valid_modify]
      split_ifs
      · rfl
      · rw [Inst.modify_modify]
        rfl
  rw [hset]
  simp only [Rewrite.onIp, OfPacket.nwTtl, Inst.modify]
  cases h4 : p.ipv4.valid with
  | true =>
    simp only [if_true, BitVec.le_refl, and_true, Option.mem_some_iff, forall_eq']
  | false =>
    cases h6 : p.ipv6.valid with
    | true =>
      simp only [if_true, if_false, Bool.false_eq_true, BitVec.le_refl, true_and, Option.mem_some_iff,
        forall_eq']
    | false =>
      simp only [if_false, Bool.false_eq_true, BitVec.le_refl, and_self, Option.mem_def, reduceCtorEq,
        false_implies, implies_true]

theorem nwKept_iff (dec : Bool) (set : Option (BitVec 8)) (p : OfPacket w m) :
    (ipAfter dec set (p.ipv4, p.ipv6)).1.fields.ttl ≤ p.ipv4.fields.ttl ∧
        (ipAfter dec set (p.ipv4, p.ipv6)).2.fields.hopLimit ≤ p.ipv6.fields.hopLimit ↔
      NwKept dec set p.nwTtl := by
  cases set with
  | none => exact decKept_iff dec p
  | some ttl => exact setKept_iff dec ttl p

section pass
variable {t : Tables w m} {p : OfPacket w m}

theorem program_setMplsTtl (t : Tables w m) (q : OfPacket w m) :
    program t q .setMplsTtl = (t.setMplsTtl q).map Rewrite.setMplsTtl := by
  by_cases hg : Gate.setMplsTtl.passes q.md = true
  · rw [program, if_pos hg, Tables.setMplsTtl, if_pos hg]
    rfl
  · rw [program, if_neg hg, Tables.setMplsTtl, if_neg hg]
    rfl

theorem program_setNwTtl (t : Tables w m) (q : OfPacket w m) :
    program t q .setNwTtl = (t.setNwTtl q).map Rewrite.setNwTtl := by
  by_cases hg : Gate.setNwTtl.passes q.md = true
  · rw [program, if_pos hg, Tables.setNwTtl, if_pos hg, Gate.table]
    cases q.ipv4.valid with
    | true => rfl
    | false => cases q.ipv6.valid <;> rfl
  · rw [program, if_neg hg, Tables.setNwTtl, if_neg hg]
    rfl

theorem program_decNwTtl {q : OfPacket w m} (hit : AllHit t q) :
    ((program t q .decNwTtl).elim (q.ipv4, q.ipv6) fun r => r.onIp (q.ipv4, q.ipv6)) =
      if Gate.decNwTtl.passes q.md then Rewrite.decNwTtl.onIp (q.ipv4, q.ipv6) else (q.ipv4, q.ipv6) := by
  cases htable : Gate.decNwTtl.table q with
  | none =>
    -- neither header is valid, and the decrement changes nothing
    have hprog : program t q .decNwTtl = none := by
      simp only [program, htable, Option.bind_none, ite_self]
    have hidle : Rewrite.decNwTtl.onIp (q.ipv4, q.ipv6) = (q.ipv4, q.ipv6) := by
      rw [← Rewrite.ip_run, Rewrite.run_of_table_none htable]
    rw [hprog, Option.elim_none, hidle, ite_self]
  | some table =>
    have hprog : program t q .decNwTtl =
        if Gate.decNwTtl.passes q.md then some Rewrite.decNwTtl else none :=
      program_plainGate hit (r := .decNwTtl) (by decide) ⟨table, htable⟩
    rw [hprog, elim_ite]

theorem mpls_pass (hit : AllHit t (p.applyGroupEgress t)) : (processOfpatEgress t p).mpls =
    labelAfter (Gate.popMpls.passes (p.applyGroupEgress t).md)
      (Gate.pushMpls.passes (p.applyGroupEgress t).md) (Gate.decMplsTtl.passes (p.applyGroupEgress t).md)
      (t.setMplsTtl (p.applyGroupEgress t)) (p.applyGroupEgress t).mpls := by
  rw [mpls_egress]
  simp only [mplsGates, Slots.run_cons, Slots.run_nil, program_popMpls hit, program_pushMpls hit,
    program_decMplsTtl hit, program_setMplsTtl, elim_ite, Option.elim_map]
  rfl

theorem ip_pass (hit : AllHit t (p.applyGroupEgress t)) :
    ((processOfpatEgress t p).ipv4, (processOfpatEgress t p).ipv6) =
      ipAfter (Gate.decNwTtl.passes (p.applyGroupEgress t).md) (t.setNwTtl (p.applyGroupEgress t))
        ((p.applyGroupEgress t).ipv4, (p.applyGroupEgress t).ipv6) := by
  rw [ip_egress]
  simp only [nwGates, Slots.run_cons, Slots.run_nil, program_decNwTtl hit, program_setNwTtl,
    Option.elim_map]
  rfl

theorem falls_iff (hit : AllHit t (p.applyGroupEgress t)) :
    Falls p (processOfpatEgress t p) ↔ TtlsKept t (p.applyGroupEgress t) := by
  obtain ⟨hlabel, h4, h6⟩ := applyGroupEgress_headers t p
  have hnw : NwFalls p (processOfpatEgress t p) ↔
      NwKept (Gate.decNwTtl.passes (p.applyGroupEgress t).md) (t.setNwTtl (p.applyGroupEgress t))
        (p.applyGroupEgress t).nwTtl := by
    rw [← nwKept_iff, ← ip_pass hit, h4, h6]
    exact ⟨fun h => ⟨h.ipv4, h.ipv6⟩, fun h => ⟨h.1, h.2⟩⟩
  rw [TtlsKept, ← hnw, ← labelKept_iff, ← mpls_pass hit, hlabel]
  exact ⟨fun h => ⟨h.toNwFalls, h.mpls⟩, fun h => ⟨h.1, h.2⟩⟩

end pass

/-! ## Passes -/

/-- A pass of a packet through an egress block, with the metadata and the port of its ingress. -/
structure Pass (w m : Nat) where
  tables : Tables w m
  md : OpenflowMetadata
  egressPort : BitVec w

namespace Pass
variable (x : Pass w m) (p : OfPacket w m)

def enter : OfPacket w m := { p with md := x.md, egressPort := x.egressPort }

def pass (p : OfPacket w m) (x : Pass w m) : OfPacket w m := processOfpatEgress x.tables (x.enter p)

def tested : OfPacket w m := (x.enter p).applyGroupEgress x.tables

end Pass

theorem pass_falls_iff {x : Pass w m} {p : OfPacket w m} (hit : AllHit x.tables (x.tested p)) :
    Falls p (Pass.pass p x) ↔ TtlsKept x.tables (x.tested p) := by
  have henter : Falls p (Pass.pass p x) ↔ Falls (x.enter p) (Pass.pass p x) :=
    ⟨fun h => ⟨⟨h.ipv4, h.ipv6⟩, h.mpls⟩, fun h => ⟨⟨h.ipv4, h.ipv6⟩, h.mpls⟩⟩
  rw [henter]
  exact falls_iff hit

structure TtlsFall (p : OfPacket w m) (passes : List (Pass w m)) : Prop where
  pass : Runs.Along Pass.pass (fun p x => Falls p (Pass.pass p x)) p passes
  nw : ∀ pre mid, pre ++ mid <+: passes →
    NwFalls (Runs.run Pass.pass p pre) (Runs.run Pass.pass p (pre ++ mid))

theorem ttlsFall_of_pass {p : OfPacket w m} {passes : List (Pass w m)}
    (h : Runs.Along Pass.pass (fun p x => Falls p (Pass.pass p x)) p passes) : TtlsFall p passes := by
  refine ⟨h, fun pre mid hpre => ?_⟩
  obtain ⟨post, rfl⟩ := hpre
  have hmid := ((Runs.along_append p pre mid).1 ((Runs.along_append p (pre ++ mid) post).1 h).1).2
  rw [Runs.run_append]
  exact Runs.run_rel NwFalls.refl (fun _ _ _ => NwFalls.trans)
    (Runs.along_mono (fun _ _ h => h.toNwFalls) hmid)

theorem egress_ttlsFall_iff (p : OfPacket w m) (passes : List (Pass w m))
    (hit : Runs.Along Pass.pass (fun p x => AllHit x.tables (x.tested p)) p passes) :
    TtlsFall p passes ↔ Runs.Along Pass.pass (fun p x => TtlsKept x.tables (x.tested p)) p passes := by
  have hpass : Runs.Along Pass.pass (fun p x => Falls p (Pass.pass p x)) p passes ↔
      Runs.Along Pass.pass (fun p x => TtlsKept x.tables (x.tested p)) p passes :=
    Runs.along_iff_of_inv (fun _ => True) (fun p x => AllHit x.tables (x.tested p))
      (fun _ _ _ hx => pass_falls_iff hx) (fun _ _ _ _ _ => trivial) trivial hit
  exact ⟨fun h => hpass.1 h.pass, fun h => ttlsFall_of_pass (hpass.2 h)⟩

def Pass.constant (bmap : BitVec 32) : Pass 9 16 :=
  ⟨Tables.constant EgressTable.noArgs, ⟨7, bmap, 0, 1⟩, 1⟩

def ttls (mpls ipv4 : BitVec 8) : OfPacket 9 16 :=
  { OfPacket.start ethertypeMpls with mpls := ⟨true, ⟨100, 0, 1, mpls⟩⟩, ipv4 := ⟨true, ⟨ipv4⟩⟩ }

theorem egress_ttlsFall_twice : TtlsFall (ttls 64 2) [Pass.constant 0x1010000, Pass.constant 0x1010000] :=
  (egress_ttlsFall_iff (ttls 64 2) [Pass.constant 0x1010000, Pass.constant 0x1010000]
    ⟨allHit_constant _ _, allHit_constant _ _, trivial⟩).2 (by decide)

theorem egress_decNwTtl_zero :
    Gate.setMplsTtl.passes ((Pass.constant 0x1000000).tested (ttls 64 0)).md = false ∧
      Gate.setNwTtl.passes ((Pass.constant 0x1000000).tested (ttls 64 0)).md = false ∧
      AllHit (Pass.constant 0x1000000).tables ((Pass.constant 0x1000000).tested (ttls 64 0)) ∧
      (Pass.pass (ttls 64 0) (Pass.constant 0x1000000)).ipv4.fields.ttl = 255 ∧
      ¬ TtlsFall (ttls 64 0) [Pass.constant 0x1000000] :=
  ⟨by decide, by decide, allHit_constant _ _, by decide, fun h => absurd h.pass.1.ipv4 (by decide)⟩

end P4OfAgent.P4
