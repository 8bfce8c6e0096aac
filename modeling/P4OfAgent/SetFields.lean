import P4OfAgent.ActionArguments
import P4OfAgent.Lib.Slots

/-! The nested array under `OFPAT_SET_FIELD`. Its root is a word of the outer array, and the word is
written when the nested array is created, not when it grows. -/

namespace P4OfAgent
open Function Bytes Runs

def Action.field (a : Action) : BitVec 8 := a.oxmField >>> 1

def setFields (as : List Action) : BitVec 8 → Option Action :=
  Slots.fill Action.field (as.filter fun a => a.type = Ofpat.setField)

/-- The word under `OFPAT_SET_FIELD` is the valid root of an array that holds an entry for every field
of the list, and for VLAN_VID the value set last. -/
def FieldsKept (as : List Action) (q : Parsed) : Prop :=
  ∃ n arr, q.aargs Ofpat.setField = some (.root n) ∧ q.heap.array (.root n) = some arr ∧
    ∀ f a, setFields as f = some a → ∃ ptr, arr f = some ptr ∧
      (f = ofpxmtOfbVlanVid → q.heap.load ptr = some (.u16 a.vlanVid))

def MovesRoot (m : Machine) (s : ActionLoop) (a : Action) : Prop :=
  a.type = Ofpat.setField ∧ ∃ root arr, s.out.aargs Ofpat.setField = some root ∧
    s.out.heap.array root = some arr ∧ arr a.field = none ∧
      m.jliMoves (s.out.heap.allocate s.arg a.argument).2 a.field = true

def Stale (q : Parsed) : Prop :=
  ∃ n, q.aargs Ofpat.setField = some (.root n) ∧ q.heap.arrays[n]? = some none

section fields
variable {as : List Action} {a : Action}

theorem setFields_append_plain (ht : a.type ≠ Ofpat.setField) : setFields (as ++ [a]) = setFields as := by
  simp only [setFields, List.filter_append, List.filter_cons, List.filter_nil, ht, decide_false,
    Bool.false_eq_true, if_false, List.append_nil]

theorem setFields_append (ht : a.type = Ofpat.setField) :
    setFields (as ++ [a]) = update (setFields as) a.field (some a) := by
  simp only [setFields, List.filter_append, List.filter_cons, List.filter_nil, ht, decide_true, if_true]
  exact Slots.fill_append _ a

theorem setFields_isSome {f : BitVec 8} :
    (setFields as f).isSome = true ↔ ∃ a ∈ as, a.type = Ofpat.setField ∧ a.field = f := by
  rw [setFields, Slots.fill_isSome]
  simp only [List.mem_filter, decide_eq_true_eq, and_assoc]

theorem setFields_of_plain (h : ∀ a ∈ as, a.type ≠ Ofpat.setField) (f : BitVec 8) :
    setFields as f = none := by
  refine Option.not_isSome_iff_eq_none.1 fun hsome => ?_
  obtain ⟨a, ha, ht, _⟩ := setFields_isSome.1 hsome
  exact h a ha ht

theorem Action.argument_vlanVid (ht : a.type = Ofpat.setField) (hf : a.field = ofpxmtOfbVlanVid) :
    a.argument = some (.u16 a.vlanVid) := by
  have hne : ∀ t ∈ argumentTypes, Ofpat.setField ≠ t := fun t h he =>
    setField_not_mem_argumentTypes (he ▸ h)
  simp only [argumentTypes, List.forall_mem_cons] at hne
  obtain ⟨h1, h2, h3, h4, h5, _⟩ := hne
  unfold Action.field at hf
  simp only [Action.argument, ht, hf, h1, h2, h3, h4, h5, if_false, and_self, if_true]

end fields

/-! ## One action -/

section step
variable {m : Machine} {s : ActionLoop} {a : Action} {as : List Action}

theorem parseActionsStep_create (ht : a.type = Ofpat.setField)
    (hnone : s.out.aargs Ofpat.setField = none) :
    let r := s.out.heap.allocate s.arg a.argument
    let j := r.2.jli m .null a.field
    (parseActionsStep m s a).out.aargs = update s.out.aargs Ofpat.setField (some j.1) ∧
      (parseActionsStep m s a).out.heap = j.2.poke j.1 a.field r.1 := by
  simp only [parseActionsStep, parseOfpat_eq, ht, hnone, if_true, Action.field, and_self]

theorem parseActionsStep_update {root : Ptr} (ht : a.type = Ofpat.setField)
    (hroot : s.out.aargs Ofpat.setField = some root) :
    let r := s.out.heap.allocate s.arg a.argument
    let j := r.2.jli m root a.field
    (parseActionsStep m s a).out.aargs = s.out.aargs ∧
      (parseActionsStep m s a).out.heap = j.2.poke j.1 a.field r.1 := by
  simp only [parseActionsStep, parseOfpat_eq, ht, hroot, if_true, Action.field, and_self]

theorem fieldsKept_poke {q : Parsed} {heap : Heap} {n : Nat} {arr : BitVec 8 → Option Ptr}
    (ht : a.type = Ofpat.setField)
    (hblocks : heap.blocks = (s.out.heap.allocate s.arg a.argument).2.blocks)
    (harr : heap.array (.root n) = some arr) (hword : q.aargs Ofpat.setField = some (.root n))
    (hheap : q.heap = heap.poke (.root n) a.field (s.out.heap.allocate s.arg a.argument).1)
    (hold : ∀ f b, f ≠ a.field → setFields as f = some b → ∃ ptr, arr f = some ptr ∧
      (f = ofpxmtOfbVlanVid → s.out.heap.load ptr = some (.u16 b.vlanVid))) :
    FieldsKept (as ++ [a]) q := by
  have hload : ∀ ptr, q.heap.load ptr = (s.out.heap.allocate s.arg a.argument).2.load ptr := by
    rw [hheap]
    exact Heap.load_congr ((heap.blocks_poke ..).trans hblocks)
  have hpoke := heap.array_poke harr a.field (s.out.heap.allocate s.arg a.argument).1
  rw [← hheap] at hpoke
  refine ⟨n, _, hword, hpoke, fun f b hb => ?_⟩
  rw [setFields_append ht] at hb
  by_cases hf : f = a.field
  · rw [hf, update_self] at hb ⊢
    obtain rfl := Option.some.inj hb
    refine ⟨_, rfl, fun hvid => ?_⟩
    rw [hload, Action.argument_vlanVid ht hvid]
    exact s.out.heap.load_malloc _
  · rw [update_of_ne hf] at hb ⊢
    obtain ⟨ptr, hptr, hval⟩ := hold f b hf hb
    refine ⟨ptr, hptr, fun hvid => ?_⟩
    rw [hload]
    exact Heap.load_allocate _ _ _ (hval hvid)

theorem FieldsKept.plain (hs : FieldsKept as s.out) (ht : a.type ≠ Ofpat.setField) :
    FieldsKept (as ++ [a]) (parseActionsStep m s a).out := by
  obtain ⟨n, arr, hword, harr, hfields⟩ := hs
  refine ⟨n, arr, (parseActionsStep_aargs_of_ne m s a ht).trans hword, ?_, fun f b hb => ?_⟩
  · rw [parseActionsStep_plain m s a ht]
    exact (Heap.array_allocate _ _ _ _).trans harr
  · rw [setFields_append_plain ht] at hb
    obtain ⟨ptr, hptr, hval⟩ := hfields f b hb
    refine ⟨ptr, hptr, fun hvid => ?_⟩
    rw [parseActionsStep_load]
    exact Heap.load_allocate _ _ _ (hval hvid)

theorem fieldsKept_create (ht : a.type = Ofpat.setField) (hnone : s.out.aargs Ofpat.setField = none)
    (hplain : ∀ b ∈ as, b.type ≠ Ofpat.setField) :
    FieldsKept (as ++ [a]) (parseActionsStep m s a).out := by
  obtain ⟨haargs, hheap⟩ := parseActionsStep_create (m := m) ht hnone
  refine fieldsKept_poke ht (Heap.blocks_jli _ m .null a.field) (Heap.array_jli_null _ m a.field) ?_
    hheap ?_
  · rw [haargs, update_self]
    rfl
  · intro f b _ hb
    rw [setFields_of_plain hplain] at hb
    exact absurd hb (Option.some_ne_none b).symm

theorem FieldsKept.setField (hs : FieldsKept as s.out) (ht : a.type = Ofpat.setField)
    (hstay : ¬ MovesRoot m s a) : FieldsKept (as ++ [a]) (parseActionsStep m s a).out := by
  obtain ⟨n, arr, hword, harr, hfields⟩ := hs
  obtain ⟨haargs, hheap⟩ := parseActionsStep_update (m := m) ht hword
  have harr' := (Heap.array_allocate s.out.heap s.arg a.argument (.root n)).trans harr
  cases hslot : arr a.field with
  | some ptr =>
    have hjli := Heap.jli_present (m := m) _ harr' (Option.isSome_of_mem hslot)
    refine fieldsKept_poke ht rfl harr' (haargs ▸ hword) ?_ fun f b _ hb => hfields f b hb
    rw [hheap, hjli]
  | none =>
    have hmoves : m.jliMoves (s.out.heap.allocate s.arg a.argument).2 a.field = false :=
      Bool.not_eq_true _ ▸ fun h => hstay ⟨ht, _, _, hword, harr, hslot, h⟩
    have hjli := Heap.jli_stays _ harr' hslot hmoves
    have hgrown : (Heap.jli m (s.out.heap.allocate s.arg a.argument).2 (.root n) a.field).2.array
        (.root n) = some (Function.update arr a.field (some .null)) := by
      have hlt : n < (s.out.heap.allocate s.arg a.argument).2.arrays.length :=
        (List.getElem?_eq_some_iff.1 (Heap.array_eq_some _ harr')).1
      rw [hjli]
      simp only [Heap.array, List.getElem?_set_self hlt, Option.join_some]
    refine fieldsKept_poke ht (Heap.blocks_jli ..) hgrown (haargs ▸ hword) ?_ fun f b hf hb => ?_
    · rw [hheap, hjli]
    · rw [Function.update_of_ne hf]
      exact hfields f b hb

theorem stale_of_movesRoot (hs : FieldsKept as s.out) (hmove : MovesRoot m s a) :
    Stale (parseActionsStep m s a).out := by
  obtain ⟨n, _, hword, _, _⟩ := hs
  obtain ⟨ht, root, arr, hroot, harr, hslot, hmoves⟩ := hmove
  obtain rfl := Option.some.inj (hroot.symm.trans hword)
  obtain ⟨haargs, hheap⟩ := parseActionsStep_update (m := m) ht hword
  have harr' := (Heap.array_allocate s.out.heap s.arg a.argument (.root n)).trans harr
  have hlt : n < (s.out.heap.allocate s.arg a.argument).2.arrays.length :=
    (List.getElem?_eq_some_iff.1 (Heap.array_eq_some _ harr')).1
  refine ⟨n, haargs ▸ hword, ?_⟩
  rw [hheap, Heap.jli_moves _ harr' hslot hmoves]
  simp only [Heap.poke, List.getElem?_modify, Nat.ne_of_gt hlt, if_false]
  rw [List.getElem?_append_left (by rwa [List.length_set]), List.getElem?_set_self hlt]
  rfl

theorem Stale.step (hs : Stale s.out) : Stale (parseActionsStep m s a).out := by
  obtain ⟨n, hword, harr⟩ := hs
  have harrays : (s.out.heap.allocate s.arg a.argument).2.arrays = s.out.heap.arrays := by
    cases a.argument <;> rfl
  by_cases ht : a.type = Ofpat.setField
  · obtain ⟨haargs, hheap⟩ := parseActionsStep_update (m := m) ht hword
    have hinvalid : (s.out.heap.allocate s.arg a.argument).2.array (.root n) = none := by
      simp only [Heap.array, harrays, harr, Option.join_some]
    refine ⟨n, haargs ▸ hword, ?_⟩
    rw [hheap]
    simp only [Heap.jli, hinvalid, Heap.poke, List.getElem?_modify, harrays, harr, if_true]
    rfl
  · refine ⟨n, (parseActionsStep_aargs_of_ne m s a ht).trans hword, ?_⟩
    rw [parseActionsStep_plain m s a ht]
    exact (congrArg (·[n]?) harrays).trans harr

end step

/-! ## All actions of a list -/

def Rooted (as : List Action) (q : Parsed) : Prop :=
  FieldsKept as q ∨ q.aargs Ofpat.setField = none ∧ ∀ a ∈ as, a.type ≠ Ofpat.setField

section list
variable {m : Machine} {s : ActionLoop} {a : Action} {as : List Action} {p : Parsed}

theorem Rooted.step (hs : Rooted as s.out) (hstay : ¬ MovesRoot m s a) :
    Rooted (as ++ [a]) (parseActionsStep m s a).out := by
  by_cases ht : a.type = Ofpat.setField
  · rcases hs with hkept | ⟨hnone, hplain⟩
    · exact .inl (hkept.setField ht hstay)
    · exact .inl (fieldsKept_create ht hnone hplain)
  · rcases hs with hkept | ⟨hnone, hplain⟩
    · exact .inl (hkept.plain ht)
    · refine .inr ⟨(parseActionsStep_aargs_of_ne m s a ht).trans hnone, fun b hb => ?_⟩
      rcases List.mem_append.1 hb with hb | hb
      · exact hplain b hb
      · rwa [List.mem_singleton.1 hb]

theorem Rooted.stale (hs : Rooted as s.out) (hmove : MovesRoot m s a) :
    Stale (parseActionsStep m s a).out := by
  rcases hs with hkept | ⟨hnone, _⟩
  · exact stale_of_movesRoot hkept hmove
  · obtain ⟨_, root, _, hroot, _⟩ := hmove
    exact absurd (hnone.symm.trans hroot) (Option.some_ne_none root).symm

theorem Stale.not_fieldsKept {q : Parsed} (hq : Stale q) : ¬ FieldsKept as q := by
  rintro ⟨n, arr, hword, harr, _⟩
  obtain ⟨n', hword', hnone⟩ := hq
  obtain rfl := Ptr.root.inj (Option.some.inj (hword.symm.trans hword'))
  have hsome := q.heap.array_eq_some harr
  rw [hnone] at hsome
  exact absurd (Option.some.inj hsome) (Option.some_ne_none arr).symm

/-- As long as no insertion moves the root the array is kept, and after the first that does it is lost. -/
theorem rooted_or_stale (m : Machine) (as : List Action) (hp : Rooted [] p) :
    Along (parseActionsStep m) (fun s a => ¬ MovesRoot m s a) ⟨.undef, 0, p⟩ as ∧
        Rooted as (parseActions m as p) ∨
      ¬ Along (parseActionsStep m) (fun s a => ¬ MovesRoot m s a) ⟨.undef, 0, p⟩ as ∧
        Stale (parseActions m as p) ∧ ∃ a ∈ as, a.type = Ofpat.setField := by
  induction as using List.reverseRecOn with
  | nil => exact .inl ⟨trivial, hp⟩
  | append_singleton as a ih =>
    rw [along_append, along_cons, parseActions_eq, actionLoop_append]
    have hlast : ∀ b ∈ as, b.type = Ofpat.setField → ∃ b ∈ as ++ [a], b.type = Ofpat.setField :=
      fun b hb ht => ⟨b, List.mem_append_left [a] hb, ht⟩
    rcases ih with ⟨halong, hrooted⟩ | ⟨hnot, hstale, b, hb, ht⟩
    · by_cases hmove : MovesRoot m (actionLoop m p as) a
      · refine .inr ⟨fun h => h.2.1 hmove, hrooted.stale hmove, a, ?_, hmove.1⟩
        exact List.mem_append_right as List.mem_cons_self
      · exact .inl ⟨⟨halong, hmove, trivial⟩, hrooted.step hmove⟩
    · exact .inr ⟨fun h => hnot h.1, hstale.step, hlast b hb ht⟩

theorem along_of_oneField (hp : p.aargs Ofpat.setField = none)
    (hone : ∀ a ∈ as, ∀ b ∈ as, a.type = Ofpat.setField → b.type = Ofpat.setField → a.field = b.field) :
    Along (parseActionsStep m) (fun s a => ¬ MovesRoot m s a) ⟨.undef, 0, p⟩ as := by
  induction as using List.reverseRecOn with
  | nil => trivial
  | append_singleton as a ih =>
    have halong := ih fun b hb c hc =>
      hone b (List.mem_append_left [a] hb) c (List.mem_append_left [a] hc)
    refine (along_append ..).2 ⟨halong, fun hmove => ?_, trivial⟩
    obtain ⟨ht, root, arr, hroot, harr, hslot, _⟩ := hmove
    have hrooted : Rooted as (parseActions m as p) :=
      (rooted_or_stale m as (.inr ⟨hp, fun _ h => absurd h List.not_mem_nil⟩)).elim And.right
        fun h => absurd halong h.1
    by_cases hplain : ∀ b ∈ as, b.type ≠ Ofpat.setField
    · have hnone := (run_aargs_of_not_mem m (s := ⟨.undef, 0, p⟩) hplain).trans hp
      exact absurd (hnone.symm.trans hroot) (Option.some_ne_none root).symm
    · -- the field is the one that the array was made for
      push Not at hplain
      obtain ⟨b, hb, htb⟩ := hplain
      have hfield : a.field = b.field :=
        hone a (List.mem_append_right as List.mem_cons_self) b (List.mem_append_left [a] hb) ht htb
      rcases hrooted with ⟨n, arr', hword, harr', hfields⟩ | ⟨_, hnot⟩
      · obtain rfl := Option.some.inj (hroot.symm.trans hword)
        obtain rfl := Option.some.inj (harr.symm.trans harr')
        obtain ⟨c, hc⟩ := Option.isSome_iff_exists.1 (setFields_isSome.2 ⟨b, hb, htb, hfield.symm⟩)
        obtain ⟨ptr, hptr, _⟩ := hfields a.field c hc
        exact absurd (hslot.symm.trans hptr) (Option.some_ne_none ptr).symm
      · exact hnot b hb htb

end list

/-- With a SET_FIELD in the list, the word that is stored leads to all its fields exactly if no
insertion moves the root of the array that the word leads to. -/
theorem setFields_kept_iff (m : Machine) (as : List Action) (p : Parsed) (hp : Rooted [] p) :
    ((∃ a ∈ as, a.type = Ofpat.setField) → FieldsKept as (parseActions m as p)) ↔
      Along (parseActionsStep m) (fun s a => ¬ MovesRoot m s a) ⟨.undef, 0, p⟩ as := by
  rcases rooted_or_stale m as hp with ⟨halong, hrooted⟩ | ⟨hnot, hstale, hfield⟩
  · refine iff_of_true (fun ⟨a, ha, ht⟩ => ?_) halong
    exact hrooted.resolve_right fun h => h.2 a ha ht
  · exact iff_of_false (fun h => hstale.not_fieldsKept (h hfield)) hnot

theorem rooted_empty : Rooted [] Parsed.empty :=
  .inr ⟨rfl, fun _ h => absurd h List.not_mem_nil⟩

def setVid (vid : Byte) : Action := ⟨Ofpat.setField, [0x80, 0, 0xc, 2, 0x10, vid]⟩

def setEthType : Action := ⟨Ofpat.setField, [0x80, 0, 0xa, 2, 0x08, 0]⟩

theorem setFields_kept_vids :
    FieldsKept [setVid 5, setVid 6]
      (parseActions ⟨fun _ _ => true, fun _ => 0⟩ [setVid 5, setVid 6] .empty) :=
  (setFields_kept_iff _ [setVid 5, setVid 6] .empty rooted_empty).2
    (along_of_oneField rfl (by decide)) ⟨setVid 5, List.mem_cons_self, rfl⟩

/-- A library that moves the root as the second field comes in: the word still leads to the old one. -/
theorem setFields_kept_ethType :
    (∃ a ∈ [setVid 5, setEthType], a.type = Ofpat.setField) ∧
      ¬ FieldsKept [setVid 5, setEthType]
        (parseActions ⟨fun _ _ => true, fun _ => 0⟩ [setVid 5, setEthType] .empty) :=
  ⟨⟨setVid 5, List.mem_cons_self, rfl⟩, Stale.not_fieldsKept ⟨0, rfl, rfl⟩⟩

/-! ## Roots that are no longer valid -/

def UsesInvalid (s : ActionLoop) (a : Action) : Prop :=
  a.type = Ofpat.setField ∧ ∃ root, s.out.aargs Ofpat.setField = some root ∧ s.out.heap.array root = none

theorem Heap.ub_jli (m : Machine) (h : Heap) (root : Ptr) (key : BitVec 8) :
    (h.jli m root key).2.ub = true ↔ h.ub = true ∨ h.array root = none := by
  unfold Heap.jli
  split
  · rename_i hnone
    exact iff_of_true rfl (.inr hnone)
  · rename_i hsome
    rw [hsome]
    split_ifs <;> simp only [or_false]
  · rename_i hsome
    rw [hsome]
    simp only [reduceCtorEq, or_false]

theorem Heap.ub_poke (h : Heap) (root : Ptr) (key : BitVec 8) (v : Ptr) :
    (h.poke root key v).ub = h.ub := by
  cases root <;> rfl

theorem Heap.ub_allocate (h : Heap) (arg : Ptr) (v : Option ArgVal) : (h.allocate arg v).2.ub = h.ub := by
  cases v <;> rfl

theorem parseActionsStep_ub (m : Machine) (s : ActionLoop) (a : Action) :
    (parseActionsStep m s a).out.heap.ub = true ↔ s.out.heap.ub = true ∨ UsesInvalid s a := by
  unfold UsesInvalid
  by_cases ht : a.type = Ofpat.setField
  · cases hroot : s.out.aargs Ofpat.setField with
    | none =>
      rw [(parseActionsStep_create ht hroot).2, Heap.ub_poke, Heap.ub_jli, Heap.ub_allocate]
      simp only [Heap.array, reduceCtorEq, false_and, exists_false, and_false]
    | some root =>
      rw [(parseActionsStep_update ht hroot).2, Heap.ub_poke, Heap.ub_jli, Heap.ub_allocate,
        Heap.array_allocate]
      simp only [ht, true_and, Option.some.injEq, exists_eq_left']
  · rw [parseActionsStep_plain m s a ht]
    simp only [Heap.ub_allocate, ht, false_and, or_false]

/-- The parser stays clear of invalid roots exactly as long as no SET_FIELD finds one in its word. What
Judy does with one is undefined. -/
theorem parseActions_ub (m : Machine) (as : List Action) (p : Parsed) :
    (parseActions m as p).heap.ub = false ↔
      p.heap.ub = false ∧ Along (parseActionsStep m) (fun s a => ¬ UsesInvalid s a) ⟨.undef, 0, p⟩ as := by
  induction as using List.reverseRecOn with
  | nil => exact (and_iff_left trivial).symm
  | append_singleton as a ih =>
    rw [along_append, along_cons, ← and_assoc, ← ih, parseActions_eq, actionLoop_append,
      ← Bool.not_eq_true, parseActionsStep_ub, not_or, Bool.not_eq_true]
    exact and_congr_right fun _ => (and_iff_left trivial).symm

end P4OfAgent
