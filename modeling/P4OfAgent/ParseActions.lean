import P4OfAgent.Lib.Runs
import P4OfAgent.Parse

/-! What `parse_actions` leaves behind: the bits of the signature, the keys of `aargs`, and for the
types with arguments the argument of the last action of the type. -/

namespace P4OfAgent
open Function Runs

namespace Heap
variable (h : Heap) {ptr : Ptr} {v : ArgVal}

theorem load_malloc (v : ArgVal) : (h.malloc v).2.load (h.malloc v).1 = some v := by
  simp only [malloc, load, List.getElem?_concat_length]

theorem load_malloc_of_load (hp : h.load ptr = some v) (v' : ArgVal) :
    (h.malloc v').2.load ptr = some v := by
  cases ptr with
  | block n =>
    have hn : n < h.blocks.length := (List.getElem?_eq_some_iff.1 hp).1
    simp only [malloc, load] at hp ⊢
    rw [List.getElem?_append_left hn, hp]
  | undef => exact absurd hp (Option.some_ne_none v).symm
  | null => exact absurd hp (Option.some_ne_none v).symm
  | root n => exact absurd hp (Option.some_ne_none v).symm

theorem load_malloc_eq_none (v : ArgVal) : h.load (h.malloc v).1 = none :=
  List.getElem?_eq_none (Nat.le_refl h.blocks.length)

theorem array_malloc (v : ArgVal) (root : Ptr) : (h.malloc v).2.array root = h.array root := by
  cases root <;> rfl

theorem load_congr {h h' : Heap} (hb : h'.blocks = h.blocks) (ptr : Ptr) : h'.load ptr = h.load ptr := by
  cases ptr <;> simp only [load, hb]

theorem blocks_jli (m : Machine) (root : Ptr) (key : BitVec 8) :
    (h.jli m root key).2.blocks = h.blocks := by
  unfold jli
  split
  · rfl
  · split_ifs <;> rfl
  · rfl

theorem blocks_poke (root : Ptr) (key : BitVec 8) (v : Ptr) :
    (h.poke root key v).blocks = h.blocks := by
  cases root <;> rfl

theorem array_eq_some {n : Nat} {arr : BitVec 8 → Option Ptr} (ha : h.array (.root n) = some arr) :
    h.arrays[n]? = some (some arr) := by
  simp only [array, Option.join_eq_some_iff] at ha
  exact ha

theorem array_poke {n : Nat} {arr : BitVec 8 → Option Ptr} (ha : h.array (.root n) = some arr)
    (key : BitVec 8) (v : Ptr) :
    (h.poke (.root n) key v).array (.root n) = some (update arr key (some v)) := by
  simp only [poke, array, List.getElem?_modify, if_true, h.array_eq_some ha, Option.map_eq_map,
    Option.map_some, Option.join_some]

theorem jli_present {m : Machine} {root : Ptr} {key : BitVec 8} {arr : BitVec 8 → Option Ptr}
    (ha : h.array root = some arr) (hk : (arr key).isSome = true) : h.jli m root key = (root, h) := by
  cases root with
  | root n => simp only [jli, ha, hk, if_true]
  | null =>
    obtain rfl := Option.some.inj ha
    exact absurd hk Bool.false_ne_true
  | undef => exact absurd ha (Option.some_ne_none arr).symm
  | block n => exact absurd ha (Option.some_ne_none arr).symm

theorem jli_stays {m : Machine} {n : Nat} {key : BitVec 8} {arr : BitVec 8 → Option Ptr}
    (ha : h.array (.root n) = some arr) (hk : arr key = none) (hm : m.jliMoves h key = false) :
    h.jli m (.root n) key =
      (.root n, { h with arrays := h.arrays.set n (some (update arr key (some .null))) }) := by
  simp only [jli, ha, hk, hm, Option.isSome_none, Bool.false_eq_true, if_false]

theorem jli_moves {m : Machine} {n : Nat} {key : BitVec 8} {arr : BitVec 8 → Option Ptr}
    (ha : h.array (.root n) = some arr) (hk : arr key = none) (hm : m.jliMoves h key = true) :
    h.jli m (.root n) key = (.root h.arrays.length,
      { h with arrays := h.arrays.set n none ++ [some (update arr key (some .null))] }) := by
  simp only [jli, ha, hk, hm, Option.isSome_none, Bool.false_eq_true, if_false, if_true]

theorem jli_null (m : Machine) (key : BitVec 8) :
    h.jli m .null key = (.root h.arrays.length,
      { h with arrays := h.arrays ++ [some (update (fun _ => none) key (some .null))] }) := rfl

theorem array_jli_null (m : Machine) (key : BitVec 8) :
    (h.jli m .null key).2.array (.root h.arrays.length) =
      some (update (fun _ => none) key (some .null)) := by
  simp only [jli_null, array, List.getElem?_concat_length, Option.join_some]

end Heap

/-! ## `parse_ofpat` -/

def Action.argument (a : Action) : Option ArgVal :=
  if a.type = Ofpat.output then some (.u32 a.outputPort)
  else if a.type = Ofpat.group then some (.u32 a.groupId)
  else if a.type = Ofpat.setQueue then some (.u32 a.queueId)
  else if a.type = Ofpat.setMplsTtl then some (.u8 a.mplsTtl)
  else if a.type = Ofpat.setNwTtl then some (.u8 a.nwTtl)
  else if a.type = Ofpat.setField ∧ a.oxmField >>> 1 = ofpxmtOfbVlanVid then some (.u16 a.vlanVid)
  else none

def Heap.allocate (h : Heap) (arg : Ptr) : Option ArgVal → Ptr × Heap
  | some v => h.malloc v
  | none => (arg, h)

theorem Heap.load_allocate (h : Heap) (arg : Ptr) (v : Option ArgVal) {ptr : Ptr} {v' : ArgVal}
    (hp : h.load ptr = some v') : (h.allocate arg v).2.load ptr = some v' := by
  cases v with
  | none => exact hp
  | some v => exact h.load_malloc_of_load hp v

theorem Heap.array_allocate (h : Heap) (arg : Ptr) (v : Option ArgVal) (root : Ptr) :
    (h.allocate arg v).2.array root = h.array root := by
  cases v with
  | none => rfl
  | some v => exact h.array_malloc v root

theorem parseOfpat_eq (a : Action) (arg : Ptr) (hdrField : BitVec 8) (h : Heap) :
    parseOfpat a arg hdrField h =
      ⟨a.type, (h.allocate arg a.argument).1,
        if a.type = Ofpat.setField then a.oxmField >>> 1 else hdrField,
        (h.allocate arg a.argument).2⟩ := by
  by_cases ht : a.type = Ofpat.setField
  · have h0 : Ofpat.setField ≠ Ofpat.output ∧ Ofpat.setField ≠ Ofpat.group ∧
        Ofpat.setField ≠ Ofpat.setQueue ∧ Ofpat.setField ≠ Ofpat.setMplsTtl ∧
        Ofpat.setField ≠ Ofpat.setNwTtl := by decide
    obtain ⟨h1, h2, h3, h4, h5⟩ := h0
    by_cases hf : a.oxmField >>> 1 = ofpxmtOfbVlanVid
    · simp only [parseOfpat, Action.argument, ht, h1, h2, h3, h4, h5, hf, if_false, if_true, ne_eq,
        not_true_eq_false, and_self]
      rfl
    · simp only [parseOfpat, Action.argument, ht, h1, h2, h3, h4, h5, hf, if_false, if_true, ne_eq,
        not_false_eq_true, and_false]
      rfl
  · simp only [parseOfpat, Action.argument, ht, if_false, false_and]
    split_ifs <;> rfl

/-! ## One action -/

section step
variable (m : Machine) (s : ActionLoop) (a : Action)

theorem parseActionsStep_sig :
    (parseActionsStep m s a).out.sig = signatureSetBit m a.type.toNat s.out.sig := by
  simp only [parseActionsStep, parseOfpat_eq]
  split_ifs
  · split <;> rfl
  · rfl

theorem parseActionsStep_isSome (k : BitVec 16) :
    ((parseActionsStep m s a).out.aargs k).isSome = true ↔
      (s.out.aargs k).isSome = true ∨ a.type = k := by
  simp only [parseActionsStep, parseOfpat_eq]
  split_ifs with ht
  · have hself : (s.out.aargs Ofpat.setField).isSome = true → a.type = k →
        (s.out.aargs k).isSome = true := fun hs hk => hk ▸ ht ▸ hs
    split
    · rename_i hp
      exact ⟨.inl, fun h => h.elim id (hself (Option.isSome_of_mem hp))⟩
    · by_cases hk : k = Ofpat.setField
      · simp only [hk, ht, update_self, Option.isSome_some, or_true]
      · simp only [update_of_ne hk, ht, Ne.symm hk, or_false]
  · by_cases hk : k = a.type
    · simp only [hk, update_self, Option.isSome_some, or_true]
    · simp only [update_of_ne hk, Ne.symm hk, or_false]

theorem parseActionsStep_plain (ht : a.type ≠ Ofpat.setField) :
    parseActionsStep m s a =
      let r := s.out.heap.allocate s.arg a.argument
      ⟨r.1, s.hdrField,
        ⟨update s.out.aargs a.type (some r.1), signatureSetBit m a.type.toNat s.out.sig, r.2⟩⟩ := by
  simp only [parseActionsStep, parseOfpat_eq, ht, if_false]

end step

/-! ## All actions of a list -/

section list
variable (m : Machine) (p : Parsed) (as : List Action)

def actionLoop : ActionLoop := as.foldl (parseActionsStep m) ⟨.undef, 0, p⟩

theorem parseActions_eq : parseActions m as p = (actionLoop m p as).out := rfl

theorem actionLoop_append (a : Action) :
    actionLoop m p (as ++ [a]) = parseActionsStep m (actionLoop m p as) a := by
  rw [actionLoop, List.foldl_append]
  rfl

theorem parseActions_isSome (k : BitVec 16) :
    ((parseActions m as p).aargs k).isSome = true ↔
      (p.aargs k).isSome = true ∨ ∃ a ∈ as, a.type = k := by
  have hstep (s : ActionLoop) (a : Action) := parseActionsStep_isSome m s a k
  exact run_or_iff (fun s : ActionLoop => (s.out.aargs k).isSome = true)
    (along_of_steps hstep ⟨.undef, 0, p⟩ as)

theorem getLsbD_signatureSetBit {k : Nat} (hk : k < 32) (bit : Nat) (sig : BitVec 32) :
    (signatureSetBit m bit sig).getLsbD k = (sig.getLsbD k || (shl64 m bit).getLsbD k) := by
  simp only [signatureSetBit, BitVec.getLsbD_or, BitVec.getLsbD_setWidth, hk, decide_true,
    Bool.true_and]

theorem getLsbD_shl64 {bit : Nat} (hbit : bit < 64) (k : Nat) :
    (shl64 m bit).getLsbD k = true ↔ bit = k := by
  rw [shl64, if_pos hbit, ← BitVec.twoPow_eq, BitVec.getLsbD_twoPow]
  simp only [hbit, decide_true, Bool.true_and, decide_eq_true_eq]

theorem parseActions_getLsbD {k : Nat} (hk : k < 32) :
    (parseActions m as p).sig.getLsbD k = true ↔
      p.sig.getLsbD k = true ∨ ∃ a ∈ as, (shl64 m a.type.toNat).getLsbD k = true := by
  have hstep (s : ActionLoop) (a : Action) : (parseActionsStep m s a).out.sig.getLsbD k = true ↔
      s.out.sig.getLsbD k = true ∨ (shl64 m a.type.toNat).getLsbD k = true := by
    rw [parseActionsStep_sig, getLsbD_signatureSetBit m hk, Bool.or_eq_true_iff]
  exact run_or_iff (fun s : ActionLoop => s.out.sig.getLsbD k = true)
    (along_of_steps hstep ⟨.undef, 0, p⟩ as)

end list
end P4OfAgent
