import P4OfAgent.ParseActions

/-! The loop of `parse_instructions`, iteration by iteration. Every iteration reads the type of the
first instruction of the buffer, and the case of an action list leaves the loop, so the first
instruction alone decides what is recorded and how the others are decoded. -/

namespace P4OfAgent
open Bytes Runs

/-! ## Instructions on the wire -/

namespace Instruction
variable (i : Instruction) (rest : List Instruction)

def header : List Byte := toBE16 i.type ++ toBE16 (BitVec.ofNat 16 (4 + i.body.length))

theorem encodeList_cons : encodeList (i :: rest) = i.header ++ (i.body ++ encodeList rest) := by
  simp only [encodeList, List.flatMap_cons, encode, header, List.append_assoc]

theorem be16_encodeList : be16 (encodeList (i :: rest)) 0 = i.type := by
  rw [encodeList_cons, header, List.append_assoc, be16_toBE16]

def argument : Instruction → Option ArgVal
  | gotoTable tableId => some (.u8 tableId)
  | writeMetadata metadata _ => some (.u64 metadata)
  | meter meterId => some (.u32 meterId)
  | _ => none

end Instruction

/-! ## Iterations -/

inductive InstrCase
  | gotoTable | writeMetadata | actions | meter | default
deriving DecidableEq, Repr

/-- The `switch` of `parse_instructions`. -/
def instrCase (instr : BitVec 16) : InstrCase :=
  if instr = Ofpit.gotoTable then .gotoTable
  else if instr = Ofpit.writeMetadata then .writeMetadata
  else if instr = Ofpit.writeActions ∨ instr = Ofpit.applyActions ∨ instr = Ofpit.clearActions then
    .actions
  else if instr = Ofpit.meter then .meter
  else .default

/-- `arg` and the memory behind the `switch`; the case of an action list does not get there. -/
def InstrCase.decode (elt : List Byte) (arg : Ptr) (h : Heap) : InstrCase → Option (Ptr × Heap)
  | .gotoTable => some (h.malloc (.u8 (elt.getD 4 0)))
  | .writeMetadata => some (h.malloc (.u64 (be64 elt 8)))
  | .actions => none
  | .meter => some (h.malloc (.u32 (be32 elt 4)))
  | .default => some (arg, h)

theorem InstrCase.decode_isSome {c : InstrCase} (hc : c ≠ .actions) (elt : List Byte) (arg : Ptr)
    (h : Heap) : (c.decode elt arg h).isSome = true := by
  cases c with
  | actions => exact absurd rfl hc
  | _ => rfl

/-- An iteration: its element, the type it reads, and the pointer it stores under that type, with
the memory at that time. -/
structure Iteration where
  elt : Instruction
  instr : BitVec 16
  entry : Option (Ptr × Heap)

namespace Iteration
variable (m : Machine) (p : Parsed) (it : Iteration)

def apply : Parsed :=
  match it.entry with
  | some (arg, heap) =>
    { p.insert it.instr arg with heap := heap, sig := signatureSetBit m it.instr.toNat p.sig }
  | none => parseActions m it.elt.actions p

def keys : List (BitVec 16) :=
  match it.entry with
  | some _ => [it.instr]
  | none => it.elt.actions.map Action.type

theorem apply_isSome (k : BitVec 16) :
    ((it.apply m p).aargs k).isSome = true ↔ (p.aargs k).isSome = true ∨ k ∈ it.keys := by
  unfold apply keys
  cases it.entry with
  | some entry =>
    by_cases hk : k = it.instr
    · simp only [Parsed.insert, hk, Function.update_self, Option.isSome_some, List.mem_singleton, or_true]
    · simp only [Parsed.insert, Function.update_of_ne hk, List.mem_singleton, hk, or_false]
  | none => simp only [parseActions_isSome, List.mem_map]

theorem apply_getLsbD {k : Nat} (hk : k < 32) :
    (it.apply m p).sig.getLsbD k = true ↔
      p.sig.getLsbD k = true ∨ ∃ t ∈ it.keys, (shl64 m t.toNat).getLsbD k = true := by
  unfold apply keys
  cases it.entry with
  | some entry => simp only [getLsbD_signatureSetBit m hk, Bool.or_eq_true_iff, List.mem_singleton,
      exists_eq_left]
  | none => simp only [parseActions_getLsbD m p _ hk, List.mem_map, exists_exists_and_eq_and]

end Iteration

def iterations (wbuf : List Byte) : List Instruction → Ptr → Heap → List Iteration
  | [], _, _ => []
  | i :: rest, arg, h =>
    let instr := be16 wbuf 0
    match (instrCase instr).decode (Instruction.encodeList (i :: rest)) arg h with
    | some (arg, h) => ⟨i, instr, some (arg, h)⟩ :: iterations wbuf rest arg h
    | none => [⟨i, instr, none⟩]

section loop
variable (m : Machine) (wbuf : List Byte) (list : List Instruction) (arg : Ptr)

theorem parseInstructionsLoop_eq (p : Parsed) :
    parseInstructionsLoop m wbuf list arg p =
      (iterations wbuf list arg p.heap).foldl (fun p it => it.apply m p) p := by
  induction list generalizing arg p with
  | nil => rfl
  | cons i rest ih =>
    simp only [parseInstructionsLoop, iterations, instrCase]
    split_ifs <;> simp only [ih, InstrCase.decode, List.foldl_cons, List.foldl_nil] <;> rfl

variable {its : List Iteration} {k : Nat}

theorem foldl_apply_isSome (p : Parsed) (key : BitVec 16) :
    ((its.foldl (fun p it => it.apply m p) p).aargs key).isSome = true ↔
      (p.aargs key).isSome = true ∨ ∃ it ∈ its, key ∈ it.keys := by
  have hstep (p : Parsed) (it : Iteration) := it.apply_isSome m p key
  exact run_or_iff (fun p : Parsed => (p.aargs key).isSome = true) (along_of_steps hstep p its)

theorem foldl_apply_getLsbD (p : Parsed) (hk : k < 32) :
    (its.foldl (fun p it => it.apply m p) p).sig.getLsbD k = true ↔
      p.sig.getLsbD k = true ∨
        ∃ it ∈ its, ∃ t ∈ it.keys, (shl64 m t.toNat).getLsbD k = true := by
  have hstep (p : Parsed) (it : Iteration) := it.apply_getLsbD m p hk
  exact run_or_iff (fun p : Parsed => p.sig.getLsbD k = true) (along_of_steps hstep p its)

variable {h : Heap}

theorem iterations_actions (hcase : instrCase (be16 wbuf 0) = .actions) (i : Instruction)
    (rest : List Instruction) :
    iterations wbuf (i :: rest) arg h = [⟨i, be16 wbuf 0, none⟩] := by
  simp only [iterations, hcase, InstrCase.decode]

theorem forall_iterations {R : Iteration → Prop}
    (hR : ∀ i ∈ list, ∀ rest arg h, R ⟨i, be16 wbuf 0,
      (instrCase (be16 wbuf 0)).decode (Instruction.encodeList (i :: rest)) arg h⟩) :
    ∀ it ∈ iterations wbuf list arg h, R it := by
  induction list generalizing arg h with
  | nil => exact fun it hit => absurd hit List.not_mem_nil
  | cons i rest ih =>
    have hfirst := hR i List.mem_cons_self rest arg h
    cases hdecode : (instrCase (be16 wbuf 0)).decode (Instruction.encodeList (i :: rest)) arg h with
    | some entry =>
      rw [hdecode] at hfirst
      simp only [iterations, hdecode]
      exact List.forall_mem_cons.2 ⟨hfirst, ih _ fun j hj => hR j (List.mem_cons_of_mem i hj)⟩
    | none =>
      rw [hdecode] at hfirst
      simp only [iterations, hdecode]
      exact List.forall_mem_singleton.2 hfirst

theorem iterations_map_elt (hcase : instrCase (be16 wbuf 0) ≠ .actions) :
    (iterations wbuf list arg h).map Iteration.elt = list := by
  induction list generalizing arg h with
  | nil => rfl
  | cons i rest ih =>
    obtain ⟨entry, hentry⟩ := Option.isSome_iff_exists.1
      (InstrCase.decode_isSome hcase (Instruction.encodeList (i :: rest)) arg h)
    simp only [iterations, hentry, List.map_cons, ih]

theorem exists_iteration (hcase : instrCase (be16 wbuf 0) ≠ .actions) {i : Instruction}
    (hi : i ∈ list) : ∃ it ∈ iterations wbuf list arg h, it.elt = i := by
  rw [← iterations_map_elt wbuf list arg (h := h) hcase] at hi
  exact List.mem_map.1 hi

theorem instr_of_mem {it : Iteration} (hit : it ∈ iterations wbuf list arg h) :
    it.elt ∈ list ∧ it.instr = be16 wbuf 0 :=
  forall_iterations (R := fun it => it.elt ∈ list ∧ it.instr = be16 wbuf 0) wbuf list arg
    (fun _ hi _ _ _ => ⟨hi, rfl⟩) it hit

theorem entry_isSome (hcase : instrCase (be16 wbuf 0) ≠ .actions) {it : Iteration}
    (hit : it ∈ iterations wbuf list arg h) : it.entry.isSome = true :=
  forall_iterations (R := fun it => it.entry.isSome = true) wbuf list arg
    (fun _ _ _ arg h => InstrCase.decode_isSome hcase _ arg h) it hit

theorem parseInstructions_applyActions (as : List Action) (p : Parsed) :
    parseInstructions m [.applyActions as] p = parseActions m as p := by
  have hinstr := (Instruction.applyActions as).be16_encodeList []
  have hcase : instrCase (be16 (Instruction.encodeList [.applyActions as]) 0) = .actions := by
    rw [hinstr]
    rfl
  rw [parseInstructions, parseInstructionsLoop_eq, iterations_actions _ _ hcase]
  rfl

end loop

/-! ## What is recorded -/

/-- The types under which `aargs` and the signature should show an instruction. -/
def Instruction.recorded : Instruction → List (BitVec 16)
  | gotoTable _ => [Ofpit.gotoTable]
  | writeMetadata _ _ => [Ofpit.writeMetadata]
  | writeActions as => (as.map Action.type).filter (·.toNat < 32)
  | applyActions as => (as.map Action.type).filter (·.toNat < 32)
  | clearActions _ => []
  | meter _ => [Ofpit.meter]
  | other _ _ _ => []

def Instruction.reached (i : Instruction) : List (BitVec 16) :=
  if instrCase i.type = .actions then i.actions.map Action.type else [i.type]

def Complete (list : List Instruction) (p : Parsed) : Prop :=
  ∀ i ∈ list, ∀ k ∈ i.recorded, p.sig.getLsbD k.toNat = true ∧ (p.aargs k).isSome = true

theorem Instruction.recorded_lt {i : Instruction} {k : BitVec 16} (hk : k ∈ i.recorded) :
    k.toNat < 32 := by
  have hone : ∀ t : BitVec 16, t.toNat < 32 → k ∈ [t] → k.toNat < 32 := by
    intro t ht hkt
    rwa [List.mem_singleton.1 hkt]
  have hactions : ∀ as : List Action, k ∈ (as.map Action.type).filter (·.toNat < 32) → k.toNat < 32 :=
    fun as h => of_decide_eq_true (List.mem_filter.1 h).2
  cases i with
  | gotoTable _ => exact hone Ofpit.gotoTable (by decide) hk
  | writeMetadata _ _ => exact hone Ofpit.writeMetadata (by decide) hk
  | writeActions as => exact hactions as hk
  | applyActions as => exact hactions as hk
  | clearActions _ => exact absurd hk List.not_mem_nil
  | meter _ => exact hone Ofpit.meter (by decide) hk
  | other _ _ _ => exact absurd hk List.not_mem_nil

section recorded
variable (m : Machine) (i : Instruction) (rest : List Instruction) (arg : Ptr) (h : Heap)

theorem exists_keys (key : BitVec 16) :
    (∃ it ∈ iterations (Instruction.encodeList (i :: rest)) (i :: rest) arg h, key ∈ it.keys) ↔
      key ∈ i.reached := by
  have hinstr := i.be16_encodeList rest
  unfold Instruction.reached
  by_cases hcase : instrCase i.type = .actions
  · rw [if_pos hcase, iterations_actions _ arg (by rw [hinstr, hcase])]
    simp only [List.mem_singleton, exists_eq_left, Iteration.keys]
  · rw [if_neg hcase]
    rw [← hinstr] at hcase
    have hkeys : ∀ it ∈ iterations (Instruction.encodeList (i :: rest)) (i :: rest) arg h,
        it.keys = [i.type] := by
      intro it hit
      obtain ⟨entry, hentry⟩ := Option.isSome_iff_exists.1 (entry_isSome _ _ arg hcase hit)
      rw [Iteration.keys, hentry, (instr_of_mem _ _ arg hit).2, hinstr]
    constructor
    · rintro ⟨it, hit, hkey⟩
      rwa [hkeys it hit] at hkey
    · intro hkey
      obtain ⟨it, hit, _⟩ := exists_iteration _ _ arg (h := h) hcase (List.mem_cons_self (l := rest))
      exact ⟨it, hit, by rwa [hkeys it hit]⟩

theorem parseInstructions_isSome (key : BitVec 16) :
    ((parseInstructions m (i :: rest) .empty).aargs key).isSome = true ↔ key ∈ i.reached := by
  rw [parseInstructions, parseInstructionsLoop_eq, foldl_apply_isSome, exists_keys]
  simp only [Parsed.empty, Option.isSome_none, Bool.false_eq_true, false_or]

theorem parseInstructions_getLsbD {key : BitVec 16} (hk : key.toNat < 32) (hkey : key ∈ i.reached) :
    (parseInstructions m (i :: rest) .empty).sig.getLsbD key.toNat = true := by
  rw [parseInstructions, parseInstructionsLoop_eq, foldl_apply_getLsbD m _ hk]
  obtain ⟨it, hit, hmem⟩ := (exists_keys i rest .undef Heap.empty key).2 hkey
  exact .inr ⟨it, hit, key, hmem, (getLsbD_shl64 m (by omega) _).2 rfl⟩

end recorded

theorem parseInstructions_complete_iff (m : Machine) (list : List Instruction) :
    Complete list (parseInstructions m list .empty) ↔
      ∀ i ∈ list, ∀ k ∈ i.recorded, ∃ first ∈ list.head?, k ∈ first.reached := by
  cases list with
  | nil => exact ⟨fun _ i hi => absurd hi List.not_mem_nil, fun _ i hi => absurd hi List.not_mem_nil⟩
  | cons first rest =>
    simp only [List.head?_cons, Option.mem_some_iff, exists_eq_left']
    constructor
    · intro hcomplete i hi k hk
      exact (parseInstructions_isSome m first rest k).1 (hcomplete i hi k hk).2
    · intro hreached i hi k hk
      have hkey := hreached i hi k hk
      exact ⟨parseInstructions_getLsbD m first rest (Instruction.recorded_lt hk) hkey,
        (parseInstructions_isSome m first rest k).2 hkey⟩

def gotoThenApply : List Instruction :=
  [.gotoTable 1, .applyActions [⟨Ofpat.output, toBE32 5 ++ List.replicate 8 0⟩]]

-- the action list behind the GOTO_TABLE is not looked at
theorem parseInstructions_gotoThenApply :
    ¬ Complete gotoThenApply (parseInstructions ⟨fun _ _ => false, fun _ => 0⟩ gotoThenApply .empty) := by
  intro hcomplete
  have hentry := (hcomplete _ (List.mem_cons_of_mem _ List.mem_cons_self) Ofpat.output (by decide)).2
  have hreached := (parseInstructions_isSome _ (.gotoTable 1) _ Ofpat.output).1 hentry
  exact absurd hreached (by decide)

/-! ## How an iteration decodes its element -/

/-- The iteration takes the case of its own element, and what it stores is the argument of an
instruction of the list that has the type it stores it under. -/
structure Iteration.Sound (list : List Instruction) (it : Iteration) : Prop where
  case : instrCase it.instr = instrCase it.elt.type
  entry : ∀ e, it.entry = some e →
    ∃ v, e.2.load e.1 = some v ∧ ∃ i ∈ list, i.type = it.instr ∧ i.argument = some v

section argument
variable (i : Instruction) (rest : List Instruction)

theorem instrCase_eq_default {t : BitVec 16} (ht : t ∉ Ofpit.known) : instrCase t = .default := by
  simp only [Ofpit.known, List.mem_cons, List.not_mem_nil, or_false, not_or] at ht
  simp only [instrCase, ht, or_self, if_false]

theorem argument_isSome_iff :
    i.argument.isSome = true ↔ instrCase i.type ≠ .actions ∧ instrCase i.type ≠ .default := by
  cases i with
  | other t ht _ =>
    simp only [Instruction.type, instrCase_eq_default ht, Instruction.argument, Option.isSome_none,
      Bool.false_eq_true, ne_eq, not_true_eq_false, and_false]
  | _ =>
    simp only [Instruction.type, Instruction.argument, Option.isSome_some, Option.isSome_none, true_iff]
    decide

theorem type_eq_of_instrCase {t t' : BitVec 16} (h : instrCase t = instrCase t')
    (ht : instrCase t ≠ .actions ∧ instrCase t ≠ .default) : t = t' := by
  unfold instrCase at h ht
  grind

theorem decode_argument {v : ArgVal} (hv : i.argument = some v) (arg : Ptr) (h : Heap) :
    (instrCase i.type).decode (Instruction.encodeList (i :: rest)) arg h = some (h.malloc v) := by
  rw [Instruction.encodeList_cons]
  cases i with
  | gotoTable tableId =>
    obtain rfl := Option.some.inj hv
    rfl
  | writeMetadata metadata mask =>
    obtain rfl := Option.some.inj hv
    let i := Instruction.writeMetadata metadata mask
    let pad : List Byte := List.replicate 4 0
    let tail := toBE64 metadata ++ (toBE64 mask ++ Instruction.encodeList rest)
    have hat : be64 (i.header ++ (pad ++ tail)) 8 = metadata := by
      calc
        be64 (i.header ++ (pad ++ tail)) 8 = be64 (pad ++ tail) 4 := be64_append_right i.header _ 4
        _ = be64 tail 0 := be64_append_right pad tail 0
        _ = metadata := be64_toBE64 metadata _
    simp only [Instruction.body, List.append_assoc]
    exact congrArg (fun v => some (h.malloc (.u64 v))) hat
  | meter meterId =>
    obtain rfl := Option.some.inj hv
    let i := Instruction.meter meterId
    let tail := toBE32 meterId ++ Instruction.encodeList rest
    have hat : be32 (i.header ++ tail) 4 = meterId := by
      calc
        be32 (i.header ++ tail) 4 = be32 tail 0 := be32_append_right i.header tail 0
        _ = meterId := be32_toBE32 meterId _
    exact congrArg (fun v => some (h.malloc (.u32 v))) hat
  | _ => exact absurd hv (Option.some_ne_none v).symm

end argument

def OneType : List Instruction → Prop
  | [] => True
  | first :: rest => instrCase first.type = .actions ∨
      (first.argument.isSome = true ∧ ∀ i ∈ rest, i.type = first.type)

section sound
variable {wbuf : List Byte} {list : List Instruction} {t : BitVec 16}

theorem iterations_oneType (hwbuf : be16 wbuf 0 = t)
    (hlist : ∀ i ∈ list, i.type = t ∧ i.argument.isSome = true) (arg : Ptr) (h : Heap) :
    ∀ it ∈ iterations wbuf list arg h, ∃ (heap : Heap) (v : ArgVal),
      it.entry = some (heap.malloc v) ∧ it.elt.argument = some v := by
  refine forall_iterations wbuf list arg fun i hi rest arg h => ?_
  obtain ⟨htype, hsome⟩ := hlist i hi
  obtain ⟨v, hv⟩ := Option.isSome_iff_exists.1 hsome
  refine ⟨h, v, ?_, hv⟩
  rw [hwbuf, ← htype, decode_argument i rest hv]

end sound

theorem OneType.of_sound {first : Instruction} {rest : List Instruction} {h : Heap}
    (hsound : ∀ it ∈ iterations (Instruction.encodeList (first :: rest)) (first :: rest) .undef h,
      it.Sound (first :: rest)) : OneType (first :: rest) := by
  by_cases hactions : instrCase first.type = .actions
  · exact .inl hactions
  · have hwbuf := first.be16_encodeList rest
    have hcase : instrCase (be16 (Instruction.encodeList (first :: rest)) 0) ≠ .actions := by rwa [hwbuf]
    have hreach := fun i => exists_iteration (Instruction.encodeList (first :: rest)) (first :: rest)
      .undef (h := h) (i := i) hcase
    have hinstr : ∀ it ∈ iterations (Instruction.encodeList (first :: rest)) (first :: rest) .undef h,
        it.instr = first.type := fun it hit => (instr_of_mem _ _ _ hit).2.trans hwbuf
    -- what the first iteration stores is some instruction's argument, so its type has one
    have hsome : first.argument.isSome = true := by
      obtain ⟨it, hit, _⟩ := hreach first List.mem_cons_self
      obtain ⟨entry, hentry⟩ := Option.isSome_iff_exists.1 (entry_isSome _ _ _ hcase hit)
      obtain ⟨v, _, i, _, htype, hv⟩ := (hsound it hit).entry entry hentry
      have hi := (argument_isSome_iff i).1 (Option.isSome_of_mem hv)
      rw [htype, hinstr it hit] at hi
      exact (argument_isSome_iff first).2 hi
    refine .inr ⟨hsome, fun i hi => ?_⟩
    obtain ⟨it, hit, rfl⟩ := hreach i (List.mem_cons_of_mem first hi)
    have hitcase := (hsound it hit).case
    rw [hinstr it hit] at hitcase
    exact (type_eq_of_instrCase hitcase ((argument_isSome_iff first).1 hsome)).symm

theorem OneType.sound {first : Instruction} {rest : List Instruction} (hone : OneType (first :: rest))
    {h : Heap} : ∀ it ∈ iterations (Instruction.encodeList (first :: rest)) (first :: rest) .undef h,
      it.Sound (first :: rest) := by
  have hwbuf := first.be16_encodeList rest
  intro it hit
  rcases hone with hactions | ⟨hsome, htype⟩
  · have hcase : instrCase (be16 (Instruction.encodeList (first :: rest)) 0) = .actions := by
      rw [hwbuf, hactions]
    rw [iterations_actions _ _ hcase] at hit
    obtain rfl := List.mem_singleton.1 hit
    exact ⟨congrArg instrCase hwbuf, fun e he => absurd he (Option.some_ne_none e).symm⟩
  · have hall : ∀ i ∈ first :: rest, i.type = first.type ∧ i.argument.isSome = true := by
      intro i hi
      have hi' : i.type = first.type := (List.mem_cons.1 hi).elim (fun h => h ▸ rfl) (htype i)
      refine ⟨hi', (argument_isSome_iff i).2 ?_⟩
      rw [hi']
      exact (argument_isSome_iff first).1 hsome
    obtain ⟨helt, hinstr⟩ := instr_of_mem _ _ _ hit
    have hitype : it.elt.type = it.instr := by rw [(hall it.elt helt).1, hinstr, hwbuf]
    refine ⟨congrArg instrCase hitype.symm, fun e he => ?_⟩
    obtain ⟨heap, v, hentry, hv⟩ := iterations_oneType hwbuf hall .undef h it hit
    obtain rfl := Option.some.inj (he.symm.trans hentry)
    exact ⟨v, heap.load_malloc v, it.elt, helt, hitype, hv⟩

theorem iterations_sound_iff (list : List Instruction) (h : Heap) :
    (∀ it ∈ iterations (Instruction.encodeList list) list .undef h, it.Sound list) ↔ OneType list := by
  cases list with
  | nil => exact ⟨fun _ => trivial, fun _ it hit => absurd hit List.not_mem_nil⟩
  | cons first rest => exact ⟨OneType.of_sound, fun hone => hone.sound⟩

def gotoThenMeter : List Instruction := [.gotoTable 1, .meter 5]

theorem iterations_gotoThenMeter :
    ¬ ∀ it ∈ iterations (Instruction.encodeList gotoThenMeter) gotoThenMeter .undef .empty,
      it.Sound gotoThenMeter := by
  intro hsound
  have hinstr : be16 (Instruction.encodeList gotoThenMeter) 0 = Ofpit.gotoTable :=
    Instruction.be16_encodeList (.gotoTable 1) [.meter 5]
  obtain ⟨it, hit, helt⟩ := exists_iteration (Instruction.encodeList gotoThenMeter) gotoThenMeter .undef
    (h := Heap.empty) (by rw [hinstr]; decide) (List.mem_cons_of_mem _ List.mem_cons_self)
  have hcase := (hsound it hit).case
  rw [(instr_of_mem _ _ _ hit).2, hinstr, helt] at hcase
  exact absurd hcase (by decide)

end P4OfAgent
