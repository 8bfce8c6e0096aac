import P4OfAgent.Lib.Runs
import P4OfAgent.ParseActions

/-! The words that `parse_actions` stores. The pointer that `parse_ofpat` sets for the types with an
argument is one variable for the whole list, and it is stored for every action. -/

namespace P4OfAgent
open Function Bytes Runs

/-- The types whose argument `parse_ofpat` reads for every action of the type. -/
def argumentTypes : List (BitVec 16) :=
  [Ofpat.output, Ofpat.group, Ofpat.setQueue, Ofpat.setMplsTtl, Ofpat.setNwTtl]

def Action.TakesArgument (a : Action) : Prop :=
  a.type ∈ argumentTypes ∨ a.type = Ofpat.setField ∧ a.oxmField >>> 1 = ofpxmtOfbVlanVid

instance (a : Action) : Decidable a.TakesArgument :=
  inferInstanceAs (Decidable (a.type ∈ argumentTypes ∨ _ ∧ _))

theorem Action.argument_isSome_iff (a : Action) : a.argument.isSome = true ↔ a.TakesArgument := by
  simp only [Action.argument, Action.TakesArgument, argumentTypes, List.mem_cons, List.not_mem_nil,
    or_false]
  split_ifs <;> simp_all

theorem Action.argument_of_mem {a : Action} (ha : a.type ∈ argumentTypes) :
    ∃ v, a.argument = some v :=
  Option.isSome_iff_exists.1 (a.argument_isSome_iff.2 (.inl ha))

theorem setField_not_mem_argumentTypes : Ofpat.setField ∉ argumentTypes := by decide

/-! ## What one action leaves alone -/

section step
variable (m : Machine) (s : ActionLoop) (a : Action) {ptr : Ptr} {v : ArgVal} {k : BitVec 16}

theorem parseActionsStep_arg :
    (parseActionsStep m s a).arg = (s.out.heap.allocate s.arg a.argument).1 := by
  simp only [parseActionsStep, parseOfpat_eq]
  split_ifs
  · split <;> rfl
  · rfl

theorem parseActionsStep_blocks :
    (parseActionsStep m s a).out.heap.blocks = (s.out.heap.allocate s.arg a.argument).2.blocks := by
  simp only [parseActionsStep, parseOfpat_eq]
  split_ifs
  · split <;> exact (Heap.blocks_poke ..).trans (Heap.blocks_jli ..)
  · rfl

theorem parseActionsStep_load :
    (parseActionsStep m s a).out.heap.load ptr = (s.out.heap.allocate s.arg a.argument).2.load ptr :=
  Heap.load_congr (parseActionsStep_blocks m s a) ptr

theorem parseActionsStep_aargs_of_ne (hk : a.type ≠ k) :
    (parseActionsStep m s a).out.aargs k = s.out.aargs k := by
  simp only [parseActionsStep, parseOfpat_eq]
  split_ifs with ht
  · have hne : k ≠ Ofpat.setField := fun h => hk (ht.trans h.symm)
    split
    · rfl
    · exact update_of_ne hne _ _
  · exact update_of_ne hk.symm _ _

/-- An iteration ends with the word that it stores: in `aargs` under the type, or for a SET_FIELD in
the array whose root `JLI` gives, under the header field. -/
theorem parseActionsStep_stores :
    let j := (s.out.heap.allocate s.arg a.argument).2.jli m
      ((s.out.aargs Ofpat.setField).getD .null) (a.oxmField >>> 1)
    (a.type ≠ Ofpat.setField →
        (parseActionsStep m s a).out.aargs a.type = some (parseActionsStep m s a).arg) ∧
      (a.type = Ofpat.setField → (parseActionsStep m s a).out.heap =
        j.2.poke j.1 (a.oxmField >>> 1) (parseActionsStep m s a).arg) := by
  intro j
  refine ⟨fun ht => ?_, fun ht => ?_⟩
  · rw [parseActionsStep_plain m s a ht]
    exact update_self ..
  · rw [parseActionsStep_arg]
    simp only [parseActionsStep, parseOfpat_eq, ht, if_true, j]
    cases s.out.aargs Ofpat.setField <;> rfl

end step

/-! ## The last action of a type -/

section list
variable (m : Machine) {s : ActionLoop} {as : List Action} {k : BitVec 16} {ptr : Ptr} {v : ArgVal}

theorem run_aargs_of_not_mem (h : ∀ a ∈ as, a.type ≠ k) :
    (run (parseActionsStep m) s as).out.aargs k = s.out.aargs k :=
  run_inv (I := fun s' : ActionLoop => s'.out.aargs k = s.out.aargs k)
    (fun s' a ha hs' => (parseActionsStep_aargs_of_ne m s' a (h a ha)).trans hs') rfl

theorem run_load (h : s.out.heap.load ptr = some v) :
    (run (parseActionsStep m) s as).out.heap.load ptr = some v := by
  refine run_inv (I := fun s' : ActionLoop => s'.out.heap.load ptr = some v) (fun s' a _ hs' => ?_) h
  rw [parseActionsStep_load]
  exact Heap.load_allocate _ _ _ hs'

theorem parseActionsStep_entry {a : Action} (ha : a.type ∈ argumentTypes) :
    ∃ ptr v, a.argument = some v ∧ (parseActionsStep m s a).out.aargs a.type = some ptr ∧
      (parseActionsStep m s a).out.heap.load ptr = some v := by
  obtain ⟨v, hv⟩ := Action.argument_of_mem ha
  have ht : a.type ≠ Ofpat.setField := fun h => setField_not_mem_argumentTypes (h ▸ ha)
  refine ⟨(parseActionsStep m s a).arg, v, hv, (parseActionsStep_stores m s a).1 ht, ?_⟩
  rw [parseActionsStep_load, parseActionsStep_arg, hv]
  exact s.out.heap.load_malloc v

end list

/-- For each type with an argument the last action of the list wins, and what the list does not touch
stays as it was: the other entries, and the memory that they refer to. For runs in which `ub` is set
(`parseActions_ub` says which) this rests on Judy leaving the rest of the memory alone. -/
theorem parseActions_lastWins (m : Machine) (as : List Action) (p : Parsed) :
    (∀ pre a post, as = pre ++ a :: post → a.type ∈ argumentTypes → (∀ b ∈ post, b.type ≠ a.type) →
        ∃ ptr v, a.argument = some v ∧ (parseActions m as p).aargs a.type = some ptr ∧
          (parseActions m as p).heap.load ptr = some v) ∧
      (∀ k, (∀ a ∈ as, a.type ≠ k) → (parseActions m as p).aargs k = p.aargs k) ∧
      ∀ ptr v, p.heap.load ptr = some v → (parseActions m as p).heap.load ptr = some v := by
  refine ⟨?_, fun k hk => run_aargs_of_not_mem m hk, fun ptr v hv => run_load m hv⟩
  rintro pre a post rfl ha hpost
  let s := run (parseActionsStep m) ⟨.undef, 0, p⟩ pre
  have hrun : parseActions m (pre ++ a :: post) p =
      (run (parseActionsStep m) (parseActionsStep m s a) post).out :=
    congrArg ActionLoop.out (run_append _ pre (a :: post))
  obtain ⟨ptr, v, hv, hentry, hload⟩ := parseActionsStep_entry m (s := s) ha
  rw [hrun]
  exact ⟨ptr, v, hv, (run_aargs_of_not_mem m hpost).trans hentry, run_load m hload⟩

/-! ## Whose argument is stored -/

def ethertypeTypes : List (BitVec 16) :=
  [Ofpat.pushVlan, Ofpat.pushMpls, Ofpat.pushPbb, Ofpat.popMpls]

/-- What an action carries on the wire: beside the arguments that are read, the ethertype of a push or
of POP_MPLS. -/
def Action.carried (a : Action) : Option ArgVal :=
  if a.type ∈ ethertypeTypes then some (.u16 (be16 a.body 0)) else a.argument

/-- The word is the action's own argument, in memory that is not there before its iteration, or the
marker of its absence. -/
def OwnWord (a : Action) (before after : Heap) (word : Ptr) : Prop :=
  (∃ v, a.carried = some v ∧ before.load word = none ∧ after.load word = some v) ∨
    a.carried = none ∧ word = .null

def StoresOwn (m : Machine) (s : ActionLoop) (a : Action) : Prop :=
  OwnWord a s.out.heap (parseActionsStep m s a).out.heap (parseActionsStep m s a).arg

def ArgHeld (s : ActionLoop) : Prop := s.arg = .undef ∨ ∃ v, s.out.heap.load s.arg = some v

section own
variable {m : Machine} {s : ActionLoop} {a : Action}

theorem not_mem_ethertypeTypes {t : BitVec 16} (ht : t ∈ argumentTypes ∨ t = Ofpat.setField) :
    t ∉ ethertypeTypes := by
  simp only [argumentTypes, List.mem_cons, List.not_mem_nil, or_false] at ht
  rcases ht with (rfl | rfl | rfl | rfl | rfl) | rfl <;> decide

theorem Action.carried_of_takesArgument (ha : a.TakesArgument) : a.carried = a.argument :=
  if_neg (not_mem_ethertypeTypes (ha.imp_right And.left))

theorem ArgHeld.step (hs : ArgHeld s) : ArgHeld (parseActionsStep m s a) := by
  unfold ArgHeld
  rw [parseActionsStep_load, parseActionsStep_arg]
  cases a.argument with
  | none => exact hs
  | some v => exact .inr ⟨v, s.out.heap.load_malloc v⟩

theorem storesOwn_of_takesArgument (ha : a.TakesArgument) : StoresOwn m s a := by
  obtain ⟨v, hv⟩ := Option.isSome_iff_exists.1 (a.argument_isSome_iff.2 ha)
  refine .inl ⟨v, (Action.carried_of_takesArgument ha).trans hv, ?_, ?_⟩
  · rw [parseActionsStep_arg, hv]
    exact s.out.heap.load_malloc_eq_none v
  · rw [parseActionsStep_load, parseActionsStep_arg, hv]
    exact s.out.heap.load_malloc v

theorem StoresOwn.takesArgument (hs : ArgHeld s) (ha : StoresOwn m s a) : a.TakesArgument := by
  by_contra hnot
  have hnone : a.argument = none :=
    Option.not_isSome_iff_eq_none.1 fun h => hnot (a.argument_isSome_iff.1 h)
  have harg : (parseActionsStep m s a).arg = s.arg := by rw [parseActionsStep_arg, hnone]; rfl
  have hheap : (parseActionsStep m s a).out.heap.load s.arg = s.out.heap.load s.arg := by
    rw [parseActionsStep_load, hnone]; rfl
  unfold StoresOwn at ha
  rw [harg] at ha
  -- what is there already belongs to an earlier action, and the pointer is never null
  rcases ha with ⟨v, _, hbefore, hafter⟩ | ⟨_, hnull⟩
  · rw [hheap, hbefore] at hafter
    exact Option.some_ne_none v hafter.symm
  · rcases hs with hundef | ⟨v, hload⟩
    · exact Ptr.noConfusion (hnull.symm.trans hundef)
    · rw [hnull] at hload
      exact Option.some_ne_none v hload.symm

end own

theorem parseActions_storesOwn_iff (m : Machine) (as : List Action) (p : Parsed) :
    Along (parseActionsStep m) (StoresOwn m) ⟨.undef, 0, p⟩ as ↔ ∀ a ∈ as, a.TakesArgument := by
  have hall : Along (parseActionsStep m) (fun _ a => a.TakesArgument) ⟨.undef, 0, p⟩ as ↔
      ∀ a ∈ as, a.TakesArgument := along_iff_forall
  rw [← hall]
  refine along_iff_of_inv ArgHeld _ (fun s a hs _ => ?_) (fun s a hs _ _ => hs.step) (.inl rfl)
    (along_true _ _)
  exact ⟨StoresOwn.takesArgument hs, storesOwn_of_takesArgument⟩

def outputThenDec : List Action :=
  [⟨Ofpat.output, toBE32 5 ++ List.replicate 8 0⟩, ⟨Ofpat.decNwTtl, List.replicate 4 0⟩]

theorem parseActions_outputThenDec :
    let m : Machine := ⟨fun _ _ => false, fun _ => 0⟩
    (parseActions m outputThenDec .empty).aargs Ofpat.decNwTtl =
        (parseActions m outputThenDec .empty).aargs Ofpat.output ∧
      ¬ Along (parseActionsStep m) (StoresOwn m) ⟨.undef, 0, .empty⟩ outputThenDec := by
  intro m
  refine ⟨rfl, fun h => ?_⟩
  have hheld : ArgHeld (parseActionsStep m ⟨.undef, 0, .empty⟩
      ⟨Ofpat.output, toBE32 5 ++ List.replicate 8 0⟩) := ArgHeld.step (.inl rfl)
  exact absurd (StoresOwn.takesArgument hheld h.2.1) (by decide)

end P4OfAgent
