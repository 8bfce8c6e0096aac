import P4OfAgent.Lib.Runs
import P4OfAgent.ParseInstructions

/-! The calls of `signature_set_bit` in `parse.c`. Both loops pass the type on as they read it off
the wire, while C defines a shift of 64 bits for counts below 64 only. -/

namespace P4OfAgent
open Runs

/-! ## Signatures and types -/

section marks
variable {ts : List (BitVec 16)} {a b : BitVec 32}

def Marks (ts : List (BitVec 16)) (before after : BitVec 32) : Prop :=
  ∀ k < 32, after.getLsbD k = true ↔ before.getLsbD k = true ∨ ∃ t ∈ ts, t.toNat = k

theorem Marks.eq_of_le (h : Marks ts a b) (hts : ∀ t ∈ ts, 32 ≤ t.toNat) : b = a := by
  apply BitVec.eq_of_getLsbD_eq
  intro k hk
  rw [Bool.eq_iff_iff, h k hk, or_iff_left_iff_imp]
  rintro ⟨t, ht, rfl⟩
  exact absurd hk (Nat.not_lt.2 (hts t ht))

theorem marks_run {σ α : Type*} {step : σ → α → σ} (sig : σ → BitVec 32)
    (types : α → List (BitVec 16)) {s : σ} {as : List α}
    (h : Along step (fun s a => Marks (types a) (sig s) (sig (step s a))) s as) :
    Marks (as.flatMap types) (sig s) (sig (run step s as)) := by
  intro k hk
  have hrun := run_or_iff (fun s => (sig s).getLsbD k = true) (along_mono (fun _ _ hstep => hstep k hk) h)
  rw [hrun]
  refine or_congr_right ⟨?_, ?_⟩
  · rintro ⟨a, ha, t, ht, htk⟩
    exact ⟨t, List.mem_flatMap_of_mem ha ht, htk⟩
  · rintro ⟨t, hts, htk⟩
    obtain ⟨a, ha, ht⟩ := List.mem_flatMap.1 hts
    exact ⟨a, ha, t, ht, htk⟩

end marks

/-! ## One call -/

/-- A call of `signature_set_bit` whose shift is defined, and which sets the bit of its type and no
other. -/
structure ExactCall (type : BitVec 16) (before after : BitVec 32) : Prop where
  shift : type.toNat < 64
  marks : Marks [type] before after
  high : 32 ≤ type.toNat → after = before

section call
variable (m : Machine) (t : BitVec 16) (sig : BitVec 32)

theorem marks_signatureSetBit (ht : t.toNat < 64) :
    Marks [t] sig (signatureSetBit m t.toNat sig) := by
  intro k hk
  rw [getLsbD_signatureSetBit m hk, Bool.or_eq_true_iff, getLsbD_shl64 m ht]
  simp only [List.mem_singleton, exists_eq_left]

theorem exactCall_iff : ExactCall t sig (signatureSetBit m t.toNat sig) ↔ t.toNat < 64 := by
  refine ⟨ExactCall.shift, fun ht => ?_⟩
  have hmarks := marks_signatureSetBit m t sig ht
  refine ⟨ht, hmarks, fun hhigh => hmarks.eq_of_le ?_⟩
  simpa only [List.mem_singleton, forall_eq] using hhigh

end call

/-! ## The calls of an action list -/

structure ActionsExact (m : Machine) (as : List Action) (p : Parsed) : Prop where
  calls : Along (parseActionsStep m)
    (fun s a => ExactCall a.type s.out.sig (parseActionsStep m s a).out.sig) ⟨.undef, 0, p⟩ as
  sig : Marks (as.map Action.type) p.sig (parseActions m as p).sig

theorem actionsExact_iff (m : Machine) (as : List Action) (p : Parsed) :
    ActionsExact m as p ↔ ∀ a ∈ as, a.type.toNat < 64 := by
  have hstep (s : ActionLoop) (a : Action) :
      ExactCall a.type s.out.sig (parseActionsStep m s a).out.sig ↔ a.type.toNat < 64 := by
    rw [parseActionsStep_sig, exactCall_iff]
  constructor
  · intro h
    exact along_iff_forall.1 ((along_congr hstep _ as).1 h.calls)
  · intro h
    have hcalls : Along (parseActionsStep m) _ ⟨.undef, 0, p⟩ as :=
      (along_congr hstep _ as).2 (along_of_forall h)
    refine ⟨hcalls, ?_⟩
    rw [List.map_eq_flatMap]
    exact marks_run (fun s : ActionLoop => s.out.sig) _ (along_mono (fun _ _ hcall => hcall.marks) hcalls)

/-! ## The calls of an instruction list -/

namespace Iteration
variable (m : Machine) (p : Parsed) (it : Iteration)

def Exact : Prop :=
  match it.entry with
  | some _ => ExactCall it.instr p.sig (it.apply m p).sig
  | none => ActionsExact m it.elt.actions p

theorem exact_iff : it.Exact m p ↔ ∀ t ∈ it.keys, t.toNat < 64 := by
  unfold Exact keys apply
  cases it.entry with
  | some entry => simp only [exactCall_iff, List.mem_singleton, forall_eq]
  | none => simp only [actionsExact_iff, List.forall_mem_map]

theorem Exact.marks {m : Machine} {p : Parsed} {it : Iteration} (h : it.Exact m p) :
    Marks it.keys p.sig (it.apply m p).sig := by
  unfold Exact keys apply at *
  cases hentry : it.entry with
  | some entry =>
    rw [hentry] at h
    exact h.marks
  | none =>
    rw [hentry] at h
    exact h.sig

end Iteration

structure InstructionsExact (m : Machine) (list : List Instruction) (p : Parsed) : Prop where
  calls : Along (fun p it => it.apply m p) (fun p it => it.Exact m p) p
    (iterations (Instruction.encodeList list) list .undef p.heap)
  sig : Marks ((iterations (Instruction.encodeList list) list .undef p.heap).flatMap Iteration.keys)
    p.sig (parseInstructions m list p).sig

theorem instructionsExact_iff_keys (m : Machine) (list : List Instruction) (p : Parsed) :
    InstructionsExact m list p ↔
      ∀ it ∈ iterations (Instruction.encodeList list) list .undef p.heap, ∀ t ∈ it.keys, t.toNat < 64 := by
  have hstep (p : Parsed) (it : Iteration) := it.exact_iff m p
  constructor
  · intro h
    exact along_iff_forall.1 ((along_congr hstep _ _).1 h.calls)
  · intro h
    have hcalls : Along (fun p it => Iteration.apply m p it) (fun p it => it.Exact m p) p _ :=
      (along_congr hstep p _).2 (along_of_forall h)
    refine ⟨hcalls, ?_⟩
    rw [parseInstructions, parseInstructionsLoop_eq]
    exact marks_run Parsed.sig Iteration.keys (along_mono (fun _ _ hit => hit.marks) hcalls)

theorem instructionsExact_iff (m : Machine) (list : List Instruction) (p : Parsed) :
    InstructionsExact m list p ↔ ∀ first ∈ list.head?, ∀ t ∈ first.reached, t.toNat < 64 := by
  rw [instructionsExact_iff_keys]
  cases list with
  | nil => simp only [iterations, List.not_mem_nil, List.head?_nil, Option.not_mem_none, false_implies,
      implies_true]
  | cons first rest =>
    simp only [List.head?_cons, Option.mem_some_iff, forall_eq']
    constructor
    · intro h t ht
      obtain ⟨it, hit, hkey⟩ := (exists_keys first rest .undef p.heap t).2 ht
      exact h it hit t hkey
    · intro h it hit t hkey
      exact h t ((exists_keys first rest .undef p.heap t).1 ⟨it, hit, hkey⟩)

theorem signature_exact_iff (m : Machine) (p : Parsed) :
    (∀ as, ActionsExact m as p ↔ ∀ a ∈ as, a.type.toNat < 64) ∧
      ∀ list, InstructionsExact m list p ↔
        ∀ first ∈ list.head?, ∀ t ∈ first.reached, t.toNat < 64 :=
  ⟨fun as => actionsExact_iff m as p, fun list => instructionsExact_iff m list p⟩

def maskingMachine : Machine := ⟨fun _ _ => false, fun n => 1#64 <<< (n % 64)⟩

-- type 64 comes out as `OFPAT_OUTPUT`
example : (parseActions maskingMachine [⟨64, List.replicate 4 0⟩] .empty).sig =
    (parseActions maskingMachine [⟨Ofpat.output, List.replicate 12 0⟩] .empty).sig := by decide

theorem experimenter_not_exact :
    ¬ ActionsExact maskingMachine [⟨Ofpat.experimenter, List.replicate 4 0⟩] .empty ∧
      ¬ InstructionsExact maskingMachine
        [.other Ofpit.experimenter (by decide) (List.replicate 4 0)] .empty := by
  rw [actionsExact_iff, instructionsExact_iff]
  decide

end P4OfAgent
