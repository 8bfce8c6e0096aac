import Mathlib.Data.List.Induction
import Mathlib.Logic.Function.Basic

/-! Programs of slots. A program holds at most one instruction in each slot and runs the slots in a
fixed order; a list of instructions is compiled into it by filling slots, the last instruction of a
slot winning. -/

namespace Slots
open Function
variable {κ α σ : Type*}

section run
variable (act : α → σ → σ)

def run (order : List κ) (prog : κ → Option α) (s : σ) : σ :=
  order.foldl (fun s k => (prog k).elim s fun a => act a s) s

def Commutes (a b : α) : Prop := ∀ s, act a (act b s) = act b (act a s)

def Absorbs (a b : α) : Prop := ∀ s, act a (act b s) = act a s

variable {act} {prog prog' : κ → Option α} {s : σ}

@[simp] theorem run_nil : run act [] prog s = s := rfl

theorem run_cons (k : κ) (order : List κ) :
    run act (k :: order) prog s = run act order prog ((prog k).elim s fun a => act a s) := rfl

theorem run_append (l l' : List κ) : run act (l ++ l') prog s = run act l' prog (run act l prog s) :=
  List.foldl_append

theorem elim_ite (c : Prop) [Decidable c] (a : α) (f : α → σ) :
    ((if c then some a else none).elim s f) = if c then f a else s := by
  split_ifs <;> rfl

theorem run_cons_some {k : κ} {a : α} (h : prog k = some a) (order : List κ) :
    run act (k :: order) prog s = run act order prog (act a s) := by
  rw [run_cons, h, Option.elim_some]

theorem run_cons_none {k : κ} (h : prog k = none) (order : List κ) :
    run act (k :: order) prog s = run act order prog s := by
  rw [run_cons, h, Option.elim_none]

theorem run_congr {order : List κ} (h : ∀ k ∈ order, prog k = prog' k) :
    run act order prog s = run act order prog' s := by
  induction order generalizing s with
  | nil => rfl
  | cons k order ih =>
    rw [run_cons, run_cons, h k List.mem_cons_self]
    exact ih fun k' hk' => h k' (List.mem_cons_of_mem k hk')

theorem run_congr_of_inv {I : σ → Prop} {order : List κ} (hI : ∀ a s, I s → I (act a s))
    (h : ∀ k ∈ order, ∀ s, I s →
      ((prog k).elim s fun a => act a s) = (prog' k).elim s fun a => act a s) (hs : I s) :
    run act order prog s = run act order prog' s := by
  induction order generalizing s with
  | nil => rfl
  | cons k order ih =>
    rw [run_cons, run_cons, h k List.mem_cons_self s hs]
    refine ih (fun k' hk' => h k' (List.mem_cons_of_mem k hk')) ?_
    cases prog' k with
    | none => exact hs
    | some a => exact hI a s hs

theorem run_pass {f : σ → σ} {order : List κ}
    (h : ∀ k ∈ order, ∀ a, prog k = some a → ∀ s, act a (f s) = f (act a s)) :
    run act order prog (f s) = f (run act order prog s) := by
  induction order generalizing s with
  | nil => rfl
  | cons k order ih =>
    have hrest := fun k' hk' => h k' (List.mem_cons_of_mem k hk')
    cases hk : prog k with
    | none =>
      rw [run_cons_none hk, run_cons_none hk]
      exact ih hrest
    | some a =>
      rw [run_cons_some hk, run_cons_some hk, h k List.mem_cons_self a hk s]
      exact ih hrest

theorem run_move {k : κ} {l : List κ}
    (h : ∀ a, prog k = some a → ∀ k' ∈ l, ∀ b, prog k' = some b → Commutes act a b) (r : List κ) :
    run act (l ++ k :: r) prog s = run act (k :: (l ++ r)) prog s := by
  cases hk : prog k with
  | none => rw [run_cons_none hk, run_append, run_cons_none hk, run_append]
  | some a =>
    have hpass : run act l prog (act a s) = act a (run act l prog s) :=
      run_pass fun k' hk' b hb t => (h a hk k' hk' b hb t).symm
    rw [run_cons_some hk, run_append, run_cons_some hk, run_append, hpass]

theorem run_frame {τ : Type*} {π : σ → τ} {order : List κ}
    (h : ∀ k ∈ order, ∀ a, prog k = some a → ∀ s, π (act a s) = π s) :
    π (run act order prog s) = π s := by
  induction order generalizing s with
  | nil => rfl
  | cons k order ih =>
    have hrest := fun k' hk' => h k' (List.mem_cons_of_mem k hk')
    cases hk : prog k with
    | none =>
      rw [run_cons_none hk]
      exact ih hrest
    | some a =>
      rw [run_cons_some hk, ih hrest]
      exact h k List.mem_cons_self a hk s

theorem run_map {τ : Type*} {act' : α → τ → τ} {π : σ → τ} (h : ∀ a s, π (act a s) = act' a (π s))
    (order : List κ) : π (run act order prog s) = run act' order prog (π s) := by
  induction order generalizing s with
  | nil => rfl
  | cons k order ih =>
    cases hk : prog k with
    | none =>
      rw [run_cons_none hk, run_cons_none hk]
      exact ih
    | some a =>
      rw [run_cons_some hk, run_cons_some hk, ← h a s]
      exact ih

theorem run_filter {keep : κ → Bool} {order : List κ}
    (h : ∀ k ∈ order, keep k = false → ∀ a, prog k = some a → ∀ s, act a s = s) :
    run act order prog s = run act (order.filter keep) prog s := by
  induction order generalizing s with
  | nil => rfl
  | cons k order ih =>
    have hrest := fun k' hk' => h k' (List.mem_cons_of_mem k hk')
    cases hkeep : keep k with
    | true =>
      rw [List.filter_cons_of_pos hkeep, run_cons, run_cons]
      exact ih hrest
    | false =>
      rw [List.filter_cons_of_neg (by rw [hkeep]; exact Bool.false_ne_true), ← ih hrest]
      cases hk : prog k with
      | none => rw [run_cons_none hk]
      | some a => rw [run_cons_some hk, h k List.mem_cons_self hkeep a hk]

end run

section fill
variable [DecidableEq κ] {act : α → σ → σ} {slot : α → κ} {prog : κ → Option α} {s : σ}

def fill (slot : α → κ) (as : List α) : κ → Option α :=
  as.foldl (fun prog a => update prog (slot a) (some a)) fun _ => none

theorem fill_append (as : List α) (a : α) :
    fill slot (as ++ [a]) = update (fill slot as) (slot a) (some a) := by
  rw [fill, List.foldl_append]
  rfl

theorem fill_append_list (as bs : List α) (k : κ) :
    fill slot (as ++ bs) k = (fill slot bs k).or (fill slot as k) := by
  induction bs using List.reverseRecOn with
  | nil =>
    rw [List.append_nil]
    exact Option.none_or.symm
  | append_singleton bs b ih =>
    rw [← List.append_assoc, fill_append, fill_append]
    by_cases hk : k = slot b
    · rw [hk, update_self, update_self, Option.some_or]
    · rw [update_of_ne hk, update_of_ne hk, ih]

theorem fill_some {as : List α} {k : κ} {a : α} (h : fill slot as k = some a) :
    a ∈ as ∧ slot a = k := by
  induction as using List.reverseRecOn with
  | nil => exact absurd h (Option.some_ne_none a).symm
  | append_singleton as b ih =>
    rw [fill_append] at h
    by_cases hk : k = slot b
    · rw [hk, update_self] at h
      obtain rfl := Option.some.inj h
      exact ⟨List.mem_append_right as List.mem_cons_self, hk.symm⟩
    · rw [update_of_ne hk] at h
      exact ⟨List.mem_append_left [b] (ih h).1, (ih h).2⟩

theorem fill_isSome {as : List α} {k : κ} :
    (fill slot as k).isSome = true ↔ ∃ a ∈ as, slot a = k := by
  induction as using List.reverseRecOn with
  | nil => simp only [fill, List.foldl_nil, Option.isSome_none, Bool.false_eq_true, List.not_mem_nil,
      false_and, exists_false]
  | append_singleton as b ih =>
    simp only [fill_append, List.mem_append, List.mem_singleton, or_and_right, exists_or,
      exists_eq_left, ← ih]
    by_cases hk : k = slot b
    · simp only [hk, update_self, Option.isSome_some, or_true]
    · simp only [update_of_ne hk, Ne.symm hk, or_false]

theorem fill_filter (p : κ → Bool) (as : List α) (k : κ) :
    fill slot (as.filter fun a => p (slot a)) k = if p k = true then fill slot as k else none := by
  induction as using List.reverseRecOn with
  | nil => exact (ite_self _).symm
  | append_singleton as b ih =>
    rw [List.filter_append, List.filter_cons, List.filter_nil]
    by_cases hb : p (slot b) = true
    · rw [if_pos hb, fill_append, fill_append]
      by_cases hk : k = slot b
      · rw [hk, update_self, update_self, if_pos hb]
      · rw [update_of_ne hk, update_of_ne hk, ih]
    · rw [if_neg hb, List.append_nil, fill_append, ih]
      by_cases hk : k = slot b
      · rw [hk, if_neg hb, if_neg hb]
      · rw [update_of_ne hk]

variable {rank : κ → Nat}

/-- Instruction `a` after a program: the same as in its slot, if it absorbs what the slot held and
commutes with the slots behind. -/
theorem run_update {order : List κ} (hord : order.Pairwise fun k k' => rank k < rank k') {a : α}
    (hmem : slot a ∈ order) (habs : ∀ b, prog (slot a) = some b → Absorbs act a b)
    (hcomm : ∀ k ∈ order, rank (slot a) < rank k → ∀ b, prog k = some b → Commutes act a b) :
    run act order (update prog (slot a) (some a)) s = act a (run act order prog s) := by
  obtain ⟨l, r, rfl⟩ := List.append_of_mem hmem
  obtain ⟨_, hr, hlr⟩ := List.pairwise_append.1 hord
  have hafter := (List.pairwise_cons.1 hr).1
  have hl : run act l (update prog (slot a) (some a)) s = run act l prog s := by
    refine run_congr fun k hk => update_of_ne ?_ _ _
    rintro rfl
    exact Nat.lt_irrefl _ (hlr _ hk _ List.mem_cons_self)
  have hr' : ∀ t, run act r (update prog (slot a) (some a)) t = run act r prog t := by
    intro t
    refine run_congr fun k hk => update_of_ne ?_ _ _
    rintro rfl
    exact Nat.lt_irrefl _ (hafter _ hk)
  have hpass : ∀ t, run act r prog (act a t) = act a (run act r prog t) := by
    intro t
    refine run_pass fun k hk b hb u => (hcomm k ?_ (hafter k hk) b hb u).symm
    exact List.mem_append_right l (List.mem_cons_of_mem _ hk)
  rw [run_append, hl, run_cons_some (update_self ..), hr', hpass, run_append]
  cases hk : prog (slot a) with
  | none => rw [run_cons_none hk]
  | some b => rw [run_cons_some hk, ← hpass, ← hpass, habs b hk]

/-- Of two instructions of a list, the later one absorbs the earlier if they share a slot, and is
run later in the program or commutes with it if they do not. -/
def InOrder (act : α → σ → σ) (slot : α → κ) (rank : κ → Nat) (b a : α) : Prop :=
  if slot b = slot a then Absorbs act a b
  else rank (slot b) < rank (slot a) ∨ Commutes act a b

/-- A list in order does what the program does that it is compiled into. -/
theorem run_fill {order : List κ} (hord : order.Pairwise fun k k' => rank k < rank k')
    {as : List α} (hmem : ∀ a ∈ as, slot a ∈ order) (has : as.Pairwise (InOrder act slot rank)) :
    run act order (fill slot as) s = as.foldl (fun s a => act a s) s := by
  induction as using List.reverseRecOn with
  | nil => exact run_frame (π := id) fun _ _ a h => absurd h (Option.some_ne_none a).symm
  | append_singleton as a ih =>
    obtain ⟨hpre, _, hlast⟩ := List.pairwise_append.1 has
    have hin : ∀ b ∈ as, InOrder act slot rank b a := fun b hb => hlast b hb a List.mem_cons_self
    have hstart := ih (fun b hb => hmem b (List.mem_append_left [a] hb)) hpre
    rw [fill_append, List.foldl_append, ← hstart]
    refine run_update hord (hmem a (List.mem_append_right as List.mem_cons_self)) ?_ ?_
    · intro b hb
      obtain ⟨hbas, hslot⟩ := fill_some hb
      have h := hin b hbas
      rwa [InOrder, if_pos hslot] at h
    · intro k _ hrank b hb
      obtain ⟨hbas, rfl⟩ := fill_some hb
      have hne : slot b ≠ slot a := fun he => Nat.lt_irrefl _ (he ▸ hrank)
      have h := hin b hbas
      rw [InOrder, if_neg hne] at h
      exact h.resolve_left (Nat.lt_asymm hrank)

end fill
end Slots
