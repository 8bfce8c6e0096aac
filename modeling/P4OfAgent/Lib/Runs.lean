import Mathlib.Data.List.Basic
import Mathlib.Data.List.Infix

/-! Runs of a deterministic machine: invariants of the states a run reaches and
properties of the steps it takes. -/

namespace Runs
variable {σ α : Type*} {step : σ → α → σ} {P Q : σ → α → Prop}

def run (step : σ → α → σ) (s : σ) (ops : List α) : σ := ops.foldl step s

/-- Every step of the run satisfies `P`, read at the state the step starts from. -/
def Along (step : σ → α → σ) (P : σ → α → Prop) : σ → List α → Prop
  | _, [] => True
  | s, a :: as => P s a ∧ Along step P (step s a) as

instance [∀ s a, Decidable (P s a)] : ∀ s as, Decidable (Along step P s as)
  | _, [] => isTrue trivial
  | s, a :: as =>
    have := instDecidableAlong (step s a) as
    inferInstanceAs (Decidable (P s a ∧ Along step P (step s a) as))

@[simp] theorem run_nil (s : σ) : run step s [] = s := rfl

@[simp] theorem run_cons (s : σ) (a : α) (as : List α) :
    run step s (a :: as) = run step (step s a) as := rfl

theorem run_append (s : σ) (as bs : List α) :
    run step s (as ++ bs) = run step (run step s as) bs := List.foldl_append

theorem run_inv {I : σ → Prop} {s : σ} {as : List α} (h : ∀ s, ∀ a ∈ as, I s → I (step s a))
    (hs : I s) : I (run step s as) := by
  induction as generalizing s with
  | nil => exact hs
  | cons a as ih =>
    exact ih (fun s b hb => h s b (List.mem_cons_of_mem a hb)) (h s a List.mem_cons_self hs)

theorem run_inv_along {I : σ → Prop} {s : σ} {as : List α} (h : ∀ s a, I s → P s a → I (step s a))
    (hs : I s) (hP : Along step P s as) : I (run step s as) := by
  induction as generalizing s with
  | nil => exact hs
  | cons a as ih => exact ih (h s a hs hP.1) hP.2

@[simp] theorem along_nil (s : σ) : Along step P s [] := trivial

@[simp] theorem along_cons (s : σ) (a : α) (as : List α) :
    Along step P s (a :: as) ↔ P s a ∧ Along step P (step s a) as := Iff.rfl

theorem along_append (s : σ) (as bs : List α) :
    Along step P s (as ++ bs) ↔ Along step P s as ∧ Along step P (run step s as) bs := by
  induction as generalizing s with
  | nil => simp only [List.nil_append, along_nil, run_nil, true_and]
  | cons a as ih => simp only [List.cons_append, along_cons, ih, run_cons, and_assoc]

theorem along_and (s : σ) (as : List α) :
    Along step (fun s a => P s a ∧ Q s a) s as ↔ Along step P s as ∧ Along step Q s as := by
  induction as generalizing s with
  | nil => simp only [along_nil, and_self]
  | cons a as ih => simp only [along_cons, ih, and_and_and_comm]

theorem along_mono (h : ∀ s a, P s a → Q s a) {s : σ} {as : List α} (hP : Along step P s as) :
    Along step Q s as := by
  induction as generalizing s with
  | nil => trivial
  | cons a as ih => exact ⟨h s a hP.1, ih hP.2⟩

theorem along_of_forall {R : α → Prop} {s : σ} {as : List α} (h : ∀ a ∈ as, R a) :
    Along step (fun _ a => R a) s as := by
  induction as generalizing s with
  | nil => trivial
  | cons a as ih =>
    exact ⟨h a List.mem_cons_self, ih fun b hb => h b (List.mem_cons_of_mem a hb)⟩

theorem along_true (s : σ) (as : List α) : Along step (fun _ _ => True) s as :=
  along_of_forall fun _ _ => trivial

theorem along_of_steps (h : ∀ s a, P s a) (s : σ) (as : List α) : Along step P s as :=
  along_mono (fun s a _ => h s a) (along_true s as)

theorem along_congr (h : ∀ s a, P s a ↔ Q s a) (s : σ) (as : List α) :
    Along step P s as ↔ Along step Q s as :=
  ⟨along_mono fun s a => (h s a).1, along_mono fun s a => (h s a).2⟩

theorem along_iff_forall {R : α → Prop} {s : σ} {as : List α} :
    Along step (fun _ a => R a) s as ↔ ∀ a ∈ as, R a := by
  refine ⟨fun h => ?_, along_of_forall⟩
  induction as generalizing s with
  | nil => exact fun _ ha => absurd ha List.not_mem_nil
  | cons a as ih => exact List.forall_mem_cons.2 ⟨h.1, ih h.2⟩

theorem run_or_iff (R : σ → Prop) {T : α → Prop} {s : σ} {as : List α}
    (h : Along step (fun s a => R (step s a) ↔ R s ∨ T a) s as) :
    R (run step s as) ↔ R s ∨ ∃ a ∈ as, T a := by
  induction as generalizing s with
  | nil => simp only [run_nil, List.not_mem_nil, false_and, exists_false, or_false]
  | cons a as ih => simp only [run_cons, ih h.2, h.1, List.mem_cons, exists_eq_or_imp, or_assoc]

theorem run_rel {R : σ → σ → Prop} (hrefl : ∀ s, R s s) (htrans : ∀ s t u, R s t → R t u → R s u)
    {s : σ} {as : List α} (h : Along step (fun s a => R s (step s a)) s as) : R s (run step s as) := by
  induction as generalizing s with
  | nil => exact hrefl s
  | cons a as ih => exact htrans _ _ _ h.1 (ih h.2)

/-- Two step properties that agree wherever `Inv` holds, one of which keeps `Inv`, agree on
runs: the first step at which one fails is the first at which the other does. -/
theorem along_iff_of_inv (Inv : σ → Prop) (A : σ → α → Prop)
    (hiff : ∀ s a, Inv s → A s a → (P s a ↔ Q s a))
    (hinv : ∀ s a, Inv s → A s a → Q s a → Inv (step s a)) {s : σ} {as : List α}
    (hs : Inv s) (hA : Along step A s as) : Along step P s as ↔ Along step Q s as := by
  induction as generalizing s with
  | nil => exact Iff.rfl
  | cons a as ih =>
    simp only [along_cons, hiff s a hs hA.1]
    exact and_congr_right fun hq => ih (hinv s a hs hA.1 hq) hA.2

theorem forall_prefix_iff {R : σ → Prop} (s : σ) (as : List α) :
    (∀ pre, pre <+: as → R (run step s pre)) ↔ R s ∧ Along step (fun s a => R (step s a)) s as := by
  induction as generalizing s with
  | nil =>
    simp only [List.prefix_nil, forall_eq, run_nil, along_nil, and_true]
  | cons a as ih =>
    rw [along_cons, ← ih]
    constructor
    · intro h
      refine ⟨h [] (List.nil_prefix), fun pre hpre => ?_⟩
      exact h (a :: pre) (List.cons_prefix_cons.2 ⟨rfl, hpre⟩)
    · rintro ⟨h0, h⟩ pre hpre
      cases pre with
      | nil => exact h0
      | cons b bs =>
        obtain ⟨rfl, hbs⟩ := List.cons_prefix_cons.1 hpre
        exact h bs hbs

theorem reached_iff (Inv : σ → Prop) (A : σ → α → Prop) {R : σ → Prop} (himp : ∀ s, Inv s → R s)
    (hneed : ∀ s a, Inv s → A s a → R (step s a) → Q s a)
    (hkeep : ∀ s a, Inv s → A s a → Q s a → Inv (step s a)) {s : σ} {as : List α}
    (hs : Inv s) (hA : Along step A s as) :
    (∀ pre, pre <+: as → R (run step s pre)) ↔ Along step Q s as := by
  rw [forall_prefix_iff, and_iff_right (himp s hs)]
  refine along_iff_of_inv Inv A (fun s a hs ha => ?_) hkeep hs hA
  exact ⟨hneed s a hs ha, fun hq => himp _ (hkeep s a hs ha hq)⟩

/-- A run against the run of its own elements alone: the others leave the relation between the two
states as it is, and the own ones keep it when both take them. -/
theorem run_filter {τ : Type*} {step' : τ → α → τ} {P' : τ → α → Prop} {R : σ → τ → Prop} {own : α → Bool}
    (hown : ∀ s t a, R s t → P s a → own a = true → P' t a ∧ R (step s a) (step' t a))
    (hother : ∀ s t a, R s t → P s a → own a = false → R (step s a) t) {s : σ} {t : τ} {as : List α}
    (hR : R s t) (hP : Along step P s as) :
    Along step' P' t (as.filter own) ∧ R (run step s as) (run step' t (as.filter own)) := by
  induction as generalizing s t with
  | nil => exact ⟨trivial, hR⟩
  | cons a as ih =>
    cases ha : own a with
    | false =>
      rw [List.filter_cons_of_neg (by rw [ha]; exact Bool.false_ne_true)]
      exact ih (hother s t a hR hP.1 ha) hP.2
    | true =>
      obtain ⟨hpa, hstep⟩ := hown s t a hR hP.1 ha
      obtain ⟨hrest, hrun⟩ := ih hstep hP.2
      rw [List.filter_cons_of_pos ha]
      exact ⟨⟨hpa, hrest⟩, hrun⟩

end Runs
