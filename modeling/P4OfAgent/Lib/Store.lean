import Mathlib.Data.List.Nodup
import Mathlib.Logic.Function.Basic

/-! A keyed store against the records it is meant to hold. The store is a partial map; the
records are a list, so that two of them may claim one key. -/

namespace Store
open Function
variable {κ ν ρ : Type*} {key : ρ → κ} {val : ρ → Option ν} {m : κ → Option ν} {rs : List ρ}

def Holds (key : ρ → κ) (val : ρ → Option ν) (m : κ → Option ν) (rs : List ρ) : Prop :=
  ∀ r ∈ rs, m (key r) = val r

def Owned (key : ρ → κ) (m : κ → Option ν) (rs : List ρ) : Prop :=
  ∀ k, m k ≠ none → ∃ r ∈ rs, key r = k

def Distinct (key : ρ → κ) (rs : List ρ) : Prop := (rs.map key).Nodup

theorem distinct_append (r : ρ) :
    Distinct key (rs ++ [r]) ↔ Distinct key rs ∧ ∀ q ∈ rs, key q ≠ key r := by
  simp only [Distinct, List.map_append, List.map_cons, List.map_nil, List.nodup_append,
    List.nodup_cons, List.not_mem_nil, not_false_eq_true, List.nodup_nil, and_self, true_and,
    List.mem_map, List.mem_singleton, forall_exists_index, and_imp, forall_apply_eq_imp_iff₂,
    forall_eq]

theorem Holds.subset {rs' : List ρ} (h : Holds key val m rs) (hs : ∀ r ∈ rs', r ∈ rs) :
    Holds key val m rs' := fun r hr => h r (hs r hr)

theorem holds_append (r : ρ) :
    Holds key val m (rs ++ [r]) ↔ Holds key val m rs ∧ m (key r) = val r := by
  simp only [Holds, List.mem_append, List.mem_singleton, or_imp, forall_and, forall_eq]

theorem owned_empty : Owned key (fun _ => (none : Option ν)) rs := fun _ h => absurd rfl h

theorem Owned.append (h : Owned key m rs) (r : ρ) : Owned key m (rs ++ [r]) := by
  intro k hk
  obtain ⟨q, hq, hqk⟩ := h k hk
  exact ⟨q, List.mem_append_left [r] hq, hqk⟩

theorem Distinct.inj (h : Distinct key rs) {q r : ρ} (hq : q ∈ rs) (hr : r ∈ rs)
    (hk : key q = key r) : q = r :=
  List.inj_on_of_nodup_map h hq hr hk

theorem Distinct.key_iff {κ' : Type*} {key' : ρ → κ'} (h : Distinct key rs) (h' : Distinct key' rs)
    {q r : ρ} (hq : q ∈ rs) (hr : r ∈ rs) : key q = key r ↔ key' q = key' r :=
  ⟨fun hk => congrArg key' (h.inj hq hr hk), fun hk => congrArg key (h'.inj hq hr hk)⟩

variable [DecidableEq κ]

def drop (key : ρ → κ) (k : κ) (rs : List ρ) : List ρ := rs.eraseP fun r => key r = k

def revise (key : ρ → κ) (k : κ) (f : ρ → ρ) (rs : List ρ) : List ρ :=
  rs.map fun r => if key r = k then f r else r

theorem mem_of_mem_drop {k : κ} {r : ρ} (h : r ∈ drop key k rs) : r ∈ rs :=
  List.mem_of_mem_eraseP h

theorem mem_drop_of_ne {k : κ} {r : ρ} (hne : key r ≠ k) (hr : r ∈ rs) : r ∈ drop key k rs :=
  (List.mem_eraseP_of_neg (by simpa only [decide_eq_true_eq] using hne)).2 hr

theorem Distinct.drop (h : Distinct key rs) (k : κ) : Distinct key (drop key k rs) :=
  List.Nodup.sublist (List.Sublist.map key List.eraseP_sublist) h

theorem Distinct.key_ne_of_mem_drop (h : Distinct key rs) {k : κ} {r : ρ}
    (hr : r ∈ Store.drop key k rs) : key r ≠ k := by
  induction rs with
  | nil => exact absurd hr List.not_mem_nil
  | cons q qs ih =>
    simp only [Distinct, List.map_cons, List.nodup_cons, List.mem_map, not_exists, not_and] at h
    by_cases hq : key q = k
    · rw [Store.drop, List.eraseP_cons_of_pos (by simpa only [decide_eq_true_eq] using hq)] at hr
      exact fun hk => h.1 r hr (hk.trans hq.symm)
    · rw [Store.drop, List.eraseP_cons_of_neg (by simpa only [decide_eq_true_eq] using hq)] at hr
      rcases List.mem_cons.1 hr with rfl | hr
      · exact hq
      · exact ih h.2 hr

theorem map_key_revise {f : ρ → ρ} (hf : ∀ r, key (f r) = key r) (k : κ) :
    (revise key k f rs).map key = rs.map key := by
  unfold revise
  rw [List.map_map]
  refine List.map_congr_left fun r _ => ?_
  by_cases h : key r = k
  · simp only [comp_apply, if_pos h, hf]
  · simp only [comp_apply, if_neg h]

theorem Distinct.revise {f : ρ → ρ} (hf : ∀ r, key (f r) = key r) (h : Distinct key rs) (k : κ) :
    Distinct key (revise key k f rs) := by
  unfold Distinct
  rw [map_key_revise hf]
  exact h

theorem exists_key_revise {f : ρ → ρ} (hf : ∀ r, key (f r) = key r) (k k' : κ) :
    (∃ r ∈ revise key k f rs, key r = k') ↔ ∃ r ∈ rs, key r = k' := by
  rw [← List.mem_map, map_key_revise hf, List.mem_map]

theorem forall_revise {P : ρ → Prop} {f : ρ → ρ} (hf : ∀ r, P r → P (f r)) (h : ∀ r ∈ rs, P r) (k : κ) :
    ∀ r ∈ revise key k f rs, P r := by
  intro r hr
  obtain ⟨q, hq, rfl⟩ := List.mem_map.1 hr
  split_ifs
  · exact hf q (h q hq)
  · exact h q hq

theorem Holds.update_of_fresh (h : Holds key val m rs) {k : κ} (hk : ∀ r ∈ rs, key r ≠ k)
    (v : Option ν) : Holds key val (update m k v) rs := by
  intro r hr
  rw [update_of_ne (hk r hr)]
  exact h r hr

theorem Holds.insert (h : Holds key val m rs) {r : ρ} (hr : ∀ q ∈ rs, key q ≠ key r) :
    Holds key val (update m (key r) (val r)) (rs ++ [r]) :=
  (holds_append r).2 ⟨h.update_of_fresh hr (val r), update_self ..⟩

theorem Holds.drop (h : Holds key val m rs) (hd : Distinct key rs) (k : κ) (v : Option ν) :
    Holds key val (update m k v) (drop key k rs) :=
  (h.subset fun _ => mem_of_mem_drop).update_of_fresh (fun _ => hd.key_ne_of_mem_drop) v

theorem Holds.revise {f : ρ → ρ} (hf : ∀ r, key (f r) = key r) (h : Holds key val m rs) {k : κ}
    {v : Option ν} (hv : ∀ r ∈ rs, key r = k → val (f r) = v) :
    Holds key val (update m k v) (revise key k f rs) := by
  intro r hr
  obtain ⟨q, hq, rfl⟩ := List.mem_map.1 hr
  by_cases hk : key q = k
  · rw [if_pos hk, hf, hk, update_self]
    exact (hv q hq hk).symm
  · simp only [if_neg hk, update_of_ne hk]
    exact h q hq

theorem Owned.insert (h : Owned key m rs) {r : ρ} {k : κ} (hr : key r = k) (v : Option ν) :
    Owned key (update m k v) (rs ++ [r]) := by
  intro k' hk'
  by_cases he : k' = k
  · exact ⟨r, List.mem_append_right rs (List.mem_singleton.2 rfl), hr.trans he.symm⟩
  · rw [update_of_ne he] at hk'
    exact h.append r k' hk'

theorem Owned.update_of_mem (h : Owned key m rs) {k : κ} (hk : ∃ r ∈ rs, key r = k) (v : Option ν) :
    Owned key (update m k v) rs := by
  intro k' hk'
  by_cases he : k' = k
  · exact he ▸ hk
  · rw [update_of_ne he] at hk'
    exact h k' hk'

theorem Owned.update_map (h : Owned key m rs) (k : κ) (f : ν → ν) :
    Owned key (update m k ((m k).map f)) rs := by
  intro k' hk'
  by_cases hk : k' = k
  · subst hk
    rw [update_self] at hk'
    exact h k' fun hn => hk' (by rw [hn, Option.map_none])
  · rw [update_of_ne hk] at hk'
    exact h k' hk'

theorem Owned.drop (h : Owned key m rs) (k : κ) : Owned key (update m k none) (drop key k rs) := by
  intro k' hk'
  have hne : k' ≠ k := by
    rintro rfl
    exact hk' (update_self ..)
  rw [update_of_ne hne] at hk'
  obtain ⟨r, hr, rfl⟩ := h k' hk'
  exact ⟨r, mem_drop_of_ne hne hr, rfl⟩

theorem Owned.revise {f : ρ → ρ} (hf : ∀ r, key (f r) = key r) (h : Owned key m rs) (k : κ) :
    Owned key m (revise key k f rs) := fun k' hk' => (exists_key_revise hf k k').2 (h k' hk')

/-! ## Records that one key does not select -/

section filter
variable {p : ρ → Bool} {k : κ}

theorem filter_drop (h : ∀ r ∈ rs, key r = k → p r = false) :
    (drop key k rs).filter p = rs.filter p := by
  induction rs with
  | nil => rfl
  | cons r rs ih =>
    have hrs := ih fun q hq => h q (List.mem_cons_of_mem r hq)
    by_cases hk : key r = k
    · rw [drop, List.eraseP_cons_of_pos (by simpa only [decide_eq_true_eq] using hk), List.filter_cons,
        h r List.mem_cons_self hk, if_neg Bool.false_ne_true]
    · rw [drop, List.eraseP_cons_of_neg (by simpa only [decide_eq_true_eq] using hk), List.filter_cons,
        List.filter_cons]
      split_ifs
      · exact congrArg (r :: ·) hrs
      · exact hrs

theorem filter_revise {f : ρ → ρ} (hp : ∀ r, p (f r) = p r) (h : ∀ r ∈ rs, key r = k → p r = false) :
    (revise key k f rs).filter p = rs.filter p := by
  unfold revise
  rw [List.filter_map]
  have hcomp : (p ∘ fun r => if key r = k then f r else r) = p := by
    funext r
    by_cases hk : key r = k
    · simp only [comp_apply, if_pos hk, hp]
    · simp only [comp_apply, if_neg hk]
  rw [hcomp]
  refine (List.map_congr_left fun r hr => ?_).trans (List.map_id' _)
  obtain ⟨hr, hpr⟩ := List.mem_filter.1 hr
  exact if_neg fun hk => absurd (hpr.symm.trans (h r hr hk)) Bool.noConfusion

theorem filter_key_drop (k : κ) : (drop key k rs).filter (fun r => key r = k) =
    drop key k (rs.filter fun r => key r = k) := by
  unfold drop
  induction rs with
  | nil => rfl
  | cons r rs ih =>
    by_cases hk : key r = k
    · simp only [List.eraseP_cons, List.filter_cons, hk, decide_true, if_true, cond_true]
    · simp only [List.eraseP_cons, List.filter_cons, hk, decide_false, Bool.false_eq_true, if_false,
        cond_false, ih]

theorem filter_key_revise {f : ρ → ρ} (hf : ∀ r, key (f r) = key r) (k : κ) :
    (revise key k f rs).filter (fun r => key r = k) = revise key k f (rs.filter fun r => key r = k) := by
  unfold revise
  rw [List.filter_map]
  refine congrArg (List.map _) (List.filter_congr fun r _ => ?_)
  simp only [comp_apply]
  split_ifs with hk
  · rw [hf]
  · rfl

end filter

/-! ## Records of a second kind, and a second key -/

section map
variable {ρ' : Type*} {key' : ρ' → κ} {g : ρ → ρ'}

theorem map_drop (hg : ∀ r ∈ rs, key' (g r) = key r) (k : κ) :
    (drop key k rs).map g = drop key' k (rs.map g) := by
  unfold drop
  induction rs with
  | nil => rfl
  | cons r rs ih =>
    have hr := hg r List.mem_cons_self
    have hrs := ih fun q hq => hg q (List.mem_cons_of_mem r hq)
    simp only [List.map_cons, List.eraseP_cons, hr]
    cases decide (key r = k)
    · exact congrArg (g r :: ·) hrs
    · rfl

theorem map_revise {f : ρ → ρ} {f' : ρ' → ρ'} (hg : ∀ r ∈ rs, key' (g r) = key r)
    (hf : ∀ r, g (f r) = f' (g r)) (k : κ) :
    (revise key k f rs).map g = revise key' k f' (rs.map g) := by
  simp only [revise, List.map_map]
  refine List.map_congr_left fun r hr => ?_
  by_cases hk : key r = k
  · simp only [comp_apply, hg r hr, if_pos hk, hf]
  · simp only [comp_apply, hg r hr, if_neg hk]

end map

section second
variable {κ' : Type*} {key' : ρ → κ'} [DecidableEq κ']

theorem Distinct.drop_eq (h : Distinct key rs) (h' : Distinct key' rs) {r : ρ} (hr : r ∈ rs) :
    Store.drop key (key r) rs = Store.drop key' (key' r) rs := by
  have hkeys : ∀ q ∈ rs, key q = key r ↔ key' q = key' r := fun q hq => h.key_iff h' hq hr
  clear h h' hr
  unfold Store.drop
  induction rs with
  | nil => rfl
  | cons q qs ih =>
    have hq := hkeys q List.mem_cons_self
    have hqs := ih fun q' hq' => hkeys q' (List.mem_cons_of_mem q hq')
    simp only [List.eraseP_cons, hq, hqs]

theorem Distinct.revise_eq (h : Distinct key rs) (h' : Distinct key' rs) {r : ρ} (hr : r ∈ rs)
    (f : ρ → ρ) : Store.revise key (key r) f rs = Store.revise key' (key' r) f rs := by
  refine List.map_congr_left fun q hq => ?_
  simp only [h.key_iff h' hq hr]

end second
end Store
