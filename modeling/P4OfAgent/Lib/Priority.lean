import Mathlib.Data.Set.Finite.Lemmas
import Mathlib.Data.Set.Finite.List

/-! Tables of prioritised rules. A lookup runs a highest rule that matches, and the default where
none does; a rule without a pattern of its own can be compiled into the default. -/

namespace Priority
variable {M K α : Type*}

structure Rule (M α : Type*) where
  pat : M
  priority : Nat
  action : α

structure IsTop (Matches : M → K → Prop) (rules : List (Rule M α)) (key : K) (r : Rule M α) :
    Prop where
  mem : r ∈ rules
  hit : Matches r.pat key
  top : ∀ q ∈ rules, Matches q.pat key → q.priority ≤ r.priority

structure IsChoice (Matches : M → K → Prop) (rules : List (Rule M α)) (key : K) (r : Rule M α) :
    Prop where
  mem : r ∈ rules
  hit : Matches r.pat key
  top : ∀ q ∈ rules, Matches q.pat key → q ≠ r → q.priority < r.priority

structure Table (M α : Type*) where
  rules : List (Rule M α)
  dflt : Option α

def Table.empty : Table M α := ⟨[], none⟩

def Table.Selects (Matches : M → K → Prop) (t : Table M α) (key : K) (a : α) : Prop :=
  (∃ r, IsTop Matches t.rules key r ∧ r.action = a) ∨
    (∀ r ∈ t.rules, ¬ Matches r.pat key) ∧ t.dflt = some a

def SelectsAmong (Matches : M → K → Prop) (rules : Set (Rule M α)) (dflt : Option α) (key : K)
    (a : α) : Prop :=
  (∃ r ∈ rules, Matches r.pat key ∧ (∀ q ∈ rules, Matches q.pat key → q.priority ≤ r.priority) ∧
      r.action = a) ∨
    (∀ r ∈ rules, ¬ Matches r.pat key) ∧ dflt = some a

theorem Table.selects_iff {Matches : M → K → Prop} {key : K} {a : α} (t : Table M α) :
    t.Selects Matches key a ↔ SelectsAmong Matches {r | r ∈ t.rules} t.dflt key a := by
  refine or_congr_left (exists_congr fun r => ?_)
  constructor
  · rintro ⟨⟨hr, hit, htop⟩, ha⟩
    exact ⟨hr, hit, htop, ha⟩
  · rintro ⟨hr, hit, htop, ha⟩
    exact ⟨⟨hr, hit, htop⟩, ha⟩

section top
variable {Matches : M → K → Prop} {rules : List (Rule M α)} {key : K} {r q : Rule M α}

theorem exists_isTop (hr : r ∈ rules) (hit : Matches r.pat key) : ∃ q, IsTop Matches rules key q := by
  have hfinite : {q | q ∈ rules ∧ Matches q.pat key}.Finite :=
    rules.finite_toSet.subset fun _ hq => hq.1
  obtain ⟨q, ⟨hq, hqm⟩, hmax⟩ := Set.exists_max_image _ Rule.priority hfinite ⟨r, hr, hit⟩
  exact ⟨q, hq, hqm, fun q' hq' hm => hmax q' ⟨hq', hm⟩⟩

theorem IsChoice.isTop (h : IsChoice Matches rules key r) : IsTop Matches rules key r := by
  refine ⟨h.mem, h.hit, fun q hq hm => ?_⟩
  by_cases hqr : q = r
  · rw [hqr]
  · exact Nat.le_of_lt (h.top q hq hm hqr)

theorem IsTop.eq_of_isChoice (hq : IsTop Matches rules key q) (h : IsChoice Matches rules key r) :
    q = r := by
  by_contra hne
  exact absurd (h.top q hq.mem hq.hit hne) (Nat.not_lt.2 (hq.top r h.mem h.hit))

end top

/-! ## Rules without a pattern -/

def MatchesOpt (Matches : M → K → Prop) : Option M → K → Prop
  | some p, key => Matches p key
  | none, _ => True

def Table.insert (t : Table M α) (r : Rule (Option M) α) : Table M α :=
  match r.pat with
  | some p => { t with rules := t.rules ++ [⟨p, r.priority, r.action⟩] }
  | none => { t with dflt := some r.action }

def compile (rules : List (Rule (Option M) α)) : Table M α := rules.foldl Table.insert .empty

def Rule.lift (r : Rule M α) : Rule (Option M) α := ⟨some r.pat, r.priority, r.action⟩

def Rule.withPattern (r : Rule (Option M) α) : Option (Rule M α) :=
  r.pat.map fun p => ⟨p, r.priority, r.action⟩

def patterns (rules : List (Rule (Option M) α)) : List (Rule M α) := rules.filterMap Rule.withPattern

def lastDefault (rules : List (Rule (Option M) α)) : Option α :=
  (rules.filter fun r => r.pat.isNone).getLast?.map Rule.action

theorem compile_append (rules : List (Rule (Option M) α)) (r : Rule (Option M) α) :
    compile (rules ++ [r]) = (compile rules).insert r := by
  rw [compile, List.foldl_append]
  rfl

theorem compile_eq (rules : List (Rule (Option M) α)) :
    compile rules = ⟨patterns rules, lastDefault rules⟩ := by
  induction rules using List.reverseRecOn with
  | nil => rfl
  | append_singleton rules r ih =>
    obtain ⟨pat, priority, action⟩ := r
    rw [compile_append, ih]
    cases pat with
    | some p =>
      simp only [Table.insert, patterns, lastDefault, Rule.withPattern, List.filterMap_append,
        List.filterMap_cons, List.filterMap_nil, Option.map_some, List.filter_append, List.filter_cons,
        List.filter_nil, Option.isNone_some, Bool.false_eq_true, if_false, List.append_nil]
    | none =>
      simp only [Table.insert, patterns, lastDefault, Rule.withPattern, List.filterMap_append,
        List.filterMap_cons, List.filterMap_nil, Option.map_none, List.filter_append, List.filter_cons,
        List.filter_nil, Option.isNone_none, if_true, List.append_nil, List.getLast?_concat,
        Option.map_some]

/-- Where the choice is a rule without a pattern, the highest rules with one run its action, and if
none matches, so does the last one without. -/
def DefaultAgrees (Matches : M → K → Prop) (rules : List (Rule (Option M) α)) : Prop :=
  ∀ key r, IsChoice (MatchesOpt Matches) rules key r → r.pat = none →
    (∀ q, IsTop Matches (patterns rules) key q → q.action = r.action) ∧
      ((∀ q ∈ patterns rules, ¬ Matches q.pat key) → lastDefault rules = some r.action)

section compile
variable {Matches : M → K → Prop} {rules : List (Rule (Option M) α)} {key : K} {q : Rule M α}

theorem mem_patterns : q ∈ patterns rules ↔ q.lift ∈ rules := by
  simp only [patterns, List.mem_filterMap, Rule.withPattern, Option.map_eq_some_iff]
  constructor
  · rintro ⟨⟨_, _, _⟩, hr, p, rfl, rfl⟩
    exact hr
  · intro hr
    exact ⟨q.lift, hr, q.pat, rfl, rfl⟩

theorem Rule.lift_injective : Function.Injective (Rule.lift : Rule M α → Rule (Option M) α) := by
  rintro ⟨p, priority, action⟩ ⟨p', priority', action'⟩ h
  simpa only [Rule.lift, Rule.mk.injEq, Option.some.injEq] using h

theorem IsChoice.patterns (h : IsChoice (MatchesOpt Matches) rules key q.lift) :
    IsChoice Matches (patterns rules) key q := by
  refine ⟨mem_patterns.2 h.mem, h.hit, fun q' hq' hm hne => ?_⟩
  exact h.top q'.lift (mem_patterns.1 hq') hm fun he => hne (Rule.lift_injective he)

/-- The table runs the action of the choice, wherever there is one, exactly if its default agrees. -/
theorem selects_choice_iff (Matches : M → K → Prop) (rules : List (Rule (Option M) α)) :
    (∀ key r, IsChoice (MatchesOpt Matches) rules key r →
        ∀ a, (compile rules).Selects Matches key a ↔ a = r.action) ↔
      DefaultAgrees Matches rules := by
  simp only [compile_eq, Table.Selects]
  constructor
  · intro h key r hr _
    refine ⟨fun q hq => ?_, fun hnone => ?_⟩
    · exact (h key r hr q.action).1 (.inl ⟨q, hq, rfl⟩)
    · rcases (h key r hr r.action).2 rfl with ⟨q, hq, _⟩ | ⟨_, hdflt⟩
      · exact absurd hq.hit (hnone q hq.mem)
      · exact hdflt
  · rintro h key ⟨pat, priority, action⟩ hr a
    cases pat with
    | some p =>
      have hq : IsChoice Matches (Priority.patterns rules) key ⟨p, priority, action⟩ :=
        IsChoice.patterns (q := ⟨p, priority, action⟩) hr
      constructor
      · rintro (⟨q, htop, rfl⟩ | ⟨hnone, _⟩)
        · rw [htop.eq_of_isChoice hq]
        · exact absurd hq.hit (hnone _ hq.mem)
      · rintro rfl
        exact .inl ⟨_, hq.isTop, rfl⟩
    | none =>
      obtain ⟨htops, hdflt⟩ := h key _ hr rfl
      by_cases hsome : ∃ q ∈ Priority.patterns rules, Matches q.pat key
      · obtain ⟨q, hq, hit⟩ := hsome
        constructor
        · rintro (⟨q', htop, rfl⟩ | ⟨hnone, _⟩)
          · exact htops q' htop
          · exact absurd hit (hnone q hq)
        · rintro rfl
          obtain ⟨q', htop⟩ := exists_isTop hq hit
          exact .inl ⟨q', htop, htops q' htop⟩
      · have hnone : ∀ q ∈ Priority.patterns rules, ¬ Matches q.pat key :=
          fun q hq hit => hsome ⟨q, hq, hit⟩
        rw [hdflt hnone]
        constructor
        · rintro (⟨q, htop, rfl⟩ | ⟨_, ha⟩)
          · exact absurd htop.hit (hnone q htop.mem)
          · exact (Option.some.inj ha).symm
        · rintro rfl
          exact .inr ⟨hnone, rfl⟩

end compile
end Priority
