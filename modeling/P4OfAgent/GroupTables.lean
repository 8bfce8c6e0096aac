import P4OfAgent.GroupHandles

/-! The plugin's groups against those that the controller was told of. They are the same but for the
groups whose last `ofpat_group_create` failed, which the callbacks do not report. -/

namespace P4OfAgent
open Function Runs
variable {σ B : Type}

/-! ## The plugin -/

/-- The generated side of `plugin.h`: what a call that returned a status makes of the plugin's state,
and the groups that a state holds, each with its type and its buckets. -/
structure GroupPlugin (σ B : Type) where
  call : σ → GroupCall B → Int → σ
  held : σ → BitVec 32 → Option (BitVec 32 × B)

def GroupAnswers.of (ans : GroupAnswers) : GroupCall B → Int
  | .alloc .. => 0
  | .create .. => ans.create
  | .delete .. => ans.delete

namespace GroupPlugin

def callAll (pl : GroupPlugin σ B) (ans : GroupAnswers) : σ → List (GroupCall B) → σ :=
  List.foldl fun p c => pl.call p c (ans.of c)

/-- What the callbacks count on. A delete under a type that is not the group's may do anything, and so
may a create of a group that is there. -/
structure Works (pl : GroupPlugin σ B) : Prop where
  alloc : ∀ p id b t, pl.held (pl.call p (.alloc id b t) 0) = pl.held p
  failed : ∀ p c status, status ≠ 0 → pl.held (pl.call p c status) = pl.held p
  create : ∀ p id b t, pl.held p id = none →
    pl.held (pl.call (pl.call p (.alloc id b t) 0) (.create id t) 0) =
      update (pl.held p) id (some (t, b))
  delete : ∀ p id t, (∀ g ∈ pl.held p id, g.1 = t) →
    pl.held (pl.call p (.delete id t) 0) = update (pl.held p) id none

namespace Works
variable {pl : GroupPlugin σ B} (hpl : pl.Works) {p : σ} {id t : BitVec 32} {b : B} {ans : GroupAnswers}
include hpl

theorem held_create (ans : GroupAnswers) (hfree : pl.held p id = none) (t : BitVec 32) (b : B) :
    pl.held (pl.callAll ans p [.alloc id b t, .create id t]) =
      if ans.create = 0 then update (pl.held p) id (some (t, b)) else pl.held p := by
  simp only [callAll, List.foldl_cons, List.foldl_nil, GroupAnswers.of]
  split_ifs with hc
  · rw [hc]
    exact hpl.create p id b t hfree
  · rw [hpl.failed _ _ _ hc]
    exact hpl.alloc p id b t

theorem held_delete (ht : ∀ g ∈ pl.held p id, g.1 = t) :
    pl.held (pl.callAll ans p [.delete id t]) =
      if ans.delete = 0 then update (pl.held p) id none else pl.held p := by
  simp only [callAll, List.foldl_cons, List.foldl_nil, GroupAnswers.of]
  split_ifs with hd
  · rw [hd]
    exact hpl.delete p id t ht
  · exact hpl.failed _ _ _ hd

theorem held_exchange (ht : ∀ g ∈ pl.held p id, g.1 = t) (hd : ans.delete = 0) :
    pl.held (pl.callAll ans p [.delete id t, .alloc id b t, .create id t]) =
      update (pl.held p) id (if ans.create = 0 then some (t, b) else none) := by
  have hgone := (hpl.held_delete ht).trans (if_pos hd)
  have hfree : pl.held (pl.callAll ans p [.delete id t]) id = none := by
    rw [hgone, update_self]
  have hcreate := hpl.held_create ans hfree t b
  rw [hgone] at hcreate
  refine hcreate.trans ?_
  split_ifs
  · exact update_idem ..
  · rfl

end Works
end GroupPlugin

def GroupOp.answers : GroupOp B → GroupAnswers
  | create _ _ _ ans => ans
  | modify _ _ ans => ans
  | delete _ ans => ans

structure Backed (σ B : Type) where
  world : GroupWorld B
  plugin : σ

def Backed.step (pl : GroupPlugin σ B) (s : Backed σ B) (op : GroupOp B) : Backed σ B :=
  ⟨GroupWorld.step s.world op, pl.callAll op.answers s.plugin (op.apply s.world.groups).calls⟩

structure OfGroup (B : Type) where
  groupId : BitVec 32
  groupType : BitVec 8
  buckets : B
  created : Bool

namespace OfGroup

def installed (g : OfGroup B) : Option (BitVec 32 × B) :=
  if g.created then some (g.groupType.setWidth 32, g.buckets) else none

def rewrite (b : B) (created : Bool) (g : OfGroup B) : OfGroup B :=
  { g with buckets := b, created := created }

/-- What the controller takes from the return value of a callback. -/
def step (gs : List (OfGroup B)) : GroupOp B → List (OfGroup B)
  | .create id t b ans => if supportedType t then gs ++ [⟨id, t, b, ans.create = 0⟩] else gs
  | .modify k b ans =>
    if ans.delete = 0 then
      Store.revise OfGroup.groupId (k.setWidth 32) (rewrite b (ans.create = 0)) gs
    else gs
  | .delete k ans => if ans.delete = 0 then Store.drop OfGroup.groupId (k.setWidth 32) gs else gs

end OfGroup

/-- A create names an id that no live group has; a modify or delete is given the `entry_priv` of a live
group. -/
def TargetsGroup (w : GroupWorld B) : GroupOp B → Prop
  | .create id _ _ _ => ∀ g ∈ w.live, g.groupId ≠ id
  | .modify k _ _ => ∃ g ∈ w.live, g.priv = k
  | .delete k _ => ∃ g ∈ w.live, g.priv = k

instance (w : GroupWorld B) : ∀ op, Decidable (TargetsGroup w op)
  | .create id _ _ _ => inferInstanceAs (Decidable (∀ g ∈ w.live, g.groupId ≠ id))
  | .modify k _ _ => inferInstanceAs (Decidable (∃ g ∈ w.live, g.priv = k))
  | .delete k _ => inferInstanceAs (Decidable (∃ g ∈ w.live, g.priv = k))

structure CarefulGroup (w : GroupWorld B) (op : GroupOp B) : Prop where
  target : TargetsGroup w op
  small : CreatesSmallAll op

instance (w : GroupWorld B) (op : GroupOp B) : Decidable (CarefulGroup w op) :=
  decidable_of_iff (TargetsGroup w op ∧ CreatesSmallAll op) ⟨fun h => ⟨h.1, h.2⟩, fun h => ⟨h.1, h.2⟩⟩

/-- The controller's groups are the live ones, by id, and the plugin holds those that were created. -/
structure GroupsAgree (pl : GroupPlugin σ B) (s : Backed σ B) (gs : List (OfGroup B)) : Prop where
  live : gs.map OfGroup.groupId = s.world.live.map Group.groupId
  packed : Packed s.world
  all : ∀ g ∈ gs, g.groupType = Ofpgt.all
  distinct : Store.Distinct OfGroup.groupId gs
  holds : Store.Holds OfGroup.groupId OfGroup.installed (pl.held s.plugin) gs
  owned : Store.Owned OfGroup.groupId (pl.held s.plugin) gs

theorem groupsAgree_empty {pl : GroupPlugin σ B} {p : σ} (hp : pl.held p = fun _ => none) :
    GroupsAgree pl ⟨GroupWorld.empty, p⟩ [] := by
  refine ⟨rfl, fun g hg => ?_, fun g hg => ?_, List.nodup_nil, fun g hg => ?_, ?_⟩
  · exact absurd hg List.not_mem_nil
  · exact absurd hg List.not_mem_nil
  · exact absurd hg List.not_mem_nil
  · rw [hp]
    exact Store.owned_empty

/-! ## The calls on a group that comes back with its type -/

section calls
variable {w : GroupWorld B} {g : Group}

theorem RoundTrips.unpack (h : RoundTrips w.groups g) (b : B) : g.priv.setWidth 32 = g.groupId ∧
    (g.priv >>> 31).setWidth 32 = (g.groupType.setWidth 32 : BitVec 32) :=
  h.1 b ⟨1, 0⟩ (.delete (g.priv.setWidth 32) ((g.priv >>> 31).setWidth 32)) List.mem_cons_self

theorem Packed.modify_calls (hw : Packed w) (hg : g ∈ w.live) (b : B) {ans : GroupAnswers}
    (hd : ans.delete = 0) : ((GroupOp.modify g.priv b ans).apply w.groups).calls =
      [.delete g.groupId (g.groupType.setWidth 32), .alloc g.groupId b (g.groupType.setWidth 32),
        .create g.groupId (g.groupType.setWidth 32)] := by
  obtain ⟨hid, htype⟩ := (hw.roundTrip g hg).unpack b
  rw [GroupOp.apply, groupModify, if_neg (not_not.2 hd), hid, htype]

theorem Packed.delete_calls (hw : Packed w) (hg : g ∈ w.live) (ans : GroupAnswers) :
    ((GroupOp.delete g.priv ans).apply w.groups).calls =
      [.delete g.groupId (g.groupType.setWidth 32)] := by
  have hcalls := groupDelete_calls w.groups g.priv ans
  obtain ⟨hid, htype⟩ := (hw.roundTrip g hg).2 ans _ (hcalls ▸ List.mem_cons_self)
  rw [GroupOp.apply, hcalls, List.singleton_inj]
  exact congrArg₂ GroupCall.delete hid htype

end calls

section step
variable {pl : GroupPlugin σ B} {s : Backed σ B} {gs : List (OfGroup B)}

namespace GroupsAgree

theorem distinct_ids (ha : GroupsAgree pl s gs) : Store.Distinct Group.groupId s.world.live := by
  unfold Store.Distinct
  rw [← ha.live]
  exact ha.distinct

theorem distinct_privs (ha : GroupsAgree pl s gs) : Store.Distinct Group.priv s.world.live := by
  have hids : (s.world.live.map Group.priv).map (BitVec.setWidth 32) =
      s.world.live.map Group.groupId := by
    rw [List.map_map]
    refine List.map_congr_left fun g hg => ?_
    obtain ⟨ht, hpriv, -⟩ := ha.packed g hg
    rw [comp_apply, hpriv, groupPriv_of_supported _ ht, groupId_of_priv]
  refine List.Nodup.of_map (BitVec.setWidth 32) ?_
  rw [hids]
  exact ha.distinct_ids

theorem fresh (ha : GroupsAgree pl s gs) {id : BitVec 32} (hfree : ∀ g ∈ s.world.live, g.groupId ≠ id) :
    ∀ g ∈ gs, g.groupId ≠ id := by
  intro g hg hid
  have hmem : g.groupId ∈ s.world.live.map Group.groupId := ha.live ▸ List.mem_map_of_mem hg
  obtain ⟨f, hf, hfid⟩ := List.mem_map.1 hmem
  exact hfree f hf (hfid.trans hid)

theorem absent (ha : GroupsAgree pl s gs) {id : BitVec 32} (hfree : ∀ g ∈ s.world.live, g.groupId ≠ id) :
    pl.held s.plugin id = none := by
  by_contra hne
  obtain ⟨g, hg, hid⟩ := ha.owned id hne
  exact ha.fresh hfree g hg hid

theorem known (ha : GroupsAgree pl s gs) {g : Group} (hg : g ∈ s.world.live) :
    ∃ x ∈ gs, x.groupId = g.groupId := by
  have hmem : g.groupId ∈ gs.map OfGroup.groupId := ha.live ▸ List.mem_map_of_mem hg
  exact List.mem_map.1 hmem

theorem held_all (ha : GroupsAgree pl s gs) (id : BitVec 32) :
    ∀ g ∈ pl.held s.plugin id, g.1 = Ofpgt.all.setWidth 32 := by
  intro g hg
  obtain ⟨x, hx, rfl⟩ := ha.owned id (hg ▸ Option.some_ne_none g)
  have hx' := (ha.holds x hx).symm.trans hg
  unfold OfGroup.installed at hx'
  split_ifs at hx'
  rw [← Option.some.inj hx', ha.all x hx]

theorem create (ha : GroupsAgree pl s gs) (hpl : pl.Works) {id : BitVec 32} {t : BitVec 8} {b : B}
    {ans : GroupAnswers} (ht : supportedType t = true)
    (ho : CarefulGroup s.world (.create id t b ans)) :
    GroupsAgree pl (Backed.step pl s (.create id t b ans)) (OfGroup.step gs (.create id t b ans)) := by
  have hr : ((GroupOp.create id t b ans).apply s.world.groups).ret = .none :=
    (groupCreate_ret s.world.groups id t b ans).2 ht
  have hcalls : ((GroupOp.create id t b ans).apply s.world.groups).calls =
      [.alloc id b (t.setWidth 32), .create id (t.setWidth 32)] := by
    rw [GroupOp.apply, groupCreate, if_pos ht]
  have hfresh := ha.fresh ho.target
  have habsent := ha.absent ho.target
  let x : OfGroup B := ⟨id, t, b, ans.create = 0⟩
  have hheld : pl.held (Backed.step pl s (.create id t b ans)).plugin =
      update (pl.held s.plugin) x.groupId x.installed := by
    rw [Backed.step, hcalls, GroupOp.answers, hpl.held_create ans habsent]
    by_cases hc : ans.create = 0
    · simp only [x, OfGroup.installed, hc, if_true, decide_true]
    · simp only [x, OfGroup.installed, hc, if_false, decide_false, Bool.false_eq_true]
      rw [← habsent, update_eq_self]
  have hlive : (Backed.step pl s (.create id t b ans)).world.live =
      s.world.live ++ [⟨id, t, groupPriv id t⟩] := if_pos hr
  rw [OfGroup.step, if_pos ht]
  refine ⟨?_, ha.packed.step ho.small, fun y hy => ?_, (Store.distinct_append x).2 ⟨ha.distinct, hfresh⟩,
    ?_, ?_⟩
  · rw [hlive, List.map_append, List.map_append, ha.live]
    rfl
  · rcases List.mem_append.1 hy with hy | hy
    · exact ha.all y hy
    · rw [List.mem_singleton.1 hy]
      exact (ho.small ht).1
  · rw [hheld]
    exact ha.holds.insert hfresh
  · rw [hheld]
    exact ha.owned.insert rfl _

theorem modify (ha : GroupsAgree pl s gs) (hpl : pl.Works) {k : BitVec 64} {b : B} {ans : GroupAnswers}
    (ho : CarefulGroup s.world (.modify k b ans)) (hd : ans.delete = 0) :
    GroupsAgree pl (Backed.step pl s (.modify k b ans)) (OfGroup.step gs (.modify k b ans)) := by
  obtain ⟨g, hg, rfl⟩ := ho.target
  let f : OfGroup B → OfGroup B := OfGroup.rewrite b (ans.create = 0)
  have hf : ∀ x, (f x).groupId = x.groupId := fun _ => rfl
  have hall := (ha.packed g hg).2.2.1
  have hheld : pl.held (Backed.step pl s (.modify g.priv b ans)).plugin =
      update (pl.held s.plugin) g.groupId
        (if ans.create = 0 then some (Ofpgt.all.setWidth 32, b) else none) := by
    rw [Backed.step, ha.packed.modify_calls hg b hd, hall, GroupOp.answers]
    exact hpl.held_exchange (ha.held_all g.groupId) hd
  have hlive : (Backed.step pl s (.modify g.priv b ans)).world.live = s.world.live := ite_self _
  rw [OfGroup.step, if_pos hd, ((ha.packed.roundTrip g hg).unpack b).1]
  refine ⟨?_, ha.packed.step ho.small, ?_, Store.Distinct.revise hf ha.distinct _, ?_, ?_⟩
  · rw [hlive, ← ha.live]
    exact Store.map_key_revise hf _
  · refine Store.forall_revise (fun x hx => ?_) ha.all g.groupId
    exact hx
  · rw [hheld]
    refine Store.Holds.revise hf ha.holds fun x hx _ => ?_
    simp only [f, OfGroup.rewrite, OfGroup.installed, ha.all x hx, decide_eq_true_eq]
  · rw [hheld]
    refine Store.Owned.revise hf ?_ _
    exact ha.owned.update_of_mem (ha.known hg) _

theorem delete (ha : GroupsAgree pl s gs) (hpl : pl.Works) {k : BitVec 64} {ans : GroupAnswers}
    (ho : CarefulGroup s.world (.delete k ans)) (hd : ans.delete = 0) :
    GroupsAgree pl (Backed.step pl s (.delete k ans)) (OfGroup.step gs (.delete k ans)) := by
  obtain ⟨g, hg, rfl⟩ := ho.target
  obtain ⟨ht, hpriv, hall, -⟩ := ha.packed g hg
  have hid : g.priv.setWidth 32 = g.groupId := by
    rw [hpriv, groupPriv_of_supported _ ht, groupId_of_priv]
  have hheld : pl.held (Backed.step pl s (.delete g.priv ans)).plugin =
      update (pl.held s.plugin) g.groupId none := by
    rw [Backed.step, ha.packed.delete_calls hg, hall, GroupOp.answers]
    exact (hpl.held_delete (ha.held_all g.groupId)).trans (if_pos hd)
  have hr : ((GroupOp.delete g.priv ans : GroupOp B).apply s.world.groups).ret = .none := by
    rw [GroupOp.apply, groupDelete, if_neg (not_not.2 hd)]
  have hlive : (Backed.step pl s (.delete g.priv ans)).world.live =
      Store.drop Group.priv g.priv s.world.live := if_pos hr
  have hmap {ρ : Type} (key : ρ → BitVec 32) (rs : List ρ) :
      (Store.drop key g.groupId rs).map key = Store.drop id g.groupId (rs.map key) := by
    refine Store.map_drop (fun r _ => ?_) _
    rfl
  rw [OfGroup.step, if_pos hd, hid]
  refine ⟨?_, ha.packed.step ho.small, fun x hx => ?_, ha.distinct.drop _, ?_, ?_⟩
  · rw [hlive, ha.distinct_privs.drop_eq ha.distinct_ids hg, hmap, hmap, ha.live]
  · exact ha.all x (Store.mem_of_mem_drop hx)
  · rw [hheld]
    exact ha.holds.drop ha.distinct _ none
  · rw [hheld]
    exact ha.owned.drop _

end GroupsAgree

theorem GroupsAgree.refused (ha : GroupsAgree pl s gs) {op : GroupOp B}
    (hr : (op.apply s.world.groups).ret ≠ .none) (hgs : OfGroup.step gs op = gs)
    (hheld : pl.held (Backed.step pl s op).plugin = pl.held s.plugin) :
    GroupsAgree pl (Backed.step pl s op) (OfGroup.step gs op) := by
  have hlive : (Backed.step pl s op).world.live = s.world.live := if_neg hr
  rw [hgs]
  refine ⟨?_, fun g hg => ?_, ha.all, ha.distinct, ?_, ?_⟩
  · rw [hlive]
    exact ha.live
  · rw [hlive] at hg
    exact ha.packed g hg
  · rw [hheld]
    exact ha.holds
  · rw [hheld]
    exact ha.owned

theorem GroupsAgree.step (ha : GroupsAgree pl s gs) (hpl : pl.Works) {op : GroupOp B}
    (ho : CarefulGroup s.world op) : GroupsAgree pl (Backed.step pl s op) (OfGroup.step gs op) := by
  cases op with
  | create id t b ans =>
    by_cases ht : supportedType t = true
    · exact ha.create hpl ht ho
    · have happ : (GroupOp.create id t b ans).apply s.world.groups =
          ⟨.notSupported, [], s.world.groups⟩ := if_neg ht
      refine ha.refused ?_ (if_neg ht) ?_
      · rw [happ]
        exact IndigoError.noConfusion
      · rw [Backed.step, happ]
        rfl
  | modify k b ans =>
    by_cases hd : ans.delete = 0
    · exact ha.modify hpl ho hd
    · have happ : (GroupOp.modify k b ans).apply s.world.groups =
          ⟨.unknown, _, s.world.groups⟩ := if_pos hd
      refine ha.refused ?_ (if_neg hd) ?_
      · rw [happ]
        exact IndigoError.noConfusion
      · rw [Backed.step, happ]
        exact hpl.failed _ _ _ hd
  | delete k ans =>
    by_cases hd : ans.delete = 0
    · exact ha.delete hpl ho hd
    · have happ : (GroupOp.delete k ans).apply s.world.groups =
          ⟨.unknown, _, s.world.groups⟩ := if_pos hd
      refine ha.refused ?_ (if_neg hd) ?_
      · rw [happ]
        exact IndigoError.noConfusion
      · rw [Backed.step, happ]
        exact hpl.failed _ _ _ hd

theorem GroupsAgree.run (ha : GroupsAgree pl s gs) (hpl : pl.Works) {ops : List (GroupOp B)}
    (ho : Along GroupWorld.step CarefulGroup s.world ops) :
    GroupsAgree pl (run (Backed.step pl) s ops) (Runs.run OfGroup.step gs ops) := by
  induction ops generalizing s gs with
  | nil => exact ha
  | cons op ops ih => exact ih (ha.step hpl ho.1) ho.2

theorem GroupsAgree.installed (ha : GroupsAgree pl s gs) {x : OfGroup B} (hx : x ∈ gs)
    (hc : x.created = true) :
    pl.held s.plugin x.groupId = some (x.groupType.setWidth 32, x.buckets) := by
  rw [ha.holds x hx, OfGroup.installed, if_pos hc]

end step

/-- After any run, whatever calls failed, the plugin holds the controller's groups with their types and
the buckets of their last create or modify, but for those whose last `ofpat_group_create` failed. -/
theorem groups_installed (pl : GroupPlugin σ B) (hpl : pl.Works) (p : σ) (hp : pl.held p = fun _ => none)
    (ops : List (GroupOp B)) (ho : Along GroupWorld.step CarefulGroup GroupWorld.empty ops) :
    let s := run (Backed.step pl) ⟨GroupWorld.empty, p⟩ ops
    let gs := run OfGroup.step [] ops
    gs.map OfGroup.groupId = s.world.live.map Group.groupId ∧ ∀ id t b,
      pl.held s.plugin id = some (t, b) ↔ ∃ g ∈ gs, g.groupId = id ∧ g.groupType.setWidth 32 = t ∧
        g.buckets = b ∧ g.created = true := by
  have ha := (groupsAgree_empty hp).run hpl ho
  refine ⟨ha.live, fun id t b => ?_⟩
  constructor
  · intro hi
    obtain ⟨g, hg, rfl⟩ := ha.owned id (by rw [hi]; exact Option.some_ne_none (t, b))
    have hgi := (ha.holds g hg).symm.trans hi
    unfold OfGroup.installed at hgi
    split_ifs at hgi with hc
    obtain ⟨rfl, rfl⟩ := Prod.mk.inj (Option.some.inj hgi)
    exact ⟨g, hg, rfl, rfl, rfl, hc⟩
  · rintro ⟨g, hg, rfl, rfl, rfl, hc⟩
    exact ha.installed hg hc

/-! ## A plugin -/

structure TypedGroups (B : Type) where
  staged : BitVec 32 → Option (BitVec 32 × B)
  held : BitVec 32 → Option (BitVec 32 × B)

def TypedGroups.empty : TypedGroups B := ⟨fun _ => none, fun _ => none⟩

def typedPlugin : GroupPlugin (TypedGroups B) B where
  held := TypedGroups.held
  call p c status :=
    if status ≠ 0 then p
    else match c with
      | .alloc id b t => { p with staged := update p.staged id (some (t, b)) }
      | .create id t => { p with held := update p.held id ((p.staged id).filter fun g => g.1 = t) }
      | .delete id t => { p with held := update p.held id ((p.held id).filter fun g => g.1 ≠ t) }

theorem typedPlugin_works : (typedPlugin : GroupPlugin (TypedGroups B) B).Works where
  alloc p id b t := rfl
  failed p c status hs := congrArg TypedGroups.held (if_pos hs)
  create p id b t _ := by
    simp only [typedPlugin, ne_eq, not_true_eq_false, if_false, update_self, Option.filter_some,
      decide_true, if_true]
  delete p id t ht := by
    have hgone : (p.held id).filter (fun g => g.1 ≠ t) = none := by
      rw [Option.filter_eq_none_iff]
      intro g hg
      simpa using ht g hg
    simp only [typedPlugin, ne_eq, not_true_eq_false, if_false] at hgone ⊢
    rw [hgone]

def groupChurn : List (GroupOp Nat) :=
  [.create 5 Ofpgt.all 1 ⟨0, 0⟩, .create 6 Ofpgt.all 2 ⟨0, 0⟩, .create 7 Ofpgt.all 3 ⟨0, 1⟩,
    .modify 5 4 ⟨0, 1⟩, .delete 6 ⟨1, 0⟩, .modify 7 8 ⟨0, 0⟩, .create 9 1 0 ⟨0, 0⟩]

theorem groups_installed_churn :
    let s := run (Backed.step typedPlugin) ⟨GroupWorld.empty, TypedGroups.empty⟩ groupChurn
    s.world.live.map Group.groupId = [5, 6, 7] ∧ s.plugin.held 5 ≠ some (0, 4) ∧
      s.plugin.held 7 = some (0, 8) := by
  obtain ⟨hlive, hi⟩ := groups_installed typedPlugin typedPlugin_works TypedGroups.empty rfl groupChurn
    (by decide)
  refine ⟨hlive.symm, fun h => ?_, (hi 7 0 8).2 ?_⟩
  · exact absurd ((hi 5 0 4).1 h) (by decide)
  · decide

end P4OfAgent
