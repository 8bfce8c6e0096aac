import P4OfAgent.FlowExecution

/-! What packets can meet while a callback runs. The PD tables and the pipeline store are changed by
two calls, and between them the data plane works with the one change done. -/

namespace P4OfAgent
open Function P4 Runs
variable {M : Type}

def Op.between (h : Host) (s : State M) (op : Op M) : Option (Plane M) :=
  match (op.apply h s).calls with
  | [call, _] => some (s.plane.effect op.answers.eh call)
  | _ => none

def Op.id : Op M → BitVec 64
  | create add fid _ => add.flowId fid
  | modify k _ _ => k
  | delete k _ => k

section between
variable {h : Host} {s : State M} {d : Plane M}

theorem between_create {add : FlowAdd M} {fid : BitVec 64} {ans : Answers}
    (hr : ((Op.create add fid ans).apply h s).ret = .none)
    (hd : (Op.create add fid ans).between h s = some d) :
    ∃ call, add.install h (add.flowId fid) (h.parse add.instructions) = .ok call ∧
      d = s.plane.effect ans.eh call := by
  obtain ⟨call, hi, _⟩ := FlowAdd.install_accepted h (add.flowId fid) (h.parse add.instructions)
    ((flowCreate_ret_iff h s ans).1 hr).1
  refine ⟨call, hi, ?_⟩
  rw [Op.apply, flowCreate_installed h s ans hi] at hr
  rw [Op.between, Op.apply, flowCreate_installed h s ans hi, callsInTurn_of_ret _ _ _ _ _ hr] at hd
  unfold Answers.unlessSignalled at hd
  split_ifs at hd
  · exact (Option.some.inj hd).symm
  · exact absurd hd (Option.some_ne_none d).symm

theorem between_modify {k : BitVec 64} {is : List Instruction} {ans : Answers} {eh : EntryHdl}
    {tid : BitVec 8} (hb : s.ids.binding k = some (eh, tid))
    (hr : ((Op.modify k is ans : Op M).apply h s).ret = .none)
    (hd : (Op.modify k is ans : Op M).between h s = some d) :
    ans.signal = 0 ∧ d = s.plane.effect ans.eh (.mod tid (h.parse is) k eh) := by
  obtain ⟨eh', tid', hb', _, he⟩ := flowModify_done h s ans hr
  obtain ⟨rfl, rfl⟩ := Prod.mk.inj (Option.some.inj (hb.symm.trans hb'))
  rw [Op.between, Op.apply, he] at hd
  unfold Answers.unlessSignalled at hd
  split_ifs at hd with hsignal
  · exact ⟨hsignal, (Option.some.inj hd).symm⟩
  · exact absurd hd (Option.some_ne_none d).symm

end between

section windows
variable {h : Host} {t : Twin M} {pairs : List (Pair M)}

end windows

/-- The plugin's tables hold the entries of the flows of the pipeline store and no others. -/
structure RealisesOnly {w n : Nat} (t : Tables w n) (pipeline : BitVec 64 → Option Parsed) : Prop
    extends Realises t pipeline where
  egressOnly : ∀ table key, t.egress table key ≠ none → ∃ k p, pipeline k = some p ∧
    k.setWidth 32 = key.index ∧ (p.aargs table.gate.type).isSome = true
  outputOnly : ∀ key, t.ofpatOutput key ≠ none → ∃ k p, pipeline k = some p ∧
    k.setWidth 32 = key.index ∧ (p.aargs Ofpat.output).isSome = true

def Op.instructions : Op M → Option (List Instruction)
  | create add _ _ => some add.instructions
  | modify _ is _ => some is
  | delete _ _ => none

section packets
variable {h : Host} {s : Twin M} {w n : Nat} {t : Tables w n} {old new : List Action}

theorem installs_nil (m : Machine) (index : BitVec 32) :
    Installs t (parseActions m [] .empty) index :=
  fun _ _ table r hr => absurd (hr.symm.trans (rewrite_nil m table.gate)) (Option.some_ne_none r)

theorem RealisesOnly.holds {pipeline : BitVec 64 → Option Parsed} (hreal : RealisesOnly t pipeline)
    (hapart : KeysApart pipeline) (m : Machine) {k : BitVec 64}
    (hk : (∃ p, pipeline k = some p ∧ p.Lists m old) ∨ pipeline k = none ∧ old = [] ∧
      ∀ k', pipeline k' ≠ none → k'.setWidth 32 ≠ k.setWidth 32) :
    P4.Holds t m old new (k.setWidth 32) := by
  -- a table that holds an entry for the index holds it for a type of the old list
  have honly : ∀ g : Gate, (∃ k' p, pipeline k' = some p ∧ k'.setWidth 32 = k.setWidth 32 ∧
      (p.aargs g.type).isSome = true) → ∃ a ∈ old, a.type = g.type := by
    rintro g ⟨k', p', hp', hindex, haargs⟩
    rcases hk with ⟨p, hp, hlists⟩ | ⟨_, _, hfresh⟩
    · obtain rfl := hapart k' k (hp' ▸ Option.some_ne_none p') (hp ▸ Option.some_ne_none p) hindex
      obtain rfl := Option.some.inj (hp'.symm.trans hp)
      exact hlists.exists_type haargs
    · exact absurd hindex (hfresh k' (hp' ▸ Option.some_ne_none p'))
  refine ⟨?_, ?_, fun key hkey table _ hlacks => ?_, fun key hkey _ hlacks => ?_⟩
  · rcases hk with ⟨p, hp, rfl | ⟨rfl, _⟩⟩ | ⟨_, rfl, _⟩
    · exact hreal.egress k _ hp
    · exact installs_nil m _
    · exact installs_nil m _
  · rcases hk with ⟨p, hp, rfl | ⟨rfl, _⟩⟩ | ⟨_, rfl, _⟩
    · exact hreal.output k _ hp
    · exact fun _ _ ptr _ hptr => absurd hptr (Option.some_ne_none ptr).symm
    · exact fun _ _ ptr _ hptr => absurd hptr (Option.some_ne_none ptr).symm
  · by_contra hne
    obtain ⟨a, ha, htype⟩ := honly table.gate (hkey ▸ hreal.egressOnly table key hne)
    exact hlacks a ha htype
  · by_contra hne
    obtain ⟨a, ha, htype⟩ := honly .output (hkey ▸ hreal.outputOnly key hne)
    exact hlacks a ha htype

end packets

end P4OfAgent
