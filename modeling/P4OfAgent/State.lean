import P4OfAgent.Parse

/-! The state behind the flow callbacks: the Judy arrays of `state.c`, the PD tables and the
pipeline store, with what a successful backend call does to them. -/

namespace P4OfAgent
open Function

abbrev EntryHdl := BitVec 32

/-- The platform the agent is linked against. `openflow_init` registers wrapper functions under the
ids of the tables that have them; the function registered under an id is named by that id. -/
structure Host extends Machine where
  adds : BitVec 8 → Bool
  mods : BitVec 8 → Bool
  defs : BitVec 8 → Bool
  dels : BitVec 8 → Bool

def Host.full : Host :=
  ⟨⟨fun _ _ => false, fun _ => 0⟩, fun _ => true, fun _ => true, fun _ => true, fun _ => true⟩

structure FlowIds where
  entryHdl : BitVec 64 → Option (BitVec 64)
  tableId : BitVec 64 → Option (BitVec 64)

namespace FlowIds

def empty : FlowIds := ⟨fun _ => none, fun _ => none⟩

def entryHdlGet (f : FlowIds) (flowId : BitVec 64) : Option EntryHdl :=
  (f.entryHdl flowId).map (BitVec.setWidth 32)

def entryHdlSet (f : FlowIds) (flowId : BitVec 64) (hdl : EntryHdl) : FlowIds :=
  { f with entryHdl := update f.entryHdl flowId (some (hdl.setWidth 64)) }

def tableIdGet (f : FlowIds) (flowId : BitVec 64) : Option (BitVec 8) :=
  (f.tableId flowId).map (BitVec.setWidth 8)

def tableIdSet (f : FlowIds) (flowId : BitVec 64) (tableId : BitVec 8) : FlowIds :=
  { f with tableId := update f.tableId flowId (some (tableId.setWidth 64)) }

def record (f : FlowIds) (flowId : BitVec 64) (hdl : EntryHdl) (tableId : BitVec 8) : FlowIds :=
  (f.entryHdlSet flowId hdl).tableIdSet flowId tableId

def binding (f : FlowIds) (flowId : BitVec 64) : Option (EntryHdl × BitVec 8) :=
  (f.entryHdlGet flowId).bind fun hdl => (f.tableIdGet flowId).map (hdl, ·)

end FlowIds

/-- What an entry or a default of a PD table runs: the flow id with the signature and arguments. -/
structure PdAction where
  flowId : BitVec 64
  args : Parsed

structure PdEntry (M : Type) where
  mf : M
  priority : BitVec 16
  ttl : BitVec 32
  action : PdAction

structure PdTable (M : Type) where
  entries : EntryHdl → Option (PdEntry M)
  dflt : Option PdAction

structure Plane (M : Type) where
  tables : BitVec 8 → PdTable M
  pipeline : BitVec 64 → Option Parsed

inductive Call (M : Type)
  | add (tid : BitVec 8) (mf : M) (args : Parsed) (flowId : BitVec 64) (priority : BitVec 16)
    (ttl : BitVec 32)
  | setDef (tid : BitVec 8) (args : Parsed) (flowId : BitVec 64)
  | mod (tid : BitVec 8) (args : Parsed) (flowId : BitVec 64) (eh : EntryHdl)
  | del (tid : BitVec 8) (eh : EntryHdl)
  | pipelineAdd (index : BitVec 64) (args : Parsed)
  | pipelineMod (index : BitVec 64) (args : Parsed)
  | pipelineDel (index : BitVec 64)

variable {M : Type}

namespace Plane

def empty : Plane M := ⟨fun _ => ⟨fun _ => none, none⟩, fun _ => none⟩

def onTable (d : Plane M) (tid : BitVec 8) (f : PdTable M → PdTable M) : Plane M :=
  { d with tables := update d.tables tid (f (d.tables tid)) }

/-- The effect of a call that succeeds; `eh` is the handle that an added entry gets. A modified
entry or pipeline key that is absent stays absent. -/
def effect (d : Plane M) (eh : EntryHdl) : Call M → Plane M
  | .add tid mf args flowId pr ttl => d.onTable tid fun t =>
    { t with entries := update t.entries eh (some ⟨mf, pr, ttl, ⟨flowId, args⟩⟩) }
  | .setDef tid args flowId => d.onTable tid fun t => { t with dflt := some ⟨flowId, args⟩ }
  | .mod tid args flowId hdl => d.onTable tid fun t =>
    let entry := (t.entries hdl).map fun e => { e with action := ⟨flowId, args⟩ }
    { t with entries := update t.entries hdl entry }
  | .del tid hdl => d.onTable tid fun t => { t with entries := update t.entries hdl none }
  | .pipelineAdd k args => { d with pipeline := update d.pipeline k (some args) }
  | .pipelineMod k args => { d with pipeline := update d.pipeline k ((d.pipeline k).map fun _ => args) }
  | .pipelineDel k => { d with pipeline := update d.pipeline k none }

end Plane

structure State (M : Type) where
  ids : FlowIds
  plane : Plane M

def State.empty : State M := ⟨FlowIds.empty, Plane.empty⟩

/-! The two maps of `state.c`, read after they were written. -/

namespace FlowIds
variable (f : FlowIds) (k : BitVec 64)

theorem binding_record (hdl : EntryHdl) (tid : BitVec 8) :
    (f.record k hdl tid).binding = update f.binding k (some (hdl, tid)) := by
  funext k'
  by_cases h : k' = k
  · subst h
    simp only [binding, entryHdlGet, tableIdGet, record, entryHdlSet, tableIdSet, update_self,
      Option.map_some, Option.bind_some]
    rw [BitVec.setWidth_setWidth_of_le _ (by decide), BitVec.setWidth_setWidth_of_le _ (by decide),
      BitVec.setWidth_eq, BitVec.setWidth_eq]
  · simp only [binding, entryHdlGet, tableIdGet, record, entryHdlSet, tableIdSet, update_of_ne h]

theorem binding_eq_some {hdl : EntryHdl} {tid : BitVec 8} :
    f.binding k = some (hdl, tid) ↔ f.entryHdlGet k = some hdl ∧ f.tableIdGet k = some tid := by
  simp only [binding, Option.bind_eq_some_iff, Option.map_eq_some_iff, Prod.mk.injEq]
  constructor
  · rintro ⟨_, h, _, h', rfl, rfl⟩
    exact ⟨h, h'⟩
  · rintro ⟨h, h'⟩
    exact ⟨hdl, h, tid, h', rfl, rfl⟩

end FlowIds
end P4OfAgent
