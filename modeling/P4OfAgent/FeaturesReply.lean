import P4OfAgent.Lib.Bytes
import P4OfAgent.OpenFlow

/-! The features reply and its two writers. That of `ind_fwd.c` sets fields of the message; that of
`ind_ports.c` writes at offsets, and starts the capabilities a byte too early. -/

namespace P4OfAgent
open Bytes

/-- The members of `struct ofp_switch_features`. -/
inductive FeaturesField
  | header | datapathId | nBuffers | nTables | auxiliaryId | pad | capabilities | reserved
deriving DecidableEq, Repr

namespace FeaturesField

def size : FeaturesField → Nat
  | header => 8
  | datapathId => 8
  | nBuffers => 4
  | nTables => 1
  | auxiliaryId => 1
  | pad => 2
  | capabilities => 4
  | reserved => 4

def layout : List FeaturesField :=
  [header, datapathId, nBuffers, nTables, auxiliaryId, pad, capabilities, reserved]

def offset (f : FeaturesField) : Nat := ((layout.takeWhile fun g => g ≠ f).map size).sum

def get (f : FeaturesField) (fr : Buf) : List Byte := slice fr f.offset f.size

theorem disjoint {f g : FeaturesField} (h : f ≠ g) :
    f.offset + f.size ≤ g.offset ∨ g.offset + g.size ≤ f.offset := by
  cases f <;> cases g <;> first | exact absurd rfl h | decide

theorem get_memcpy_of_ne {f g : FeaturesField} (h : f ≠ g) (fr src : Buf) :
    f.get (memcpy fr g.offset src g.size) = f.get fr :=
  slice_memcpy_outside fr src g.offset g.size (disjoint h)

theorem get_memcpy_self {f : FeaturesField} (fr : Buf) {l : List Byte} (hl : l.length = f.size) :
    f.get (memcpy fr f.offset (ofList l) f.size) = l := by
  rw [get, slice_memcpy_self, ← hl, slice_ofList]

end FeaturesField

def featuresReplySize : Nat := (FeaturesField.layout.map FeaturesField.size).sum

example : featuresReplySize = 32 := by decide

def ofWireBufferU8Set (wbuf : Buf) (off : Nat) (v : Byte) : Buf := memcpy wbuf off (ofList [v]) 1

def ofWireBufferU32Set (wbuf : Buf) (off : Nat) (v : BitVec 32) : Buf :=
  memcpy wbuf off (ofList (toBE32 v)) 4

/-! The setters of `of_features_reply_t`. -/

def ofFeaturesReplyNBuffersSet (fr : Buf) (nBuffers : BitVec 32) : Buf :=
  ofWireBufferU32Set fr FeaturesField.nBuffers.offset nBuffers

def ofFeaturesReplyNTablesSet (fr : Buf) (nTables : Byte) : Buf :=
  ofWireBufferU8Set fr FeaturesField.nTables.offset nTables

def ofFeaturesReplyCapabilitiesSet (fr : Buf) (capabilities : BitVec 32) : Buf :=
  ofWireBufferU32Set fr FeaturesField.capabilities.offset capabilities

section writers
variable (numOpenflowTables : Nat)

def indigoFwdForwardingFeaturesGet (fr : Buf) : IndigoError × Buf :=
  let fr := ofFeaturesReplyNBuffersSet fr 0
  let fr := ofFeaturesReplyNTablesSet fr (BitVec.ofNat 8 numOpenflowTables)
  let fr := ofFeaturesReplyCapabilitiesSet fr 3
  (.none, fr)

def indigoPortFeaturesGet (fr : Buf) : IndigoError × Buf :=
  let fr := ofWireBufferU8Set fr 16 0
  let fr := ofWireBufferU8Set fr 20 (BitVec.ofNat 8 numOpenflowTables)
  let fr := ofWireBufferU32Set fr 23 3
  (.none, fr)

def FeaturesField.written : List FeaturesField := [.nBuffers, .nTables, .capabilities]

structure FeaturesFilled (fr out : Buf) : Prop where
  nBuffers : be32 (FeaturesField.nBuffers.get out) 0 = 0
  nTables : (FeaturesField.nTables.get out).map BitVec.toNat = [numOpenflowTables]
  capabilities : be32 (FeaturesField.capabilities.get out) 0 = 3
  unchanged : ∀ f ∉ FeaturesField.written, f.get out = f.get fr

structure FeaturesAgree (fr : Buf) : Prop where
  order : slice (indigoPortFeaturesGet numOpenflowTables
        (indigoFwdForwardingFeaturesGet numOpenflowTables fr).2).2 0 featuresReplySize =
      slice (indigoFwdForwardingFeaturesGet numOpenflowTables
        (indigoPortFeaturesGet numOpenflowTables fr).2).2 0 featuresReplySize
  portLast : FeaturesFilled numOpenflowTables fr (indigoPortFeaturesGet numOpenflowTables
    (indigoFwdForwardingFeaturesGet numOpenflowTables fr).2).2
  fwdLast : FeaturesFilled numOpenflowTables fr (indigoFwdForwardingFeaturesGet numOpenflowTables
    (indigoPortFeaturesGet numOpenflowTables fr).2).2

variable (fr : Buf)

theorem fwdFeatures_unchanged {f : FeaturesField} (hf : f ∉ FeaturesField.written) :
    f.get (indigoFwdForwardingFeaturesGet numOpenflowTables fr).2 = f.get fr := by
  simp only [FeaturesField.written, List.mem_cons, List.not_mem_nil, or_false, not_or] at hf
  obtain ⟨hbuffers, htables, hcapabilities⟩ := hf
  exact ((FeaturesField.get_memcpy_of_ne hcapabilities _ _).trans
    (FeaturesField.get_memcpy_of_ne htables _ _)).trans (FeaturesField.get_memcpy_of_ne hbuffers _ _)

theorem fwdFeatures_filled (hn : numOpenflowTables < 256) :
    FeaturesFilled numOpenflowTables fr (indigoFwdForwardingFeaturesGet numOpenflowTables fr).2 where
  nBuffers := by
    have hbytes : FeaturesField.nBuffers.get (indigoFwdForwardingFeaturesGet numOpenflowTables fr).2 =
        toBE32 0 :=
      ((FeaturesField.get_memcpy_of_ne (g := .capabilities) (by decide) _ _).trans
        (FeaturesField.get_memcpy_of_ne (g := .nTables) (by decide) _ _)).trans
          (FeaturesField.get_memcpy_self fr rfl)
    rw [hbytes]
    exact be32_toBE32 0 []
  nTables := by
    have hbyte : FeaturesField.nTables.get (indigoFwdForwardingFeaturesGet numOpenflowTables fr).2 =
        [BitVec.ofNat 8 numOpenflowTables] :=
      (FeaturesField.get_memcpy_of_ne (g := .capabilities) (by decide) _ _).trans
        (FeaturesField.get_memcpy_self _ rfl)
    rw [hbyte, List.map_singleton, BitVec.toNat_ofNat, Nat.mod_eq_of_lt hn]
  capabilities := by
    have hbytes : FeaturesField.capabilities.get
        (indigoFwdForwardingFeaturesGet numOpenflowTables fr).2 = toBE32 3 :=
      FeaturesField.get_memcpy_self _ rfl
    rw [hbytes]
    exact be32_toBE32 3 []
  unchanged f hf := fwdFeatures_unchanged numOpenflowTables fr hf

theorem portFeatures_unchanged {f : FeaturesField} (hf : f ∉ FeaturesField.written)
    (hpad : f ≠ .pad) : f.get (indigoPortFeaturesGet numOpenflowTables fr).2 = f.get fr := by
  have houtside : (f.offset + f.size ≤ 23 ∨ 23 + 4 ≤ f.offset) ∧
      (f.offset + f.size ≤ 20 ∨ 20 + 1 ≤ f.offset) ∧ (f.offset + f.size ≤ 16 ∨ 16 + 1 ≤ f.offset) := by
    revert hf hpad
    cases f <;> decide
  exact ((slice_memcpy_outside _ _ _ _ houtside.1).trans
    (slice_memcpy_outside _ _ _ _ houtside.2.1)).trans (slice_memcpy_outside _ _ _ _ houtside.2.2)

theorem portFeatures_pad :
    FeaturesField.pad.get (indigoPortFeaturesGet numOpenflowTables fr).2 = [fr 22, 0] := rfl

/-- The capabilities end up a byte early, and the last byte of those before stays. -/
theorem portFeatures_capabilities :
    FeaturesField.capabilities.get (indigoPortFeaturesGet numOpenflowTables fr).2 = [0, 0, 3, fr 27] :=
  rfl

theorem capabilities_portLast : be32 (FeaturesField.capabilities.get (indigoPortFeaturesGet
    numOpenflowTables (indigoFwdForwardingFeaturesGet numOpenflowTables fr).2).2) 0 = 0x303 := by
  have hlast : (indigoFwdForwardingFeaturesGet numOpenflowTables fr).2 27 = 3 := rfl
  rw [portFeatures_capabilities, hlast]
  decide

theorem not_filled_portLast : ¬ FeaturesFilled numOpenflowTables fr (indigoPortFeaturesGet
    numOpenflowTables (indigoFwdForwardingFeaturesGet numOpenflowTables fr).2).2 := by
  intro h
  have hcapabilities := h.capabilities
  rw [capabilities_portLast] at hcapabilities
  exact absurd hcapabilities (by decide)

theorem features_fwdLast_iff (hn : numOpenflowTables < 256) :
    FeaturesFilled numOpenflowTables fr (indigoFwdForwardingFeaturesGet numOpenflowTables
      (indigoPortFeaturesGet numOpenflowTables fr).2).2 ↔ fr 23 = 0 := by
  have hfilled := fwdFeatures_filled numOpenflowTables (indigoPortFeaturesGet numOpenflowTables fr).2 hn
  have hpad : FeaturesField.pad.get fr = [fr 22, fr 23] := rfl
  constructor
  · intro h
    have hout := h.unchanged .pad (by decide)
    rw [fwdFeatures_unchanged _ _ (by decide), portFeatures_pad, hpad, List.cons.injEq] at hout
    exact (List.cons.inj hout.2).1.symm
  · intro hzero
    refine ⟨hfilled.nBuffers, hfilled.nTables, hfilled.capabilities, fun f hf => ?_⟩
    rw [hfilled.unchanged f hf]
    by_cases hf' : f = .pad
    · rw [hf', portFeatures_pad, hpad, hzero]
    · exact portFeatures_unchanged numOpenflowTables fr hf hf'

theorem not_featuresAgree : ¬ FeaturesAgree numOpenflowTables fr := fun h =>
  not_filled_portLast numOpenflowTables fr h.portLast

end writers

theorem not_featuresAgree_zero : ¬ FeaturesAgree 2 (fun _ => 0) := fun h =>
  not_filled_portLast 2 (fun _ => 0) h.portLast

end P4OfAgent
