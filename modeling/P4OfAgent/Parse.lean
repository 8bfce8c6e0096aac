import Mathlib.Logic.Function.Basic
import P4OfAgent.OpenFlow

/-! `parse.c`, with `signature_set_bit` of `callbacks.c`. Judy arrays are finite maps, but the nested
`OFPAT_SET_FIELD` array keeps its root word apart: inserting into it can move the root, and only the
word last handed out is valid. -/

namespace P4OfAgent
open Function Bytes

inductive ArgVal
  | u8 (v : BitVec 8)
  | u16 (v : BitVec 16)
  | u32 (v : BitVec 32)
  | u64 (v : BitVec 64)
deriving DecidableEq, Repr

inductive Ptr
  | undef
  | null
  | block (n : Nat)
  | root (n : Nat)
deriving DecidableEq, Repr

/-- Argument blocks in the order of their allocation, and the nested arrays by root word: a root
that an insertion has replaced is `none`. `ub` records the use of an invalid root, after which Judy
promises nothing; the model goes on as if it had left the memory alone. -/
structure Heap where
  blocks : List ArgVal
  arrays : List (Option (BitVec 8 → Option Ptr))
  ub : Bool

/-- What the C library and the machine decide: whether an insertion into a nested array moves its
root, and the value of `1 << n` for the shifts of 64 and more that C leaves undefined. -/
structure Machine where
  jliMoves : Heap → BitVec 8 → Bool
  shiftOver : Nat → BitVec 64

namespace Heap

def empty : Heap := ⟨[], [], false⟩

def malloc (h : Heap) (v : ArgVal) : Ptr × Heap :=
  (.block h.blocks.length, { h with blocks := h.blocks ++ [v] })

def load (h : Heap) : Ptr → Option ArgVal
  | .block n => h.blocks[n]?
  | _ => none

def array (h : Heap) : Ptr → Option (BitVec 8 → Option Ptr)
  | .null => some fun _ => none
  | .root n => h.arrays[n]?.join
  | _ => none

/-- `JLI (pv, root, key)`: the root after the insertion. A new slot starts out as zero. -/
def jli (m : Machine) (h : Heap) (root : Ptr) (key : BitVec 8) : Ptr × Heap :=
  match root, h.array root with
  | _, none => (root, { h with ub := true })
  | .root n, some a =>
    if (a key).isSome then (root, h)
    else if m.jliMoves h key then
      (.root h.arrays.length,
        { h with arrays := h.arrays.set n none ++ [some (update a key (some .null))] })
    else (root, { h with arrays := h.arrays.set n (some (update a key (some .null))) })
  | _, some a =>
    (.root h.arrays.length, { h with arrays := h.arrays ++ [some (update a key (some .null))] })

def poke (h : Heap) (root : Ptr) (key : BitVec 8) (v : Ptr) : Heap :=
  match root with
  | .root n => { h with arrays := h.arrays.modify n (Option.map fun a => update a key (some v)) }
  | _ => h

end Heap

structure Parsed where
  aargs : BitVec 16 → Option Ptr
  sig : BitVec 32
  heap : Heap

namespace Parsed

def empty : Parsed := ⟨fun _ => none, 0, Heap.empty⟩

def insert (p : Parsed) (key : BitVec 16) (v : Ptr) : Parsed :=
  { p with aargs := update p.aargs key (some v) }

end Parsed

/-! `signature_set_bit` -/

def shl64 (m : Machine) (bit : Nat) : BitVec 64 :=
  if bit < 64 then 1#64 <<< bit else m.shiftOver bit

def signatureSetBit (m : Machine) (bit : Nat) (sig : BitVec 32) : BitVec 32 :=
  sig ||| (shl64 m bit).setWidth 32

structure OfpatVars where
  type : BitVec 16
  arg : Ptr
  hdrField : BitVec 8
  heap : Heap

/-- `parse_ofpat`; `arg` and `hdrField` come in with what the caller's variables hold. -/
def parseOfpat (a : Action) (arg : Ptr) (hdrField : BitVec 8) (h : Heap) : OfpatVars :=
  if a.type = Ofpat.output then
    let (arg, h) := h.malloc (.u32 a.outputPort)
    ⟨a.type, arg, hdrField, h⟩
  else if a.type = Ofpat.group then
    let (arg, h) := h.malloc (.u32 a.groupId)
    ⟨a.type, arg, hdrField, h⟩
  else if a.type = Ofpat.setQueue then
    let (arg, h) := h.malloc (.u32 a.queueId)
    ⟨a.type, arg, hdrField, h⟩
  else if a.type = Ofpat.setMplsTtl then
    let (arg, h) := h.malloc (.u8 a.mplsTtl)
    ⟨a.type, arg, hdrField, h⟩
  else if a.type = Ofpat.setNwTtl then
    let (arg, h) := h.malloc (.u8 a.nwTtl)
    ⟨a.type, arg, hdrField, h⟩
  else if a.type = Ofpat.setField then
    let hdrField := a.oxmField >>> 1
    if hdrField ≠ ofpxmtOfbVlanVid then ⟨a.type, arg, hdrField, h⟩
    else
      let (arg, h) := h.malloc (.u16 a.vlanVid)
      ⟨a.type, arg, hdrField, h⟩
  else ⟨a.type, arg, hdrField, h⟩

structure ActionLoop where
  arg : Ptr
  hdrField : BitVec 8
  out : Parsed

def parseActionsStep (m : Machine) (s : ActionLoop) (a : Action) : ActionLoop :=
  let r := parseOfpat a s.arg s.hdrField s.out.heap
  let sig := signatureSetBit m r.type.toNat s.out.sig
  if r.type = Ofpat.setField then
    match s.out.aargs Ofpat.setField with
    | some pipeline =>
      -- the root that comes back stays in the local variable
      let (pipeline, heap) := r.heap.jli m pipeline r.hdrField
      ⟨r.arg, r.hdrField, ⟨s.out.aargs, sig, heap.poke pipeline r.hdrField r.arg⟩⟩
    | none =>
      let (pipeline, heap) := r.heap.jli m .null r.hdrField
      ⟨r.arg, r.hdrField,
        ⟨update s.out.aargs Ofpat.setField (some pipeline), sig, heap.poke pipeline r.hdrField r.arg⟩⟩
  else ⟨r.arg, r.hdrField, ⟨update s.out.aargs r.type (some r.arg), sig, r.heap⟩⟩

/-- `parse_actions`. `hdr_field` is read only after it was set, so its start value is free. -/
def parseActions (m : Machine) (actions : List Action) (p : Parsed) : Parsed :=
  (actions.foldl (parseActionsStep m) ⟨.undef, 0, p⟩).out

/-- The loop of `parse_instructions` from the element at the head of `list` on. The type is read at
offset 0 of the wire buffer, the arguments at the element's own offset. -/
def parseInstructionsLoop (m : Machine) (wbuf : List Byte) :
    List Instruction → Ptr → Parsed → Parsed
  | [], _, p => p
  | i :: rest, arg, p =>
    let elt := Instruction.encodeList (i :: rest)
    let instr := be16 wbuf 0
    let record (arg : Ptr) (p : Parsed) : Parsed :=
      let p := p.insert instr arg
      parseInstructionsLoop m wbuf rest arg { p with sig := signatureSetBit m instr.toNat p.sig }
    if instr = Ofpit.gotoTable then
      let (arg, heap) := p.heap.malloc (.u8 (elt.getD 4 0))
      record arg { p with heap := heap }
    else if instr = Ofpit.writeMetadata then
      let (arg, heap) := p.heap.malloc (.u64 (be64 elt 8))
      record arg { p with heap := heap }
    else if instr = Ofpit.writeActions ∨ instr = Ofpit.applyActions ∨ instr = Ofpit.clearActions then
      parseActions m i.actions p
    else if instr = Ofpit.meter then
      let (arg, heap) := p.heap.malloc (.u32 (be32 elt 4))
      record arg { p with heap := heap }
    else record arg p

def parseInstructions (m : Machine) (list : List Instruction) (p : Parsed) : Parsed :=
  parseInstructionsLoop m (Instruction.encodeList list) list .undef p

end P4OfAgent
