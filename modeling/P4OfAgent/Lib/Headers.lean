import P4OfAgent.Lib.Bits

/-! Packet headers in the manner of P4: types of fixed-width fields that are extracted from a bit
string and emitted into one, and instances of them that are valid or not. -/

namespace Headers
open Bits

/-- A header type. Extracting what was emitted gives it back and leaves the bits behind it. -/
class Header (H : Type) where
  zero : H
  emit : H → List Bool
  extract : Extract H
  extract_emit : ∀ h bs, extract (emit h ++ bs) = some (h, bs)

/-- A header instance. The fields of one that is not valid keep their values. -/
structure Inst (H : Type) where
  valid : Bool
  fields : H

namespace Inst
variable {H : Type}

def modify (f : H → H) (i : Inst H) : Inst H := if i.valid then { i with fields := f i.fields } else i

theorem valid_modify (f : H → H) (i : Inst H) : (i.modify f).valid = i.valid := by
  unfold modify
  split_ifs <;> rfl

theorem modify_modify (f g : H → H) (i : Inst H) : (i.modify g).modify f = i.modify (f ∘ g) := by
  obtain ⟨valid, fields⟩ := i
  cases valid <;> rfl

variable [Header H]

def absent : Inst H := ⟨false, Header.zero⟩

/-- `add_header`: an instance that was not valid becomes valid with all fields zero. -/
def add (i : Inst H) : Inst H := if i.valid then i else ⟨true, Header.zero⟩

def remove (i : Inst H) : Inst H := { i with valid := false }

def extract : Extract (Inst H) := do return ⟨true, ← Header.extract⟩

def emit (i : Inst H) : List Bool := if i.valid then Header.emit i.fields else []

theorem extract_emit (h : H) (bs : List Bool) :
    (extract : Extract (Inst H)) (Header.emit h ++ bs) = some (⟨true, h⟩, bs) := by
  simp only [extract, extract_bind, Header.extract_emit, Option.bind_some, extract_pure]

theorem valid_add (i : Inst H) : i.add.valid = true := by
  unfold add
  split_ifs with h
  · exact h
  · rfl

theorem add_of_valid {i : Inst H} (h : i.valid = true) : i.add = i := if_pos h

theorem emit_valid {i : Inst H} (h : i.valid = true) : i.emit = Header.emit i.fields := if_pos h

end Inst
end Headers
