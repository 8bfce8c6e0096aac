import P4OfAgent.Lib.Bytes

/-! Bit strings in network order: words as bits, most significant first, and the extraction of
fixed-width fields from the front of a bit string. -/

namespace Bits
open Bytes

def bits {w : Nat} (v : BitVec w) : List Bool := (List.range w).map v.getMsbD

def ofBytes (l : List Byte) : List Bool := l.flatMap bits

def toBytes : List Bool → List Byte
  | b₀ :: b₁ :: b₂ :: b₃ :: b₄ :: b₅ :: b₆ :: b₇ :: bs =>
    BitVec.ofBoolListBE [b₀, b₁, b₂, b₃, b₄, b₅, b₆, b₇] :: toBytes bs
  | _ => []

abbrev Extract := StateT (List Bool) Option

def field (w : Nat) : Extract (BitVec w) := fun bs =>
  if h : (bs.take w).length = w then some ((BitVec.ofBoolListBE (bs.take w)).cast h, bs.drop w)
  else none

@[simp] theorem extract_pure {α : Type} (a : α) (bs : List Bool) :
    (pure a : Extract α) bs = some (a, bs) := rfl

@[simp] theorem extract_bind {α β : Type} (x : Extract α) (f : α → Extract β) (bs : List Bool) :
    (x >>= f) bs = (x bs).bind fun r => f r.1 r.2 := rfl

variable {w : Nat}

@[simp] theorem length_bits (v : BitVec w) : (bits v).length = w := by
  simp only [bits, List.length_map, List.length_range]

theorem getD_bits (v : BitVec w) (i : Nat) : (bits v).getD i false = v.getMsbD i := by
  by_cases h : i < w
  · rw [List.getD_eq_getElem _ _ (by simpa only [length_bits] using h)]
    simp only [bits, List.getElem_map, List.getElem_range]
  · rw [List.getD_eq_default _ _ (by simpa only [length_bits] using Nat.le_of_not_lt h)]
    simp only [BitVec.getMsbD, h, decide_false, Bool.false_and]

theorem bits_append {v : Nat} (x : BitVec w) (y : BitVec v) :
    bits (x ++ y) = bits x ++ bits y := by
  refine List.ext_getElem (by simp only [List.length_append, length_bits]) fun i _ _ => ?_
  simp only [bits, List.getElem_append, List.getElem_map, List.getElem_range, List.length_map,
    List.length_range, BitVec.getMsbD_append]
  split_ifs <;> first | rfl | omega

@[simp] theorem field_bits (v : BitVec w) (bs : List Bool) :
    field w (bits v ++ bs) = some (v, bs) := by
  have ht : (bits v ++ bs).take w = bits v := List.take_left' (length_bits v)
  have hd : (bits v ++ bs).drop w = bs := List.drop_left' (length_bits v)
  unfold field
  rw [dif_pos (by rw [ht, length_bits]), hd]
  refine congrArg (fun x => some (x, bs)) (BitVec.eq_of_getMsbD_eq fun i _ => ?_)
  rw [BitVec.getMsbD_cast, BitVec.getMsbD_ofBoolListBE, ht, getD_bits]

theorem ofBytes_cons (b : Byte) (l : List Byte) : ofBytes (b :: l) = bits b ++ ofBytes l :=
  List.flatMap_cons

theorem ofBytes_append (l r : List Byte) : ofBytes (l ++ r) = ofBytes l ++ ofBytes r :=
  List.flatMap_append

theorem toBytes_bits_append (b : Byte) (bs : List Bool) :
    toBytes (bits b ++ bs) = b :: toBytes bs := by
  refine congrArg (· :: toBytes bs) (BitVec.eq_of_getMsbD_eq fun i _ => ?_)
  exact BitVec.getMsbD_ofBoolListBE.trans (getD_bits b i)

@[simp] theorem toBytes_ofBytes (l : List Byte) : toBytes (ofBytes l) = l := by
  induction l with
  | nil => rfl
  | cons b l ih => rw [ofBytes_cons, toBytes_bits_append, ih]

@[simp] theorem ofBytes_toBE16 (v : BitVec 16) : ofBytes (toBE16 v) = bits v := by
  rw [toBE16, ofBytes_cons, ofBytes_cons, ofBytes, List.flatMap_nil, List.append_nil, ← bits_append,
    BitVec.extractLsb'_append_extractLsb']

theorem length_ofBytes (l : List Byte) : (ofBytes l).length = 8 * l.length := by
  induction l with
  | nil => rfl
  | cons b l ih =>
    rw [ofBytes_cons, List.length_append, length_bits, ih, List.length_cons]
    omega

theorem exists_bits {l : List Bool} (h : l.length = w) : ∃ v : BitVec w, bits v = l := by
  refine ⟨(BitVec.ofBoolListBE l).cast h, List.ext_getElem (by rw [length_bits, h]) fun i _ hi => ?_⟩
  simp only [bits, List.getElem_map, List.getElem_range, BitVec.getMsbD_cast,
    BitVec.getMsbD_ofBoolListBE]
  exact List.getD_eq_getElem l false hi

theorem exists_ofBytes {n : Nat} {l : List Bool} (h : l.length = 8 * n) :
    ∃ bs : List Byte, bs.length = n ∧ ofBytes bs = l := by
  induction n generalizing l with
  | zero => exact ⟨[], rfl, (List.length_eq_zero_iff.1 h).symm⟩
  | succ n ih =>
    obtain ⟨b, hb⟩ := exists_bits (l := l.take 8) (w := 8) (by rw [List.length_take]; omega)
    obtain ⟨bs, hlen, hbs⟩ := ih (l := l.drop 8) (by rw [List.length_drop]; omega)
    refine ⟨b :: bs, by rw [List.length_cons, hlen], ?_⟩
    rw [ofBytes_cons, hb, hbs, List.take_append_drop]

/-- Only the bits behind the last whole byte are lost. -/
theorem ofBytes_toBytes {l : List Bool} (h : 8 ∣ l.length) : ofBytes (toBytes l) = l := by
  obtain ⟨n, hn⟩ := h
  obtain ⟨bs, -, rfl⟩ := exists_ofBytes hn
  rw [toBytes_ofBytes]

end Bits
