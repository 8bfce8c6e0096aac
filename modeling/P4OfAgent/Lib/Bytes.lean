import Mathlib.Algebra.Ring.Nat
import Mathlib.Algebra.Ring.Int.Defs
import Mathlib.Data.List.Basic
import Mathlib.Data.List.GetD
import Mathlib.Logic.Function.Basic

/-! Byte buffers as flat memory. A buffer is read and written by offset from its start, past its
end as well: bounds are something to prove about the offsets, not part of the type. -/

namespace Bytes

abbrev Byte := BitVec 8

/-- The memory around a buffer, by offset from the buffer's first byte. -/
abbrev Buf := Nat → Byte

def memset (b : Buf) (off n : Nat) (v : Byte) : Buf := fun i =>
  if off ≤ i ∧ i < off + n then v else b i

def memcpy (b : Buf) (off : Nat) (src : Buf) (n : Nat) : Buf := fun i =>
  if off ≤ i ∧ i < off + n then src (i - off) else b i

def slice (b : Buf) (off n : Nat) : List Byte := (List.range n).map fun i => b (off + i)

def ofList (l : List Byte) : Buf := fun i => l.getD i 0

/-- The 16-bit word stored at `i` in network order; likewise the wider ones. -/
def be16 (l : List Byte) (i : Nat) : BitVec 16 := l.getD i 0 ++ l.getD (i + 1) 0

def be32 (l : List Byte) (i : Nat) : BitVec 32 := be16 l i ++ be16 l (i + 2)

def be64 (l : List Byte) (i : Nat) : BitVec 64 := be32 l i ++ be32 l (i + 4)

def toBE16 (v : BitVec 16) : List Byte := [v.extractLsb' 8 8, v.extractLsb' 0 8]

def toBE32 (v : BitVec 32) : List Byte := toBE16 (v.extractLsb' 16 16) ++ toBE16 (v.extractLsb' 0 16)

def toBE64 (v : BitVec 64) : List Byte := toBE32 (v.extractLsb' 32 32) ++ toBE32 (v.extractLsb' 0 32)

def le16 (l : List Byte) (i : Nat) : BitVec 16 := l.getD (i + 1) 0 ++ l.getD i 0

def toLE16 (v : BitVec 16) : List Byte := [v.extractLsb' 0 8, v.extractLsb' 8 8]

def swap16 (v : BitVec 16) : BitVec 16 := v.extractLsb' 0 8 ++ v.extractLsb' 8 8

theorem toBE16_append (hi lo : Byte) : toBE16 (hi ++ lo : BitVec 16) = [hi, lo] := by
  rw [toBE16, BitVec.extractLsb'_append_eq_left, BitVec.extractLsb'_append_eq_right]

theorem be16_toBE16 (v : BitVec 16) (l : List Byte) : be16 (toBE16 v ++ l) 0 = v := by
  simp only [be16, toBE16, List.cons_append, List.nil_append, List.getD_cons_zero, List.getD_cons_succ]
  exact BitVec.extractLsb'_append_extractLsb' ..

@[simp] theorem swap16_swap16 (v : BitVec 16) : swap16 (swap16 v) = v := by
  unfold swap16
  rw [BitVec.extractLsb'_append_eq_left, BitVec.extractLsb'_append_eq_right,
    BitVec.extractLsb'_append_extractLsb']

@[simp] theorem toLE16_swap16 (v : BitVec 16) : toLE16 (swap16 v) = toBE16 v := by
  unfold swap16 toLE16
  rw [BitVec.extractLsb'_append_eq_left, BitVec.extractLsb'_append_eq_right]
  rfl

variable (b src : Buf) (off n : Nat)

@[simp] theorem length_slice : (slice b off n).length = n := by
  simp only [slice, List.length_map, List.length_range]

@[simp] theorem slice_zero : slice b off 0 = [] := rfl

theorem slice_succ : slice b off (n + 1) = b off :: slice b (off + 1) n := by
  simp only [slice, List.range_succ_eq_map, List.map_cons, Nat.add_zero, List.map_map]
  refine congrArg _ (List.map_congr_left fun i _ => ?_)
  simp only [Function.comp_apply, Nat.add_assoc, Nat.add_comm 1 i]

theorem slice_add (m : Nat) : slice b off (m + n) = slice b off m ++ slice b (off + m) n := by
  simp only [slice, List.range_add, List.map_append, List.map_map, Function.comp_def,
    Nat.add_assoc]

theorem slice_congr {b' : Buf} {off' : Nat} (h : ∀ i < n, b (off + i) = b' (off' + i)) :
    slice b off n = slice b' off' n :=
  List.map_congr_left fun i hi => h i (List.mem_range.1 hi)

theorem slice_shift (k : Nat) : slice (fun i => b (k + i)) off n = slice b (k + off) n :=
  slice_congr _ _ _ fun i _ => congrArg b (Nat.add_assoc k off i).symm

theorem slice_ofList (l : List Byte) : slice (ofList l) 0 l.length = l := by
  refine List.ext_getElem (length_slice ..) fun i _ hi => ?_
  simp only [slice, ofList, List.getElem_map, List.getElem_range, Nat.zero_add]
  exact List.getD_eq_getElem l 0 hi

theorem slice_memcpy_inside {k m : Nat} (h : k + m ≤ n) :
    slice (memcpy b off src n) (off + k) m = slice src k m := by
  refine slice_congr _ _ _ fun i hi => ?_
  rw [memcpy, if_pos (by omega)]
  exact congrArg src (by omega)

theorem slice_memcpy_self : slice (memcpy b off src n) off n = slice src 0 n :=
  slice_memcpy_inside b src off n (Nat.le_of_eq (Nat.zero_add n))

theorem slice_memcpy_outside {o m : Nat} (h : o + m ≤ off ∨ off + n ≤ o) :
    slice (memcpy b off src n) o m = slice b o m :=
  slice_congr _ _ _ fun i hi => if_neg (by omega)

theorem slice_memcpy_append :
    slice (memcpy b off src n) 0 (off + n) = slice b 0 off ++ slice src 0 n := by
  rw [slice_add, Nat.zero_add, slice_memcpy_self, slice_memcpy_outside]
  exact .inl (Nat.le_of_eq (Nat.zero_add off))

theorem memcpy_apply_outside {i : Nat} (h : i < off ∨ off + n ≤ i) :
    memcpy b off src n i = b i := if_neg (by omega)

theorem memset_apply_inside (v : Byte) {i : Nat} (h : off ≤ i ∧ i < off + n) :
    memset b off n v i = v := if_pos h

theorem slice_memset_inside (v : Byte) {o m : Nat} (h : off ≤ o ∧ o + m ≤ off + n) :
    slice (memset b off n v) o m = List.replicate m v := by
  refine List.ext_getElem (by simp only [length_slice, List.length_replicate]) fun i hi _ => ?_
  simp only [length_slice] at hi
  simp only [slice, List.getElem_map, List.getElem_range, List.getElem_replicate]
  exact memset_apply_inside b off n v (by omega)

theorem ofList_append_left {l r : List Byte} {i : Nat} (h : i < l.length) :
    ofList (l ++ r) i = ofList l i := List.getD_append _ _ _ _ h

theorem ofList_append_right {l r : List Byte} (i : Nat) :
    ofList (l ++ r) (l.length + i) = ofList r i := by
  rw [ofList, List.getD_append_right _ _ _ _ (Nat.le_add_right ..), Nat.add_sub_cancel_left]
  rfl

theorem slice_memcpy_ofList_append (l : List Byte) :
    slice (memcpy b off (ofList l) l.length) 0 (off + l.length) = slice b 0 off ++ l := by
  rw [slice_memcpy_append, slice_ofList]

theorem slice_ofList_take (l : List Byte) {k : Nat} (hk : k ≤ l.length) :
    slice (ofList l) 0 k = l.take k := by
  refine List.ext_getElem ?_ fun i hi hi' => ?_
  · rw [length_slice, List.length_take, Nat.min_eq_left hk]
  · rw [length_slice] at hi
    simp only [slice, ofList, List.getElem_map, List.getElem_range, Nat.zero_add, List.getElem_take]
    exact List.getD_eq_getElem l 0 (Nat.lt_of_lt_of_le hi hk)

theorem take_drop_slice (off k : Nat) :
    ((slice b 0 n).drop off).take k = slice b off (min k (n - off)) := by
  refine List.ext_getElem ?_ fun i hi hi' => ?_
  · simp only [List.length_take, List.length_drop, length_slice]
  · simp only [slice, List.getElem_take, List.getElem_drop, List.getElem_map, List.getElem_range,
      Nat.zero_add]

theorem length_eq_of_slice {b b' : Buf} {n n' : Nat} (h : slice b 0 n = slice b' 0 n') : n = n' := by
  have hlen := congrArg List.length h
  rwa [length_slice, length_slice] at hlen

theorem slice_of_slice {b b' : Buf} {n off k : Nat} (h : slice b 0 n = slice b' 0 n) (hk : off + k ≤ n) :
    slice b off k = slice b' off k := by
  have hmin : min k (n - off) = k := Nat.min_eq_left (by omega)
  have hslice := congrArg (fun l => (l.drop off).take k) h
  rwa [take_drop_slice, take_drop_slice, hmin] at hslice

theorem slice_ofList_pad (l : List Byte) (k : Nat) :
    slice (ofList l) 0 (l.length + k) = l ++ List.replicate k 0 := by
  rw [slice_add, slice_ofList, Nat.zero_add]
  refine congrArg (l ++ ·) (List.ext_getElem ?_ fun i hi _ => ?_)
  · rw [length_slice, List.length_replicate]
  · simp only [slice, ofList, List.getElem_map, List.getElem_range, List.getElem_replicate]
    exact List.getD_eq_default _ _ (Nat.le_add_right ..)

theorem slice_ofList_append (l r : List Byte) (n : Nat) :
    slice (ofList (l ++ r)) l.length n = slice (ofList r) 0 n :=
  slice_congr _ _ _ fun i _ => by rw [ofList_append_right, Nat.zero_add]

theorem slice_ofList_middle (l m r : List Byte) :
    slice (ofList (l ++ (m ++ r))) l.length m.length = m := by
  rw [slice_ofList_append]
  refine (slice_congr _ _ _ fun i hi => ?_).trans (slice_ofList m)
  rw [Nat.zero_add, ofList_append_left hi]

theorem getD_append_right (l r : List Byte) (i : Nat) : (l ++ r).getD (l.length + i) 0 = r.getD i 0 :=
  ofList_append_right i

theorem be16_append_right (l r : List Byte) (i : Nat) : be16 (l ++ r) (l.length + i) = be16 r i := by
  rw [be16, be16, getD_append_right, Nat.add_assoc, getD_append_right]

theorem be32_append_right (l r : List Byte) (i : Nat) : be32 (l ++ r) (l.length + i) = be32 r i := by
  rw [be32, be32, be16_append_right, Nat.add_assoc, be16_append_right]

theorem be64_append_right (l r : List Byte) (i : Nat) : be64 (l ++ r) (l.length + i) = be64 r i := by
  rw [be64, be64, be32_append_right, Nat.add_assoc, be32_append_right]

theorem be32_toBE32 (v : BitVec 32) (l : List Byte) : be32 (toBE32 v ++ l) 0 = v := by
  have hlow : be16 (toBE16 (v.extractLsb' 16 16) ++ (toBE16 (v.extractLsb' 0 16) ++ l)) (0 + 2) =
      be16 (toBE16 (v.extractLsb' 0 16) ++ l) 0 := be16_append_right _ _ 0
  rw [be32, toBE32, List.append_assoc, be16_toBE16, hlow, be16_toBE16]
  exact BitVec.extractLsb'_append_extractLsb' ..

theorem be64_toBE64 (v : BitVec 64) (l : List Byte) : be64 (toBE64 v ++ l) 0 = v := by
  have hlow : be32 (toBE32 (v.extractLsb' 32 32) ++ (toBE32 (v.extractLsb' 0 32) ++ l)) (0 + 4) =
      be32 (toBE32 (v.extractLsb' 0 32) ++ l) 0 := be32_append_right _ _ 0
  rw [be64, toBE64, List.append_assoc, be32_toBE32, hlow, be32_toBE32]
  exact BitVec.extractLsb'_append_extractLsb' ..

end Bytes
