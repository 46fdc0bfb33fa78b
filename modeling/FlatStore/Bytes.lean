import Std.Data.TreeMap

/-! # Byte strings

    Keys, values and files are strings of bytes. This module gives them

    * **Order**: byte by byte, a proper prefix first. Every map keyed by bytes
      uses it, so its entries come out in this order. It is the order of the
      lists of bytes (`compare_eq`).
    * **Pieces**: a string that grew piece by piece, put together.
    * **Little-endian words**: a number below 2³² as four bytes, lowest byte
      first, and the number read back from a position.
-/

namespace FlatStore

/-- A string of bytes. -/
abbrev Bytes := ByteArray

/-- Bytes are told apart as arrays of bytes are, whichever other instances are in scope. -/
instance : DecidableEq Bytes := ByteArray.instDecidableEq

namespace Bytes

/-! ### Order -/

/-- Byte by byte from position `i` on; a proper prefix comes first. -/
def compareFrom (a b : Bytes) (i : Nat) : Ordering :=
  if ha : i < a.size then
    if hb : i < b.size then (Ord.compare a[i] b[i]).then (compareFrom a b (i + 1)) else .gt
  else if i < b.size then .lt
  else .eq
termination_by a.size - i

/-- Byte by byte from the front; a proper prefix comes first. -/
def compare (a b : Bytes) : Ordering := compareFrom a b 0

theorem compareFrom_eq (a b : Bytes) (i : Nat) :
    compareFrom a b i = Ord.compare (a.data.toList.drop i) (b.data.toList.drop i) := by
  fun_induction compareFrom a b i with
  | case1 i ha hb ih =>
    have ha' : i < a.data.toList.length := by simpa using ha
    have hb' : i < b.data.toList.length := by simpa using hb
    rw [ih, List.drop_eq_getElem_cons ha', List.drop_eq_getElem_cons hb', List.compare_cons_cons]
    rfl
  | case2 i ha hb =>
    have ha' : i < a.data.toList.length := by simpa using ha
    have hb' : b.data.toList.drop i = [] := List.drop_eq_nil_of_le (by simpa using hb)
    rw [hb', List.drop_eq_getElem_cons ha']
    rfl
  | case3 i ha hb =>
    have ha' : a.data.toList.drop i = [] := List.drop_eq_nil_of_le (by simpa using ha)
    have hb' : i < b.data.toList.length := by simpa using hb
    rw [ha', List.drop_eq_getElem_cons hb']
    rfl
  | case4 i ha hb =>
    have ha' : a.data.toList.drop i = [] := List.drop_eq_nil_of_le (by simpa using ha)
    have hb' : b.data.toList.drop i = [] := List.drop_eq_nil_of_le (by simpa using hb)
    rw [ha', hb']
    rfl

/-- The order is that of the lists of bytes. -/
theorem compare_eq (a b : Bytes) : compare a b = Ord.compare a.data.toList b.data.toList :=
  compareFrom_eq a b 0

instance : Std.OrientedCmp Bytes.compare where
  eq_swap {_ _} := by
    simp only [compare_eq]
    exact @Std.OrientedCmp.eq_swap (List UInt8) Ord.compare _ _ _

instance : Std.TransCmp Bytes.compare where
  isLE_trans {_ _ _} := by
    simp only [compare_eq]
    exact @Std.TransCmp.isLE_trans (List UInt8) Ord.compare _ _ _ _

/-- Bytes that compare equal are the same bytes. -/
instance : Std.LawfulEqCmp Bytes.compare where
  compare_self {_} := by
    simp only [compare_eq]
    exact @Std.ReflCmp.compare_self (List UInt8) Ord.compare _ _
  eq_of_compare h := by
    rw [compare_eq] at h
    exact ByteArray.ext (Array.toList_inj.1 (Std.LawfulEqCmp.eq_of_compare h))

/-! ### Pieces -/

/-- The string that grew from these pieces, of which the last comes first. -/
def ofPieces (pieces : List Bytes) : Bytes :=
  pieces.foldr (fun piece before => before ++ piece) ByteArray.empty

@[simp]
theorem ofPieces_nil : ofPieces [] = ByteArray.empty := rfl

@[simp]
theorem ofPieces_cons (piece : Bytes) (pieces : List Bytes) :
    ofPieces (piece :: pieces) = ofPieces pieces ++ piece := rfl

/-! ### Little-endian words -/

/-- The byte at position `i`, as a number; zero past the end. -/
def byteAt (b : Bytes) (i : Nat) : Nat :=
  match b[i]? with
  | some byte => byte.toNat
  | none => 0

/-- The four bytes of a number below 2³², lowest byte first. -/
def ofWord (n : Nat) : Bytes :=
  ⟨#[UInt8.ofNat n, UInt8.ofNat (n / 0x100), UInt8.ofNat (n / 0x10000),
    UInt8.ofNat (n / 0x1000000)]⟩

/-- The number whose four bytes start at position `i`, lowest byte first. -/
def wordAt (b : Bytes) (i : Nat) : Nat :=
  byteAt b i + 0x100 * byteAt b (i + 1) + 0x10000 * byteAt b (i + 2) +
    0x1000000 * byteAt b (i + 3)

@[simp]
theorem size_ofWord (n : Nat) : (ofWord n).size = 4 := rfl

/-- A number below 2³² is read back from its four bytes. -/
theorem wordAt_ofWord (n : Nat) (h : n < 0x100000000) : wordAt (ofWord n) 0 = n := by
  have bytes : wordAt (ofWord n) 0 =
      n % 0x100 + 0x100 * (n / 0x100 % 0x100) + 0x10000 * (n / 0x10000 % 0x100) +
        0x1000000 * (n / 0x1000000 % 0x100) := rfl
  omega

end Bytes

end FlatStore
