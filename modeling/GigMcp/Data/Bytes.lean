import Mathlib.Algebra.Group.Nat.Defs
import Mathlib.Tactic.Common

/-!
# Byte strings with offsets of fixed width

What code that takes a byte string apart computes with: signed integers of a fixed width that
wrap around, slice expressions that have to stay within bounds, numbers of four bytes, the most
significant first, and the bytes of texts.
-/

namespace GigMcp.Data

abbrev Bytes := List UInt8

/-- A property of bytes that all numbers below 256 have. -/
theorem forall_byte {P : UInt8 → Prop} (h : ∀ n : Fin 256, P (UInt8.ofNat n)) (b : UInt8) :
    P b := by
  have hb := h ⟨b.toNat, b.toNat_lt⟩
  rwa [UInt8.ofNat_toNat] at hb

/-! ## Integers that wrap around -/

/-- A number as a signed integer of `w` bits. -/
def wrap (w : Nat) (x : Int) : Int := x.bmod (2 ^ w)

theorem two_pow_eq {w : Nat} (hw : 0 < w) : 2 ^ w = 2 * 2 ^ (w - 1) := by
  rw [← Nat.pow_succ', Nat.succ_eq_add_one, Nat.sub_add_cancel hw]

/-- A number that fits is not changed. -/
theorem wrap_of_fits {w : Nat} {x : Int} (hw : 0 < w) (h : -(2 ^ (w - 1) : Nat) ≤ x)
    (h' : x < (2 ^ (w - 1) : Nat)) : wrap w x = x := by
  have hpow := two_pow_eq hw
  refine Int.bmod_eq_of_le ?_ ?_
  · rw [hpow]
    omega
  · rw [hpow]
    omega

theorem wrap_of_lt {w n : Nat} (hw : 0 < w) (h : n < 2 ^ (w - 1)) : wrap w n = n :=
  wrap_of_fits hw (by omega) (by omega)

/-- A sum that is above the range by less than the range comes out negative. -/
theorem wrap_of_overflow {w n : Nat} (hw : 0 < w) (h : 2 ^ (w - 1) ≤ n) (h' : n < 2 ^ w) :
    wrap w n = n - (2 ^ w : Nat) := by
  have hpow := two_pow_eq hw
  have hmod : (n : Int) % (2 ^ w : Nat) = n := Int.emod_eq_of_lt (by omega) (by omega)
  rw [wrap, Int.bmod_def, hmod, if_neg (by omega)]

/-! ## Slices -/

/-- The part of a byte string from `lo` up to `hi`, if these are within its bounds. -/
def slice (xs : Bytes) (lo hi : Int) : Option Bytes :=
  if 0 ≤ lo ∧ lo ≤ hi ∧ hi ≤ xs.length then some ((xs.drop lo.toNat).take (hi - lo).toNat)
  else none

theorem slice_of_le {xs : Bytes} {a n : Nat} (h : a + n ≤ xs.length) :
    slice xs a ((a + n : Nat) : Int) = some ((xs.drop a).take n) := by
  have hlen : (((a + n : Nat) : Int) - a).toNat = n := by omega
  rw [slice, if_pos (by omega), hlen, Int.toNat_natCast]

theorem slice_to_end {xs : Bytes} {a : Nat} (h : a ≤ xs.length) :
    slice xs a xs.length = some (xs.drop a) := by
  rw [slice, if_pos (by omega), Int.toNat_natCast, List.take_of_length_le]
  rw [List.length_drop]
  omega

theorem slice_of_neg {xs : Bytes} {a : Nat} {hi : Int} (h : hi < 0) : slice xs a hi = none :=
  if_neg (by omega)

theorem slice_of_lt {xs : Bytes} {a n : Nat} (h : xs.length < a + n) :
    slice xs a ((a + n : Nat) : Int) = none :=
  if_neg (by omega)

/-! ## Numbers of four bytes -/

/-- The last 32 bits of a number. -/
def beBytes (n : Nat) : Bytes :=
  [UInt8.ofNat (n >>> 24), UInt8.ofNat (n >>> 16), UInt8.ofNat (n >>> 8), UInt8.ofNat n]

/-- The number that a byte string spells. -/
def beNat (xs : Bytes) : Nat := xs.foldl (fun n b ↦ n * 256 + b.toNat) 0

@[simp] theorem length_beBytes (n : Nat) : (beBytes n).length = 4 := rfl

theorem exists_of_length_four {xs : Bytes} (h : xs.length = 4) :
    ∃ a b c d, xs = [a, b, c, d] := by
  match xs, h with
  | [a, b, c, d], _ => exact ⟨a, b, c, d, rfl⟩

theorem beNat_four (a b c d : UInt8) :
    beNat [a, b, c, d] = ((a.toNat * 256 + b.toNat) * 256 + c.toNat) * 256 + d.toNat := by
  simp [beNat]

theorem beNat_lt {xs : Bytes} (h : xs.length = 4) : beNat xs < 2 ^ 32 := by
  obtain ⟨a, b, c, d, rfl⟩ := exists_of_length_four h
  have ha := a.toNat_lt
  have hb := b.toNat_lt
  have hc := c.toNat_lt
  have hd := d.toNat_lt
  rw [beNat_four]
  omega

theorem beNat_beBytes {n : Nat} (h : n < 2 ^ 32) : beNat (beBytes n) = n := by
  rw [beBytes, beNat_four]
  simp only [UInt8.toNat_ofNat', Nat.shiftRight_eq_div_pow]
  omega

theorem beBytes_beNat {xs : Bytes} (h : xs.length = 4) : beBytes (beNat xs) = xs := by
  obtain ⟨a, b, c, d, rfl⟩ := exists_of_length_four h
  have ha := a.toNat_lt
  have hb := b.toNat_lt
  have hc := c.toNat_lt
  have hd := d.toNat_lt
  rw [beNat_four, beBytes]
  simp only [Nat.shiftRight_eq_div_pow, List.cons.injEq, and_true, ← UInt8.toNat_inj,
    UInt8.toNat_ofNat']
  omega

/-! ## Texts -/

/-- The bytes of a string. -/
def bytesOf (s : String) : Bytes := s.toList.flatMap String.utf8EncodeChar

/-- The string of ASCII bytes. -/
def textOf (bs : Bytes) : String := String.ofList (bs.map fun b ↦ Char.ofNat b.toNat)

theorem bytesOf_textOf {bs : Bytes} (hascii : ∀ b ∈ bs, b < 128) : bytesOf (textOf bs) = bs := by
  have hall : ∀ n : Fin 128, String.utf8EncodeChar (Char.ofNat n) = [UInt8.ofNat n] := by decide
  rw [bytesOf, textOf, String.toList_ofList, List.flatMap_map]
  induction bs with
  | nil => rfl
  | cons b bs ih =>
      have hb : b.toNat < 128 := hascii b List.mem_cons_self
      have hchar := hall ⟨b.toNat, hb⟩
      rw [List.flatMap_cons, hchar, ih fun c hc ↦ hascii c (List.mem_cons_of_mem b hc)]
      simp

end GigMcp.Data
