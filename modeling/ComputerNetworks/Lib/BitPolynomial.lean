import Mathlib.Algebra.CharP.Two
import Mathlib.Algebra.Field.ZMod
import Mathlib.Algebra.Polynomial.Div

/-!
# Bit strings as polynomials

A bit string stands for the polynomial over the field of two elements whose
coefficients, highest degree first, are its bits. Appending multiplies by a power of
`X`, exclusive or adds, and the value at one is the parity of the bits set.
-/

namespace ComputerNetworks.Lib

open Polynomial

/-- A bit as an element of the field of two elements. -/
def bitVal (b : Bool) : ZMod 2 := if b then 1 else 0

@[simp] theorem bitVal_false : bitVal false = 0 := rfl

@[simp] theorem bitVal_true : bitVal true = 1 := rfl

theorem bitVal_xor (a b : Bool) : bitVal (a ^^ b) = bitVal a + bitVal b := by
  cases a <;> cases b <;> decide

theorem bitVal_mul_self (b : Bool) : bitVal b * bitVal b = bitVal b := by
  cases b <;> decide

/-- The polynomial of a bit string. -/
noncomputable def bitPoly : List Bool → (ZMod 2)[X]
  | [] => 0
  | b :: bits => C (bitVal b) * X ^ bits.length + bitPoly bits

@[simp] theorem bitPoly_nil : bitPoly [] = 0 := rfl

theorem bitPoly_append (front back : List Bool) :
    bitPoly (front ++ back) = bitPoly front * X ^ back.length + bitPoly back := by
  induction front with
  | nil => simp
  | cons b front ih =>
    simp only [List.cons_append, bitPoly, ih, List.length_append, pow_add]
    ring

theorem bitPoly_concat (front : List Bool) (b : Bool) :
    bitPoly (front ++ [b]) = bitPoly front * X + C (bitVal b) := by
  rw [bitPoly_append]
  simp [bitPoly]

@[simp] theorem bitPoly_replicate_false (n : ℕ) : bitPoly (List.replicate n false) = 0 := by
  induction n with
  | zero => rfl
  | succ n ih => simp [List.replicate_succ, bitPoly, ih]

/-- A string is shorter than its polynomial's degree allows. -/
theorem degree_bitPoly_lt (bits : List Bool) : (bitPoly bits).degree < bits.length := by
  induction bits with
  | nil => simp
  | cons b bits ih =>
    have lead : (C (bitVal b) * X ^ bits.length).degree < ((bits.length + 1 : ℕ) : WithBot ℕ) :=
      (degree_C_mul_X_pow_le _ _).trans_lt (by exact_mod_cast Nat.lt_succ_self _)
    have rest : (bitPoly bits).degree < ((bits.length + 1 : ℕ) : WithBot ℕ) :=
      ih.trans (by exact_mod_cast Nat.lt_succ_self _)
    exact (degree_add_le _ _).trans_lt (max_lt lead rest)

/-- Exclusive or adds. -/
theorem bitPoly_xor (bits error : List Bool) (same : bits.length = error.length) :
    bitPoly (List.zipWith xor bits error) = bitPoly bits + bitPoly error := by
  induction bits generalizing error with
  | nil =>
    obtain rfl := List.length_eq_zero_iff.mp same.symm
    simp
  | cons b bits ih =>
    obtain ⟨e, error, rfl⟩ := List.exists_cons_of_length_eq_add_one same.symm
    have rest : bits.length = error.length := by simpa using same
    simp only [List.zipWith_cons_cons, bitPoly, ih error rest, List.length_zipWith, ← rest,
      min_self, bitVal_xor, C_add]
    ring

/-- A string with a bit set is not the zero polynomial. -/
theorem bitPoly_eq_zero_iff (bits : List Bool) : bitPoly bits = 0 ↔ true ∉ bits := by
  induction bits with
  | nil => simp
  | cons b bits ih =>
    cases b with
    | false => simp [bitPoly, ih]
    | true =>
      refine iff_of_false (fun zero => ?_) (by simp)
      -- the leading coefficient is one
      have lead := congrArg (fun p : (ZMod 2)[X] => p.coeff bits.length) zero
      simp [bitPoly, coeff_eq_zero_of_degree_lt (degree_bitPoly_lt bits)] at lead

/-- The value at one counts the bits set, modulo two. -/
theorem eval_one_bitPoly (bits : List Bool) :
    (bitPoly bits).eval 1 = (bits.count true : ZMod 2) := by
  induction bits with
  | nil => simp
  | cons b bits ih => cases b <;> simp [bitPoly, ih, add_comm]

/-- A string with its bits moved to the even positions. -/
def spread : List Bool → List Bool
  | [] => []
  | b :: bits => false :: b :: spread bits

@[simp] theorem length_spread (bits : List Bool) : (spread bits).length = 2 * bits.length := by
  induction bits with
  | nil => rfl
  | cons b bits ih =>
    simp only [spread, List.length_cons, ih]
    ring

/-- Squaring spreads the bits. -/
theorem bitPoly_spread (bits : List Bool) : bitPoly (spread bits) = bitPoly bits ^ 2 := by
  induction bits with
  | nil => simp [spread]
  | cons b bits ih =>
    have square : C (bitVal b) * C (bitVal b) = C (bitVal b) := by
      rw [← C_mul, bitVal_mul_self]
    calc bitPoly (spread (b :: bits))
        = C (bitVal b) * X ^ (2 * bits.length) + bitPoly bits ^ 2 := by
          simp [spread, bitPoly, ih]
      _ = (C (bitVal b) * C (bitVal b)) * X ^ (2 * bits.length) + bitPoly bits ^ 2 := by
          rw [square]
      _ = (C (bitVal b) * X ^ bits.length) ^ 2 + bitPoly bits ^ 2 := by ring
      _ = bitPoly (b :: bits) ^ 2 := (CharTwo.add_sq _ _).symm

end ComputerNetworks.Lib
