import ComputerNetworks.Lib.BitPolynomial
import Mathlib.Algebra.Polynomial.Monic
import Mathlib.GroupTheory.OrderOfElement
import Mathlib.RingTheory.AdjoinRoot

/-!
# Cyclic redundancy checks by a shift register

A register of `w` bits divides the polynomial of the bits shifted into it by its
generator, the polynomial of degree `w` whose lower coefficients are the feedback mask.
The check of a bit string is what the register holds after the string and `w` zeros.
An error pattern passes unseen when the generator divides it, which decides parity,
burst and double errors.
-/

namespace ComputerNetworks.Lib

open Polynomial

variable {w : ℕ}

/-- The bits of a register, highest first. -/
def registerBits (r : BitVec w) : List Bool := (List.range w).map r.getMsbD

@[simp] theorem length_registerBits (r : BitVec w) : (registerBits r).length = w := by
  simp [registerBits]

theorem registerBits_xor (r s : BitVec w) :
    registerBits (r ^^^ s) = List.zipWith xor (registerBits r) (registerBits s) := by
  apply List.ext_getElem
  · simp
  · intro i hi _
    simp [registerBits]

@[simp] theorem registerBits_zero : registerBits 0#w = List.replicate w false := by
  apply List.ext_getElem
  · simp
  · intro i hi _
    simp [registerBits]

/-- Shifting a bit in moves the highest bit out. -/
theorem registerBits_shiftConcat (positive : 0 < w) (r : BitVec w) (b : Bool) :
    r.msb :: registerBits (r.shiftConcat b) = registerBits r ++ [b] := by
  apply List.ext_getElem
  · simp
  · intro i hi hi'
    rw [List.getElem_append]
    cases i with
    | zero => simp [registerBits, BitVec.msb_eq_getMsbD_zero, positive]
    | succ i =>
      simp only [List.length_cons, registerBits, List.getElem_cons_succ,
        List.getElem_map, List.getElem_range, BitVec.getMsbD_eq_getLsbD,
        BitVec.getLsbD_shiftConcat, List.getElem_singleton] at hi ⊢
      grind

/-- The polynomial a register holds. -/
noncomputable def regPoly (r : BitVec w) : (ZMod 2)[X] := bitPoly (registerBits r)

theorem degree_regPoly_lt (r : BitVec w) : (regPoly r).degree < w := by
  simpa [regPoly] using degree_bitPoly_lt (registerBits r)

@[simp] theorem regPoly_zero : regPoly 0#w = 0 := by simp [regPoly]

theorem regPoly_xor (r s : BitVec w) : regPoly (r ^^^ s) = regPoly r + regPoly s := by
  unfold regPoly
  rw [registerBits_xor, bitPoly_xor _ _ (by simp)]

theorem regPoly_eq_zero_iff (r : BitVec w) : regPoly r = 0 ↔ r = 0#w := by
  unfold regPoly
  rw [bitPoly_eq_zero_iff]
  constructor
  · intro clear
    apply BitVec.eq_of_getMsbD_eq
    intro i hi
    by_contra set
    exact clear (List.mem_map.mpr ⟨i, by simpa using hi, by simpa using set⟩)
  · rintro rfl
    simp [List.mem_replicate]

theorem regPoly_injective : Function.Injective (regPoly : BitVec w → (ZMod 2)[X]) := by
  intro r s same
  have zero : regPoly (r ^^^ s) = 0 := by rw [regPoly_xor, same, CharTwo.add_self_eq_zero]
  exact BitVec.xor_eq_zero_iff.mp ((regPoly_eq_zero_iff _).mp zero)

/-! ### Division -/

/-- The polynomial by which a register with feedback mask `g` divides. -/
noncomputable def generator (g : BitVec w) : (ZMod 2)[X] := X ^ w + regPoly g

theorem generator_monic (g : BitVec w) : (generator g).Monic :=
  monic_X_pow_add (degree_regPoly_lt g)

theorem degree_generator (g : BitVec w) : (generator g).degree = w := by
  have lower : (regPoly g).degree < (X ^ w : (ZMod 2)[X]).degree := by
    rw [degree_X_pow]
    exact degree_regPoly_lt g
  rw [generator, degree_add_eq_left_of_degree_lt lower, degree_X_pow]

/-- One clock of the register: shift the bit `b` in, and feed the bit shifted out back. -/
def shiftIn (g r : BitVec w) (b : Bool) : BitVec w :=
  if r.msb then r.shiftConcat b ^^^ g else r.shiftConcat b

/-- Shift a string in. -/
def feed (g : BitVec w) : BitVec w → List Bool → BitVec w := List.foldl (shiftIn g)

/-- The check of a string. -/
def check (g : BitVec w) (bits : List Bool) : BitVec w :=
  feed g (feed g 0#w bits) (List.replicate w false)

variable {g : BitVec w}

/-- A clock is one step of the long division. -/
theorem regPoly_shiftIn (positive : 0 < w) (r : BitVec w) (b : Bool) :
    regPoly r * X + C (bitVal b) =
      C (bitVal r.msb) * generator g + regPoly (shiftIn g r b) := by
  have shifted : C (bitVal r.msb) * X ^ w + regPoly (r.shiftConcat b) =
      regPoly r * X + C (bitVal b) := by
    have both := congrArg bitPoly (registerBits_shiftConcat positive r b)
    rwa [bitPoly_concat, bitPoly, length_registerBits] at both
  unfold shiftIn generator
  rw [← shifted]
  cases r.msb with
  | false => simp
  | true =>
    have cancel : regPoly g + regPoly g = 0 := CharTwo.add_self_eq_zero _
    simp only [if_true, regPoly_xor, bitVal_true, C_1, one_mul]
    linear_combination -cancel

/-- The residue class of what the register holds, after one clock. -/
theorem mk_shiftIn (positive : 0 < w) (r : BitVec w) (b : Bool) :
    AdjoinRoot.mk (generator g) (regPoly (shiftIn g r b)) =
      AdjoinRoot.mk (generator g) (regPoly r * X + C (bitVal b)) := by
  rw [regPoly_shiftIn positive, map_add, map_mul, AdjoinRoot.mk_self, mul_zero, zero_add]

/-- The residue class of what the register holds, after a string. -/
theorem mk_feed (positive : 0 < w) (r : BitVec w) (bits : List Bool) :
    AdjoinRoot.mk (generator g) (regPoly (feed g r bits)) =
      AdjoinRoot.mk (generator g) (regPoly r * X ^ bits.length + bitPoly bits) := by
  induction bits generalizing r with
  | nil => simp [feed]
  | cons b bits ih =>
    have step := mk_shiftIn (g := g) positive r b
    change AdjoinRoot.mk _ (regPoly (feed g (shiftIn g r b) bits)) = _
    rw [ih, map_add, map_mul, step, ← map_mul, ← map_add, bitPoly, List.length_cons, pow_succ]
    have grouped : (regPoly r * X + C (bitVal b)) * X ^ bits.length + bitPoly bits =
        regPoly r * (X ^ bits.length * X) + (C (bitVal b) * X ^ bits.length + bitPoly bits) := by
      ring
    rw [grouped]

theorem mk_check (positive : 0 < w) (bits : List Bool) :
    AdjoinRoot.mk (generator g) (regPoly (check g bits)) =
      AdjoinRoot.mk (generator g) (bitPoly bits * X ^ w) := by
  unfold check
  rw [mk_feed positive, map_add, map_mul, mk_feed positive, ← map_mul, ← map_add]
  simp

/-- A register holds the remainder of a polynomial exactly when it is congruent to it. -/
theorem regPoly_eq_modByMonic_iff (r : BitVec w) (p : (ZMod 2)[X]) :
    regPoly r = p %ₘ generator g ↔
      AdjoinRoot.mk (generator g) (regPoly r) = AdjoinRoot.mk (generator g) p := by
  have monic := generator_monic g
  have reduced : regPoly r %ₘ generator g = regPoly r := by
    rw [modByMonic_eq_self_iff monic, degree_generator]
    exact degree_regPoly_lt r
  rw [AdjoinRoot.mk_eq_mk]
  constructor
  · intro same
    rw [← modByMonic_eq_zero_iff_dvd monic, sub_modByMonic, reduced, same, sub_self]
  · intro divides
    rw [← reduced]
    exact modByMonic_eq_of_dvd_sub monic divides

/-- The check of a string is the remainder of its polynomial, moved up by `w` places. -/
theorem regPoly_check (positive : 0 < w) (bits : List Bool) :
    regPoly (check g bits) = (bitPoly bits * X ^ w) %ₘ generator g :=
  (regPoly_eq_modByMonic_iff _ _).mpr (mk_check positive bits)

/-! ### Errors -/

/-- The check is linear. -/
theorem check_xor (positive : 0 < w) (bits error : List Bool) (same : bits.length = error.length) :
    check g (List.zipWith xor bits error) = check g bits ^^^ check g error := by
  apply regPoly_injective
  rw [regPoly_xor, regPoly_check positive, regPoly_check positive, regPoly_check positive,
    bitPoly_xor bits error same, add_mul, add_modByMonic]

/-- An error in a string and one in its check cancel when the generator divides both
together. -/
theorem check_eq_iff (positive : 0 < w) (error : List Bool) (r : BitVec w) :
    check g error = r ↔ generator g ∣ bitPoly (error ++ registerBits r) := by
  have sum : bitPoly (error ++ registerBits r) = bitPoly error * X ^ w - regPoly r := by
    rw [bitPoly_append, length_registerBits, CharTwo.sub_eq_add]
    rfl
  rw [sum, ← AdjoinRoot.mk_eq_mk, ← mk_check positive, ← regPoly_injective.eq_iff]
  constructor
  · intro same
    rw [same]
  · intro congruent
    rw [(regPoly_eq_modByMonic_iff _ _).mpr congruent]
    exact ((regPoly_eq_modByMonic_iff _ _).mpr rfl).symm

/-- A generator with an even number of terms sees every odd number of errors. -/
theorem check_ne_of_odd (positive : 0 < w) (even : (generator g).eval 1 = 0)
    (error : List Bool) (r : BitVec w)
    (odd : Odd ((error ++ registerBits r).count true)) : check g error ≠ r := by
  intro unseen
  obtain ⟨q, factors⟩ := (check_eq_iff positive error r).mp unseen
  have parity : (((error ++ registerBits r).count true : ℕ) : ZMod 2) = 0 := by
    rw [← eval_one_bitPoly, factors, eval_mul, even, zero_mul]
  rw [ZMod.natCast_eq_zero_iff_even] at parity
  exact (Nat.not_even_iff_odd.mpr odd) parity

/-- Zeros behind an error do not hide it, when the generator has a constant term. -/
theorem check_append_replicate_false (positive : 0 < w) (coprime : IsCoprime (generator g) X)
    (error : List Bool) (n : ℕ) :
    check g (error ++ List.replicate n false) = 0#w ↔ generator g ∣ bitPoly error := by
  have moved : bitPoly ((error ++ List.replicate n false) ++ registerBits 0#w) =
      bitPoly error * X ^ (n + w) := by
    rw [bitPoly_append, bitPoly_append]
    simp [pow_add, mul_assoc]
  rw [check_eq_iff positive, moved]
  constructor
  · exact (IsCoprime.pow_right coprime).dvd_of_dvd_mul_right
  · intro divides
    exact divides.mul_right _

/-- A burst no longer than the register is seen. -/
theorem check_burst (positive : 0 < w) (coprime : IsCoprime (generator g) X)
    (burst : List Bool) (short : burst.length ≤ w) (set : true ∈ burst) (m n : ℕ) :
    check g (List.replicate m false ++ burst ++ List.replicate n false) ≠ 0#w := by
  rw [Ne, check_append_replicate_false positive coprime, bitPoly_append, bitPoly_replicate_false,
    zero_mul, zero_add]
  apply (generator_monic g).not_dvd_of_degree_lt
  · rw [Ne, bitPoly_eq_zero_iff, not_not]
    exact set
  · rw [degree_generator]
    exact (degree_bitPoly_lt burst).trans_le (by exact_mod_cast short)

/-- Errors confined to a window no longer than the register are seen. -/
theorem check_window (positive : 0 < w) (coprime : IsCoprime (generator g) X)
    {error : List Bool} (set : true ∈ error) {start n : ℕ} (short : n ≤ w)
    (window : ∀ i, error[i]? = some true → start ≤ i ∧ i < start + n) :
    check g error ≠ 0#w := by
  have clear : ∀ part : List Bool, true ∉ part → part = List.replicate part.length false := by
    intro part none
    refine List.eq_replicate_of_mem fun b hb => ?_
    cases b with
    | false => rfl
    | true => exact absurd hb none
  have front : true ∉ error.take start := by
    intro mem
    obtain ⟨i, hi⟩ := List.mem_iff_getElem?.mp mem
    rw [List.getElem?_take] at hi
    split_ifs at hi with before
    exact absurd (window i hi).1 (by omega)
  have back : true ∉ (error.drop start).drop n := by
    intro mem
    obtain ⟨i, hi⟩ := List.mem_iff_getElem?.mp mem
    rw [List.getElem?_drop, List.getElem?_drop] at hi
    exact absurd (window _ hi).2 (by omega)
  have split : error.take start ++ (error.drop start).take n ++ (error.drop start).drop n = error := by
    rw [List.append_assoc, List.take_append_drop, List.take_append_drop]
  have burst : true ∈ (error.drop start).take n := by
    rw [← split, List.mem_append, List.mem_append] at set
    exact (set.resolve_right back).resolve_left front
  rw [← split, clear _ front, clear _ back]
  exact check_burst positive coprime _ ((List.length_take_le _ _).trans short) burst _ _

/-- Two errors `d + 1` bits apart are seen unless `X` has order dividing `d + 1`. -/
theorem check_pair (positive : 0 < w) (coprime : IsCoprime (generator g) X) (m d n : ℕ) :
    check g (List.replicate m false ++ (true :: List.replicate d false ++ [true]) ++
        List.replicate n false) = 0#w ↔
      orderOf (AdjoinRoot.root (generator g)) ∣ d + 1 := by
  have pair : bitPoly (List.replicate m false ++ (true :: List.replicate d false ++ [true])) =
      X ^ (d + 1) - 1 := by
    rw [bitPoly_append, bitPoly_concat, CharTwo.sub_eq_add]
    simp [bitPoly, pow_succ]
  rw [check_append_replicate_false positive coprime, pair, ← AdjoinRoot.mk_eq_mk, map_pow,
    AdjoinRoot.mk_X, map_one, orderOf_dvd_iff_pow_eq_one]

/-! ### Powers of `X` -/

/-- The number with the given binary digits, lowest first. -/
def ofBinary : List Bool → ℕ
  | [] => 0
  | b :: digits => 2 * ofBinary digits + b.toNat

/-- The register that holds `X` to the power given by its binary digits: each digit
squares, and a one multiplies by `X`. -/
def powerReg (g : BitVec w) : List Bool → BitVec w
  | [] => feed g 0#w [true]
  | b :: digits =>
    let square := feed g 0#w (spread (registerBits (powerReg g digits)))
    if b then shiftIn g square false else square

theorem mk_powerReg (positive : 0 < w) (digits : List Bool) :
    AdjoinRoot.mk (generator g) (regPoly (powerReg g digits)) =
      AdjoinRoot.root (generator g) ^ ofBinary digits := by
  induction digits with
  | nil =>
    rw [powerReg, mk_feed positive]
    simp [bitPoly, ofBinary]
  | cons b digits ih =>
    have square : AdjoinRoot.mk (generator g)
        (regPoly (feed g 0#w (spread (registerBits (powerReg g digits))))) =
          AdjoinRoot.root (generator g) ^ (2 * ofBinary digits) := by
      rw [mk_feed positive, regPoly_zero, zero_mul, zero_add, bitPoly_spread, map_pow, mul_comm 2,
        pow_mul, ← ih]
      rfl
    cases b with
    | false => exact square
    | true =>
      change AdjoinRoot.mk _ (regPoly (shiftIn g _ false)) = _
      rw [mk_shiftIn positive, map_add, map_mul, square]
      simp [ofBinary, pow_succ]

/-- A power of `X` is one exactly when its register holds one. -/
theorem root_pow_eq_one_iff (positive : 0 < w) (digits : List Bool) :
    AdjoinRoot.root (generator g) ^ ofBinary digits = 1 ↔
      powerReg g digits = powerReg g [] := by
  rw [← mk_powerReg positive, ← pow_zero (AdjoinRoot.root (generator g)),
    show (0 : ℕ) = ofBinary [] from rfl, ← mk_powerReg positive [],
    ← regPoly_eq_modByMonic_iff, ← regPoly_injective.eq_iff,
    ← (regPoly_eq_modByMonic_iff (powerReg g []) _).mpr rfl]

end ComputerNetworks.Lib
