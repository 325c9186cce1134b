import Mathlib.Data.Nat.ModEq
import Mathlib.Data.Int.ModEq
import Mathlib.Tactic.Ring

/-!
# Cyclic windows

Protocols number their frames modulo some `n` and keep every number in play
inside a window shorter than `n`. Inside such a window the reduced number
determines the unreduced one; `unwrap` recovers it from the window's base.
-/

namespace ComputerNetworks.Lib

variable {n base x y : ℕ}

/-- An offset into a window wraps at most once. -/
theorem add_mod_window {i : ℕ} (positive : 0 < n) (hi : i < n) :
    (base + i) % n = if base % n + i < n then base % n + i else base % n + i - n := by
  have small := Nat.mod_lt base positive
  rw [Nat.add_mod, Nat.mod_eq_of_lt hi]
  split_ifs with wraps
  · exact Nat.mod_eq_of_lt wraps
  · rw [Nat.mod_eq_sub_mod (by omega), Nat.mod_eq_of_lt (by omega)]

/-- The least number from `base` on whose remainder modulo `n` is `k`. -/
def unwrap (n base k : ℕ) : ℕ := base + (k + n - base % n) % n

/-- Unwrapping from the base of a window recovers every number of the window. -/
theorem unwrap_mod (hx : base ≤ x) (hx' : x < base + n) : unwrap n base (x % n) = x := by
  obtain ⟨i, rfl⟩ := Nat.exists_eq_add_of_le hx
  have positive : 0 < n := by omega
  have small := Nat.mod_lt base positive
  have reduced : (base + i) % n = if base % n + i < n then base % n + i else base % n + i - n :=
    add_mod_window positive (by omega)
  have offset : ((base + i) % n + n - base % n) % n = i := by
    rw [reduced]
    split_ifs with wraps
    · rw [show base % n + i + n - base % n = i + n by omega, Nat.add_mod_right,
        Nat.mod_eq_of_lt (by omega)]
    · rw [show base % n + i - n + n - base % n = i by omega, Nat.mod_eq_of_lt (by omega)]
  rw [unwrap, offset]

end ComputerNetworks.Lib
