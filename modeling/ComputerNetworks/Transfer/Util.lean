import ComputerNetworks.Lib.CyclicWindow

/-!
# Sequence numbers and queues of the file transfer

The constants and helpers that `sendfile` and `recvfile` share: the cyclic test
`between`, the window position `mapToWindow`, the reduction `mod` for negative
numbers, and the linked-list queue of frames.
-/

namespace ComputerNetworks.Transfer

open Lib

/-- `WINDOW_LEN` -/
abbrev windowLen : ℕ := 8

/-- `SEQ_LEN` -/
abbrev seqLen : ℕ := 16

/-- `BUFLEN` -/
abbrev bufLen : ℕ := 32768

/-- Cyclic membership of `ackNum` in the closed arc from `low` to `high`. -/
def between (low high ackNum : ℕ) : Bool :=
  if low ≤ high then decide (low ≤ ackNum ∧ ackNum ≤ high)
  else decide (low ≤ ackNum ∨ ackNum ≤ high)

/-- The position of the number `ind` in the window that starts at `low`. -/
def mapToWindow (low ind : ℕ) : ℕ :=
  if ind < low then ind + (seqLen - low) else ind - low

/-- The remainder in `0..b-1`, also for a negative `a`. -/
def mod (a b : ℤ) : ℤ :=
  let r := a.tmod b
  if r < 0 then r + b else r

/-- For numbers of one window, the cyclic test is the order test. -/
theorem between_mod {n low high x : ℕ} (hhigh : low ≤ high) (hhigh' : high < low + n)
    (hx : low ≤ x) (hx' : x < low + n) :
    between (low % n) (high % n) (x % n) = true ↔ x ≤ high := by
  have positive : 0 < n := by omega
  have small := Nat.mod_lt low positive
  obtain ⟨i, rfl⟩ := Nat.exists_eq_add_of_le hhigh
  obtain ⟨j, rfl⟩ := Nat.exists_eq_add_of_le hx
  rw [add_mod_window positive (show i < n by omega), add_mod_window positive (show j < n by omega)]
  unfold between
  split_ifs <;> simp only [decide_eq_true_eq] <;> omega

/-- A window position is the distance from the window's base. -/
theorem mapToWindow_mod {low x : ℕ} (hx : low ≤ x) (hx' : x < low + seqLen) :
    mapToWindow (low % seqLen) (x % seqLen) = x - low := by
  unfold mapToWindow
  dsimp only [seqLen] at hx' ⊢
  split_ifs <;> omega

/-- The number of the frame before a window's base, as the acks carry it. -/
theorem mod_pred (base : ℕ) :
    (mod (((base % seqLen : ℕ) : ℤ) - 1) seqLen).toNat = (base + 15) % seqLen := by
  dsimp only [mod, seqLen]
  rcases Nat.eq_zero_or_pos (base % 16) with zero | positive
  · have wrapped : (base + 15) % 16 = 15 := by omega
    rw [zero, wrapped]
    rfl
  · have nonnegative : (0 : ℤ) ≤ ((base % 16 : ℕ) : ℤ) - 1 := by omega
    rw [Int.tmod_eq_emod_of_nonneg nonnegative]
    split_ifs <;> omega

section Queue

variable {α : Type*}

/-- `Enqueue`: walk to the end of the list and link the new node there. -/
def enqueue : List α → α → List α
  | [], newNode => [newNode]
  | node :: rest, newNode => node :: enqueue rest newNode

/-- `Dequeue`: unlink the first node, if there is one. -/
def dequeue : List α → List α
  | [] => []
  | _ :: rest => rest

/-- `GetK`: the node `k` links from the root, `none` past the end. -/
def getK : List α → ℕ → Option α
  | [], _ => none
  | node :: _, 0 => some node
  | _ :: rest, k + 1 => getK rest k

@[simp] theorem enqueue_eq (root : List α) (newNode : α) :
    enqueue root newNode = root ++ [newNode] := by
  induction root with
  | nil => rfl
  | cons node rest ih => simp [enqueue, ih]

@[simp] theorem dequeue_eq (root : List α) : dequeue root = root.drop 1 := by
  cases root <;> rfl

@[simp] theorem getK_eq (root : List α) (k : ℕ) : getK root k = root[k]? := by
  induction root generalizing k with
  | nil => rfl
  | cons node rest ih => cases k <;> simp [getK, ih]

end Queue

end ComputerNetworks.Transfer
