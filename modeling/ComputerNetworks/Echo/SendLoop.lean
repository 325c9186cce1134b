import ComputerNetworks.Lib.Runs
import Mathlib.Algebra.Order.BigOperators.Group.List
import Mathlib.Algebra.Order.Ring.Int

/-!
# The blocking send loop

The loop `while (cnt < size) cnt += send(sock, msg + cnt, size - cnt, 0)`. It adds the `-1`
of a failed call to `cnt` like any other result, and so goes back by a byte. A run is
given by the results of its calls.
-/

namespace ComputerNetworks.Echo

open Lib

/-- The loop between two calls, with all the bytes transmitted. -/
structure SendLoop where
  cnt : ℤ
  sent : List UInt8

namespace SendLoop

/-- The bytes from address `pos` on; the message starts at address 0. -/
def bytesAt (memory : ℤ → UInt8) (pos : ℤ) (n : ℕ) : List UInt8 :=
  (List.range n).map fun i : ℕ => memory (pos + i)

/-- `int cnt = 0`. -/
def start : SendLoop := ⟨0, []⟩

/-- An iteration, when `send` returns `result`: an error, or how many of the bytes that it
is asked for were transmitted. -/
def step (memory : ℤ → UInt8) (size : ℕ) (loop : SendLoop) (result : ℤ) : Option SendLoop :=
  if loop.cnt < size ∧ (result = -1 ∨ 1 ≤ result ∧ result ≤ size - loop.cnt) then
    some ⟨loop.cnt + result, loop.sent ++ bytesAt memory loop.cnt result.toNat⟩
  else none

/-- The next call, if there is one, is for bytes of the message only, and a loop that
returns has transmitted the message. -/
structure Law (memory : ℤ → UInt8) (size : ℕ) (loop : SendLoop) : Prop where
  call : loop.cnt < size → 0 ≤ loop.cnt ∧ loop.cnt + (size - loop.cnt) ≤ size
  returned : size ≤ loop.cnt → loop.sent = bytesAt memory 0 size

/-- The errors never outnumber the bytes, and none is among results that add up to the
size. -/
structure Clean (size : ℕ) (results : List ℤ) : Prop where
  nonneg : ∀ k, 0 ≤ (results.take k).sum
  no_error : results.sum = size → -1 ∉ results

variable {memory : ℤ → UInt8} {size : ℕ} {loop loop' : SendLoop} {results : List ℤ}

@[simp] theorem length_bytesAt (pos : ℤ) (n : ℕ) : (bytesAt memory pos n).length = n := by
  simp [bytesAt]

theorem bytesAt_add (m n : ℕ) :
    bytesAt memory 0 (m + n) = bytesAt memory 0 m ++ bytesAt memory m n := by
  simp [bytesAt, List.range_add, Function.comp_def]

/-- What an iteration does to the two counts. -/
theorem step_count {result : ℤ} (next : step memory size loop result = some loop') :
    loop'.cnt = loop.cnt + result ∧ loop.cnt < size ∧ loop'.cnt ≤ size ∧
      (loop'.sent.length : ℤ) = loop.sent.length + result + if result = -1 then 1 else 0 := by
  simp only [step, Option.ite_none_right_eq_some, Option.some.injEq] at next
  obtain ⟨⟨more, valid⟩, rfl⟩ := next
  simp only [List.length_append, length_bytesAt]
  refine ⟨trivial, more, ?_, ?_⟩
  · omega
  · split_ifs <;> omega

/-- An iteration without an error goes on with the message. -/
theorem step_sent {result : ℤ} (next : step memory size loop result = some loop')
    (success : result ≠ -1) {m : ℕ} (cnt : loop.cnt = m) (sent : loop.sent = bytesAt memory 0 m) :
    ∃ n : ℕ, loop'.cnt = n ∧ loop'.sent = bytesAt memory 0 n := by
  simp only [step, Option.ite_none_right_eq_some, Option.some.injEq] at next
  obtain ⟨⟨more, valid⟩, rfl⟩ := next
  refine ⟨m + result.toNat, ?_, ?_⟩
  · dsimp only
    omega
  · rw [sent, cnt, bytesAt_add]

/-- The counts after a run. -/
theorem exec_count (run : exec (step memory size) loop results = some loop') :
    loop'.cnt = loop.cnt + results.sum ∧
      (loop'.sent.length : ℤ) = loop.sent.length + results.sum + results.count (-1) := by
  induction results generalizing loop with
  | nil =>
    cases run
    simp
  | cons result results ih =>
    obtain ⟨middle, next, run⟩ := (exec_cons_eq_some _).mp run
    obtain ⟨cnt, -, -, sent⟩ := step_count next
    obtain ⟨cnt', sent'⟩ := ih run
    rw [List.sum_cons]
    refine ⟨by omega, ?_⟩
    by_cases error : result = -1
    · subst error
      rw [List.count_cons_self]
      rw [if_pos rfl] at sent
      push_cast
      omega
    · rw [List.count_cons_of_ne error]
      rw [if_neg error] at sent
      omega

/-- A run without errors transmits the message up to its position. -/
theorem exec_sent (run : exec (step memory size) loop results = some loop')
    (success : -1 ∉ results) {m : ℕ} (cnt : loop.cnt = m) (sent : loop.sent = bytesAt memory 0 m) :
    ∃ n : ℕ, loop'.cnt = n ∧ loop'.sent = bytesAt memory 0 n := by
  induction results generalizing loop m with
  | nil =>
    cases run
    exact ⟨m, cnt, sent⟩
  | cons result results ih =>
    obtain ⟨middle, next, run⟩ := (exec_cons_eq_some _).mp run
    rw [List.mem_cons, not_or] at success
    obtain ⟨n, cnt', sent'⟩ := step_sent next (Ne.symm success.1) cnt sent
    exact ih run success.2 cnt' sent'

theorem exec_le (run : exec (step memory size) start results = some loop) : loop.cnt ≤ size := by
  apply exec_invariant (I := fun loop => loop.cnt ≤ (size : ℤ)) _ _ run
  · intro loop result loop' _ next
    exact (step_count next).2.2.1
  · exact Int.natCast_nonneg size

/-- A prefix of a run is a run, which the rest goes on from. -/
theorem exec_take (run : exec (step memory size) start results = some loop) (k : ℕ) :
    ∃ middle, exec (step memory size) start (results.take k) = some middle ∧
      exec (step memory size) middle (results.drop k) = some loop := by
  rw [← List.take_append_drop k results, exec_append] at run
  simpa only [List.take_append_drop] using Option.bind_eq_some_iff.mp run

/-- A run keeps the law all along exactly when its results are clean. -/
theorem law_iff (run : exec (step memory size) start results = some loop) :
    (∀ k middle, exec (step memory size) start (results.take k) = some middle →
      Law memory size middle) ↔ Clean size results := by
  constructor
  · intro law
    constructor
    · intro k
      obtain ⟨middle, before, -⟩ := exec_take run k
      have cnt : middle.cnt = 0 + (results.take k).sum := (exec_count before).1
      by_cases more : middle.cnt < size
      · have inside := ((law k middle before).call more).1
        omega
      · have := Int.natCast_nonneg size
        omega
    · intro all
      obtain ⟨cnt, length⟩ := exec_count run
      have whole : loop.cnt = 0 + results.sum := cnt
      have sent := (law results.length loop (by rwa [List.take_length])).returned (by omega)
      have bytes : (loop.sent.length : ℤ) = 0 + results.sum + results.count (-1) := length
      rw [sent, length_bytesAt] at bytes
      rw [← List.count_eq_zero]
      omega
  · intro clean k middle before
    have cnt : middle.cnt = 0 + (results.take k).sum := (exec_count before).1
    have nonneg := clean.nonneg k
    constructor
    · intro more
      omega
    · intro all
      obtain ⟨middle', before', after⟩ := exec_take run k
      obtain rfl : middle' = middle := Option.some.inj (before'.symm.trans before)
      -- a loop that has returned makes no more calls
      have last : results.drop k = [] := by
        cases rest : results.drop k with
        | nil => rfl
        | cons result rest' =>
          rw [rest] at after
          obtain ⟨_, next, -⟩ := (exec_cons_eq_some _).mp after
          have more := (step_count next).2.1
          omega
      have same : results.take k = results := by
        rw [← List.append_nil (results.take k), ← last, List.take_append_drop]
      rw [same] at before cnt
      have le := exec_le before
      obtain ⟨n, cnt', sent⟩ := exec_sent (m := 0) before (clean.no_error (by omega)) rfl rfl
      obtain rfl : n = size := by omega
      exact sent

/-- Without errors the results are clean. -/
theorem clean_of_success (success : ∀ result ∈ results, 1 ≤ result) : Clean size results := by
  constructor
  · intro k
    apply List.sum_nonneg
    intro result mem
    have := success result (List.mem_of_mem_take mem)
    omega
  · intro _ error
    have := success (-1) error
    omega

end SendLoop

end ComputerNetworks.Echo
