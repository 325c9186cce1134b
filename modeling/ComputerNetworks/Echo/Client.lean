import ComputerNetworks.Echo.Node
import ComputerNetworks.Echo.SendLoop

/-!
# The client

`client.c`: a message of `size_msg` bytes is sent and its echo is received. The receive
loop sets its position to the length of the last read, where the send loop adds to it.
-/

namespace ComputerNetworks.Echo.Client

open Lib

/-- `validateUserInput`. -/
def validateUserInput (argc : ℤ) (serverPort sizeMsg : UInt16) (count : ℤ) : Bool :=
  if argc ≠ 5 ∨ (serverPort < 18000 ∨ serverPort > 18200) ∨
      (sizeMsg.toNat < 10 ∨ sizeMsg.toNat > msgSizeMax) ∨ (count < 1 ∨ count > 10000)
  then false
  else true

/-- The send loop of a round trip. -/
def sending (sendbuffer : ℤ → UInt8) (sizeMsg : UInt16) : SendLoop → ℤ → Option SendLoop :=
  SendLoop.step sendbuffer sizeMsg.toNat

/-- The receive loop between two calls of `recv`. -/
structure Receiving where
  buffer : ℕ → UInt8
  cnt : ℤ

namespace Receiving

/-- `cnt = 0`. -/
def start (buffer : ℕ → UInt8) : Receiving := ⟨buffer, 0⟩

/-- An iteration, when `recv` returns some of the bytes that it is asked for or fails with
`-1`. A call for bytes outside the buffer is not defined. -/
def step (sizeMsg : UInt16) (loop : Receiving) (result : Option (List UInt8)) :
    Option Receiving :=
  if loop.cnt < sizeMsg.toNat ∧ 0 ≤ loop.cnt then
    match result with
    | none => some { loop with cnt := -1 }
    | some bytes =>
      if bytes.length ≤ sizeMsg.toNat - loop.cnt then
        some ⟨writeAt loop.buffer loop.cnt.toNat bytes, bytes.length⟩
      else none
  else none

/-- The loop takes the reply in these pieces, leaves when all its bytes are consumed and not
before, calls for bytes of the buffer only and leaves the reply there. -/
structure Reads (sizeMsg : UInt16) (memory : ℕ → UInt8) (reply : List UInt8)
    (pieces : List (List UInt8)) : Prop where
  exits : ∀ k ≤ pieces.length, ∃ loop,
    exec (step sizeMsg) (start memory) ((pieces.take k).map some) = some loop ∧
      (sizeMsg.toNat ≤ loop.cnt ↔ (pieces.take k).flatten.length = sizeMsg.toNat) ∧
      (loop.cnt < sizeMsg.toNat →
        0 ≤ loop.cnt ∧ loop.cnt + (sizeMsg.toNat - loop.cnt) ≤ sizeMsg.toNat)
  whole : ∀ loop, exec (step sizeMsg) (start memory) (pieces.map some) = some loop →
    slice loop.buffer 0 sizeMsg.toNat = reply

variable {argc count cnt : ℤ} {serverPort sizeMsg : UInt16} {buffer : ℕ → UInt8}
  {reply : List UInt8} {pieces : List (List UInt8)}

theorem step_some {bytes : List UInt8} (nonneg : 0 ≤ cnt) (going : cnt < sizeMsg.toNat)
    (requested : bytes.length ≤ sizeMsg.toNat - cnt) :
    step sizeMsg ⟨buffer, cnt⟩ (some bytes) =
      some ⟨writeAt buffer cnt.toNat bytes, bytes.length⟩ := by
  unfold step
  rw [if_pos ⟨going, nonneg⟩]
  exact if_pos requested

/-- When the first piece was not the whole reply, the loop takes all others and does not
leave. -/
theorem exec_going (begun : 0 < cnt) (going : cnt < sizeMsg.toNat)
    (some_ : ∀ piece ∈ pieces, piece ≠ [])
    (fits : cnt + pieces.flatten.length ≤ sizeMsg.toNat) :
    ∃ loop, exec (step sizeMsg) ⟨buffer, cnt⟩ (pieces.map some) = some loop ∧
      loop.cnt < sizeMsg.toNat := by
  induction pieces generalizing buffer cnt with
  | nil => exact ⟨_, rfl, going⟩
  | cons first pieces ih =>
    obtain ⟨first_some, later_some⟩ := List.forall_mem_cons.mp some_
    have positive := List.length_pos_iff.mpr first_some
    rw [List.flatten_cons, List.length_append, Int.natCast_add] at fits
    have next : step sizeMsg ⟨buffer, cnt⟩ (some first) =
        some ⟨writeAt buffer cnt.toNat first, first.length⟩ :=
      step_some begun.le going (by omega)
    obtain ⟨loop, run, more⟩ : ∃ loop, exec (step sizeMsg)
        ⟨writeAt buffer cnt.toNat first, first.length⟩ (pieces.map some) = some loop ∧
          loop.cnt < sizeMsg.toNat :=
      ih (by omega) (by omega) later_some (by omega)
    exact ⟨loop, (exec_cons_eq_some _).mpr ⟨_, next, run⟩, more⟩

/-- A reply that comes in several pieces is taken in full, and the loop waits for more. -/
theorem exec_several {first : List UInt8} (some_ : ∀ piece ∈ first :: pieces, piece ≠ [])
    (more : pieces ≠ []) (size : (first :: pieces).flatten.length = sizeMsg.toNat) :
    ∃ loop, exec (step sizeMsg) (start buffer) ((first :: pieces).map some) = some loop ∧
      loop.cnt < sizeMsg.toNat := by
  obtain ⟨first_some, later_some⟩ := List.forall_mem_cons.mp some_
  have first_pos := List.length_pos_iff.mpr first_some
  have rest_pos := List.length_pos_iff.mpr (flatten_ne_nil later_some more)
  rw [List.flatten_cons, List.length_append] at size
  have next : step sizeMsg (start buffer) (some first) =
      some ⟨writeAt buffer 0 first, first.length⟩ :=
    step_some (le_refl 0) (by omega) (by omega)
  obtain ⟨loop, run, going⟩ : ∃ loop, exec (step sizeMsg)
      ⟨writeAt buffer 0 first, first.length⟩ (pieces.map some) = some loop ∧
        loop.cnt < sizeMsg.toNat :=
    exec_going (by omega) (by omega) later_some (by omega)
  exact ⟨loop, (exec_cons_eq_some _).mpr ⟨_, next, run⟩, going⟩

/-- A reply that comes in one piece. -/
theorem Reads.single (positive : 0 < sizeMsg.toNat) (size : reply.length = sizeMsg.toNat) :
    Reads sizeMsg buffer reply [reply] := by
  have run : exec (step sizeMsg) (start buffer) ([reply].map some) =
      some ⟨writeAt buffer 0 reply, reply.length⟩ := by
    refine (exec_cons_eq_some _).mpr ⟨_, ?_, rfl⟩
    exact step_some (le_refl 0) (by omega) (by omega)
  constructor
  · intro k hk
    obtain rfl | rfl : k = 0 ∨ k = 1 := by
      have : k ≤ 1 := hk
      omega
    · refine ⟨start buffer, rfl, ?_, fun _ => ⟨le_refl _, by omega⟩⟩
      apply iff_of_false
      · simp only [start]
        omega
      · simp only [List.take_zero, List.flatten_nil, List.length_nil]
        omega
    · refine ⟨_, run, ?_, fun more => ?_⟩
      · apply iff_of_true
        · exact Int.ofNat_le.mpr size.ge
        · have whole : ([reply].take 1).flatten = reply := List.flatten_singleton
          rw [whole, size]
      · dsimp only at more ⊢
        omega
  · intro loop run'
    obtain rfl : _ = loop := Option.some.inj (run.symm.trans run')
    have held : slice buffer 0 ([] : List UInt8).length = [] := rfl
    rw [← size]
    exact slice_writeAt held

theorem size_pos (valid : validateUserInput argc serverPort sizeMsg count = true) :
    0 < sizeMsg.toNat := by
  simp only [validateUserInput, Bool.if_false_left, Bool.and_true, Bool.not_eq_true',
    decide_eq_false_iff_not] at valid
  omega

/-- The client reads the whole echo, stays in its buffer and leaves the loop at the end of
the echo exactly when one call of `recv` returns it all. -/
theorem reads_iff (valid : validateUserInput argc serverPort sizeMsg count = true)
    (size : reply.length = sizeMsg.toNat) (some_ : ∀ piece ∈ pieces, piece ≠ [])
    (split : pieces.flatten = reply) :
    Reads sizeMsg buffer reply pieces ↔ pieces.length = 1 := by
  have positive := size_pos valid
  constructor
  · intro reads
    cases pieces with
    | nil =>
      rw [← split, List.flatten_nil, List.length_nil] at size
      omega
    | cons first pieces =>
      by_contra several
      have more : pieces ≠ [] := by
        rintro rfl
        exact several rfl
      obtain ⟨loop, run, going⟩ := exec_several some_ more (split ▸ size)
      -- the loop should leave after the last piece
      obtain ⟨loop', run', exits, -⟩ := reads.exits (first :: pieces).length (le_refl _)
      rw [List.take_length] at run' exits
      obtain rfl : loop' = loop := Option.some.inj (run'.symm.trans run)
      have leaves := exits.mpr (by rw [split, size])
      omega
  · intro one
    obtain ⟨first, rfl⟩ := List.length_eq_one_iff.mp one
    rw [List.flatten_singleton] at split
    subst split
    exact .single positive size

/-- A reply of ten bytes that comes in one piece. -/
theorem reads_one : Reads 10 (fun _ => 0) (List.replicate 10 1) [List.replicate 10 1] := by
  have valid : validateUserInput 5 18000 10 1 = true := rfl
  have some_ : ∀ piece ∈ [List.replicate 10 (1 : UInt8)], piece ≠ [] := by decide
  exact (reads_iff valid rfl some_ rfl).mpr rfl

/-- A reply of ten bytes in two pieces: the loop does not leave. -/
theorem not_reads_two : validateUserInput 5 18000 10 1 = true ∧
    ¬ Reads 10 (fun _ => 0) (List.replicate 10 1) [List.replicate 5 1, List.replicate 5 1] := by
  refine ⟨rfl, fun reads => ?_⟩
  obtain ⟨loop, run, exits, -⟩ := reads.exits 2 (le_refl 2)
  obtain rfl : _ = loop := Option.some.inj run
  have leaves := exits.mpr rfl
  contradiction

end Receiving

end ComputerNetworks.Echo.Client
