import ComputerNetworks.Lib.Progress
import Mathlib.Algebra.Order.BigOperators.Group.List
import Mathlib.Tactic.Ring

/-!
# Floods that ebb

A flood is an exchange of packets of messages in which whoever gets a packet may answer
some of its messages, each by one of a higher level, and sends the answers to at most
`width` others. Levels are bounded, so a message can be weighed by how far it is from the
top: then a packet outweighs all the copies of its answer.
-/

namespace ComputerNetworks.Lib

namespace Flood

/-- Each answer is to a message of its own, of a lower level. -/
abbrev Answers (answers messages : List ℕ) : Prop :=
  List.SublistForall₂ (fun answer message => message < answer) answers messages

/-- Answers to parts of a packet are answers to the packet. -/
theorem Answers.append {as bs ms ns : List ℕ} (first : Answers as ms) (second : Answers bs ns) :
    Answers (as ++ bs) (ms ++ ns) := by
  induction first with
  | @nil ms =>
    induction ms with
    | nil => exact second
    | cons m ms ih => exact .cons_right ih
  | cons less _ ih => exact .cons less ih
  | cons_right _ ih => exact .cons_right ih

variable (width top : ℕ)

/-- The weight of a message, by its distance to the top. -/
def weight (level : ℕ) : ℕ := (2 * width + 1) ^ (top + 1 - level)

/-- The weight of a packet. -/
def packetWeight (levels : List ℕ) : ℕ := 1 + (levels.map (weight width top)).sum

variable {width top} {answers messages : List ℕ}

theorem weight_pos (width top level : ℕ) : 0 < weight width top level := Nat.pow_pos (Nat.succ_pos _)

/-- A message outweighs two copies of its answer for each receiver. -/
theorem weight_answer_le (width : ℕ) {answer message : ℕ} (less : message < answer) (le : message ≤ top) :
    width * (2 * weight width top answer) ≤ weight width top message := by
  have later : weight width top answer ≤ (2 * width + 1) ^ (top - message) :=
    Nat.pow_le_pow_right (Nat.succ_pos _) (by omega)
  calc width * (2 * weight width top answer)
      ≤ width * (2 * (2 * width + 1) ^ (top - message)) :=
        Nat.mul_le_mul_left _ (Nat.mul_le_mul_left _ later)
    _ ≤ (2 * width + 1) ^ (top - message) * (2 * width + 1) := by
        rw [Nat.mul_add_one]
        refine Nat.le_trans (Nat.le_of_eq ?_) (Nat.le_add_right _ _)
        ring
    _ = weight width top message := by
        rw [← pow_succ, weight]
        congr 1
        omega

/-- A message outweighs a few messages of higher levels. -/
theorem sum_weight_lt {message : ℕ} (few : answers.length ≤ width)
    (less : ∀ answer ∈ answers, message < answer) (le : message ≤ top) :
    (answers.map (weight width top)).sum < weight width top message := by
  have small : ∀ w ∈ answers.map (weight width top), w ≤ (2 * width + 1) ^ (top - message) := by
    intro w member
    obtain ⟨answer, inside, rfl⟩ := List.mem_map.mp member
    have higher := less answer inside
    exact Nat.pow_le_pow_right (Nat.succ_pos _) (by omega)
  calc (answers.map (weight width top)).sum
      ≤ (answers.map (weight width top)).length • (2 * width + 1) ^ (top - message) :=
        List.sum_le_card_nsmul _ _ small
    _ ≤ width * (2 * width + 1) ^ (top - message) := by
        rw [List.length_map, nsmul_eq_mul, Nat.cast_id]
        exact Nat.mul_le_mul_right _ few
    _ < (2 * width + 1) * (2 * width + 1) ^ (top - message) :=
        Nat.mul_lt_mul_of_pos_right (by omega) (Nat.pow_pos (Nat.succ_pos _))
    _ = weight width top message := by
        rw [← pow_succ', weight]
        congr 1
        omega

theorem Answers.sum_le (h : Answers answers messages) (low : ∀ m ∈ messages, m ≤ top) :
    width * (answers.map fun a => 2 * weight width top a).sum ≤
      (messages.map (weight width top)).sum := by
  induction h with
  | nil => simp
  | @cons a m as ms less _ ih =>
    have rest := ih fun m member => low m (List.mem_cons_of_mem _ member)
    have here := weight_answer_le width less (low m List.mem_cons_self)
    rw [List.map_cons, List.map_cons, List.sum_cons, List.sum_cons, Nat.mul_add]
    exact Nat.add_le_add here rest
  | cons_right _ ih =>
    have rest := ih fun m member => low m (List.mem_cons_of_mem _ member)
    rw [List.map_cons, List.sum_cons]
    exact Nat.le_trans rest (Nat.le_add_left _ _)

/-- Messages pay for the packet they are in. -/
theorem packetWeight_le (h : answers ≠ []) :
    packetWeight width top answers ≤ (answers.map fun a => 2 * weight width top a).sum := by
  cases answers with
  | nil => exact absurd rfl h
  | cons a as =>
    have single := weight_pos width top a
    have doubled : (as.map (weight width top)).sum ≤ (as.map fun a => 2 * weight width top a).sum :=
      List.sum_le_sum fun b _ => Nat.le_mul_of_pos_left _ Nat.two_pos
    rw [packetWeight, List.map_cons, List.map_cons, List.sum_cons, List.sum_cons]
    omega

/-- A packet outweighs the copies of its answer. -/
theorem Answers.packetWeight_lt (width : ℕ) (h : Answers answers messages) (low : ∀ m ∈ messages, m ≤ top) :
    width * (if answers = [] then 0 else packetWeight width top answers) <
      packetWeight width top messages := by
  split_ifs with none_
  · exact Nat.lt_of_lt_of_le Nat.one_pos (Nat.le_add_right 1 _)
  · calc width * packetWeight width top answers
        ≤ width * (answers.map fun a => 2 * weight width top a).sum :=
          Nat.mul_le_mul_left _ (packetWeight_le none_)
      _ ≤ (messages.map (weight width top)).sum := h.sum_le low
      _ < packetWeight width top messages := Nat.lt_add_of_pos_left Nat.one_pos

end Flood

end ComputerNetworks.Lib
