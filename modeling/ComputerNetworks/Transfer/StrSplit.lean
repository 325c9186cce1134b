import ComputerNetworks.Lib.Tokens

/-!
# Splitting a string

`str_split` of `sendfile.c` sizes its array by the delimiters of the string and fills it with
the tokens that `strtok` finds. The first count is one of fields, and `strtok` skips the empty
ones.
-/

namespace ComputerNetworks.Transfer

open Lib

/-- How `str_split` ends. -/
inductive SplitResult
  /-- The array is returned, or the null pointer when there is no memory for it. -/
  | returned (result : Option (List (Option (List Char))))
  /-- `idx < count` failed. -/
  | indexFailed
  /-- `idx == count - 1` failed. -/
  | finalFailed
  deriving DecidableEq

/-- `count` and `last_comma` behind the loop over the characters, where `tmp` is the position
of what is left of the string. -/
def countDelims (aDelim : Char) : List Char → ℕ → ℕ → Option ℕ → ℕ × Option ℕ
  | [], _, count, lastComma => (count, lastComma)
  | c :: rest, tmp, count, lastComma =>
    if aDelim = c then countDelims aDelim rest (tmp + 1) (count + 1) (some tmp)
    else countDelims aDelim rest (tmp + 1) count lastComma

/-- `last_comma < (a_str + strlen(a_str) - 1)`: the null pointer is below every other. -/
def trailingToken (aStr : List Char) (lastComma : Option ℕ) : Bool :=
  match lastComma with
  | none => true
  | some position => decide ((position : ℤ) < (aStr.length : ℤ) - 1)

/-- The final value of `count`. -/
def elementCount (aStr : List Char) (aDelim : Char) : ℕ :=
  let (count, lastComma) := countDelims aDelim aStr 0 0 none
  count + (trailingToken aStr lastComma).toNat + 1

/-- The loop over the tokens, when `strtok` has `saved` left, and what follows it. -/
def fillTokens (aDelim : Char) (count : ℕ) (saved : List Char) (idx : ℕ)
    (result : List (Option (List Char))) : SplitResult :=
  match found : nextToken aDelim saved with
  | none => if idx = count - 1 then .returned (some (result.set idx none)) else .finalFailed
  | some (token, rest) =>
    if idx < count then fillTokens aDelim count rest (idx + 1) (result.set idx (some token))
    else .indexFailed
termination_by saved.length
decreasing_by exact (tokens_eq_cons found).2

/-- `str_split`. The memory that `malloc` finds holds anything. -/
def strSplit (memory : Option (ℕ → Option (List Char))) (aStr : List Char) (aDelim : Char) :
    SplitResult :=
  match memory with
  | none => .returned none
  | some fresh =>
    let count := elementCount aStr aDelim
    fillTokens aDelim count aStr 0 ((List.range count).map fresh)

variable {aStr saved : List Char} {aDelim : Char} {count : ℕ}

/-! ### The array is as long as the fields and a null pointer -/

theorem countDelims_fst (aDelim : Char) (s : List Char) (tmp count : ℕ) (lastComma : Option ℕ) :
    (countDelims aDelim s tmp count lastComma).1 = count + s.count aDelim := by
  induction s generalizing tmp count lastComma with
  | nil => rfl
  | cons c s ih =>
    unfold countDelims
    split_ifs with delim
    · subst delim
      rw [ih, List.count_cons_self]
      omega
    · rw [ih, List.count_cons_of_ne (Ne.symm delim)]

/-- `last_comma` lies in the part of the string that has been read. -/
theorem countDelims_snd_lt {s : List Char} {tmp count position : ℕ} {lastComma : Option ℕ}
    (before : ∀ i, lastComma = some i → i < tmp)
    (last : (countDelims aDelim s tmp count lastComma).2 = some position) :
    position < tmp + s.length := by
  induction s generalizing tmp count lastComma with
  | nil => exact before position last
  | cons c s ih =>
    unfold countDelims at last
    rw [List.length_cons]
    split_ifs at last
    · have := ih (fun i h => by cases h; omega) last
      omega
    · have := ih (fun i h => (before i h).trans (Nat.lt_succ_self tmp)) last
      omega

/-- The last character alone decides whether `last_comma` points at it. -/
theorem countDelims_snd_concat (s : List Char) (c : Char) (tmp count : ℕ) (lastComma : Option ℕ) :
    (countDelims aDelim (s ++ [c]) tmp count lastComma).2 =
      if aDelim = c then some (tmp + s.length)
      else (countDelims aDelim s tmp count lastComma).2 := by
  induction s generalizing tmp count lastComma with
  | nil =>
    simp only [List.nil_append, countDelims, List.length_nil, Nat.add_zero]
    split_ifs <;> rfl
  | cons b s ih =>
    simp only [List.cons_append, countDelims, List.length_cons]
    split_ifs <;> simp_all <;> omega

theorem trailingToken_eq (aStr : List Char) (aDelim : Char) :
    trailingToken aStr (countDelims aDelim aStr 0 0 none).2 =
      !decide (aStr.getLast? = some aDelim) := by
  rcases List.eq_nil_or_concat aStr with rfl | ⟨front, c, rfl⟩
  · rfl
  · rw [List.concat_eq_append, countDelims_snd_concat, List.getLast?_concat]
    by_cases delim : aDelim = c
    · simp [delim, trailingToken]
    · have plain : c ≠ aDelim := Ne.symm delim
      rw [if_neg delim]
      cases last : (countDelims aDelim front 0 0 none).2 with
      | none => simp [trailingToken, plain]
      | some position =>
        have inside := countDelims_snd_lt (fun i h => by cases h) last
        simp [trailingToken, plain]
        omega

/-- The array has room for the fields and the null pointer. -/
theorem elementCount_eq (aStr : List Char) (aDelim : Char) :
    elementCount aStr aDelim = (fields aDelim aStr).length + 1 := by
  have trailing := trailingToken_eq aStr aDelim
  have delims := countDelims_fst aDelim aStr 0 0 none
  unfold elementCount
  rw [length_fields]
  split
  next count lastComma first =>
  rw [first] at trailing delims
  simp only at trailing delims
  rw [trailing, delims]
  by_cases last : aStr.getLast? = some aDelim <;> simp [last]

/-! ### The tokens that are found fill it -/

/-- The loop puts the tokens behind what is written already, if they fit. -/
theorem fillTokens_eq (written room : List (Option (List Char)))
    (size : written.length + room.length = count)
    (fit : (tokens aDelim saved).length < room.length) :
    fillTokens aDelim count saved written.length (written ++ room) =
      if (tokens aDelim saved).length + 1 = room.length then
        .returned (some (written ++ ((tokens aDelim saved).map some ++ [none])))
      else .finalFailed := by
  generalize found : tokens aDelim saved = left at fit ⊢
  induction left generalizing saved written room with
  | nil =>
    obtain ⟨slot, room, rfl⟩ := List.exists_cons_of_length_pos fit
    rw [fillTokens]
    split
    next =>
      rw [List.length_cons] at size
      by_cases full : room = []
      · subst full
        have last : written.length = count - 1 := by
          rw [List.length_nil] at size
          omega
        simp [last]
      · have spare : 0 < room.length := List.length_pos_iff.mpr full
        rw [if_neg (by omega), if_neg (by simpa using full)]
    next token rest next =>
      rw [(tokens_eq_cons next).1] at found
      cases found
  | cons token left ih =>
    obtain ⟨slot, room, rfl⟩ := List.exists_cons_of_length_pos (Nat.zero_lt_of_lt fit)
    rw [fillTokens]
    split
    next none_left =>
      rw [tokens_eq_nil none_left] at found
      cases found
    next first rest next =>
      rw [(tokens_eq_cons next).1] at found
      obtain ⟨rfl, others⟩ := List.cons.inj found
      simp only [List.length_cons] at size fit
      have store : (written ++ slot :: room).set written.length (some first) =
          written ++ [some first] ++ room := by simp
      have step := ih (written ++ [some first]) room
        (by rw [List.length_append, List.length_singleton]; omega) others (by omega)
      rw [List.length_append, List.length_singleton] at step
      rw [if_pos (by omega), store, step]
      simp

/-- The array is filled exactly when no field is empty. -/
theorem strSplit_eq (fresh : ℕ → Option (List Char)) (aStr : List Char) (aDelim : Char) :
    strSplit (some fresh) aStr aDelim =
      if [] ∈ fields aDelim aStr then .finalFailed
      else .returned (some ((fields aDelim aStr).map some ++ [none])) := by
  have count := elementCount_eq aStr aDelim
  have bound := length_tokens_le aDelim aStr
  have array : ((List.range (elementCount aStr aDelim)).map fresh).length =
      elementCount aStr aDelim := by rw [List.length_map, List.length_range]
  have run : strSplit (some fresh) aStr aDelim = _ :=
    fillTokens_eq [] _ ((Nat.zero_add _).trans array) (by omega)
  rw [run]
  split_ifs with full empty empty
  · have same : (tokens aDelim aStr).length = (fields aDelim aStr).length := by omega
    exact absurd empty (length_tokens_eq.mp same)
  · rw [tokens_eq_fields_of_notMem empty, List.nil_append]
  · rfl
  · have same := length_tokens_eq.mpr empty
    omega

/-- The index stays in the array. The array is filled exactly for a nonempty string that does
not begin with the delimiter and has no two adjacent ones, and then it holds the fields and the
null pointer. -/
theorem strSplit_asserts (fresh : ℕ → Option (List Char)) (aStr : List Char) (aDelim : Char) :
    strSplit (some fresh) aStr aDelim ≠ .indexFailed ∧
      (strSplit (some fresh) aStr aDelim ≠ .finalFailed ↔
        aStr ≠ [] ∧ aStr.head? ≠ some aDelim ∧ ¬ [aDelim, aDelim] <:+: aStr) ∧
      (strSplit (some fresh) aStr aDelim =
          .returned (some ((fields aDelim aStr).map some ++ [none])) ↔
        aStr ≠ [] ∧ aStr.head? ≠ some aDelim ∧ ¬ [aDelim, aDelim] <:+: aStr) ∧
      ((fields aDelim aStr).map some ++ [none]).length = elementCount aStr aDelim := by
  rw [← nil_notMem_fields, strSplit_eq, elementCount_eq]
  split_ifs with empty <;> simp [empty]

end ComputerNetworks.Transfer
