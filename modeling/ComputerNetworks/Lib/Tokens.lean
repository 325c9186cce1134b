import Mathlib.Data.List.DropRight
import Mathlib.Data.List.Infix
import Mathlib.Data.List.TakeWhile
import Mathlib.Data.Nat.Notation

/-!
# Tokens and fields

A string is cut at a delimiter in two ways. `splitOn` gives the fields, which may be empty;
the tokens that `strtok` finds are the nonempty fields.
-/

namespace ComputerNetworks.Lib

variable {α : Type*} [DecidableEq α] {d : α} {s token rest : List α}

/-- What `strtok` finds in what is left of a string: the next token and what is left then. -/
def nextToken (d : α) (s : List α) : Option (List α × List α) :=
  match s.dropWhile (· = d) with
  | [] => none
  | c :: cs => some ((c :: cs).takeWhile (· ≠ d), ((c :: cs).dropWhile (· ≠ d)).drop 1)

/-- What is left of a string behind its next token. -/
def behindToken (d : α) (s : List α) : List α := ((nextToken d s).map Prod.snd).getD []

/-- The nonempty fields. -/
def tokens (d : α) (s : List α) : List (List α) := (s.splitOn d).filter (· ≠ [])

/-- The fields, where a delimiter at the very end adds none. -/
def fields (d : α) (s : List α) : List (List α) :=
  if s.getLast? = some d then (s.splitOn d).dropLast else s.splitOn d

/-! ### Fields -/

theorem splitOn_cons_self (d : α) (s : List α) : (d :: s).splitOn d = [] :: s.splitOn d := by
  rw [List.splitOn_cons_eq_if_modifyHead, beq_self_eq_true, if_pos rfl]

theorem splitOn_cons_of_ne {c : α} (plain : c ≠ d) (s : List α) :
    (c :: s).splitOn d = (s.splitOn d).modifyHead (c :: ·) := by
  rw [List.splitOn_cons_eq_if_modifyHead, beq_eq_false_iff_ne.mpr plain, if_neg Bool.false_ne_true]

/-- Without a delimiter there is one field. -/
theorem splitOn_of_dropWhile_nil (last : s.dropWhile (· ≠ d) = []) :
    s.takeWhile (· ≠ d) = s ∧ s.splitOn d = [s] := by
  induction s with
  | nil => exact ⟨rfl, rfl⟩
  | cons c s ih =>
    have plain : c ≠ d := by
      rintro rfl
      simp at last
    have later : s.dropWhile (· ≠ d) = [] := by simpa [plain] using last
    obtain ⟨all, single⟩ := ih later
    constructor
    · simpa [plain] using all
    · rw [splitOn_cons_of_ne plain, single]
      rfl

/-- The first field goes up to the first delimiter, and the others are those of the rest. -/
theorem splitOn_of_dropWhile_cons {c : α} (behind : s.dropWhile (· ≠ d) = c :: rest) :
    s.splitOn d = s.takeWhile (· ≠ d) :: rest.splitOn d := by
  induction s with
  | nil => cases behind
  | cons b s ih =>
    by_cases delim : b = d
    · subst delim
      have here : b = c ∧ s = rest := by simpa using behind
      rw [here.2, splitOn_cons_self]
      simp
    · have later : s.dropWhile (· ≠ d) = c :: rest := by simpa [delim] using behind
      rw [splitOn_cons_of_ne delim, ih later]
      simp [delim]

/-- The fields hold everything but the delimiters. -/
theorem exists_mem_splitOn {c : α} : (∃ field ∈ s.splitOn d, c ∈ field) ↔ c ∈ s ∧ c ≠ d := by
  induction s with
  | nil => simp
  | cons b s ih =>
    by_cases delim : b = d
    · subst delim
      rw [splitOn_cons_self, List.exists_mem_cons_iff, ih, List.mem_cons]
      constructor
      · rintro (bad | ⟨member, ne⟩)
        · cases bad
        · exact ⟨.inr member, ne⟩
      · rintro ⟨here | member, ne⟩
        · exact absurd here ne
        · exact .inr ⟨member, ne⟩
    · obtain ⟨first, later, cut⟩ := List.exists_cons_of_ne_nil (List.splitOn_ne_nil d s)
      rw [cut, List.exists_mem_cons_iff] at ih
      rw [splitOn_cons_of_ne delim, cut, List.modifyHead_cons, List.exists_mem_cons_iff,
        List.mem_cons, List.mem_cons, or_assoc, ih]
      constructor
      · rintro (rfl | ⟨member, ne⟩)
        · exact ⟨.inl rfl, delim⟩
        · exact ⟨.inr member, ne⟩
      · rintro ⟨here | member, ne⟩
        · exact .inl here
        · exact .inr ⟨member, ne⟩

theorem length_splitOn (d : α) (s : List α) : (s.splitOn d).length = s.count d + 1 := by
  induction s with
  | nil => rfl
  | cons c s ih =>
    by_cases delim : c = d
    · subst delim
      rw [splitOn_cons_self, List.length_cons, ih, List.count_cons_self]
    · rw [splitOn_cons_of_ne delim, List.length_modifyHead, ih, List.count_cons_of_ne delim]

/-- Every delimiter but one at the very end adds a field. -/
theorem length_fields (d : α) (s : List α) :
    (fields d s).length = s.count d + if s.getLast? = some d then 0 else 1 := by
  unfold fields
  split_ifs with trailing
  · rw [List.length_dropLast, length_splitOn]
    rfl
  · exact length_splitOn d s

@[simp] theorem fields_nil (d : α) : fields d [] = [[]] := rfl

theorem fields_singleton_self (d : α) : fields d [d] = [[]] := by
  rw [fields, if_pos List.getLast?_singleton, splitOn_cons_self]
  rfl

theorem fields_ne_nil (d : α) (s : List α) : fields d s ≠ [] := by
  intro empty
  have size := length_fields d s
  rw [empty, List.length_nil] at size
  split_ifs at size with trailing
  have found : 0 < s.count d := List.count_pos_iff.mpr (List.mem_of_getLast? trailing)
  omega

theorem fields_cons_self (nonempty : s ≠ []) : fields d (d :: s) = [] :: fields d s := by
  have last : (d :: s).getLast? = s.getLast? := List.getLast?_cons_of_ne_nil nonempty
  unfold fields
  rw [last, splitOn_cons_self]
  split_ifs
  · exact List.dropLast_cons_of_ne_nil (List.splitOn_ne_nil d s)
  · rfl

theorem fields_cons_of_ne {c : α} (plain : c ≠ d) (s : List α) :
    fields d (c :: s) = (fields d s).modifyHead (c :: ·) := by
  cases s with
  | nil =>
    have last : ¬ [c].getLast? = some d := by simpa using plain
    rw [fields, if_neg last, splitOn_cons_of_ne plain]
    rfl
  | cons b s =>
    have last : (c :: b :: s).getLast? = (b :: s).getLast? := List.getLast?_cons_cons
    unfold fields
    rw [last, splitOn_cons_of_ne plain]
    split_ifs
    · exact List.modifyHead_dropLast.symm
    · rfl

/-- The delimiter that ends the first field. -/
theorem eq_of_dropWhile_cons {c : α} (behind : s.dropWhile (· ≠ d) = c :: rest) : c = d := by
  have stop := List.head?_dropWhile_not (fun a => decide (a ≠ d)) s
  rw [behind] at stop
  simpa using stop

/-- The fields one by one, where nothing follows a delimiter at the very end. -/
theorem fields_of_dropWhile_cons {c : α} (behind : s.dropWhile (· ≠ d) = c :: rest) :
    fields d s = s.takeWhile (· ≠ d) :: if rest = [] then [] else fields d rest := by
  obtain rfl := eq_of_dropWhile_cons behind
  have split := List.takeWhile_append_dropWhile (p := (· ≠ c)) (l := s)
  rw [behind] at split
  rw [fields, splitOn_of_dropWhile_cons behind, ← split, List.getLast?_append_cons]
  by_cases last : rest = []
  · subst last
    simp
  · rw [List.getLast?_cons_of_ne_nil last, if_neg last, fields]
    split_ifs
    · exact List.dropLast_cons_of_ne_nil (List.splitOn_ne_nil c rest)
    · rfl

theorem fields_of_dropWhile_nil (last : s.dropWhile (· ≠ d) = []) : fields d s = [s] := by
  obtain ⟨all, single⟩ := splitOn_of_dropWhile_nil last
  have plain : s.getLast? ≠ some d := by
    intro trailing
    have member := List.mem_of_getLast? trailing
    rw [← all] at member
    simpa using List.mem_takeWhile_imp member
  rw [fields, if_neg plain, single]

/-- The first field is empty exactly when nothing stands in front of the first delimiter. -/
theorem head?_fields : (fields d s).head? = some [] ↔ s = [] ∨ s.head? = some d := by
  cases s with
  | nil => simp
  | cons c s =>
    by_cases delim : c = d
    · subst delim
      by_cases last : s = []
      · simp [last, fields_singleton_self]
      · simp [fields_cons_self last]
    · rw [fields_cons_of_ne delim, List.head?_modifyHead]
      simp [delim]

/-- A later field is empty exactly when two delimiters are adjacent. -/
theorem nil_mem_tail_fields : [] ∈ (fields d s).tail ↔ [d, d] <:+: s := by
  induction s with
  | nil => simp
  | cons c s ih =>
    rw [List.infix_cons_iff]
    by_cases delim : c = d
    · subst delim
      by_cases last : s = []
      · simp [last, fields_singleton_self]
      · obtain ⟨first, later, cut⟩ := List.exists_cons_of_ne_nil (fields_ne_nil c s)
        have start : first = [] ↔ s.head? = some c := by
          have := head?_fields (d := c) (s := s)
          simpa [cut, last] using this
        rw [cut, List.tail_cons] at ih
        rw [fields_cons_self last, List.tail_cons, cut, List.mem_cons, ih, eq_comm, start]
        cases s <;> simp [List.cons_prefix_cons, eq_comm (a := c)]
    · rw [fields_cons_of_ne delim, List.tail_modifyHead, ih]
      simp [List.cons_prefix_cons, Ne.symm delim]

/-- No field is empty: the string is nonempty, does not begin with the delimiter and has no
two adjacent delimiters. -/
theorem nil_notMem_fields :
    [] ∉ fields d s ↔ s ≠ [] ∧ s.head? ≠ some d ∧ ¬ [d, d] <:+: s := by
  obtain ⟨first, later, cut⟩ := List.exists_cons_of_ne_nil (fields_ne_nil d s)
  have head := head?_fields (d := d) (s := s)
  have tail := nil_mem_tail_fields (d := d) (s := s)
  rw [cut, List.head?_cons, Option.some_inj] at head
  rw [cut, List.tail_cons] at tail
  rw [cut, List.mem_cons, eq_comm, head, tail, not_or, not_or, and_assoc]

/-! ### Tokens -/

theorem tokens_cons_self (d : α) (s : List α) : tokens d (d :: s) = tokens d s := by
  rw [tokens, splitOn_cons_self]
  rfl

/-- A token is made of characters of the string that are not delimiters. -/
theorem mem_of_mem_tokens {c : α} (member : token ∈ tokens d s) (inside : c ∈ token) :
    c ∈ s ∧ c ≠ d :=
  exists_mem_splitOn.mp ⟨token, List.mem_of_mem_filter member, inside⟩

theorem tokens_concat_self (d : α) (s : List α) : tokens d (s ++ [d]) = tokens d s := by
  have cut : (s ++ [d]).splitOn d = s.splitOn d ++ [[]] := List.splitOn_append_cons_self s []
  rw [tokens, cut, List.filter_append]
  simp [tokens]

/-- Dropping delimiters drops nothing else. -/
theorem mem_dropWhile_self {c : α} (plain : c ≠ d) : c ∈ s.dropWhile (· = d) ↔ c ∈ s := by
  induction s with
  | nil => rfl
  | cons b s ih =>
    by_cases delim : b = d
    · subst delim
      simpa [plain] using ih
    · simp [delim]

/-- Delimiters at the beginning add no token. -/
theorem tokens_dropWhile_self (d : α) (s : List α) :
    tokens d (s.dropWhile (· = d)) = tokens d s := by
  induction s with
  | nil => rfl
  | cons c s ih =>
    by_cases delim : c = d
    · subst delim
      rw [tokens_cons_self, ← ih]
      simp
    · simp [delim]

/-- Delimiters at the end add no token. -/
theorem tokens_rdropWhile_self (d : α) (s : List α) :
    tokens d (s.rdropWhile (· = d)) = tokens d s := by
  induction s using List.reverseRecOn with
  | nil => rfl
  | append_singleton s c ih =>
    by_cases delim : c = d
    · subst delim
      rw [List.rdropWhile_concat_pos _ _ _ (by simp), ih, tokens_concat_self]
    · rw [List.rdropWhile_concat_neg _ _ _ (by simpa using delim)]

/-- The first field goes up to the first delimiter, and behind it the tokens are those of
the rest. -/
theorem splitOn_eq_cons (d : α) (s : List α) :
    ∃ later, s.splitOn d = s.takeWhile (· ≠ d) :: later ∧
      later.filter (· ≠ []) = tokens d ((s.dropWhile (· ≠ d)).drop 1) := by
  cases behind : s.dropWhile (· ≠ d) with
  | nil =>
    obtain ⟨all, single⟩ := splitOn_of_dropWhile_nil behind
    exact ⟨[], by rw [all, single], rfl⟩
  | cons c rest => exact ⟨rest.splitOn d, splitOn_of_dropWhile_cons behind, rfl⟩

/-- When no token is found, there is none. -/
theorem tokens_eq_nil (none_left : nextToken d s = none) : tokens d s = [] := by
  induction s with
  | nil => rfl
  | cons c s ih =>
    by_cases delim : c = d
    · subst delim
      rw [tokens_cons_self]
      refine ih ?_
      simpa [nextToken] using none_left
    · simp [nextToken, delim] at none_left

/-- When a token is found, it is the first one, and the others are those of the rest. -/
theorem tokens_eq_cons (found : nextToken d s = some (token, rest)) :
    tokens d s = token :: tokens d rest ∧ rest.length < s.length := by
  induction s with
  | nil => cases found
  | cons c s ih =>
    by_cases delim : c = d
    · subst delim
      have later : nextToken c s = some (token, rest) := by simpa [nextToken] using found
      obtain ⟨first, shorter⟩ := ih later
      rw [tokens_cons_self, List.length_cons]
      exact ⟨first, by omega⟩
    · obtain ⟨later, cut, others⟩ := splitOn_eq_cons d s
      simp only [nextToken, delim, decide_false, Bool.false_eq_true, not_false_eq_true,
        List.dropWhile_cons_of_neg, ne_eq, decide_not, Bool.not_false, List.takeWhile_cons_of_pos,
        List.dropWhile_cons_of_pos, Option.some.injEq, Prod.mk.injEq] at found
      obtain ⟨rfl, rfl⟩ := found
      constructor
      · simp [tokens, splitOn_cons_of_ne delim, cut] at others ⊢
        exact others
      · have shorter := (List.dropWhile_sublist (l := s) fun a => !decide (a = d)).length_le
        rw [List.length_drop, List.length_cons]
        omega

theorem map_fst_nextToken (d : α) (s : List α) :
    (nextToken d s).map Prod.fst = (tokens d s).head? := by
  cases next : nextToken d s with
  | none => rw [tokens_eq_nil next]; rfl
  | some pair => rw [(tokens_eq_cons next).1]; rfl

theorem tokens_behindToken (d : α) (s : List α) : tokens d (behindToken d s) = (tokens d s).tail := by
  cases next : nextToken d s with
  | none => rw [tokens_eq_nil next, behindToken, next]; rfl
  | some pair => rw [(tokens_eq_cons next).1, behindToken, next]; rfl

theorem behindToken_suffix (d : α) (s : List α) : behindToken d s <:+ s := by
  unfold behindToken nextToken
  split
  · exact List.nil_suffix
  · next c cs start =>
    have first : c :: cs <:+ s := start ▸ List.dropWhile_suffix _
    exact ((List.drop_suffix 1 _).trans (List.dropWhile_suffix _)).trans first

/-- The tokens are the nonempty fields. -/
theorem tokens_eq_fields (d : α) (s : List α) : tokens d s = (fields d s).filter (· ≠ []) := by
  unfold fields
  split_ifs with trailing
  · obtain ⟨front, rfl⟩ : ∃ front, s = front ++ [d] := List.getLast?_eq_some_iff.mp trailing
    have cut : (front ++ [d]).splitOn d = front.splitOn d ++ [[]] :=
      List.splitOn_append_cons_self front []
    rw [tokens_concat_self, cut, List.dropLast_concat]
    rfl
  · rfl

theorem length_tokens_le (d : α) (s : List α) : (tokens d s).length ≤ (fields d s).length := by
  rw [tokens_eq_fields]
  exact List.length_filter_le _ _

/-- All fields are tokens exactly when none of them is empty. -/
theorem length_tokens_eq : (tokens d s).length = (fields d s).length ↔ [] ∉ fields d s := by
  rw [tokens_eq_fields, List.length_filter_eq_length_iff]
  constructor
  · intro nonempty member
    simpa using nonempty _ member
  · intro nonempty field member
    have : field ≠ [] := fun empty => nonempty (empty ▸ member)
    simpa using this

theorem tokens_eq_fields_of_notMem (nonempty : [] ∉ fields d s) : tokens d s = fields d s := by
  rw [tokens_eq_fields]
  refine (List.filter_sublist).eq_of_length ?_
  rw [← tokens_eq_fields]
  exact length_tokens_eq.mpr nonempty

end ComputerNetworks.Lib
