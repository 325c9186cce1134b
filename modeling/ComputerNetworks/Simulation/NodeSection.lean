import ComputerNetworks.Lib.Tokens
import Mathlib.Algebra.Group.Nat.Defs
import Mathlib.Algebra.Ring.Int.Defs
import Mathlib.Data.List.DropRight

/-!
# The nodes of a configuration file

The beginning of `Simulator::init`, which reads the node section of the configuration file. A
`getline` from a stream that has ended leaves the line as it is, and the loop over the section
looks for a bracket in the line and not at the stream.

Positions in a line are not wrapped around: no line has as many characters as an `int` counts.
-/

namespace ComputerNetworks.Simulation

open Lib

/-- The input stream: what is left of the file, and two of its flags. -/
structure Stream where
  rest : List Char
  eof : Bool
  fail : Bool

/-- Nothing has gone wrong and the end has not been seen. -/
def Stream.good (stream : Stream) : Bool := !stream.eof && !stream.fail

/-- `getline` into `line`. -/
def getline (stream : Stream) (line : List Char) : Stream × List Char :=
  if stream.good then
    match stream.rest.dropWhile (· ≠ '\n') with
    | [] => (⟨[], true, stream.rest.isEmpty⟩, stream.rest)
    | _ :: rest => (⟨rest, false, false⟩, stream.rest.takeWhile (· ≠ '\n'))
  else ({ stream with fail := true }, line)

/-- `Simulator::trim`. -/
def trim (s : List Char) : List Char :=
  ((s.erase '\r').dropWhile (· = ' ')).rdropWhile (· = ' ')

/-- The number that digits stand for. -/
def decimal (digits : List Char) : ℕ := digits.foldl (fun n c => 10 * n + (c.toNat - 48)) 0

/-- The white space that `atoi` skips. -/
def isSpace (c : Char) : Bool := c = ' ' ∨ 9 ≤ c.toNat ∧ c.toNat ≤ 13

/-- `atoi`. What it returns for a number that is not an `int` is not specified. -/
def atoi (unspecified : List Char → ℤ) (s : List Char) : ℤ :=
  let text := s.dropWhile isSpace
  let negative := text.head? = some '-'
  let digits := (if negative ∨ text.head? = some '+' then text.tail else text).takeWhile Char.isDigit
  let value : ℤ := if negative then -(decimal digits : ℤ) else decimal digits
  if -2 ^ 31 ≤ value ∧ value < 2 ^ 31 then value else unspecified s

/-- `add_node` of a new node, on the keys of `node_table`. The `id` of a node is an
`unsigned short`. -/
def addNode (nodeid : ℤ) (nodeTable : List ℕ) : List ℕ :=
  nodeTable.insert (nodeid % 2 ^ 16).toNat

/-- Erasing up to the first blank shortens a line. -/
theorem length_erased {line erased : List Char} {c : Char}
    (behind : line.dropWhile (· ≠ ' ') = c :: erased) : erased.length < line.length := by
  have shorter := (List.dropWhile_sublist (l := line) (· ≠ ' ')).length_le
  rw [behind, List.length_cons] at shorter
  exact shorter

/-- The loop over the ids of a line, which leaves the last one in the line. -/
def idLoop (unspecified : List Char → ℤ) (line : List Char) (nodeTable : List ℕ) :
    List Char × List ℕ :=
  if line = [] then (line, nodeTable)
  else
    match behind : line.dropWhile (· ≠ ' ') with
    | [] => (line, addNode (atoi unspecified (trim line)) nodeTable)
    | _ :: erased =>
      have : erased.length < line.length := length_erased behind
      idLoop unspecified erased
        (addNode (atoi unspecified (line.takeWhile (· ≠ ' '))) nodeTable)
termination_by line.length

/-- The loop over the lines of the section, and the keys of `node_table` behind it. -/
def nodeLoop (unspecified : List Char → ℤ) : ℕ → Stream → List Char → List ℕ → Option (List ℕ)
  | 0, _, _, _ => none
  | fuel + 1, stream, line, nodeTable =>
    if '[' ∈ line then some nodeTable
    else
      let (line, nodeTable) := idLoop unspecified line nodeTable
      let (stream, line) := getline stream line
      -- the `continue` for an empty line is at the end of the body
      nodeLoop unspecified fuel stream (trim line) nodeTable

/-- The loop up to the first line that is not blank. -/
def titleLoop : ℕ → Stream → List Char → Option (Stream × List Char)
  | 0, _, _ => none
  | fuel + 1, stream, line =>
    let (stream, line) := getline stream line
    if !stream.fail && (trim line).isEmpty then titleLoop fuel stream line
    else some (stream, line)

/-- `Simulator::init` up to the end of the node section: the keys of `node_table`. -/
def initNodes (unspecified : List Char → ℤ) (fuel : ℕ) (text : List Char) : Option (List ℕ) :=
  match titleLoop fuel ⟨text, false, false⟩ [] with
  | none => none
  | some (stream, line) =>
    if '[' ∈ line ∧ "nodes".toList <:+: line then
      let (stream, line) := getline stream line
      nodeLoop unspecified fuel stream (trim line) []
    else some []

variable {unspecified : List Char → ℤ} {text line l s : List Char} {ls : List (List Char)}
  {nodeTable : List ℕ} {stream : Stream} {id : ℕ}

/-! ### Lines -/

theorem subset_of_dropWhile {p : Char → Bool} {c : Char} {rest : List Char}
    (behind : line.dropWhile p = c :: rest) : rest ⊆ line := by
  have part := (List.dropWhile_sublist (l := line) p).subset
  rw [behind] at part
  exact List.Subset.trans (List.subset_cons_self _ _) part

/-- While more lines follow, `getline` takes one. -/
theorem getline_next (lines : text.splitOn '\n' = l :: ls) (more : ls ≠ []) (line : List Char) :
    ∃ rest, getline ⟨text, false, false⟩ line = (⟨rest, false, false⟩, l) ∧
      rest.splitOn '\n' = ls := by
  cases behind : text.dropWhile (· ≠ '\n') with
  | nil =>
    rw [(splitOn_of_dropWhile_nil behind).2] at lines
    cases lines
    exact absurd rfl more
  | cons c rest =>
    rw [splitOn_of_dropWhile_cons behind] at lines
    cases lines
    exact ⟨rest, by simp only [getline, Stream.good, behind]; rfl, rfl⟩

/-- `getline` takes the last line up to the end of the file. -/
theorem getline_last (lines : text.splitOn '\n' = [l]) (line : List Char) :
    getline ⟨text, false, false⟩ line = (⟨[], true, l.isEmpty⟩, l) := by
  cases behind : text.dropWhile (· ≠ '\n') with
  | nil =>
    rw [(splitOn_of_dropWhile_nil behind).2] at lines
    cases lines
    simp only [getline, Stream.good, behind]
    rfl
  | cons c rest =>
    rw [splitOn_of_dropWhile_cons behind] at lines
    exact absurd (List.cons.inj lines).2 (List.splitOn_ne_nil _ _)

/-- A line that follows on a good stream. -/
theorem getline_snd (lines : text.splitOn '\n' = l :: ls) (line : List Char) :
    (getline ⟨text, false, false⟩ line).2 = l := by
  by_cases more : ls = []
  · subst more
    rw [getline_last lines]
  · obtain ⟨rest, taken, -⟩ := getline_next lines more line
    rw [taken]

/-! ### `trim` -/

theorem trim_subset (s : List Char) : trim s ⊆ s :=
  ((List.rdropWhile_prefix _ _).sublist.trans
    ((List.dropWhile_sublist _).trans List.erase_sublist)).subset

theorem trim_eq (plain : '\r' ∉ s) : trim s = (s.dropWhile (· = ' ')).rdropWhile (· = ' ') := by
  rw [trim, List.erase_of_not_mem plain]

theorem tokens_trim (plain : '\r' ∉ s) : tokens ' ' (trim s) = tokens ' ' s := by
  rw [trim_eq plain, tokens_rdropWhile_self, tokens_dropWhile_self]

theorem bracket_mem_trim : '[' ∈ trim s ↔ '[' ∈ s := by
  rw [trim, List.rdropWhile, List.mem_reverse, mem_dropWhile_self (by decide), List.mem_reverse,
    mem_dropWhile_self (by decide), List.mem_erase_of_ne (by decide)]

theorem trim_nil_of_blank (blank : ∀ c ∈ s, c = ' ') : trim s = [] := by
  have plain : '\r' ∉ s := fun member => absurd (blank _ member) (by decide)
  have none_left : s.dropWhile (· = ' ') = [] :=
    List.dropWhile_eq_nil_iff.mpr fun c member => decide_eq_true (blank c member)
  rw [trim_eq plain, none_left, List.rdropWhile_nil]

theorem head?_trim (plain : '\r' ∉ s) : (trim s).head? ≠ some ' ' := by
  intro blank
  have stop := List.head?_dropWhile_not (fun c => decide (c = ' ')) s
  rw [trim_eq plain] at blank
  obtain ⟨back, whole⟩ := List.rdropWhile_prefix (fun c => decide (c = ' ')) (s.dropWhile (· = ' '))
  rw [← whole, List.head?_append, blank] at stop
  simp at stop

/-- A field is not changed. -/
theorem trim_eq_self (plain : '\r' ∉ s) (blank : ' ' ∉ s) : trim s = s := by
  have first : s.dropWhile (· = ' ') = s := by
    rw [List.dropWhile_eq_self_iff]
    intro inside here
    have member := List.getElem_mem inside
    rw [of_decide_eq_true here] at member
    exact blank member
  rw [trim_eq plain, first, List.rdropWhile_eq_self_iff]
  intro nonempty here
  have member := List.getLast_mem nonempty
  rw [of_decide_eq_true here] at member
  exact blank member

/-! ### The ids of a line -/

/-- The key under which an id is entered. -/
def key (unspecified : List Char → ℤ) (field : List Char) : ℕ :=
  (atoi unspecified field % 2 ^ 16).toNat

theorem mem_addNode (field : List Char) :
    id ∈ addNode (atoi unspecified field) nodeTable ↔
      id ∈ nodeTable ∨ key unspecified field = id := by
  rw [addNode, List.mem_insert_iff, or_comm, eq_comm, key]

/-- The loop over a line enters its fields, and not only its tokens. -/
theorem mem_idLoop (plain : '\r' ∉ line) (nonempty : line ≠ []) (nodeTable : List ℕ) :
    id ∈ (idLoop unspecified line nodeTable).2 ↔
      id ∈ nodeTable ∨ ∃ field ∈ fields ' ' line, key unspecified field = id := by
  induction size : line.length using Nat.strong_induction_on generalizing line nodeTable with
  | _ n ih =>
    rw [idLoop, if_neg nonempty]
    split
    next behind =>
      have single := fields_of_dropWhile_nil behind
      have blank : ' ' ∉ line := by
        intro member
        have := List.dropWhile_eq_nil_iff.mp behind _ member
        simp at this
      rw [trim_eq_self plain blank, mem_addNode, single]
      simp
    next c erased behind =>
      have shorter := length_erased behind
      have plain' : '\r' ∉ erased := fun member => plain (subset_of_dropWhile behind member)
      rw [fields_of_dropWhile_cons behind]
      by_cases last : erased = []
      · subst last
        rw [idLoop, if_pos rfl, mem_addNode]
        simp
      · rw [ih _ (size ▸ shorter) plain' last _ rfl, mem_addNode, if_neg last]
        simp [or_assoc]

/-- What is left of the line is a part of it. -/
theorem idLoop_fst_subset (line : List Char) (nodeTable : List ℕ) :
    (idLoop unspecified line nodeTable).1 ⊆ line := by
  induction size : line.length using Nat.strong_induction_on generalizing line nodeTable with
  | _ n ih =>
    rw [idLoop]
    split_ifs with empty
    · exact List.Subset.refl _
    · split
      · exact List.Subset.refl _
      · next c erased behind =>
        have shorter := length_erased behind
        exact List.Subset.trans (ih _ (size ▸ shorter) erased _ rfl) (subset_of_dropWhile behind)

theorem key_lt (field : List Char) : key unspecified field < 2 ^ 16 := by
  have := Int.emod_lt_of_pos (atoi unspecified field) (show (0 : ℤ) < 2 ^ 16 by decide)
  rw [key]
  omega

/-- A decimal number that an `unsigned short` holds is its own key. -/
theorem key_decimal (digits : ∀ c ∈ s, c.isDigit = true) (short : decimal s < 2 ^ 16) :
    key unspecified s = decimal s := by
  have start : s.dropWhile isSpace = s ∧ s.head? ≠ some '-' ∧ s.head? ≠ some '+' := by
    cases s with
    | nil => exact ⟨rfl, by simp⟩
    | cons c cs =>
      have digit := digits c List.mem_cons_self
      have space : isSpace c = false := by
        have low : 48 ≤ c.toNat := (Char.isDigit_iff_toNat.mp digit).1
        refine decide_eq_false ?_
        rintro (rfl | range)
        · contradiction
        · omega
      refine ⟨?_, ?_, ?_⟩
      · simp [space]
      · rintro ⟨⟩
        cases digit
      · rintro ⟨⟩
        cases digit
  have all : s.takeWhile Char.isDigit = s := List.takeWhile_eq_self_iff.mpr digits
  have value : atoi unspecified s = decimal s := by
    rw [atoi, start.1]
    simp only [start.2.1, start.2.2, false_or, if_false, all]
    rw [if_pos]
    omega
  rw [key, value]
  omega

/-- Two adjacent blanks enter the key 0. -/
theorem key_nil : key unspecified [] = 0 := key_decimal (by simp) (by decide)

/-- The key is entered for some field of the line. -/
def Entered (unspecified : List Char → ℤ) (line : List Char) (id : ℕ) : Prop :=
  trim line ≠ [] ∧ ∃ field ∈ fields ' ' (trim line), key unspecified field = id

theorem mem_idLoop_trim (plain : '\r' ∉ line) (nodeTable : List ℕ) :
    id ∈ (idLoop unspecified (trim line) nodeTable).2 ↔
      id ∈ nodeTable ∨ Entered unspecified line id := by
  by_cases empty : trim line = []
  · rw [empty, idLoop, if_pos rfl]
    simp [Entered, empty]
  · rw [mem_idLoop (fun member => plain (trim_subset line member)) empty]
    simp [Entered, empty]

/-! ### The loops -/

/-- A line of decimal ids and blanks. -/
def IdLine (line : List Char) : Prop := ∀ c ∈ line, c.isDigit = true ∨ c = ' '

instance (line : List Char) : Decidable (IdLine line) :=
  List.decidableBAll _ line

theorem IdLine.notMem {c : Char} (h : IdLine line) (digit : c.isDigit = false) (blank : c ≠ ' ') :
    c ∉ line := by
  intro member
  rcases h c member with bad | bad
  · rw [digit] at bad
    cases bad
  · exact blank bad

theorem IdLine.no_return (h : IdLine line) : '\r' ∉ line := h.notMem rfl (by decide)

/-- Such a line is no title. -/
theorem IdLine.no_bracket (h : IdLine line) : '[' ∉ trim line := fun member =>
  h.notMem rfl (by decide) (bracket_mem_trim.mp member)

/-- With a bracket to come, the loop gets through the section. -/
theorem nodeLoop_of_bracket {next : List Char} {body more : List (List Char)}
    (lines : text.splitOn '\n' = body ++ next :: more) (bracket : '[' ∈ next)
    (ids : ∀ l ∈ line :: body, IdLine l) (nodeTable : List ℕ) :
    ∃ table, (∀ fuel, nodeLoop unspecified fuel ⟨text, false, false⟩ (trim line) nodeTable =
        if body.length + 1 < fuel then some table else none) ∧
      ∀ id, id ∈ table ↔ id ∈ nodeTable ∨ ∃ l ∈ line :: body, Entered unspecified l id := by
  have here : IdLine line := ids line List.mem_cons_self
  induction body generalizing text line nodeTable with
  | nil =>
    refine ⟨(idLoop unspecified (trim line) nodeTable).2, fun fuel => ?_, fun id => ?_⟩
    · cases fuel with
      | zero => rfl
      | succ fuel =>
        rw [nodeLoop, if_neg here.no_bracket]
        dsimp only
        rw [getline_snd lines]
        cases fuel with
        | zero => rfl
        | succ fuel =>
          rw [nodeLoop, if_pos (bracket_mem_trim.mpr bracket), if_pos (by simp)]
    · rw [mem_idLoop_trim here.no_return]
      simp
  | cons b body ih =>
    have there : IdLine b := ids b (List.mem_cons_of_mem _ List.mem_cons_self)
    obtain ⟨rest, taken, lines'⟩ := getline_next lines (by simp)
      (idLoop unspecified (trim line) nodeTable).1
    obtain ⟨table, run, entered⟩ := ih lines'
      (fun l member => ids l (List.mem_cons_of_mem _ member))
      (idLoop unspecified (trim line) nodeTable).2 there
    refine ⟨table, fun fuel => ?_, fun id => ?_⟩
    · cases fuel with
      | zero => rfl
      | succ fuel =>
        rw [nodeLoop, if_neg here.no_bracket]
        dsimp only
        rw [taken, run, List.length_cons]
        simp
    · rw [entered, mem_idLoop_trim here.no_return]
      simp [or_assoc]

theorem getline_rest_subset (stream : Stream) (line : List Char) :
    (getline stream line).1.rest ⊆ stream.rest := by
  unfold getline
  split_ifs
  · split
    next => exact List.nil_subset _
    next c behind found => exact subset_of_dropWhile found
  · exact List.Subset.refl _

/-- `getline` finds no bracket where there is none. -/
theorem getline_no_bracket (inside : '[' ∉ line) (rest : '[' ∉ stream.rest) :
    '[' ∉ (getline stream line).2 := by
  unfold getline
  split_ifs
  · split
    · exact rest
    · exact fun member => rest ((List.takeWhile_sublist _).subset member)
  · exact inside

/-- Without a bracket in the line or to come, the loop does not end. -/
theorem nodeLoop_of_no_bracket (inside : '[' ∉ line) (rest : '[' ∉ stream.rest) (fuel : ℕ)
    (nodeTable : List ℕ) : nodeLoop unspecified fuel stream line nodeTable = none := by
  induction fuel generalizing stream line nodeTable with
  | zero => rfl
  | succ fuel ih =>
    rw [nodeLoop, if_neg inside]
    dsimp only
    have left : '[' ∉ (idLoop unspecified line nodeTable).1 :=
      fun member => inside (idLoop_fst_subset line nodeTable member)
    generalize (idLoop unspecified line nodeTable).1 = kept at left
    have read := getline_no_bracket left rest
    exact ih (fun member => read (bracket_mem_trim.mp member))
      (fun member => rest (getline_rest_subset stream kept member)) _

/-- The loop over the blank lines stops at the title. -/
theorem titleLoop_eq {blanks tail : List (List Char)} {title : List Char}
    (lines : text.splitOn '\n' = blanks ++ title :: tail)
    (blank : ∀ l ∈ blanks, ∀ c ∈ l, c = ' ') (bracket : '[' ∈ title) (line : List Char) :
    ∃ stream, (∀ fuel, titleLoop fuel ⟨text, false, false⟩ line =
        if blanks.length < fuel then some (stream, title) else none) ∧
      (tail = [] → stream.good = false) ∧
        (tail ≠ [] → ∃ rest, stream = ⟨rest, false, false⟩ ∧ rest.splitOn '\n' = tail) := by
  have titled : trim title ≠ [] := List.ne_nil_of_mem (bracket_mem_trim.mpr bracket)
  induction blanks generalizing text line with
  | nil =>
    by_cases last : tail = []
    · subst last
      have nonempty : title.isEmpty = false := List.isEmpty_eq_false_iff.mpr (List.ne_nil_of_mem bracket)
      refine ⟨⟨[], true, false⟩, fun fuel => ?_, fun _ => rfl, fun more => absurd rfl more⟩
      cases fuel with
      | zero => rfl
      | succ fuel =>
        simp only [titleLoop, getline_last lines, nonempty]
        simp [titled]
    · obtain ⟨rest, taken, lines'⟩ := getline_next lines last line
      refine ⟨⟨rest, false, false⟩, fun fuel => ?_, fun none_left => absurd none_left last,
        fun _ => ⟨rest, rfl, lines'⟩⟩
      cases fuel with
      | zero => rfl
      | succ fuel =>
        simp only [titleLoop, taken]
        simp [titled]
  | cons b blanks ih =>
    obtain ⟨rest, taken, lines'⟩ := getline_next lines (by simp) line
    obtain ⟨stream, run, ended, good⟩ :=
      ih lines' (fun l member => blank l (List.mem_cons_of_mem _ member)) b
    have skipped : trim b = [] := trim_nil_of_blank (blank b List.mem_cons_self)
    refine ⟨stream, fun fuel => ?_, ended, good⟩
    cases fuel with
    | zero => rfl
    | succ fuel =>
      simp only [titleLoop, taken, skipped, run]
      simp

/-! ### The section -/

/-- A file whose first line that is not blank is the title of the node section, followed by
lines of ids, up to another bracket or to the end of the file. -/
structure NodeText (text : List Char) (blanks : List (List Char)) (title : List Char)
    (body rest : List (List Char)) : Prop where
  lines : text.splitOn '\n' = blanks ++ title :: (body ++ rest)
  blank : ∀ line ∈ blanks, ∀ c ∈ line, c = ' '
  title : '[' ∈ title ∧ "nodes".toList <:+: title
  body : ∀ line ∈ body, IdLine line
  rest : rest = [] ∨ ∃ next more, rest = next :: more ∧ '[' ∈ next

/-- The id is listed in the section. -/
def Listed (body : List (List Char)) (id : ℕ) : Prop :=
  ∃ line ∈ body, ∃ token ∈ tokens ' ' line, decimal token = id

variable {blanks body rest : List (List Char)} {title : List Char}

/-- Behind the title, the loop over the section starts with the next `getline`. -/
theorem NodeText.initNodes_eq (h : NodeText text blanks title body rest) :
    ∃ stream : Stream, (∀ unspecified fuel, initNodes unspecified fuel text =
        if blanks.length < fuel then nodeLoop unspecified fuel (getline stream title).1
          (trim (getline stream title).2) [] else none) ∧
      (body ++ rest = [] → stream.good = false) ∧
        (body ++ rest ≠ [] →
          ∃ left, stream = ⟨left, false, false⟩ ∧ left.splitOn '\n' = body ++ rest) := by
  obtain ⟨stream, titled, ended, good⟩ := titleLoop_eq h.lines h.blank h.title.1 []
  refine ⟨stream, fun unspecified fuel => ?_, ended, good⟩
  rw [initNodes, titled]
  split_ifs with enough
  · dsimp only
    rw [if_pos h.title]
  · rfl

/-- Up to another bracket, the section is read to its end. -/
theorem NodeText.initNodes_of_bracket (h : NodeText text blanks title body rest)
    (more : rest ≠ []) (unspecified : List Char → ℤ) :
    ∃ table, (∀ fuel, initNodes unspecified fuel text =
        if max blanks.length body.length < fuel then some table else none) ∧
      ∀ id, id ∈ table ↔ ∃ line ∈ body, Entered unspecified line id := by
  obtain ⟨next, others, rfl, bracket⟩ := h.rest.resolve_left more
  obtain ⟨stream, run, -, good⟩ := h.initNodes_eq
  obtain ⟨left, rfl, lines⟩ := good (by simp)
  cases body with
  | nil =>
    refine ⟨[], fun fuel => ?_, by simp⟩
    rw [run, getline_snd lines, List.length_nil, Nat.max_zero]
    split_ifs with enough
    · obtain ⟨fuel, rfl⟩ : ∃ k, fuel = k + 1 := ⟨fuel - 1, by omega⟩
      rw [nodeLoop, if_pos (bracket_mem_trim.mpr bracket)]
    · rfl
  | cons b body =>
    obtain ⟨behind, taken, lines'⟩ := getline_next lines (by simp) title
    obtain ⟨table, looped, entered⟩ := nodeLoop_of_bracket lines' bracket h.body []
    refine ⟨table, fun fuel => ?_, fun id => ?_⟩
    · rw [run, taken, looped, List.length_cons]
      split_ifs <;> first | rfl | omega
    · simpa using entered id

/-- At the end of the file, the loop does not end if anything follows the title. -/
theorem NodeText.initNodes_of_end (h : NodeText text blanks title body []) (nonempty : body ≠ [])
    (unspecified : List Char → ℤ) (fuel : ℕ) : initNodes unspecified fuel text = none := by
  obtain ⟨stream, run, -, good⟩ := h.initNodes_eq
  obtain ⟨left, rfl, lines⟩ := good (by simpa using nonempty)
  rw [List.append_nil] at lines
  have absent : '[' ∉ left := by
    intro member
    obtain ⟨line, listed, inside⟩ := exists_mem_splitOn.mpr ⟨member, (by decide : '[' ≠ '\n')⟩
    rw [lines] at listed
    exact (h.body line listed).notMem rfl (by decide) inside
  obtain ⟨b, others, rfl⟩ := List.exists_cons_of_ne_nil nonempty
  have first := (h.body b List.mem_cons_self).no_bracket
  rw [run, getline_snd lines]
  split_ifs
  · exact nodeLoop_of_no_bracket first (fun member => absent (getline_rest_subset _ _ member)) fuel []
  · rfl

/-- When nothing at all follows the title, the title itself ends the loop. -/
theorem NodeText.initNodes_of_title (h : NodeText text blanks title [] [])
    (unspecified : List Char → ℤ) (fuel : ℕ) :
    initNodes unspecified fuel text = if blanks.length < fuel then some [] else none := by
  obtain ⟨stream, run, ended, -⟩ := h.initNodes_eq
  have kept : (getline stream title).2 = title := by
    rw [getline, ended rfl]
    rfl
  rw [run, kept]
  split_ifs with enough
  · obtain ⟨fuel, rfl⟩ : ∃ k, fuel = k + 1 := ⟨fuel - 1, by omega⟩
    rw [nodeLoop, if_pos (bracket_mem_trim.mpr h.title.1)]
  · rfl

/-- A field is entered for a token, or for two adjacent blanks. -/
theorem entered_iff (h : IdLine line) : Entered unspecified line id ↔
    (∃ token ∈ tokens ' ' line, key unspecified token = id) ∨
      id = 0 ∧ [' ', ' '] <:+: trim line := by
  have plain := h.no_return
  rw [← tokens_trim plain, tokens_eq_fields]
  by_cases empty : trim line = []
  · rw [empty]
    simp [Entered, empty]
  · have double : [] ∈ fields ' ' (trim line) ↔ [' ', ' '] <:+: trim line := by
      rw [← not_iff_not, nil_notMem_fields]
      simp [empty, head?_trim plain]
    rw [← double]
    constructor
    · rintro ⟨-, field, member, entered⟩
      by_cases blank : field = []
      · subst blank
        exact .inr ⟨entered.symm.trans key_nil, member⟩
      · exact .inl ⟨field, List.mem_filter.mpr ⟨member, by simpa using blank⟩, entered⟩
    · rintro (⟨token, member, entered⟩ | ⟨rfl, member⟩)
      · exact ⟨empty, token, List.mem_of_mem_filter member, entered⟩
      · exact ⟨empty, [], member, key_nil⟩

theorem IdLine.token_isDigit {token : List Char} (h : IdLine line) (member : token ∈ tokens ' ' line) :
    ∀ c ∈ token, c.isDigit = true := by
  intro c inside
  obtain ⟨occurs, nonblank⟩ := mem_of_mem_tokens member inside
  exact (h c occurs).resolve_right nonblank

/-- When all listed ids are short, they are the keys, next to the 0 of adjacent blanks. -/
theorem exists_entered_iff (ids : ∀ line ∈ body, IdLine line)
    (short : ∀ id, Listed body id → id < 2 ^ 16) (unspecified : List Char → ℤ) (id : ℕ) :
    (∃ line ∈ body, Entered unspecified line id) ↔
      Listed body id ∨ id = 0 ∧ ∃ line ∈ body, [' ', ' '] <:+: trim line := by
  have unchanged : ∀ line ∈ body, ∀ token ∈ tokens ' ' line,
      key unspecified token = decimal token := by
    intro line inside token member
    exact key_decimal ((ids line inside).token_isDigit member)
      (short _ ⟨line, inside, token, member, rfl⟩)
  constructor
  · rintro ⟨line, inside, entered⟩
    rcases (entered_iff (ids line inside)).mp entered with ⟨token, member, same⟩ | ⟨zero, double⟩
    · rw [unchanged line inside token member] at same
      exact .inl ⟨line, inside, token, member, same⟩
    · exact .inr ⟨zero, line, inside, double⟩
  · rintro (⟨line, inside, token, member, same⟩ | ⟨zero, line, inside, double⟩)
    · rw [← unchanged line inside token member] at same
      exact ⟨line, inside, (entered_iff (ids line inside)).mpr (.inl ⟨token, member, same⟩)⟩
    · exact ⟨line, inside, (entered_iff (ids line inside)).mpr (.inr ⟨zero, double⟩)⟩

/-- A key is below `2 ^ 16`. -/
theorem Entered.lt (h : Entered unspecified line id) : id < 2 ^ 16 := by
  obtain ⟨-, field, -, rfl⟩ := h
  exact key_lt field

/-- The keys are the listed ids exactly when the ids are short, and 0 is listed if it is
entered for adjacent blanks. -/
theorem keys_eq_listed_iff (ids : ∀ line ∈ body, IdLine line) (unspecified : List Char → ℤ) :
    (∀ id, (∃ line ∈ body, Entered unspecified line id) ↔ Listed body id) ↔
      (∀ id, Listed body id → id < 2 ^ 16) ∧
        (Listed body 0 ∨ ∀ line ∈ body, ¬ [' ', ' '] <:+: trim line) := by
  constructor
  · intro same
    have short : ∀ id, Listed body id → id < 2 ^ 16 := by
      intro id listed
      obtain ⟨line, -, entered⟩ := (same id).mpr listed
      exact entered.lt
    refine ⟨short, ?_⟩
    by_contra neither
    obtain ⟨unlisted, double⟩ := not_or.mp neither
    push Not at double
    have entered := (exists_entered_iff ids short unspecified 0).mpr (.inr ⟨rfl, double⟩)
    exact unlisted ((same 0).mp entered)
  · rintro ⟨short, zero⟩ id
    rw [exists_entered_iff ids short, or_iff_left_iff_imp]
    rintro ⟨rfl, line, inside, double⟩
    exact zero.resolve_right fun single => single line inside double

/-- When the section ends and its ids become the keys of `node_table`. -/
theorem initNodes_iff (h : NodeText text blanks title body rest) (unspecified : List Char → ℤ) :
    (∃ fuel table, initNodes unspecified fuel text = some table ∧
        ∀ id, id ∈ table ↔ Listed body id) ↔
      (rest ≠ [] ∨ body = []) ∧ (∀ id, Listed body id → id < 2 ^ 16) ∧
        (Listed body 0 ∨ ∀ line ∈ body, ¬ [' ', ' '] <:+: trim line) := by
  rw [← keys_eq_listed_iff h.body unspecified]
  by_cases more : rest = []
  · subst more
    by_cases empty : body = []
    · subst empty
      have run := h.initNodes_of_title unspecified (blanks.length + 1)
      rw [if_pos (Nat.lt_succ_self _)] at run
      refine iff_of_true ⟨_, [], run, ?_⟩ ⟨.inr rfl, ?_⟩
      · simp [Listed]
      · simp [Listed]
    · refine iff_of_false ?_ (fun ends => ends.1.elim (absurd rfl) empty)
      rintro ⟨fuel, table, ended, -⟩
      rw [h.initNodes_of_end empty] at ended
      cases ended
  · obtain ⟨table, run, entered⟩ := h.initNodes_of_bracket more unspecified
    constructor
    · rintro ⟨fuel, result, ended, same⟩
      rw [run] at ended
      split_ifs at ended
      cases ended
      exact ⟨.inl more, fun id => (entered id).symm.trans (same id)⟩
    · rintro ⟨-, same⟩
      refine ⟨_, table, (run (max blanks.length body.length + 1)).trans ?_, fun id => ?_⟩
      · rw [if_pos (Nat.lt_succ_self _)]
      · exact (entered id).trans (same id)

theorem nodeText_two : NodeText "\n[nodes]\n1  20\n\n0\n[links]\n".toList [[]] "[nodes]".toList
    ["1  20".toList, [], "0".toList] ["[links]".toList, []] where
  lines := rfl
  blank := by simp
  title := ⟨by decide, ['['], [']'], rfl⟩
  body := by decide
  rest := .inr ⟨_, _, rfl, by decide⟩

/-- Ids on two lines, with adjacent blanks but 0 among them. -/
theorem initNodes_two : ∃ fuel table,
    initNodes (fun _ => 0) fuel "\n[nodes]\n1  20\n\n0\n[links]\n".toList = some table ∧
      ∀ id, id ∈ table ↔ Listed ["1  20".toList, [], "0".toList] id := by
  refine (initNodes_iff nodeText_two _).mpr ⟨.inl (by decide), ?_, .inl ?_⟩
  · have short : ∀ line ∈ ["1  20".toList, [], "0".toList], ∀ token ∈ tokens ' ' line,
        decimal token < 2 ^ 16 := by decide
    rintro id ⟨line, inside, token, member, rfl⟩
    exact short line inside token member
  · exact ⟨"0".toList, by decide, "0".toList, by decide, by decide⟩

theorem nodeText_last : NodeText "[nodes]\n1 2\n".toList [] "[nodes]".toList ["1 2".toList, []] [] where
  lines := rfl
  blank := by simp
  title := ⟨by decide, ['['], [']'], rfl⟩
  body := by decide
  rest := .inl rfl

/-- No section follows, and the loop does not end. -/
theorem not_initNodes_last : ¬ ∃ fuel table,
    initNodes (fun _ => 0) fuel "[nodes]\n1 2\n".toList = some table ∧
      ∀ id, id ∈ table ↔ Listed ["1 2".toList, []] id := by
  rintro ⟨fuel, table, ended, -⟩
  rw [nodeText_last.initNodes_of_end (by decide)] at ended
  cases ended

end ComputerNetworks.Simulation
