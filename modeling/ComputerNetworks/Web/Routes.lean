import ComputerNetworks.Lib.Tokens
import ComputerNetworks.Web.Process
import Mathlib.Data.List.TakeWhile

/-!
# The ways through a request

On a buffer that holds a string, `strtok` finds the tokens of that string, and they decide which
way `process` takes.
-/

namespace ComputerNetworks.Web

open Lib

variable {fs : FileSystem} {message : List Char}

/-- The string in a buffer. -/
def requestText (buffer : List Char) : List Char := buffer.takeWhile (· ≠ nul)

theorem nul_notMem_requestText (buffer : List Char) : nul ∉ requestText buffer := by
  intro member
  simpa using List.mem_takeWhile_imp member

/-- What is behind a buffer is not read if it begins with a zero. -/
theorem requestText_append {behind : List Char} (zero : ∀ c, behind.head? = some c → c = nul)
    (buffer : List Char) : requestText (buffer ++ behind) = requestText buffer := by
  rw [requestText, requestText, List.takeWhile_append]
  split_ifs with whole
  · rw [(List.takeWhile_prefix _).eq_of_length whole]
    cases behind with
    | nil => rw [List.takeWhile_nil, List.append_nil]
    | cons c rest => simp [zero c rfl]
  · rfl

/-- The string in a buffer that has a zero, and what is behind it. -/
theorem exists_requestText {buffer : List Char} (terminated : nul ∈ buffer) :
    ∃ rest, buffer = requestText buffer ++ nul :: rest := by
  have split := List.takeWhile_append_dropWhile (p := (· ≠ nul)) (l := buffer)
  cases behind : buffer.dropWhile (· ≠ nul) with
  | nil =>
    have all := List.dropWhile_eq_nil_iff.mp behind
    simpa using all nul terminated
  | cons d rest =>
    have zero : d = nul := by
      have stop := List.head?_dropWhile_not (· ≠ nul) buffer
      rw [behind] at stop
      simpa using stop
    subst zero
    rw [behind] at split
    exact ⟨rest, split.symm⟩

/-! ### The tokens of a message -/

/-- A token of the message ends where the message has a blank or ends. -/
theorem span_inToken (plain : nul ∉ message) (rest : List Char) :
    (message ++ nul :: rest).takeWhile inToken = message.takeWhile (· ≠ ' ') ∧
      (message ++ nul :: rest).dropWhile inToken =
        message.dropWhile (· ≠ ' ') ++ nul :: rest := by
  induction message with
  | nil => exact ⟨rfl, rfl⟩
  | cons c cs ih =>
    rw [List.mem_cons, not_or] at plain
    obtain ⟨taken, left⟩ := ih plain.2
    by_cases blank : c = ' '
    · subst blank
      exact ⟨rfl, rfl⟩
    · have inside : inToken c = true := by simp [inToken, blank, Ne.symm plain.1]
      constructor
      · simpa [inside, blank] using taken
      · simpa [inside, blank] using left

/-- On a buffer that holds a message and a zero, `strtok` finds the next token of the message. -/
theorem strtok_append (plain : nul ∉ message) (rest : List Char) :
    strtok (message ++ nul :: rest) =
      .ok ((nextToken ' ' message).map Prod.fst, behindToken ' ' message ++ nul :: rest) := by
  have skip : (message ++ nul :: rest).dropWhile (· = ' ') =
      message.dropWhile (· = ' ') ++ nul :: rest := by
    rw [List.dropWhile_append]
    split_ifs with blank
    · rw [List.isEmpty_iff.mp blank]
      rfl
    · rfl
  have part : nul ∉ message.dropWhile (· = ' ') :=
    fun member => plain ((List.dropWhile_sublist _).subset member)
  -- both skip the blanks and then cut at the next one, or at the end of the string
  rw [strtok, behindToken, nextToken, skip]
  cases start : message.dropWhile (· = ' ') with
  | nil => rfl
  | cons c cs =>
    rw [start] at part
    have first : c ≠ nul := fun zero => part (zero ▸ List.mem_cons_self)
    obtain ⟨taken, left⟩ := span_inToken part rest
    rw [List.cons_append] at taken left ⊢
    simp only [if_neg first, taken, left]
    cases behind : (c :: cs).dropWhile (· ≠ ' ') with
    | nil => rfl
    | cons d left =>
      have within : d ∈ c :: cs :=
        (List.dropWhile_sublist _).subset (behind ▸ List.mem_cons_self)
      have plain : d ≠ nul := fun zero => part (zero ▸ within)
      simp [plain]

/-- On such a buffer, the command and the name are the first two tokens. -/
theorem getCmdDir_append (plain : nul ∉ message) (rest : List Char) :
    getCmdDir (message ++ nul :: rest) = .ok ((tokens ' ' message)[0]?, (tokens ' ' message)[1]?) := by
  have plain' : nul ∉ behindToken ' ' message :=
    fun member => plain ((behindToken_suffix ' ' message).subset member)
  have first := strtok_append plain rest
  have second := strtok_append plain' rest
  rw [map_fst_nextToken] at first second
  rw [tokens_behindToken] at second
  simp only [getCmdDir, bind, Except.bind, first, second]
  cases tokens ' ' message with
  | nil => rfl
  | cons cmmd more => cases more <;> rfl

/-! ### The ways through `process` -/

theorem fullDir_eq {name path : List Char} (full : fullDir name = some path) : path = '.' :: name := by
  unfold fullDir at full
  split_ifs at full
  exact (Option.some.inj full).symm

theorem fullDir_isSome {dir : List Char} : (∃ path, fullDir dir = some path) ↔ dir.length + 2 ≤ 256 := by
  unfold fullDir
  split_ifs with room <;> simp [room]

theorem fileExist_eq {dir path : List Char} (full : fullDir dir = some path) :
    fileExist fs dir = some (fs.fopen path) := by
  rw [fileExist, full, Option.map_some]

theorem serverIssue_eq {dir path : List Char} (full : fullDir dir = some path) :
    serverIssue fs dir = some !fs.access path := by
  rw [serverIssue, full, Option.map_some]

/-- What `process` does with the tokens of a message. -/
inductive Route (fs : FileSystem) : List (List Char) → List Event → Prop
  | empty : Route fs [] [.fault .nullToken]
  | unknown {cmmd : List Char} (more : List (List Char)) (other : cmmd ≠ "GET".toList) :
    Route fs (cmmd :: more) (andThen (reportErr "501 Not Implemented".toList) [.close])
  | bare : Route fs ["GET".toList] [.fault .nullToken]
  | invalid {dir : List Char} (more : List (List Char)) (invalid : validDir fs dir = false) :
    Route fs ("GET".toList :: dir :: more)
      (andThen (reportErr "400 Bad Request".toList) [.close])
  | long {dir : List Char} (more : List (List Char)) (valid : validDir fs dir = true)
    (full : fullDir dir = none) : Route fs ("GET".toList :: dir :: more) [.fault .overflow]
  | missing {dir path : List Char} (more : List (List Char)) (valid : validDir fs dir = true)
    (full : fullDir dir = some path) (file : fs.fopen path = false) :
    Route fs ("GET".toList :: dir :: more) (andThen (reportErr "404 Not Found".toList) [.close])
  | issue {dir path : List Char} (more : List (List Char)) (valid : validDir fs dir = true)
    (full : fullDir dir = some path) (file : fs.fopen path = true)
    (unreadable : fs.access path = false) :
    Route fs ("GET".toList :: dir :: more)
      (andThen (reportErr "500 Internal Server Error".toList) [.close])
  | serve {dir path : List Char} (more : List (List Char)) (valid : validDir fs dir = true)
    (full : fullDir dir = some path) (file : fs.fopen path = true)
    (readable : fs.access path = true) :
    Route fs ("GET".toList :: dir :: more) (andThen (reportFile fs dir) [.close])

theorem route (plain : nul ∉ message) (rest : List Char) :
    Route fs (tokens ' ' message) (process fs (message ++ nul :: rest)) := by
  unfold process
  rw [getCmdDir_append plain]
  -- the cases are the tests of `process`, in its order
  cases tokens ' ' message with
  | nil => exact .empty
  | cons cmmd more =>
    by_cases get : cmmd = "GET".toList
    · subst get
      cases more with
      | nil => exact .bare
      | cons dir more =>
        have implemented : Implemented "GET".toList = true := rfl
        simp only [List.getElem?_cons_zero, List.getElem?_cons_succ, implemented, Bool.not_true,
          Bool.false_eq_true, if_false]
        cases valid : validDir fs dir with
        | false => exact .invalid more valid
        | true =>
          simp only [Bool.not_true, Bool.false_eq_true, if_false, fileExist, serverIssue]
          cases full : fullDir dir with
          | none => exact .long more valid full
          | some path =>
            simp only [Option.map_some]
            cases file : fs.fopen path with
            | false => exact .missing more valid full file
            | true =>
              cases access : fs.access path with
              | false => exact .issue more valid full file access
              | true => exact .serve more valid full file access
    · have other : Implemented cmmd = false := decide_eq_false get
      simp only [List.getElem?_cons_zero, other]
      exact .unknown more get

/-- A file follows three lines. -/
theorem reportFile_eq (fs : FileSystem) (file : List Char) : ∃ line header blank,
    reportFile fs file =
      andThen [.status line, .send header, .send blank] (sendingValidFile fs file) :=
  ⟨_, _, _, rfl⟩

/-- The request asks for a file: it is a GET, and `validDir` lets the name pass. -/
structure Asked (fs : FileSystem) (message name : List Char) : Prop where
  command : (tokens ' ' message)[0]? = some "GET".toList
  second : (tokens ' ' message)[1]? = some name
  valid : validDir fs name = true

/-- The requested file is sent: it is asked for and can be opened and read. -/
structure Served (fs : FileSystem) (message name : List Char) : Prop
    extends Asked fs message name where
  file : fileExist fs name = some true
  readable : serverIssue fs name = some false

end ComputerNetworks.Web
