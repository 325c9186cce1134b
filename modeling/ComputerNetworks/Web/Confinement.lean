import ComputerNetworks.Lib.RelativePath
import ComputerNetworks.Web.Routes

/-!
# Confinement to the working directory

`validDir` looks for `../` in the requested name, and the server opens that name behind a
dot. What is behind the dot matters: a name that begins with the component `.` turns into
a path that begins with `..`, and a `..` at the end of the name is not followed by a slash.
Besides, a name that is too long for `full_dir` leaves nothing to be said about what is opened.
-/

namespace ComputerNetworks.Web

open Lib

variable {fs : FileSystem} {name : List Char}

/-- The name begins with the component `.`, which the dot in front of it makes `..`. -/
def DotFirst (name : List Char) : Prop := (components name).head? = some ['.']

/-- The name is made of slashes and dots only, and ends in the component `..`. -/
def ParentLast (name : List Char) : Prop :=
  ∃ middle, components name = [] :: (middle ++ [parent]) ∧ ∀ c ∈ middle, Stays c

/-- Every file that is opened lies in or below the working directory, and no path was written over
the end of `full_dir`. -/
structure Confines (run : List Event) : Prop where
  opened : ∀ path, .fopen path ∈ run → Confined path
  room : .fault .overflow ∉ run

/-! ### Where the path leads -/

/-- `validDir` lets no component `..` pass but at the end. -/
theorem level_of_validDir (valid : validDir fs name = true) :
    ∀ c ∈ (components name).dropLast, c ≠ parent := by
  rintro c inner rfl
  have slash : "../".toList <:+: name := infix_of_mem_components inner
  unfold validDir at valid
  rw [if_pos slash] at valid
  cases valid

theorem stays_dot_iff {c : List Char} : Stays ('.' :: c) ↔ c = [] := by
  simp [Stays]

/-- The path of a valid name is confined unless the name begins with a dot or is a parent. -/
theorem confined_iff (level : ∀ c ∈ (components name).dropLast, c ≠ parent) :
    Confined ('.' :: name) ↔ ¬ DotFirst name ∧ ¬ ParentLast name := by
  cases split : components name with
  | nil => exact absurd split (List.splitOn_ne_nil _ _)
  | cons c cs =>
    have path : components ('.' :: name) = ('.' :: c) :: cs := components_cons (by decide) split
    by_cases dot : c = ['.']
    · subst dot
      have climbs : ¬ Confined ('.' :: name) := not_confined_of_parent path
      have first : DotFirst name := by
        rw [DotFirst, split]
        rfl
      exact iff_of_false climbs fun both => both.1 first
    · have notFirst : ¬ DotFirst name := by
        rw [DotFirst, split]
        exact fun same => dot (Option.some.inj same)
      have plain : '.' :: c ≠ parent := fun same => dot (List.cons.inj same).2
      rcases List.eq_nil_or_concat cs with rfl | ⟨middle, last, rfl⟩
      · -- the only component of the path is not `..`
        have alone : components ('.' :: name) = [] ++ ['.' :: c] := path
        have confined : Confined ('.' :: name) := by
          rw [confined_concat_iff alone fun _ none => absurd none List.not_mem_nil]
          exact fun same => absurd same plain
        have notLast : ¬ ParentLast name := by
          rintro ⟨middle, whole, -⟩
          rw [split] at whole
          exact List.append_ne_nil_of_right_ne_nil middle (List.cons_ne_nil _ _) (List.cons.inj whole).2.symm
        exact iff_of_true confined ⟨notFirst, notLast⟩
      · rw [List.concat_eq_append] at split path
        -- no inner component climbs, so that only the last one can leave the directory
        have inner : ∀ d ∈ ('.' :: c) :: middle, d ≠ parent := by
          intro d member
          rcases List.mem_cons.mp member with rfl | later
          · exact plain
          · apply level
            rw [split, ← List.cons_append, List.dropLast_concat]
            exact .tail _ later
        have ends : components ('.' :: name) = (('.' :: c) :: middle) ++ [last] := path
        have same : ParentLast name ↔ last = parent ∧ ∀ d ∈ ('.' :: c) :: middle, Stays d := by
          rw [List.forall_mem_cons, stays_dot_iff]
          constructor
          · rintro ⟨others, whole, stays⟩
            rw [split] at whole
            obtain ⟨empty, tails⟩ := List.cons.inj whole
            obtain ⟨rfl, lasts⟩ := List.append_inj' tails rfl
            exact ⟨(List.cons.inj lasts).1, empty, stays⟩
          · rintro ⟨rfl, rfl, stays⟩
            exact ⟨middle, split, stays⟩
        rw [confined_concat_iff ends inner, same, not_and, and_iff_right notFirst]

/-! ### Which file is opened -/

/-- A run that opens nothing and does not go wrong. -/
theorem confines_of_quiet {run : List Event} (quiet : ∀ path, .fopen path ∉ run)
    (room : .fault .overflow ∉ run) : Confines run :=
  ⟨fun path member => absurd member (quiet path), room⟩

theorem confines_reportErr (errMsg : List Char) :
    Confines (andThen (reportErr errMsg) [.close]) := by
  have run : andThen (reportErr errMsg) [.close] = reportErr errMsg ++ [.close] := rfl
  rw [run]
  exact confines_of_quiet (by simp [reportErr]) (by simp [reportErr])

/-- Of a file that is sent, the path is opened. -/
theorem confines_reportFile {dir path : List Char} (full : fullDir dir = some path) :
    Confines (andThen (reportFile fs dir) [.close]) ↔ Confined path := by
  obtain ⟨line, header, blank, events⟩ := reportFile_eq fs dir
  have opens : ∀ other, .fopen other ∈ andThen (reportFile fs dir) [.close] ↔ other = path := by
    intro other
    rw [events, sendingValidFile, full]
    cases content : fs.content path with
    | none => simp [andThen, content, Event.ends]
    | some text => cases text <;> simp [andThen, content, Event.ends]
  have room : .fault .overflow ∉ andThen (reportFile fs dir) [.close] := by
    rw [events, sendingValidFile, full]
    cases content : fs.content path with
    | none => simp [andThen, content, Event.ends]
    | some text => cases text <;> simp [andThen, content, Event.ends]
  constructor
  · exact fun confines => confines.opened path ((opens path).mpr rfl)
  · exact fun confined => ⟨fun other member => (opens other).mp member ▸ confined, room⟩

variable {found : List (List Char)} {run : List Event}

/-- A run stays inside if the name that passes `validDir` fits and a file that is opened under it
does not lie above. -/
theorem Route.confines_iff (h : Route fs found run) :
    Confines run ↔ ∀ name, found[0]? = some "GET".toList → found[1]? = some name →
      validDir fs name = true → name.length + 2 ≤ 256 ∧
        (fs.fopen ('.' :: name) = true → fs.access ('.' :: name) = true →
          Confined ('.' :: name)) := by
  have quiet : Confines [.fault .nullToken] := confines_of_quiet (by simp) (by simp)
  cases h with
  | empty => exact iff_of_true quiet fun name get => by cases get
  | bare => exact iff_of_true quiet fun name _ second => by cases second
  | unknown more other =>
    exact iff_of_true (confines_reportErr _) fun name get => absurd (Option.some.inj get) other
  | invalid more invalid =>
    refine iff_of_true (confines_reportErr _) ?_
    rintro name - ⟨⟩ valid
    cases invalid.symm.trans valid
  | long more valid full =>
    -- `full_dir` has no room for the dot, the name and the zero
    refine iff_of_false (fun confines => confines.room List.mem_cons_self) fun fits => ?_
    obtain ⟨path, room⟩ := fullDir_isSome.mpr (fits _ rfl rfl valid).1
    cases full.symm.trans room
  | missing more valid full file =>
    -- `fopen` has failed, so that there is nothing to be read
    refine iff_of_true (confines_reportErr _) ?_
    rintro name - ⟨⟩ -
    refine ⟨fullDir_isSome.mp ⟨_, full⟩, fun opens => ?_⟩
    rw [← fullDir_eq full, file] at opens
    cases opens
  | issue more valid full file unreadable =>
    refine iff_of_true (confines_reportErr _) ?_
    rintro name - ⟨⟩ -
    refine ⟨fullDir_isSome.mp ⟨_, full⟩, fun _ reads => ?_⟩
    rw [← fullDir_eq full, unreadable] at reads
    cases reads
  | serve more valid full file readable =>
    -- only here is the content of a file opened
    have room := fullDir_isSome.mp ⟨_, full⟩
    obtain rfl := fullDir_eq full
    rw [confines_reportFile full]
    constructor
    · rintro confined name - ⟨⟩ -
      exact ⟨room, fun _ _ => confined⟩
    · exact fun inside => (inside _ rfl rfl valid).2 file readable

/-- The server stays in its working directory exactly if a name that is asked for has at most 254
characters and, when there is a file to be read behind the dot, neither begins with the component
`.` nor consists of slashes and dots and ends in the component `..`. -/
theorem process_confined_iff (fs : FileSystem) (received rest : List Char) :
    Confines (process fs (received ++ nul :: rest)) ↔
      ∀ name, Asked fs (requestText received) name → name.length ≤ 254 ∧
        (fs.fopen ('.' :: name) = true → fs.access ('.' :: name) = true →
          ¬ DotFirst name ∧ ¬ ParentLast name) := by
  obtain ⟨behind, buffer⟩ : ∃ behind, received ++ nul :: rest = requestText (received ++ nul :: rest) ++
      nul :: behind := exists_requestText (by simp)
  rw [requestText_append (by simp)] at buffer
  rw [buffer, (route (nul_notMem_requestText received) behind).confines_iff]
  constructor
  · intro inside name asked
    obtain ⟨room, confined⟩ := inside name asked.command asked.second asked.valid
    refine ⟨by omega, fun opens reads => ?_⟩
    exact (confined_iff (level_of_validDir asked.valid)).mp (confined opens reads)
  · intro plain name command second valid
    obtain ⟨short, apart⟩ := plain name ⟨command, second, valid⟩
    refine ⟨by omega, fun opens reads => ?_⟩
    exact (confined_iff (level_of_validDir valid)).mpr (apart opens reads)

/-- A working directory without a file `secret`, next to which there is one. -/
def besideSecret : FileSystem where
  stat _ := false
  fopen path := path = "../secret".toList
  access path := path = "../secret".toList
  content path := if path = "../secret".toList then some "secret".toList else none

/-- A request for `./secret` is answered with the file above the working directory. -/
theorem besideSecret_leaks : ¬ ∀ path,
    .fopen path ∈ process besideSecret ("GET ./secret HTTP/1.1".toList ++ [nul]) →
      Confined path := by
  intro confined
  have opened : .fopen "../secret".toList ∈
      process besideSecret ("GET ./secret HTTP/1.1".toList ++ [nul]) := by decide +kernel
  have first := confined _ opened 1
  exact absurd first (by decide +kernel)

end ComputerNetworks.Web
