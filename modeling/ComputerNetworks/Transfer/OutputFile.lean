import ComputerNetworks.Lib.Tokens
import Mathlib.Data.List.DropRight

/-!
# The name of the output

What `recvfile` makes of the file name it has received: the directory of the name, and in it
the first part of the last component with `.recv` behind it. The strings are put together in
arrays of 250 bytes whose size is nowhere tested, and `strtok` finds no part in a component of
dots.
-/

namespace ComputerNetworks.Transfer

open Lib

/-- The character `/`. -/
abbrev slash : UInt8 := 47

/-- The character `.`. -/
abbrev dot : UInt8 := 46

/-- The size of `sub_dir`, `mkcmd_mkdir` and `name`. -/
abbrev pathLen : ℕ := 250

/-- What is left of a path that begins with `slashes` and nothing else. -/
def rootDir (slashes : List UInt8) : List UInt8 :=
  if slashes.length = 2 then [slash, slash] else [slash]

/-- `dirname` -/
def dirname (path : List UInt8) : List UInt8 :=
  let trimmed := path.rdropWhile (· = slash)
  if trimmed = [] ∧ path ≠ [] then rootDir path
  else if slash ∉ trimmed then [dot]
  else
    let above := trimmed.rdropWhile (· ≠ slash)
    if above.rdropWhile (· = slash) = [] then rootDir above else above.rdropWhile (· = slash)

/-- `basename` -/
def basename (path : List UInt8) : List UInt8 :=
  let trimmed := path.rdropWhile (· = slash)
  if path = [] then [dot]
  else if trimmed = [] then [slash]
  else trimmed.rtakeWhile (· ≠ slash)

/-- `".recv"` -/
def dotRecv : List UInt8 := [dot, 114, 101, 99, 118]

/-- The path that `fopen` gets, unless an array is too short for what is written to it or a part
of the name is read that does not exist. -/
def outputPath (fileName : List UInt8) : Option (List UInt8) :=
  let subDir := dirname fileName
  -- `"mkdir -p "`, the directory and a zero
  if pathLen < 9 + subDir.length + 1 then none
  else
    match nextToken dot (basename fileName) with
    | none => none
    | some (tmpName, _) =>
      let name := tmpName ++ dotRecv
      if pathLen < name.length + 1 ∨ pathLen < (subDir ++ [slash] ++ name).length + 1 then none
      else some (subDir ++ [slash] ++ name)

/-- The path for the string in `file_name`, which has to end in what was received. -/
def outputFile (received : List UInt8) : Option (List UInt8) :=
  if 0 ∈ received then outputPath (received.takeWhile (· ≠ 0)) else none

/-- The file `b.txt` in the directory `a` is received in `a/b.recv`. -/
example : outputFile [97, slash, 98, dot, 116, 120, 116, 0] =
    some [97, slash, 98, dot, 114, 101, 99, 118] := by decide

/-- The name `a/..` has no part that `strtok` finds. -/
example : outputFile [97, slash, dot, dot, 0] = none := by decide

end ComputerNetworks.Transfer
