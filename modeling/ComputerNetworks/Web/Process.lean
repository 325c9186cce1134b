import Mathlib.Data.List.Infix
import Mathlib.Data.Nat.Notation

/-!
# The web server

`web.c`: what the server does with a request. A pointer into the request buffer is what of the
buffer lies behind it, so that a string with no zero behind its start goes on outside; other
strings are lists of characters without the final zero. The file system answers `stat`, `fopen`
and `access`; a run of a function is the list of what it does, up to where its behaviour is
undefined.
-/

namespace ComputerNetworks.Web

/-- The answers of the file system. `content` is what the `fopen` of `sendingValidFile` opens. -/
structure FileSystem where
  stat : List Char → Bool
  fopen : List Char → Bool
  access : List Char → Bool
  content : List Char → Option (List Char)

/-- The zero that ends a string. -/
abbrev nul : Char := Char.ofNat 0

/-- What goes wrong. -/
inductive Fault
  /-- A token that does not exist is read. -/
  | nullToken
  /-- A string is read up to the end of its buffer and further. -/
  | overread
  /-- A path does not fit `full_dir`. -/
  | overflow
  /-- A file that could not be opened is read. -/
  | nullFile
  deriving DecidableEq

/-- What the server does about one request. -/
inductive Event
  | print (text : List Char)
  /-- The status line is sent. -/
  | status (line : List Char)
  /-- Anything else is sent. -/
  | send (text : List Char)
  /-- The `fopen` of `sendingValidFile`. -/
  | fopen (path : List Char)
  | exit
  | close
  /-- Anything may happen from here on. -/
  | fault (reason : Fault)
  deriving DecidableEq

/-- The program ends, or nothing is known any more. -/
def Event.ends : Event → Bool
  | .exit => true
  | .fault _ => true
  | _ => false

/-- The server does `first`, and if that does not end the program, then `second`. -/
def andThen (first second : List Event) : List Event :=
  if first.any Event.ends then first else first ++ second

/-! ### Reading the request -/

/-- The string at a pointer, which every reader of it walks through. -/
def cString (memory : List Char) : Except Fault (List Char) :=
  if nul ∈ memory then .ok (memory.takeWhile (· ≠ nul)) else .error .overread

/-- A character of a token. -/
def inToken (c : Char) : Bool := c ≠ ' ' ∧ c ≠ nul

/-- `strtok` with the delimiter `" "`: the token, which it ends by a zero in the buffer, and the
pointer that it saves. -/
def strtok (memory : List Char) : Except Fault (Option (List Char) × List Char) :=
  match memory.dropWhile (· = ' ') with
  | [] => .error .overread
  | c :: cs =>
    if c = nul then .ok (none, c :: cs)
    else
      match (c :: cs).dropWhile inToken with
      | [] => .error .overread
      | d :: left => .ok (some ((c :: cs).takeWhile inToken), if d = nul then d :: left else left)

/-- `getCmdDir`. -/
def getCmdDir (requestMsg : List Char) : Except Fault (Option (List Char) × Option (List Char)) := do
  let (cmmd, saved) ← strtok requestMsg
  let (dir, _) ← strtok saved
  return (cmmd, dir)

/-! ### Answering it -/

/-- `validDir`. The `strstr` is a test for a substring. -/
def validDir (fs : FileSystem) (requestDir : List Char) : Bool :=
  if "../".toList <:+: requestDir then false
  else if fs.stat requestDir then false
  else true

/-- `full_dir`, where a name has room if it is followed by a zero within 256 bytes. -/
def fullDir (requestDir : List Char) : Option (List Char) :=
  if requestDir.length + 2 ≤ 256 then some ('.' :: requestDir) else none

/-- `fileExist`. -/
def fileExist (fs : FileSystem) (requestDir : List Char) : Option Bool :=
  (fullDir requestDir).map fs.fopen

/-- `Implemented`. -/
def Implemented (cmmd : List Char) : Bool := cmmd = "GET".toList

/-- `serverIssue`. -/
def serverIssue (fs : FileSystem) (requestDir : List Char) : Option Bool :=
  (fullDir requestDir).map fun path => !fs.access path

/-- `sendingValidFile`. A file that cannot be opened is read all the same, and an empty one
ends the program. -/
def sendingValidFile (fs : FileSystem) (file : List Char) : List Event :=
  match fullDir file with
  | none => [.fault .overflow]
  | some path =>
    .fopen path :: match fs.content path with
      | none => [.fault .nullFile]
      | some [] => [.exit]
      | some (c :: cs) => [.send (c :: cs)]

/-- `reportErr` with `mode` 0. -/
def reportErr (errMsg : List Char) : List Event :=
  [.status ("HTTP/1.1 ".toList ++ errMsg ++ " \r\n".toList),
    .send "Content-Type: text/html \r\n".toList,
    .send "\r\n".toList,
    .send ("<html><body><a>".toList ++ errMsg ++ "</a></body></html>".toList)]

/-- `reportErr` with `mode` 1. -/
def reportFile (fs : FileSystem) (file : List Char) : List Event :=
  andThen
    [.status ("HTTP/1.1 ".toList ++ "200 OK".toList ++ " \r\n".toList),
      .send "Content-Type: text/html \r\n".toList,
      .send "\r\n".toList]
    (sendingValidFile fs file)

/-- `process`. -/
def process (fs : FileSystem) (requestMsg : List Char) : List Event :=
  match getCmdDir requestMsg with
  | .error reason => [.fault reason]
  -- `strcmp` in `Implemented` reads the command
  | .ok (none, _) => [.fault .nullToken]
  | .ok (some cmmd, dir) =>
    if !Implemented cmmd then andThen (reportErr "501 Not Implemented".toList) [.close]
    else
      match dir with
      -- `strstr` in `validDir` reads the name
      | none => [.fault .nullToken]
      | some requestDir =>
        if !validDir fs requestDir then andThen (reportErr "400 Bad Request".toList) [.close]
        else
          match fileExist fs requestDir with
          | none => [.fault .overflow]
          | some false => andThen (reportErr "404 Not Found".toList) [.close]
          | some true =>
            match serverIssue fs requestDir with
            | none => [.fault .overflow]
            | some true => andThen (reportErr "500 Internal Server Error".toList) [.close]
            | some false => andThen (reportFile fs requestDir) [.close]

end ComputerNetworks.Web
