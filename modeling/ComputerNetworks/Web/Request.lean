import ComputerNetworks.Echo.Node
import ComputerNetworks.Web.Routes

/-!
# Answering a request

The server receives a request into a zeroed buffer, prints it and hands it to `process`. It
answers the requests whose strings and tokens exist and whose name fits, and no others.
-/

namespace ComputerNetworks.Web.Request

open Lib Echo

/-- `recvbuffer` after the `recv`. -/
def recvbuffer (received : List Char) : List Char :=
  received ++ List.replicate (msgSizeMax - received.length) nul

/-- What the server does with what it has received on a new connection. -/
def answer (fs : FileSystem) (received : List Char) : List Event :=
  match cString (recvbuffer received) with
  | .error reason => [.fault reason]
  | .ok text => .print text :: andThen (process fs (recvbuffer received)) [.close]

/-! ### Which requests are answered -/

variable {fs : FileSystem} {received : List Char}

/-- A status line. -/
def isStatus : Event → Bool
  | .status _ => true
  | _ => false

/-- No token is missing, every string ends inside its buffer, every path fits `full_dir`, and
one status line is sent before the connection is closed. -/
structure Answered (run : List Event) : Prop where
  tokens : .fault .nullToken ∉ run
  reads : .fault .overread ∉ run
  paths : .fault .overflow ∉ run
  status : (run.takeWhile (· ≠ .close)).countP isStatus = 1

/-- The request leaves a zero in the buffer, it has a command, and if this is GET, it has a name,
which, if `validDir` lets it pass, has at most 254 characters. -/
structure Proper (fs : FileSystem) (received : List Char) : Prop where
  terminated : received.length < msgSizeMax ∨ nul ∈ received
  command : tokens ' ' (requestText received) ≠ []
  name : (tokens ' ' (requestText received))[0]? = some "GET".toList →
    ∃ dir, (tokens ' ' (requestText received))[1]? = some dir ∧
      (validDir fs dir = true → dir.length + 2 ≤ 256)

/-- The file that is served can be opened again and is not empty. -/
def Readable (fs : FileSystem) (received : List Char) : Prop :=
  ∀ dir, Served fs (requestText received) dir → ∃ c cs, fs.content ('.' :: dir) = some (c :: cs)

theorem nul_mem_recvbuffer (size : received.length ≤ msgSizeMax) :
    nul ∈ recvbuffer received ↔ received.length < msgSizeMax ∨ nul ∈ received := by
  have room : msgSizeMax - received.length ≠ 0 ↔ received.length < msgSizeMax := by omega
  simp [recvbuffer, List.mem_replicate, room, or_comm]

/-- A buffer with a zero holds the message, the zero and something else. -/
theorem recvbuffer_eq (terminated : nul ∈ recvbuffer received) :
    ∃ rest, recvbuffer received = requestText received ++ nul :: rest := by
  obtain ⟨rest, split⟩ := exists_requestText terminated
  have zeros : ∀ c, (List.replicate (msgSizeMax - received.length) nul).head? = some c → c = nul := by
    intro c first
    exact List.eq_of_mem_replicate (List.mem_of_mem_head? first)
  have text : requestText (recvbuffer received) = requestText received :=
    requestText_append zeros received
  exact ⟨rest, text ▸ split⟩

/-- What the server does after a request has been received, by the tokens of the message. -/
theorem answer_eq (fs : FileSystem) (terminated : nul ∈ recvbuffer received) :
    ∃ run, Route fs (tokens ' ' (requestText received)) run ∧
      answer fs received = .print (requestText received) :: andThen run [.close] := by
  obtain ⟨rest, buffer⟩ := recvbuffer_eq terminated
  have plain := nul_notMem_requestText received
  refine ⟨_, route plain rest, ?_⟩
  have text : cString (recvbuffer received) = .ok (requestText received) := by
    rw [cString, if_pos terminated, buffer, List.takeWhile_append_of_pos]
    · simp
    · intro c member
      simpa using fun zero : c = nul => plain (zero ▸ member)
  rw [answer, text, buffer]

theorem answered_reportErr (text errMsg : List Char) :
    Answered (.print text :: andThen (andThen (reportErr errMsg) [.close]) [.close]) := by
  obtain ⟨line, header, blank, body, events⟩ : ∃ line header blank body,
    reportErr errMsg = [.status line, .send header, .send blank, .send body] := ⟨_, _, _, _, rfl⟩
  rw [events]
  constructor <;> simp [andThen, Event.ends, isStatus, List.countP_cons]

theorem answered_reportFile {dir path : List Char} (text : List Char)
    (full : fullDir dir = some path) :
    Answered (.print text :: andThen (andThen (reportFile fs dir) [.close]) [.close]) := by
  obtain ⟨line, header, blank, events⟩ := reportFile_eq fs dir
  rw [events, sendingValidFile, full]
  cases content : fs.content path with
  | none => constructor <;> simp [andThen, content, Event.ends, isStatus, List.countP_cons]
  | some text =>
    cases text <;> constructor <;> simp [andThen, content, Event.ends, isStatus, List.countP_cons]

/-- The connection is closed after a file exactly when the file can be opened and is not empty. -/
theorem close_mem_reportFile {dir path : List Char} (text : List Char)
    (full : fullDir dir = some path) :
    .close ∈ Event.print text :: andThen (andThen (reportFile fs dir) [.close]) [.close] ↔
      ∃ c cs, fs.content path = some (c :: cs) := by
  obtain ⟨line, header, blank, events⟩ := reportFile_eq fs dir
  rw [events, sendingValidFile, full]
  cases content : fs.content path with
  | none => simp [andThen, content, Event.ends]
  | some text => cases text <;> simp [andThen, content, Event.ends]

variable {found : List (List Char)} {run : List Event}

/-- A fault in `process` is one of the whole run. -/
theorem fault_mem (text : List Char) (reason : Fault) :
    .fault reason ∈ Event.print text :: andThen [.fault reason] [.close] := by
  simp [andThen, Event.ends]

/-- A run is answered if its tokens exist and the name that passes `validDir` fits. -/
theorem answered_iff_of_route (h : Route fs found run) (text : List Char) :
    Answered (.print text :: andThen run [.close]) ↔ found ≠ [] ∧
      (found[0]? = some "GET".toList → ∃ dir, found[1]? = some dir ∧
        (validDir fs dir = true → dir.length + 2 ≤ 256)) := by
  have report := fun errMsg => answered_reportErr text errMsg
  cases h with
  | empty => exact iff_of_false (fun bad => bad.tokens (fault_mem text _)) (by simp)
  | unknown more other =>
    exact iff_of_true (report _) ⟨by simp, fun get => absurd (Option.some.inj get) other⟩
  | bare => exact iff_of_false (fun bad => bad.tokens (fault_mem text _)) (by simp)
  | invalid more invalid =>
    refine iff_of_true (report _) ⟨by simp, fun _ => ⟨_, rfl, fun valid => ?_⟩⟩
    rw [invalid] at valid
    cases valid
  | long more valid full =>
    refine iff_of_false (fun bad => bad.paths (fault_mem text _)) ?_
    rintro ⟨-, name⟩
    obtain ⟨dir, ⟨⟩, fits⟩ := name rfl
    obtain ⟨path, some⟩ := fullDir_isSome.mpr (fits valid)
    rw [full] at some
    cases some
  | missing more valid full file =>
    exact iff_of_true (report _) ⟨by simp, fun _ => ⟨_, rfl, fun _ => fullDir_isSome.mp ⟨_, full⟩⟩⟩
  | issue more valid full file unreadable =>
    exact iff_of_true (report _) ⟨by simp, fun _ => ⟨_, rfl, fun _ => fullDir_isSome.mp ⟨_, full⟩⟩⟩
  | serve more valid full file readable =>
    exact iff_of_true (answered_reportFile text full)
      ⟨by simp, fun _ => ⟨_, rfl, fun _ => fullDir_isSome.mp ⟨_, full⟩⟩⟩

theorem close_mem_reportErr (text errMsg : List Char) :
    .close ∈ Event.print text :: andThen (andThen (reportErr errMsg) [.close]) [.close] := by
  have run : andThen (andThen (reportErr errMsg) [.close]) [.close] =
    reportErr errMsg ++ [.close, .close] := rfl
  simp [run]

/-- An answered request ends in closing the connection if a file that is served can be read. -/
theorem closed_iff_of_route (h : Route fs found run) (text : List Char)
    (answered : Answered (.print text :: andThen run [.close])) :
    .close ∈ Event.print text :: andThen run [.close] ↔
      ∀ dir, found[0]? = some "GET".toList → found[1]? = some dir → validDir fs dir = true →
        fileExist fs dir = some true → serverIssue fs dir = some false →
          ∃ c cs, fs.content ('.' :: dir) = some (c :: cs) := by
  have report := fun errMsg => close_mem_reportErr text errMsg
  cases h with
  | empty => exact absurd (fault_mem text _) answered.tokens
  | bare => exact absurd (fault_mem text _) answered.tokens
  | long => exact absurd (fault_mem text _) answered.paths
  | unknown more other =>
    exact iff_of_true (report _) fun dir get => absurd (Option.some.inj get) other
  | invalid more invalid =>
    refine iff_of_true (report _) ?_
    rintro dir - ⟨⟩ valid
    rw [invalid] at valid
    cases valid
  | missing more valid full file =>
    refine iff_of_true (report _) ?_
    rintro dir - ⟨⟩ - exist
    rw [fileExist_eq full, file] at exist
    cases exist
  | issue more valid full file unreadable =>
    refine iff_of_true (report _) ?_
    rintro dir - ⟨⟩ - - issue
    rw [serverIssue_eq full, unreadable] at issue
    cases issue
  | serve more valid full file readable =>
    obtain rfl := fullDir_eq full
    rw [close_mem_reportFile text full]
    constructor
    · rintro nonempty dir - ⟨⟩ - - -
      exact nonempty
    · intro nonempty
      refine nonempty _ rfl rfl valid ?_ ?_
      · rw [fileExist_eq full, file]
      · rw [serverIssue_eq full, readable]
        rfl

/-- A request is answered exactly when it is proper, and the connection is then closed exactly
when a file that is served can be opened again and is not empty. -/
theorem answered_iff_proper (fs : FileSystem) (received : List Char)
    (size : received.length ≤ msgSizeMax) :
    (Answered (answer fs received) ↔ Proper fs received) ∧
      (Answered (answer fs received) ∧ .close ∈ answer fs received ↔
        Proper fs received ∧ Readable fs received) := by
  by_cases terminated : nul ∈ recvbuffer received
  · obtain ⟨run, routes, events⟩ := answer_eq fs terminated
    have proper : Answered (answer fs received) ↔ Proper fs received := by
      rw [events, answered_iff_of_route routes]
      constructor
      · rintro ⟨command, name⟩
        exact ⟨(nul_mem_recvbuffer size).mp terminated, command, name⟩
      · rintro ⟨-, command, name⟩
        exact ⟨command, name⟩
    refine ⟨proper, ?_⟩
    rw [← proper]
    refine and_congr_right fun answered => ?_
    rw [events] at answered ⊢
    rw [closed_iff_of_route routes _ answered]
    constructor
    · intro nonempty dir served
      exact nonempty dir served.command served.second served.valid served.file served.readable
    · intro nonempty dir command second valid file readable
      exact nonempty dir ⟨⟨command, second, valid⟩, file, readable⟩
  · have events : answer fs received = [.fault .overread] := by
      rw [answer, cString, if_neg terminated]
    have unanswered : ¬ Answered (answer fs received) :=
      fun answered => answered.reads (events ▸ List.mem_singleton_self _)
    have improper : ¬ Proper fs received :=
      fun proper => terminated ((nul_mem_recvbuffer size).mpr proper.terminated)
    exact ⟨iff_of_false unanswered improper,
      iff_of_false (fun both => unanswered both.1) fun both => improper both.1⟩

/-- One file that can be read, under every name. -/
def site : FileSystem := ⟨fun _ => false, fun _ => true, fun _ => true, fun _ => some ['x']⟩

/-- A request for a file. -/
def getRequest : List Char := "GET /index.html HTTP/1.1".toList

theorem answered_getRequest :
    Answered (answer site getRequest) ∧ .close ∈ answer site getRequest := by
  refine (answered_iff_proper site getRequest (by decide)).2.mpr ⟨⟨.inl (by decide), ?_, ?_⟩, ?_⟩
  · decide
  · intro _
    exact ⟨"/index.html".toList, by decide, fun _ => by decide⟩
  · intro dir _
    exact ⟨'x', [], rfl⟩

/-- A connection that is closed before it sends anything makes the server read a token that does
not exist. -/
theorem not_answered_nil : ¬ Answered (answer site []) := by
  have terminated : nul ∈ recvbuffer [] :=
    (nul_mem_recvbuffer (Nat.zero_le _)).mpr (.inl (by decide))
  obtain ⟨run, routes, events⟩ := answer_eq site terminated
  rw [events, answered_iff_of_route routes]
  exact fun both => both.1 rfl

end ComputerNetworks.Web.Request
