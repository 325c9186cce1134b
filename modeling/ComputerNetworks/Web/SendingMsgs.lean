import ComputerNetworks.Echo.Client

/-!
# Sending a message

`sendingMsgs` of the web server, which sends every header, text and file, is the loop with
which the client sends, and neither looks for errors.
-/

namespace ComputerNetworks.Web

open Lib Echo

/-- `sendingMsgs`. -/
def sendingMsgs (errMsg : ℤ → UInt8) (msgSize : ℕ) : SendLoop → ℤ → Option SendLoop :=
  SendLoop.step errMsg msgSize

/-- Every call of the run is for bytes of the message only, and if the loop returns, it has
transmitted the message. -/
def Transmits (loop : SendLoop → ℤ → Option SendLoop) (message : ℤ → UInt8) (size : ℕ)
    (results : List ℤ) : Prop :=
  ∀ k middle, exec loop .start (results.take k) = some middle → middle.Law message size

/-- The two blocking send loops transmit exactly the message, and stay inside it, exactly
in the runs with clean results. -/
theorem transmits_iff_clean (message : ℤ → UInt8) (msgSize : ℕ) (sizeMsg : UInt16)
    (results : List ℤ) :
    (∀ loop, exec (sendingMsgs message msgSize) .start results = some loop →
      (Transmits (sendingMsgs message msgSize) message msgSize results ↔
        SendLoop.Clean msgSize results)) ∧
      ∀ loop, exec (Client.sending message sizeMsg) .start results = some loop →
        (Transmits (Client.sending message sizeMsg) message sizeMsg.toNat results ↔
          SendLoop.Clean sizeMsg.toNat results) := by
  constructor
  · intro loop run
    exact SendLoop.law_iff run
  · intro loop run
    exact SendLoop.law_iff run

/-- Ten zeros in two calls. -/
theorem transmits_two_calls :
    Transmits (sendingMsgs (fun _ => 0) 10) (fun _ => 0) 10 [4, 6] ∧
      Transmits (Client.sending (fun _ => 0) 10) (fun _ => 0) 10 [4, 6] := by
  have clean : SendLoop.Clean 10 [4, 6] := SendLoop.clean_of_success (by decide)
  have both := transmits_iff_clean (fun _ => 0) 10 10 [4, 6]
  exact ⟨(both.1 _ rfl).mpr clean, (both.2 _ rfl).mpr clean⟩

/-- When the first call fails, the next one starts before the message. -/
theorem not_transmits_error :
    (exec (sendingMsgs (fun _ => 0) 1) .start [-1]).isSome ∧
      ¬ Transmits (sendingMsgs (fun _ => 0) 1) (fun _ => 0) 1 [-1] := by
  refine ⟨rfl, fun transmits => ?_⟩
  have inside := ((transmits 1 _ rfl).call (by decide)).1
  contradiction

end ComputerNetworks.Web
