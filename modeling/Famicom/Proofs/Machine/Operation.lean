import Famicom.Proofs.Machine.InRange

/-!
# Operations of the user

What the user of a machine does with it, one operation after another. Between two
operations the machine keeps its invariant (`Intact.perform`), and no transfer is
under way (`transferPage_perform`).
-/

namespace Famicom.Machine

/-- What the user of a machine does with it. -/
inductive Operation where
  | run
  | runFrame
  | reset
  | hold (player : Nat) (buttons : UInt8)
  | setWork (data : Array UInt8)
  | takeSamples

/-- Carry out an operation. The first component is the number of cycles that the
operation reports, if it does. -/
def perform : Operation → Machine → Option UInt64 × Machine
  | .run, m => (some m.run.1.toUInt64, m.run.2)
  | .runFrame, m => (some m.runFrame.1, m.runFrame.2)
  | .reset, m => (none, m.reset)
  | .hold player buttons, m => (none, m.hold player buttons)
  | .setWork data, m => (none, m.setWork data)
  | .takeSamples, m => (none, m.takeSamples.2)

/-- Carry out one operation after another, and collect what they report. -/
def performAll : List Operation → Machine → List (Option UInt64) × Machine
  | [], m => ([], m)
  | op :: ops, m =>
    let (answer, m) := perform op m
    let (answers, m) := performAll ops m
    (answer :: answers, m)

theorem Intact.perform {make : Make} {m : Machine} (h : Intact make m) (op : Operation) :
    Intact make (perform op m).2 := by
  cases op with
  | run => exact h.run
  | runFrame => exact runWhile_induction (fun _ hm => hm.run) _ _ _ h
  | reset => exact h.reset
  | hold player buttons => exact h.hold player buttons
  | setWork data => exact h.setWork data
  | takeSamples => exact h.takeSamples

theorem transferPage_perform {m : Machine} (h : m.bus.transferPage = none) (op : Operation) :
    (perform op m).2.bus.transferPage = none := by
  cases op with
  | run => exact transferPage_run m
  | runFrame =>
      exact runWhile_induction (P := fun m => m.bus.transferPage = none)
        (fun m _ => transferPage_run m) _ _ _ h
  | reset => exact h
  | hold player buttons =>
      show (m.hold player buttons).bus.transferPage = none
      unfold hold
      split <;> exact h
  | setWork data => exact h
  | takeSamples => exact h

end Famicom.Machine
