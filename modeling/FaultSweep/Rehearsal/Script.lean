/-!
# Scripts

A script answers a question each time it is asked: with its replies in order, then with the last of
them again and again. A script without replies always gives the same answer, and one that was asked
too often gives up and says something that ends any wait.
-/

namespace FaultSweep

structure Script (α : Type) where
  replies : Array α
  /-- What a script without replies says. -/
  absent : α
  /-- What is said after too many answers. -/
  surrender : α
  /-- How often the script was asked. -/
  asked : Nat

namespace Script

variable {α : Type}

/-- After this many answers a script gives up. -/
def limit : Nat := 5000

def current (s : Script α) : α :=
  if limit ≤ s.asked then s.surrender
  else match s.replies[s.asked]? with
    | some a => a
    | none => s.replies.back?.getD s.absent

def next (s : Script α) : α × Script α := (s.current, { s with asked := s.asked + 1 })

end Script

end FaultSweep
