import AgentGateway.Task.Results

/-!
# Task events

The events that an agent delivers for a task, and which of them are admitted at
which position.
-/

namespace AgentGateway.Task

open Json (Value)

structure PacketBinding where
  taskId : Uuid
  roomId : Uuid
  contextRevision : ℤ
  canonicalSha256 : String
deriving DecidableEq

inductive A2aTaskEvent where
  | submitted (ordinal : ℕ)
  | working (ordinal : ℕ) (text : String)
  | completed (ordinal : ℕ) (result : Value) (binding : PacketBinding)

def A2aTaskEvent.ordinal : A2aTaskEvent → ℕ
  | .submitted ordinal => ordinal
  | .working ordinal _ => ordinal
  | .completed ordinal _ _ => ordinal

/-- The binding of a packet. -/
def RoomContextPacket.binding (p : RoomContextPacket) : PacketBinding :=
  ⟨p.taskId, p.roomId, p.contextRevision, p.canonicalSha256⟩

def readingText : String := "Reading authorized room context"

def preparingText : String := "Preparing cited result"

variable (F : Formats)

/-- Only the exact result of the packet is valid at a time. -/
def validateResult (p : RoomContextPacket) (now : DateTime) (result : Value) :
    Bool :=
  match expectedResult F p now with
  | .ok v => decide (v = result)
  | .error _ => false

variable {F}

theorem validateResult_eq_true {p : RoomContextPacket} {now : DateTime}
    {result : Value} :
    validateResult F p now result = true ↔
      expectedResult F p now = .ok result := by
  unfold validateResult
  split
  next v hv => simp [hv]
  next e he => simp [he]

end AgentGateway.Task
