import Chip8.Execution

namespace Chip8

structure Tally where
  lastFault : Option FaultReport := none
  decodeFaults : UInt32 := 0
  stackFaults : UInt32 := 0
  instructions : UInt64 := 0
  keyWaits : UInt64 := 0
  timerTicks : UInt64 := 0
  frames : UInt64 := 0
deriving DecidableEq

namespace Tally

def bump32 (n : UInt32) : UInt32 :=
  if n = 0xFFFFFFFF then n else n + 1

def bump64 (n : UInt64) : UInt64 :=
  if n = 0xFFFFFFFFFFFFFFFF then n else n + 1

variable (t : Tally)

def faults : UInt32 :=
  if UInt32.size ≤ t.decodeFaults.toNat + t.stackFaults.toNat then 0xFFFFFFFF
  else t.decodeFaults + t.stackFaults

def recordFault (r : FaultReport) : Tally :=
  match r.fault.kind with
  | .decode => { t with lastFault := some r, decodeFaults := bump32 t.decodeFaults }
  | .stack => { t with lastFault := some r, stackFaults := bump32 t.stackFaults }

def recordInstruction : Tally := { t with instructions := bump64 t.instructions }

def recordKeyWait : Tally := { t with keyWaits := bump64 t.keyWaits }

def recordTimerTick (published : Bool) : Tally :=
  { t with
    timerTicks := bump64 t.timerTicks
    frames := if published then bump64 t.frames else t.frames }

def record : Outcome → Tally
  | .retired _ _ => t.recordInstruction
  | .awaitingKey _ => t.recordKeyWait
  | .fault report => t.recordFault report

end Tally

end Chip8
