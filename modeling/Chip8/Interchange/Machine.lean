import Chip8.Interchange
import Chip8.Tally

namespace Chip8.Interchange

instance : Interchange Register where
  encode x := .text x.name
  decode := decodeName ((List.finRange 16).map fun x ↦ (Register.name x, x))

instance : Interchange Registers where
  encode r := .record [("v", encode r.v), ("index", encode r.index), ("pc", encode r.pc)]
  decode d := do
    let fs ← fields ["v", "index", "pc"] d
    return { v := ← field fs "v", index := ← field fs "index", pc := ← field fs "pc" }

/-- The frames are written with the oldest call first, and any number of them is read. -/
instance : Interchange CallStack where
  encode s := .record [("frames", encode s.frames)]
  decode d := do
    let fs ← fields ["frames"] d
    return .ofFrames (← field fs "frames")

instance : Interchange Timers where
  encode t := .record [("delay", encode t.delay), ("sound", encode t.sound)]
  decode d := do
    let fs ← fields ["delay", "sound"] d
    return { delay := ← field fs "delay", sound := ← field fs "sound" }

def encodeLatch : KeyLatch → Datum
  | .idle => .text "Idle"
  | .awaitingPress x => .record [("AwaitingPress", .record [("register", encode x)])]
  | .awaitingRelease x key =>
    .record [("AwaitingRelease", .record [("register", encode x), ("key", encode key)])]

def decodeLatch (d : Datum) : Except Refusal KeyLatch := do
  let (name, rest) ← alternative d
  match name with
  | "Idle" =>
    plain rest
    return .idle
  | "AwaitingPress" =>
    let fs ← named ["register"] rest
    return .awaitingPress (← field fs "register")
  | "AwaitingRelease" =>
    let fs ← named ["register", "key"] rest
    return .awaitingRelease (← field fs "register") (← field fs "key")
  | _ => .error .malformed

instance : Interchange KeyLatch where
  encode := encodeLatch
  decode := decodeLatch

instance : Interchange Dialect where
  encode d := .record [
    ("load_store_advances_index", encode d.advancesIndex),
    ("shift_in_place", encode d.shiftsInPlace),
    ("jump_offset_uses_vx", encode d.namesOffset)]
  decode d := do
    let fs ← fields ["load_store_advances_index", "shift_in_place", "jump_offset_uses_vx"] d
    return {
      advancesIndex := ← field fs "load_store_advances_index"
      shiftsInPlace := ← field fs "shift_in_place"
      namesOffset := ← field fs "jump_offset_uses_vx" }

instance : Interchange Config where
  encode c := .record [
    ("quirks", encode c.dialect),
    ("cpu_hz", encode c.rate),
    ("rng_seed", encode c.seed),
    ("tracing_enabled", encode c.tracing)]
  decode d := do
    let fs ← fields ["quirks", "cpu_hz", "rng_seed", "tracing_enabled"] d
    return {
      dialect := ← field fs "quirks"
      rate := ← field fs "cpu_hz"
      seed := ← optionalField fs "rng_seed"
      tracing := ← field fs "tracing_enabled" }

def faultName : Fault → String
  | .unknownOpcode => "UnknownOpcode"
  | .stackUnderflow => "StackUnderflow"
  | .stackOverflow => "StackOverflow"

def faults : List (String × Fault) :=
  [.unknownOpcode, .stackUnderflow, .stackOverflow].map fun f ↦ (faultName f, f)

instance : Interchange Fault where
  encode f := .text (faultName f)
  decode := decodeName faults

def kindName : Fault.Kind → String
  | .decode => "Decode"
  | .stack => "Stack"

instance : Interchange Fault.Kind where
  encode k := .text (kindName k)
  decode := decodeName ([.decode, .stack].map fun k ↦ (kindName k, k))

instance : Interchange FaultReport where
  encode r := .record [
    ("code", encode r.fault),
    ("pc", encode r.address),
    ("opcode", encode r.word)]
  decode d := do
    let fs ← fields ["code", "pc", "opcode"] d
    return {
      fault := ← field fs "code"
      address := ← field fs "pc"
      word := ← field fs "opcode" }

instance : Interchange Tally where
  encode t := .record [
    ("last_fault", encode t.lastFault),
    ("fault_count_decode", encode t.decodeFaults),
    ("fault_count_stack", encode t.stackFaults),
    ("instruction_count", encode t.instructions),
    ("key_wait_ticks", encode t.keyWaits),
    ("timer_ticks", encode t.timerTicks),
    ("frames_published", encode t.frames)]
  decode d := do
    let fs ← fields ["last_fault", "fault_count_decode", "fault_count_stack",
      "instruction_count", "key_wait_ticks", "timer_ticks", "frames_published"] d
    return {
      lastFault := ← optionalField fs "last_fault"
      decodeFaults := ← field fs "fault_count_decode"
      stackFaults := ← field fs "fault_count_stack"
      instructions := ← field fs "instruction_count"
      keyWaits := ← field fs "key_wait_ticks"
      timerTicks := ← field fs "timer_ticks"
      frames := ← field fs "frames_published" }

end Chip8.Interchange
