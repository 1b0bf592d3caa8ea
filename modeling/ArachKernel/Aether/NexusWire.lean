import ArachKernel.Lib.Digest
import ArachKernel.Lib.Guarded
import ArachKernel.Process.Context

/-!
The frames of the Nexus wire: commands, replies and telemetry of eight words each, the
last of them a checksum of the seven before it.
-/

namespace ArachKernel.Aether

open Process (Word)

def nexusWireMagic : BitVec 32 := 0x4e585331
def nexusWireVersion : BitVec 16 := 1

inductive WireError
  | badMagic | badVersion | badChecksum | unknownOpcode | unknownStatus | sequenceMismatch
  deriving DecidableEq

inductive NexusOpcode
  | queryStats | queryTelemetry | attachTask | entangle | setCollapseThreshold
  | setPriorityMass | offerKairos
  deriving DecidableEq

def NexusOpcode.tryFrom (value : BitVec 16) : Except WireError NexusOpcode :=
  match value.toNat with
  | 1 => .ok .queryStats
  | 3 => .ok .queryTelemetry
  | 16 => .ok .attachTask
  | 18 => .ok .entangle
  | 20 => .ok .setCollapseThreshold
  | 22 => .ok .setPriorityMass
  | 24 => .ok .offerKairos
  | _ => .error .unknownOpcode

inductive NexusStatus
  | ok | badFrame | denied | expired | invalidArgument | capacity | thermalThrottle | notReady
  | internalFault
  deriving DecidableEq

def NexusStatus.tryFrom (value : BitVec 16) : Except WireError NexusStatus :=
  match value.toNat with
  | 0 => .ok .ok
  | 1 => .ok .badFrame
  | 2 => .ok .denied
  | 3 => .ok .expired
  | 4 => .ok .invalidArgument
  | 5 => .ok .capacity
  | 6 => .ok .thermalThrottle
  | 7 => .ok .notReady
  | 8 => .ok .internalFault
  | _ => .error .unknownStatus

def foldRound : Round 64 where
  addend := 0x9e3779b97f4a7c15
  rotation := 27
  multiplier := 0x94d049bb133111eb
  shift := 31
  inverse := 0x319642b2d24d8ec3
  multiplier_mul_inverse := by decide
  shift_pos := by decide

def fold : Word → Word → Word := foldRound.mix

/-- A word of one half and two quarters, the lowest first. -/
def packed (low : BitVec 32) (middle high : BitVec 16) : Word :=
  low.setWidth 64 ||| middle.setWidth 64 <<< 32 ||| high.setWidth 64 <<< 48

structure NexusCommand where
  magic : BitVec 32
  version : BitVec 16
  opcode : BitVec 16
  sequence : Word
  capability : Word
  arguments : Vector Word 4
  checksum : Word

namespace NexusCommand

variable (command : NexusCommand)

/-- The words under the checksum. -/
def covered : List Word :=
  [packed command.magic command.version command.opcode, command.sequence, command.capability] ++
    command.arguments.toList

def words : List Word := command.covered ++ [command.checksum]

def computeChecksum : Word :=
  command.covered.foldl fold 0x6a09e667f3bcc909

def validate : Except WireError NexusOpcode :=
  if command.magic ≠ nexusWireMagic then .error .badMagic
  else if command.version ≠ nexusWireVersion then .error .badVersion
  else if command.checksum ≠ command.computeChecksum then .error .badChecksum
  else NexusOpcode.tryFrom command.opcode

theorem checksum_of_validate {command : NexusCommand} {opcode : NexusOpcode}
    (h : command.validate = .ok opcode) : command.checksum = command.computeChecksum := by
  simp only [validate, Fallible.check_eq_ok, not_not] at h
  exact h.2.2.1

end NexusCommand

structure NexusReply where
  magic : BitVec 32
  version : BitVec 16
  status : BitVec 16
  sequence : Word
  kernelTick : Word
  generation : BitVec 32
  payloadKind : BitVec 16
  flags : BitVec 16
  values : Vector Word 3
  checksum : Word

namespace NexusReply

variable (reply : NexusReply)

def covered : List Word :=
  [packed reply.magic reply.version reply.status, reply.sequence, reply.kernelTick,
    packed reply.generation reply.payloadKind reply.flags] ++ reply.values.toList

def words : List Word := reply.covered ++ [reply.checksum]

def computeChecksum : Word := reply.covered.foldl fold 0xbb67ae8584caa73b

def validate (expectedSequence : Word) : Except WireError NexusStatus :=
  if reply.magic ≠ nexusWireMagic then .error .badMagic
  else if reply.version ≠ nexusWireVersion then .error .badVersion
  else if reply.sequence ≠ expectedSequence then .error .sequenceMismatch
  else if reply.checksum ≠ reply.computeChecksum then .error .badChecksum
  else NexusStatus.tryFrom reply.status

theorem checksum_of_validate {reply : NexusReply} {expectedSequence : Word} {status : NexusStatus}
    (h : reply.validate expectedSequence = .ok status) :
    reply.checksum = reply.computeChecksum := by
  simp only [validate, Fallible.check_eq_ok, not_not] at h
  exact h.2.2.2.1

end NexusReply

structure NexusTelemetry where
  magic : BitVec 32
  version : BitVec 16
  flags : BitVec 16
  sequence : Word
  logicalTick : Word
  globalPhase : Word
  pairsLive : BitVec 32
  generation : BitVec 32
  heat : Word
  collapses : Word
  checksum : Word

namespace NexusTelemetry

variable (telemetry : NexusTelemetry)

def covered : List Word :=
  [packed telemetry.magic telemetry.version telemetry.flags, telemetry.sequence,
    telemetry.logicalTick, telemetry.globalPhase,
    telemetry.pairsLive.setWidth 64 ||| telemetry.generation.setWidth 64 <<< 32, telemetry.heat,
    telemetry.collapses]

def words : List Word := telemetry.covered ++ [telemetry.checksum]

def computeChecksum : Word :=
  telemetry.covered.foldl fold 0x3c6ef372fe94f82b

def validate : Except WireError Unit :=
  if telemetry.magic ≠ nexusWireMagic then .error .badMagic
  else if telemetry.version ≠ nexusWireVersion then .error .badVersion
  else if telemetry.checksum ≠ telemetry.computeChecksum then .error .badChecksum
  else .ok ()

theorem checksum_of_validate {telemetry : NexusTelemetry} {u : Unit}
    (h : telemetry.validate = .ok u) : telemetry.checksum = telemetry.computeChecksum := by
  simp only [validate, Fallible.check_eq_ok, not_not] at h
  exact h.2.2.1

end NexusTelemetry

end ArachKernel.Aether
