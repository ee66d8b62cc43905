import IncrementalBuild.Command

/-!
# Processes

Running a command changes the world it runs in, and ends with an exit code and
two texts, or is not started at all. While it runs, a request to cancel the
whole execution may arrive.
-/

namespace IncrementalBuild

/-- What a process leaves behind. -/
structure ProcessOutput where
  exitCode : Int
  stdout : String
  stderr : String
  deriving DecidableEq

/-- Why a command was not started. -/
structure SpawnError where
  tool : String
  message : String
  deriving DecidableEq

/-- The text of a failed start. -/
def SpawnError.text (e : SpawnError) : String := s!"failed to spawn '{e.tool}': {e.message}"

/-- How running a command went. -/
structure ProcessRun (ω : Type) where
  /-- The world after it. -/
  world : ω
  result : Except SpawnError ProcessOutput
  /-- Whether the execution was asked to stop while it ran. -/
  cancelRequested : Bool

/-- **The worlds in which commands can be run.** -/
class ProcessWorld (ω : Type) where
  run : ω → Command → ProcessRun ω

end IncrementalBuild
