import Mathlib.Tactic

/-! Results the libraries and programs of the repository report. -/
namespace MorningProjects

inductive ExitStatus where
  | success
  | failure
  deriving DecidableEq, Repr

inductive SystemStatus where
  | ok
  | fail
  | invalidParam
  | databaseFull
  | databaseNotFound
  | databaseDuplicated
  | databaseOverwriten
  deriving DecidableEq, Repr

end MorningProjects
