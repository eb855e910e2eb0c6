/-!
# Faults

Most of what can be wrong with a repository makes a run answer less. What stops it altogether is a
fault, told by its cause.
-/

namespace PageReach

/-- Why a run stopped. -/
inductive Fault where
  /-- A path holds a zero character, which no file name can have. -/
  | unusablePath
  /-- A path holds half of a pair, for which there are no bytes. -/
  | strayHalf
  /-- A path, or a name on the way along it, has more bytes than a disk takes. -/
  | pathTooLong
  /-- A search from directory to directory never ends. -/
  | endlessSearch
  /-- A settings file is not text. -/
  | undecodableSettings
  /-- A settings file holds a number of more digits than can be read. -/
  | oversizedNumber
  /-- The target of a path pattern is neither text nor something that holds other values. -/
  | targetNotText
  /-- The target of a path pattern holds a star among its values. -/
  | targetHoldsStar
  /-- A base directory is given, but not as text. -/
  | baseNotText
  /-- An operation kind is given, but not as text. -/
  | kindNotText
  /-- The name of an attribution is given, but not as text. -/
  | nameNotText
  /-- A page's file is given, but not as text. -/
  | fileNotText
  /-- A page's route is given, but cannot be the key of a report. -/
  | routeNotKey
  /-- A file pattern is given, but not as text. -/
  | patternNotText
  /-- The word for a classification or a confidence is unknown. -/
  | unknownWord
  /-- A log level is unknown. -/
  | unknownLevel
  /-- A count is too large to be rounded. -/
  | countTooLarge
deriving DecidableEq, Repr, Inhabited

end PageReach
