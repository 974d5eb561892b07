/-!
# Limits of the machine

How much memory there is and how many calls may be open at one time is up to the machine that runs
the formatter. What depends on these limits takes them as an argument.
-/

namespace Reindent

/-- How much the machine holds. -/
structure Limits where
  /-- The least number of characters that do not fit into memory. -/
  memory : Int
  /-- The levels to which values may nest in a document of JSON that is read. -/
  jsonReading : Nat
  /-- The levels to which values may nest in JSON that is written. -/
  jsonWriting : Nat
  /-- The calls that may be open for values inside values while a configuration file is read. -/
  tomlCalls : Nat
deriving DecidableEq, Repr

/-- The wording for values that are nested too deeply; what the machine adds about the place is
left out. -/
def deepMessage : String := "maximum recursion depth exceeded"

end Reindent
