import Reindent.Engine
import Reindent.Files.Path

/-!
# Languages by suffix

The language of a file can be told from the suffix of its name.
-/

namespace Reindent.Files

open Text

/-- The suffixes that tell a language, in lower case. -/
def suffixes : List (List Char × Language) := [
  (['.', 'x', 'm', 'l'], .xml), (['.', 'x', 's', 'd'], .xml), (['.', 'x', 's', 'l'], .xml),
  (['.', 'x', 's', 'l', 't'], .xml), (['.', 's', 'v', 'g'], .xml),
  (['.', 'w', 's', 'd', 'l'], .xml),
  (['.', 'x', 'h', 't', 'm', 'l'], .xml), (['.', 'j', 's', 'o', 'n'], .json),
  (['.', 'c', 's', 's'], .css), (['.', 's', 'q', 'l'], .sql)]

/-- The language of a file, by its suffix in whatever case. -/
def language? (p : Path) : Option Language :=
  (suffixes.find? fun e => e.1 == lowerCase p.suffix).map Prod.snd

/-- The wording for a file whose suffix tells no language. -/
def noLanguageMessage (p : Path) : String :=
  let name := String.ofList p.name
  let known := String.ofList ([',', ' '].intercalate (suffixes.map Prod.fst))
  s!"Cannot infer the language of {name}. Pass --language or use one of: {known}"

end Reindent.Files
