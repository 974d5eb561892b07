import Reindent.Decimal.Notation
import Reindent.Text.Symbol

/-!
# JSON values

The values of JSON documents. The members of an object are kept in the order of their first
appearance; a name that appears again takes the later value.
-/

namespace Reindent

open Text Decimal

/-- A JSON value. -/
inductive Json where
  | null
  | bool (value : Bool)
  | int (value : Int)
  | real (value : Binary64)
  | text (value : List Symbol)
  | list (items : List Json)
  | object (members : List (List Symbol × Json))
deriving Inhabited

namespace Json

/-- Gives a name its value: in its place if the name is there already, and at the end otherwise. -/
def putMember (name : List Symbol) (value : Json) :
    List (List Symbol × Json) → List (List Symbol × Json)
  | [] => [(name, value)]
  | (n, v) :: rest => if n = name then (n, value) :: rest else (n, v) :: putMember name value rest

/-- The value of a name. -/
def member? (name : List Symbol) : List (List Symbol × Json) → Option Json
  | [] => none
  | (n, v) :: rest => if n = name then some v else member? name rest

end Json

end Reindent
