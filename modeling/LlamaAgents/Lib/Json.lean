import LlamaAgents.Lib.Dict

/-!
# JSON values

The values of a JSON text, and which of them count as true in a language where empty ones do not.
-/

namespace Lib

/-- A JSON value. -/
inductive Json where
  | null
  | bool (b : Bool)
  | num (n : Int)
  | str (s : String)
  | list (items : List Json)
  | dict (entries : List (String × Json))

/-- Whether a value counts as true. -/
def Json.isTruthy : Json → Bool
  | null => false
  | bool b => b
  | num n => n != 0
  | str s => !s.isEmpty
  | list items => !items.isEmpty
  | dict entries => !entries.isEmpty

end Lib
