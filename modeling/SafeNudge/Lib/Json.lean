import SafeNudge.Lib.Record

/-!
# JSON

The texts `JSON.parse` reads and `JSON.stringify` writes, and the object a text makes.
-/

namespace Lib

inductive Json where
  | null
  | bool (b : Bool)
  | number (n : Rat)
  /-- A number too large for a double. -/
  | infinite (negative : Bool)
  | string (s : String)
  | array (items : List Json)
  | object (members : List (String × Json))

namespace Json

/-- The properties of an object; a later member of the same name takes the place of an earlier. -/
def record? : Json → Option (Record Json)
  | object members => some (Record.empty.setAll members)
  | _ => none

def string? : Json → Option String
  | string s => some s
  | _ => none

/-- A text or `null`. -/
def ofString? : Option String → Json
  | none => null
  | some s => string s

end Json

end Lib
