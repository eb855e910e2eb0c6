import PageReach.Data.Binary64
import PageReach.Table

/-!
# Values of configuration files and literals

A value is what a configuration file or a literal expression denotes. The fields of an object keep
their order, and the last of several fields of one name counts.
-/

namespace PageReach

/-- A value of a configuration file or a literal expression. -/
inductive Value where
  | null
  | bool (b : Bool)
  | int (n : Int)
  | float (x : Binary64)
  | text (s : String)
  | list (items : List Value)
  | object (fields : List (String × Value))
deriving Repr, Inhabited

namespace Value

/-- The object made by putting in fields one after the other. -/
def ofFields (fields : List (String × Value)) : Value := .object (Table.ofList fields).entries

/-- The fields of an object. -/
def fields? : Value → Option (Table Value)
  | .object fields => some ⟨fields⟩
  | _ => none

/-- The field of an object. -/
def get? (v : Value) (key : String) : Option Value := v.fields?.bind (·.get? key)

/-- The text of a text. -/
def text? : Value → Option String
  | .text s => some s
  | _ => none

/-- The items of a list. -/
def items? : Value → Option (List Value)
  | .list items => some items
  | _ => none

/-- Whether a value is anything but null, false, zero, or an empty text, list or object. -/
def holds : Value → Bool
  | .null => false
  | .bool b => b
  | .int n => n ≠ 0
  | .float x => !x.isZero
  | .text s => s ≠ ""
  | .list items => !items.isEmpty
  | .object fields => !fields.isEmpty

end Value

end PageReach
