import PageReach.Data.Value
import PageReach.Operation.Kind
import PageReach.Text.Letter
import PageReach.Text.Split

/-!
# Attributions

An attribution says that a page uses an operation: where the operation was found, how far away that
is, how many pages reach it, how it is classified, and on what evidence.
-/

namespace PageReach

/-! ### Classification -/

/-- How an operation relates to a page. -/
inductive Classification where
  /-- It is in the page's own entry file. -/
  | direct
  /-- It is near, or few pages reach it. -/
  | close
  | indirect
  /-- Many pages reach it. -/
  | common
deriving DecidableEq, Repr, Inhabited

/-- How far an attribution can be trusted. -/
inductive Confidence where
  | certain | likely | unknown
deriving DecidableEq, Repr, Inhabited

/-- The word for a classification. -/
def Classification.word : Classification → String
  | direct => "direct"
  | close => "close"
  | indirect => "indirect"
  | common => "common"

/-- The word for a confidence. -/
def Confidence.word : Confidence → String
  | certain => "certain"
  | likely => "likely"
  | unknown => "unknown"

/-- The classification for a word. -/
def Classification.ofWord (w : String) : Except Fault Classification :=
  match [direct, close, indirect, common].find? (·.word = w) with
  | some c => .ok c
  | none => .error .unknownWord

/-- The confidence for a word. -/
def Confidence.ofWord (w : String) : Except Fault Confidence :=
  match [certain, likely, unknown].find? (·.word = w) with
  | some c => .ok c
  | none => .error .unknownWord

/-- Files up to so many hops away are close. -/
def closeHops : Int := 2

/-- Classifies an operation by its hops and by the number of pages that reach its file. -/
def classify (hops reach common few : Int) : Classification × Confidence :=
  if hops = 0 then (.direct, .certain)
  else if common ≤ reach then (.common, .unknown)
  else if hops ≤ closeHops || reach ≤ few then (.close, .certain)
  else (.indirect, .likely)

/-! ### Evidence and attributions -/

/-- A step from a page to an operation. -/
structure Evidence where
  /-- `import-edge` or `operation-reference`. -/
  kind : String
  file : String
  detail : String
  line : Option Int := none
deriving DecidableEq, Repr, Inhabited

/-- A page uses an operation. -/
structure Attribution where
  /-- The route of the page. -/
  page : Value
  name : String
  kind : OperationKind
  /-- The file where the operation was found. -/
  file : String
  hops : Int
  /-- The number of pages that reach the file. -/
  reach : Int
  classification : Classification
  confidence : Confidence
  evidence : List Evidence
deriving Repr, Inhabited

/-- The classification with the file; a direct operation needs no such tag. -/
def Attribution.tag? (a : Attribution) : Option String :=
  match a.classification with
  | .direct => none
  | c => some (c.word ++ ":" ++ a.file)

/-! ### Lists of attributions -/

/-- An entry in the list of attributions of a page. -/
inductive Listed where
  | attribution (a : Attribution)
  /-- A record of another analysis. -/
  | record (fields : Table Value)
  /-- Anything else, with the operation name that it may have. -/
  | other (name : Option Value)
deriving Repr, Inhabited

namespace Listed

/-- What an entry gives as the name of its operation. -/
def nameValue : Listed → Value
  | .attribution a => .text a.name
  | .record fields =>
    ([fields.get? "operationName", fields.get? "operation_name"].findSome? fun v =>
      v.bind fun v => if v.holds then some v else none).getD (.text "")
  | .other name =>
    match name with
    | some v => if v.holds then v else .text ""
    | none => .text ""

/-- Characters that decorate the names of nested operations. -/
def isDecoration (c : Char) : Bool := c = '→' || c = '-' || c = '>' || Text.isBlank c

/-- The name of an entry's operation without decoration. -/
def name (e : Listed) : Except Fault String :=
  match e.nameValue with
  | .text s => .ok (Text.trimStart isDecoration s)
  | _ => .error .nameNotText

/-- The names of the operations in a list. -/
def names (entries : List Listed) : Except Fault (List String) := entries.mapM name

end Listed

end PageReach
