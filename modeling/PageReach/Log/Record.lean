import PageReach.Data.Binary64
import PageReach.Fault
import PageReach.Text.Quoted
import PageReach.Table

/-!
# Log records

A log record is flattened into fields: what is bound to the logger stands beside the record's own
fields and may take their place, and an error that belongs to the record comes last.
-/

namespace PageReach.Log

/-- Log levels, the least severe first. -/
inductive Level where
  | trace | debug | info | success | warning | error | critical
deriving DecidableEq, Repr, Inhabited

namespace Level

/-- All levels, the least severe first. -/
def all : List Level := [trace, debug, info, success, warning, error, critical]

/-- The name of a level. -/
def name : Level → String
  | trace => "TRACE"
  | debug => "DEBUG"
  | info => "INFO"
  | success => "SUCCESS"
  | warning => "WARNING"
  | error => "ERROR"
  | critical => "CRITICAL"

/-- The number of a level in records. -/
def number : Level → Nat
  | trace => 10
  | debug => 20
  | info => 30
  | success => 30
  | warning => 40
  | error => 50
  | critical => 60

/-- The level of a name. -/
def ofName? (s : String) : Option Level := all.find? (·.name = s)

/-- The level of a name that is known. -/
def ofName (s : String) : Except Fault Level :=
  match ofName? s with
  | some l => .ok l
  | none => .error .unknownLevel

/-- How severe a level is. -/
def rank : Level → Nat
  | trace => 0
  | debug => 1
  | info => 2
  | success => 3
  | warning => 4
  | error => 5
  | critical => 6

/-- The capital form of a character of a level's name: a dotless `i`, a long `s` and a sharp `s`
have capital forms among the plain letters. -/
def capital (c : Char) : List Char :=
  if c = 'ı' then ['I'] else if c = 'ſ' then ['S'] else if c = 'ß' then ['S', 'S'] else [c.toUpper]

/-- The level of a name in either case. -/
def ofAnyCase (s : String) : Except Fault Level :=
  ofName (String.ofList (s.toList.flatMap capital))

end Level

/-- A field of a record, where `α` is what can be bound to a logger. -/
inductive Field (α : Type) where
  | number (n : Int)
  | text (s : String)
  | bound (a : α)
  /-- An error with the name of its type. -/
  | failure (type message : String)
deriving Repr, Inhabited

/-- An error that belongs to a record. Neither its type nor its message need be known. -/
structure Failure where
  type : Option String
  message : Option String
deriving DecidableEq, Repr, Inhabited

/-- The field of an error. -/
def Failure.field {α : Type} (f : Failure) : Field α :=
  .failure (f.type.getD "Error") (f.message.getD "")

/-- Fields that follow from what is bound and from an error. -/
def withBound {α : Type} (own : List (String × Field α)) (requestId : String) (bound : Table α)
    (failure : Option Failure) : Table (Field α) :=
  let request := match bound.get? "request_id" with
    | some a => Field.bound a
    | none => .text requestId
  let extra := (bound.entries.filter (·.1 ≠ "request_id")).map fun (k, a) => (k, Field.bound a)
  let last := match failure with
    | some f => [("err", f.field)]
    | none => []
  .ofList (own ++ [("request_id", request)] ++ extra ++ last)

/-- Whole milliseconds of a time in seconds, without what is left over. -/
def milliseconds (seconds : Binary64) : Int :=
  match seconds.mul (.ofQuotient false 1000 1) with
  | .finite negative m e =>
    let (num, den) := Binary64.scaleDown m 1 (-e)
    if negative then -((num / den : Nat) : Int) else (num / den : Nat)
  | _ => 0

/-- A record with its time in milliseconds. An unknown level counts as information. -/
def record {α : Type} (level : String) (time pid : Int) (message requestId : String)
    (bound : Table α) (failure : Option Failure) : Table (Field α) :=
  withBound [("level", .number ((Level.ofName? level).getD .info).number), ("time", .number time),
    ("pid", .number pid), ("msg", .text message)] requestId bound failure

/-! ### Logging -/

/-- Something to be logged. -/
structure Message (α : Type) where
  level : String
  text : String
  bound : Table α
  failure : Option Failure
deriving Repr, Inhabited

/-- The fields of a message's record that do not depend on when and where it is logged. -/
def Message.fields {α : Type} (m : Message α) (level : Level) (requestId : String) :
    Table (Field α) :=
  let all := withBound [("level", .number level.number), ("msg", .text m.text)] requestId m.bound
    m.failure
  ⟨all.entries.filter fun (k, _) => k ≠ "time" && k ≠ "pid"⟩

/-- The records of messages that are at least as severe as `least`. -/
def records {α : Type} (least requestId : String) (messages : List (Message α)) :
    Except Fault (List (Table (Field α))) := do
  let least ← Level.ofName least
  let all ← messages.mapM fun m => do
    let level ← Level.ofName m.level
    return if least.rank ≤ level.rank then [m.fields level requestId] else []
  return all.flatten

/-- The message of an error: that of a missing key is the key in quotes. -/
def Failure.ofRaised (type text : String) : Failure :=
  ⟨some type, some (if type = "KeyError" then Text.quoted text else text)⟩

end PageReach.Log
