import PageReach.Data.Value
import PageReach.Fault
import PageReach.Text.Letter

/-!
# Kinds of operations

An operation of a GraphQL document is a query, a mutation or a subscription. Where a kind is not
spelled so that it can be understood, it is taken to be a query.
-/

namespace PageReach

/-- The kind of an operation. -/
inductive OperationKind where
  | query | mutation | subscription
deriving DecidableEq, Repr, Inhabited

namespace OperationKind

/-- The word for a kind. -/
def word : OperationKind → String
  | query => "query"
  | mutation => "mutation"
  | subscription => "subscription"

/-- The hook that carries out an operation of the kind. -/
def hook : OperationKind → String
  | query => "useQuery"
  | mutation => "useMutation"
  | subscription => "useSubscription"

/-- The kind that a word stands for, in either case. -/
def ofWord (w : String) : OperationKind :=
  match Text.lower w with
  | "mutation" => mutation
  | "subscription" => subscription
  | _ => query

/-- The kind that a value stands for. A value that holds nothing stands for a query; any other one
has to be text. -/
def ofValue (v : Value) : Except Fault OperationKind :=
  match v with
  | .text w => .ok (ofWord w)
  | v => if v.holds then .error .kindNotText else .ok query

end OperationKind

end PageReach
