import PageReach.Operation.Kind
import PageReach.Text.Split

/-!
# Names of operations

By convention the name of an operation is dressed up where the operation is used: `GET_USER_QUERY`,
`GetUserDocument` and `useGetUserQuery` all speak of `GetUser`. Here are the rules for taking the
dress off and for telling hooks from other functions.

An ending counts also before a line feed at the very end of a name.
-/

namespace PageReach.Operation

open Text

/-! ### Endings -/

/-- The name without a line feed at its very end, and that line feed. -/
def splitLineEnd (name : String) : String × String :=
  match beforeSuffix? name "\n" with
  | some body => (body, "\n")
  | none => (name, "")

/-- The name without the first of the beginnings that it has. -/
def dropBeginning (beginnings : List String) (name : String) : String :=
  (beginnings.findSome? (afterPrefix? name)).getD name

/-- The name without the first of the endings that it has. -/
def dropEnding (endings : List String) (name : String) : String :=
  let (body, tail) := splitLineEnd name
  match endings.findSome? (beforeSuffix? body) with
  | some front => front ++ tail
  | none => name

/-- The name that a dressed-up name speaks of. -/
def cleanName (name : String) : String :=
  dropEnding ["Query", "Mutation", "Variables", "Subscription"] <|
    dropEnding ["Document"] <|
      dropEnding ["_QUERY", "_MUTATION"] <|
        dropBeginning ["GET_", "FETCH_", "CREATE_", "UPDATE_", "DELETE_"] name

/-- The cleaned name, if anything is left. -/
def cleanName? (name : String) : Option String :=
  if cleanName name = "" then none else some (cleanName name)

/-! ### Words in either case -/

/-- Whether `c` is the small letter `l` in some case; both forms of `i` with and without a dot, and
the long form of `s`, count as cases. -/
def isCaseOf (l c : Char) : Bool :=
  c.toLower = l || (l = 'i' && (c = 'İ' || c = 'ı')) || (l = 's' && c = 'ſ')

/-- What follows a word in some case at the front of a text. -/
def afterWord? : (word : List Char) → List Char → Option (List Char)
  | [], cs => some cs
  | _ :: _, [] => none
  | l :: ls, c :: cs => if isCaseOf l c then afterWord? ls cs else none

/-- A name that is nothing but one of the words for dressing names up. -/
def isPlaceholder (name : String) : Bool :=
  ["query", "mutation", "document"].any fun w =>
    match afterWord? w.toList name.toList with
    | some rest => rest = [] || rest = ['\n']
    | none => false

/-! ### Hooks -/

/-- A hook of a project's own: `use`, a capital letter, and the given ending, on one line. -/
def isOwnHook (ending name : String) : Bool :=
  let body := (splitLineEnd name).1
  match afterPrefix? body "use" with
  | none => false
  | some rest =>
    match rest.toList with
    | c :: cs => c.isUpper && endsWith (String.ofList cs) ending && !cs.contains '\n'
    | [] => false

/-- Hooks that carry out a query. -/
def isQueryHook (name : String) : Bool :=
  ["useQuery", "useLazyQuery", "useSuspenseQuery", "useBackgroundQuery", "useReadQuery"].contains
    name || isOwnHook "Query" name

/-- Hooks that carry out a mutation. -/
def isMutationHook (name : String) : Bool := name = "useMutation" || isOwnHook "Mutation" name

/-- The hook that carries out a subscription. -/
def isSubscriptionHook (name : String) : Bool := name = "useSubscription"

/-- Hooks that have to do with operations. -/
def isHook (name : String) : Bool :=
  ["useSubscription", "useFragment", "useApolloClient"].contains name || isQueryHook name ||
    isMutationHook name

/-- The kind of operation that a method of a client carries out. -/
def methodKind? (name : String) : Option OperationKind :=
  match name with
  | "query" => some .query
  | "mutate" => some .mutation
  | "subscribe" => some .subscription
  | _ => none

/-- The kind of operation that a function carries out. -/
def hookKind (name : String) : OperationKind :=
  if isMutationHook name then .mutation
  else if isSubscriptionHook name then .subscription
  else .query

/-- The kind of operation that a function or a method of a client carries out. -/
def memberKind (name : String) : OperationKind := (methodKind? name).getD (hookKind name)

/-! ### Signs of operations in a source -/

/-- Texts one of which stands in every source worth looking at. -/
def signs : List String :=
  ["Document", "useQuery", "useMutation", "useLazyQuery", "useSuspenseQuery", "useBackgroundQuery",
    "useSubscription", "Query", "Mutation", "gql", "graphql", "GET_", "FETCH_", "SEARCH_",
    "CREATE_", "UPDATE_", "DELETE_", "SUBSCRIBE_", "@apollo", "ApolloClient"]

/-- Whether a source holds one of the signs. -/
def hasSign (source : String) : Bool := signs.any (contains source)

end PageReach.Operation
