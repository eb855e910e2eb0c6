import PageReach.Script.Tree
import PageReach.Table

/-!
# Import edges

An edge is a place where a source depends on another module at run time: an import, a re-export, a
call of `require`, or a dynamic import. What is imported or re-exported as a type only is erased
before the program runs and makes no edge.

Where the statement lists the names it takes, the edge carries them; otherwise it may take anything.
-/

namespace PageReach

open Script

/-- A dependency on the module named by `specifier`. -/
structure Edge where
  specifier : String
  /-- The names taken, in code-point order; `none` if they cannot be listed. -/
  names : Option (List String)
  /-- Where the statement or call starts. -/
  start : Position
deriving DecidableEq, Repr, Inhabited

namespace Edge

/-! ### Names -/

/-- What an import or re-export takes from its module. -/
inductive Request where
  /-- Names that cannot be listed. -/
  | anything
  /-- Nothing that exists at run time. -/
  | erased
  | names (ns : List String)
deriving DecidableEq, Repr, Inhabited

/-- A specifier that is marked as a type on its own. -/
def isTypeSpecifier (t : SyntaxTree) : Bool := t.hasToken ["type", "typeof"]

/-- The specifiers of kind `k` in a clause. -/
def specifiers (k : Kind) (clause : SyntaxTree) : List SyntaxTree :=
  clause.named.filter (·.kind = k)

/-- The names that the specifiers of kind `k` in a clause take, those marked as types left out. -/
def takenNames (k : Kind) (isType : SyntaxTree → Bool) (clause : SyntaxTree) : List String :=
  ((specifiers k clause).filter (!isType ·)).filterMap fun s =>
    (s.child? .name).map SyntaxTree.nameText

/-- What an import statement takes. -/
def importRequest (statement : SyntaxTree) : Request :=
  match statement.named? .importClause with
  | none => .anything
  | some clause =>
    if clause.named.any fun t => t.kind = .identifier || t.kind = .namespaceImport then .anything
    else
      let lists := clause.named.filter (·.kind = .namedImports)
      match lists.flatMap (takenNames .importSpecifier isTypeSpecifier) with
      | [] =>
        if lists.any fun l => (specifiers .importSpecifier l).any isTypeSpecifier then .erased
        else .anything
      | ns => .names ns

/-- What a re-export takes. Where every name is marked as a type, this counts as anything. -/
def reexportRequest (statement : SyntaxTree) : Request :=
  match statement.named? .exportClause with
  | none => .anything
  | some clause =>
    match takenNames .exportSpecifier (·.hasToken ["type"]) clause with
    | [] => .anything
    | ns => .names ns

/-! ### Edges -/

/-- The edge from `t` to the module named by `specifier?`; the empty specifier names none. -/
def to? (t : SyntaxTree) (specifier? : Option String) (request : Request) : Option Edge :=
  match specifier?, request with
  | none, _ | some "", _ | _, .erased => none
  | some s, .anything => some ⟨s, none, t.start⟩
  | some s, .names ns => some ⟨s, some (sortedSet ns), t.start⟩

/-- The first string literal in a tree. -/
def firstString? (t : SyntaxTree) : Option String :=
  (SyntaxTree.visit (fun _ => true) [t]).findSome? SyntaxTree.stringValue?

/-- The edge that an import statement makes. -/
def ofImport? (t : SyntaxTree) : Option Edge :=
  if t.hasToken ["type", "typeof"] then none
  else
    match t.named? .importRequireClause with
    | some clause => to? t (firstString? clause) .anything
    | none => to? t ((t.child? .source).bind SyntaxTree.stringValue?) (importRequest t)

/-- The edge that an export statement with a source makes. -/
def ofReexport? (t source : SyntaxTree) : Option Edge :=
  if t.hasToken ["type"] then none else to? t source.stringValue? (reexportRequest t)

/-- The edge that a call makes: of `require`, or of the import function, with a string as its first
argument. -/
def ofCall? (t : SyntaxTree) : Option Edge :=
  match t.child? .callee, t.child? .arguments with
  | some callee, some arguments =>
    if (callee.kind = .identifier && callee.text = "require") || callee.kind = .importReference then
      match arguments.operands with
      | argument :: _ => to? t argument.stringValue? .anything
      | [] => none
    else none
  | _, _ => none

/-- The edge that a tree makes by itself, whatever lies below it. -/
def of? (t : SyntaxTree) : Option Edge :=
  match t.kind with
  | .importStatement => ofImport? t
  | .exportStatement => (t.child? .source).bind (ofReexport? t)
  | .callExpression => ofCall? t
  | _ => none

/-- No edge lies below an import statement or an export statement with a source. -/
def enters (t : SyntaxTree) : Bool :=
  match t.kind with
  | .importStatement => false
  | .exportStatement => (t.child? .source).isNone
  | _ => true

/-- The edges of a source in document order. -/
def ofTree (root : SyntaxTree) : List Edge := (SyntaxTree.visit enters [root]).filterMap of?

end Edge

end PageReach
