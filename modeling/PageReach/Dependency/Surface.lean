import PageReach.Dependency.Edge

/-!
# Export surfaces

The surface of a source tells which names it exports and where they come from. A source that holds
nothing but imports and re-exports is a *pure barrel*.
-/

namespace PageReach

open Script

/-- Where a re-exported name comes from. -/
structure Reexport where
  specifier : String
  /-- The name in that module; `*` stands for the module as a whole. -/
  origin : String
deriving DecidableEq, Repr, Inhabited

/-- What a source exports. -/
structure Surface where
  /-- Re-exported names. -/
  named : Table Reexport
  /-- Modules all of whose names are re-exported, in document order. -/
  stars : List String
  /-- Names that the source declares or imports itself. -/
  declared : List String
  /-- Whether the source holds nothing but imports and re-exports. -/
  pureBarrel : Bool
deriving Repr, Inhabited

namespace Surface

/-- The surface of a source that cannot be read. -/
def unknown : Surface := ⟨.empty, [], [], false⟩

/-- The surface of an empty source. -/
def blank : Surface := ⟨.empty, [], [], true⟩

/-! ### Shapes of statements -/

/-- A statement that is only a string, such as `'use client'`. -/
def isDirective (t : SyntaxTree) : Bool :=
  t.kind = .expressionStatement &&
    (match t.named with
      | [s] => s.kind = .string
      | _ => false)

/-- Statements that leave a barrel pure and export nothing. -/
def isNeutral (t : SyntaxTree) : Bool :=
  match t.kind with
  | .space | .comment | .hashBang | .emptyStatement | .importStatement => true
  | _ => isDirective t

/-- An export of a star or of listed names, rather than of a declaration or a value. -/
def isReexport (t : SyntaxTree) : Bool :=
  t.kind = .exportStatement && (t.child? .declaration).isNone && (t.child? .value).isNone &&
    !t.hasToken ["default", "="] &&
    (t.hasToken ["*"] ||
      t.named.any fun c => c.kind = .exportClause || c.kind = .namespaceExport)

/-! ### Names -/

/-- The names that a list without a source exports. -/
def localNames (t : SyntaxTree) : List String :=
  (t.named.filter (·.kind = .exportClause)).flatMap fun clause =>
    (Edge.specifiers .exportSpecifier clause).filterMap fun s =>
      ((s.child? .renamed).or (s.child? .name)).map SyntaxTree.nameText

/-- The names that an exported declaration declares. -/
def declaredNames (t : SyntaxTree) : List String :=
  if t.hasToken ["default"] then ["default"]
  else
    match t.child? .declaration with
    | none => []
    | some d =>
      match d.child? .name with
      | some n => [n.text]
      | none => (d.named.filter (·.kind = .variableDeclarator)).filterMap fun v =>
        match v.child? .name with
        | some n => if n.kind = .identifier then some n.text else none
        | none => none

/-- The re-exported names that a child of an export statement lists. -/
def reexports (specifier : String) (t : SyntaxTree) : List (String × Reexport) :=
  match t.kind with
  | .namespaceExport =>
    match t.named.getLast? with
    | some n => [(n.nameText, ⟨specifier, "*"⟩)]
    | none => []
  | .exportClause =>
    (Edge.specifiers .exportSpecifier t).filterMap fun s =>
      if s.hasToken ["type"] then none
      else (s.child? .name).map fun n =>
        (((s.child? .renamed).getD n).nameText, ⟨specifier, n.nameText⟩)
  | _ => []

/-! ### Surfaces -/

/-- Adds names to those declared. -/
def declaring (s : Surface) (names : List String) : Surface :=
  { s with declared := s.declared ++ names.filter fun n => !s.declared.contains n }

/-- Adds a re-export statement that comes from `specifier`. -/
def reexport (s : Surface) (t : SyntaxTree) (specifier : String) : Surface :=
  if t.hasToken ["*"] && (t.named? .namespaceExport).isNone then
    { s with stars := s.stars ++ [specifier] }
  else
    { s with named := s.named.insertAll (t.named.flatMap (reexports specifier)) }

/-- Adds a top-level statement. -/
def add (s : Surface) (t : SyntaxTree) : Surface :=
  if isNeutral t then s
  else if isReexport t then
    if t.hasToken ["type"] then s
    else
      match (t.child? .source).bind SyntaxTree.stringValue? with
      | some specifier => s.reexport t specifier
      | none => s.declaring (localNames t)
  else
    { (if t.kind = .exportStatement then s.declaring (declaredNames t) else s) with
      pureBarrel := false }

/-- The surface of a source. -/
def ofTree (root : SyntaxTree) : Surface := root.children.foldl add blank

end Surface

end PageReach
