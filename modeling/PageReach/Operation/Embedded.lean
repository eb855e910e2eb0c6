import PageReach.Operation.Name
import PageReach.Script.Tree

/-!
# Documents embedded in scripts

Operations are written into scripts as literals: as a template after the tag `gql` or `graphql`, or
as the argument of a function of that name. The name of the operation can be read off the literal.
-/

namespace PageReach.Operation

open Script Text

/-! ### Templates -/

/-- The text of a template before its first substitution. -/
def headText (template : SyntaxTree) : String :=
  let cs := (template.text.toList.drop 1).dropLast
  String.ofList (((cutAt? ['$', '\x7b'] cs).map (·.1)).getD cs)

/-- The characters without what stands between `$` with an opening brace and the next closing
brace, `skip` of which belong to what is left out. -/
def dropSubstitutions : (skip : Nat) → List Char → List Char
  | _, [] => []
  | skip + 1, _ :: cs => dropSubstitutions skip cs
  | 0, c :: cs =>
    match c, cs with
    | '$', '\x7b' :: rest =>
      match cutAt? ['\x7d'] rest with
      | some (inner, _) => dropSubstitutions (inner.length + 2) cs
      | none => c :: dropSubstitutions 0 cs
    | _, _ => c :: dropSubstitutions 0 cs

/-- The text of a template without its substitutions. -/
def bodyText (template : SyntaxTree) : String :=
  String.ofList (dropSubstitutions 0 (template.text.toList.drop 1).dropLast)

/-! ### Names in documents -/

/-- The name after a blank at the front of a text. -/
def nameAfterBlank? (cs : List Char) : Option String :=
  let rest := cs.dropWhile isBlank
  let name := rest.takeWhile isWord
  if rest.length < cs.length && !name.isEmpty then some (String.ofList name) else none

/-- The name of an operation at the front of a text, after the word for its kind. -/
def nameHere? (cs : List Char) : Option String :=
  ["query", "mutation", "subscription"].findSome? fun w =>
    (afterWord? w.toList cs).bind nameAfterBlank?

/-- The first name of an operation in a row of characters. -/
def nameWithin? : List Char → Option String
  | [] => none
  | c :: cs => (nameHere? (c :: cs)).or (nameWithin? cs)

/-- The first name of an operation in a text. -/
def nameInText? (s : String) : Option String := nameWithin? s.toList

/-! ### Calls -/

/-- The first argument of a call, behind all wrappers. -/
def firstArgument? (call : SyntaxTree) : Option SyntaxTree :=
  match call.child? .arguments with
  | some arguments =>
    if arguments.kind = .argumentList then arguments.operands.head?.map SyntaxTree.unwrap else none
  | none => none

/-- Whether a call is a tag with its template. -/
def isTagged (call : SyntaxTree) : Bool :=
  match call.child? .arguments with
  | some arguments => arguments.kind = .template
  | none => false

/-- The tags of embedded documents. -/
def tags : List String := ["gql", "graphql"]

/-- The literal that holds an embedded document: a template, or the template or string that is the
first argument. -/
def embedded? (t : SyntaxTree) : Option SyntaxTree :=
  let call := t.unwrap
  if call.kind ≠ .callExpression then none
  else
    match call.child? .callee with
    | none => none
    | some callee =>
      if callee.kind ≠ .identifier || !tags.contains callee.text then none
      else if isTagged call then call.child? .arguments
      else (firstArgument? call).bind fun a =>
        if a.kind = .template || a.kind = .string then some a else none

/-- The name of the operation in an embedded document. Where the document is not a literal, the
whole call is searched. -/
def embeddedName? (t : SyntaxTree) : Option String :=
  let call := t.unwrap
  match embedded? call with
  | some literal =>
    if literal.kind = .string then nameInText? (literal.stringValue?.getD "")
    else nameInText? (headText literal)
  | none =>
    if call.kind ≠ .callExpression then none
    else
      match call.child? .callee with
      | some callee => if tags.contains callee.text then nameInText? call.text else none
      | none => none

end PageReach.Operation
