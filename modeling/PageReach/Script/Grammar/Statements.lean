import PageReach.Script.Grammar.Classes
import PageReach.Script.Grammar.Expressions

/-!
# Statements, declarations and modules

A statement is told by its first word where that word is a keyword. Words such as `type` or `async`
open a declaration only if one follows; otherwise they are ordinary names.
-/

namespace PageReach.Script.Grammar

open Phrase

variable (self : Symbol → Phrase)

/-! ### Variables and functions -/

/-- A declared variable with its type and initial value. -/
def declarator (c : Context) : Phrase :=
  node .variableDeclarator (seq [inRole .name (self (.pattern false)), opt (mark "!"),
    opt (typeClause self), opt (seq [mark "=", inRole .value (self (.assignment c))])])

/-- Declared variables after a keyword, without the end of the statement. -/
def declarators (words : List String) (c : Context) : Phrase :=
  seq [wordOf words, sepBy1 (mark ",") (declarator self c)]

/-- Declared variables up to the end of the statement. -/
def declaration (k : Kind) (words : List String) : Phrase :=
  node k fun c => do
    let (ts, c₁) ← declarators self words .free c
    let (us, c₂) ← semicolon (endsWithValue ts) c₁
    return (ts ++ us, c₂)

/-- A function with a body. -/
def functionDeclaration : Phrase :=
  node .functionDeclaration (seq [opt (seq [word "async", check onLine]), word "function",
    opt (mark "*"), inRole .name (anyWord .identifier), signature self,
    inRole .body (self .block)])

/-- The signature of a function whose body stands elsewhere. -/
def functionSignature : Phrase :=
  node .functionSignature (seq [opt (seq [word "async", check onLine]), word "function",
    opt (mark "*"), inRole .name (anyWord .identifier), signature self, semicolon false])

/-! ### Types and namespaces -/

/-- A name for a type. -/
def typeAlias : Phrase :=
  node .typeAliasDeclaration (seq [word "type", inRole .name (anyWord .typeIdentifier),
    opt (typeParameters self), mark "=", inRole .value (self .type), semicolon false])

/-- A name with points in it. -/
def qualifiedName : Phrase :=
  grow (anyWord .identifier) fun left =>
    extend .nestedIdentifier none left (seq [mark ".", anyWord .propertyIdentifier])

/-- A namespace. -/
def namespaceDeclaration : Phrase :=
  node .namespaceDeclaration (seq [word "namespace", check onLine,
    inRole .name (alt [stringLiteral, qualifiedName]), opt (inRole .body (self .block))])

/-- A module declared by name. -/
def moduleDeclaration : Phrase :=
  node .moduleDeclaration (seq [word "module", check onLine,
    inRole .name (alt [stringLiteral, qualifiedName]), opt (inRole .body (self .block))])

/-- A short name for a member of a namespace. -/
def importAlias : Phrase :=
  node .importAlias (seq [word "import", anyWord .identifier, mark "=",
    seq [check fun c => !atWord "require" c, qualifiedName], semicolon false])

/-- A declaration other than an ambient one. -/
def plainDeclaration : Phrase := fun c =>
  match c.word? with
  | some w =>
    match w with
    | "const" =>
      alt [enumDeclaration self, declaration self .lexicalDeclaration ["const"]] c
    | "let" => declaration self .lexicalDeclaration ["let"] c
    | "var" => declaration self .variableDeclaration ["var"] c
    | "function" | "async" => alt [functionDeclaration self, functionSignature self] c
    | "class" => classDeclaration self c
    | "abstract" => abstractClassDeclaration self c
    | "interface" => interfaceDeclaration self c
    | "enum" => enumDeclaration self c
    | "type" => typeAlias self c
    | "namespace" => namespaceDeclaration self c
    | "module" => moduleDeclaration self c
    | "import" => importAlias c
    | _ => none
  | none =>
    if c.head? = some '@' then alt [classDeclaration self, abstractClassDeclaration self] c
    else none

/-- A declaration of what exists elsewhere. -/
def ambientDeclaration : Phrase :=
  node .ambientDeclaration (seq [word "declare", check onLine, alt [
    seq [word "global", self .block],
    seq [word "module", mark ".", anyWord .propertyIdentifier, typeClause self,
      semicolon false],
    plainDeclaration self]])

/-- A declaration. -/
def anyDeclaration : Phrase := fun c =>
  if atWord "declare" c then ambientDeclaration self c else plainDeclaration self c

/-! ### Imports and exports -/

/-- The end of a specifier in a list of names. -/
def specifierEnd : Phrase := check (atMark [",", "\x7d"])

/-- A name imported or exported: itself or renamed, or marked as a type. The reading in which
`type` is a name comes first. -/
def specifier (k : Kind) (name renamed : Phrase) : Phrase :=
  let named := inRole .name name
  let rename := seq [word "as", inRole .renamed renamed]
  let marked := wordOf ["type", "typeof"]
  node k (alt [
    seq [named, rename, specifierEnd],
    seq [named, specifierEnd],
    seq [marked, named, rename, specifierEnd],
    seq [marked, named, specifierEnd]])

/-- The names that an import brings in. -/
def importClause : Phrase :=
  let all := node .namespaceImport (seq [mark "*", word "as", anyWord .identifier])
  let listed := node .namedImports
    (braces (commaList (specifier .importSpecifier exportName (anyWord .identifier))))
  node .importClause (alt [all, listed,
    seq [anyWord .identifier, opt (seq [mark ",", alt [all, listed]])]])

/-- The module that names come from. -/
def fromClause : Phrase := seq [word "from", inRole .source stringLiteral]

/-- How the module is to be read. -/
def importAttribute : Phrase :=
  node .importAttribute (seq [wordOf ["with", "assert"], objectLiteral self])

/-- An import statement. -/
def importStatement : Phrase :=
  let ending := seq [opt (importAttribute self), semicolon false]
  let marked := wordOf ["type", "typeof"]
  let required := node .importRequireClause (seq [anyWord .identifier, mark "=", word "require",
    mark "(", inRole .source stringLiteral, mark ")"])
  node .importStatement (seq [word "import", alt [
    seq [inRole .source stringLiteral, ending],
    seq [importClause, fromClause, ending],
    seq [marked, importClause, fromClause, ending],
    seq [required, ending],
    seq [marked, required, ending]]])

/-- The names that an export gives out. -/
def exportClause : Phrase :=
  node .exportClause (braces (commaList (specifier .exportSpecifier exportName exportName)))

/-- What follows `export default`. -/
def defaultExport : Phrase :=
  seq [word "default", alt [
    inRole .declaration (anyDeclaration self),
    seq [inRole .value (self (.expression .free)), semicolon true]]]

/-- An export statement. -/
def exportStatement : Phrase :=
  let all := node .namespaceExport (seq [mark "*", word "as", exportName])
  node .exportStatement (seq [many (decorator self), word "export", alt [
    seq [mark "*", fromClause, semicolon false],
    seq [all, fromClause, semicolon false],
    seq [exportClause, fromClause, semicolon false],
    seq [exportClause, semicolon false],
    seq [word "type", exportClause, opt fromClause, semicolon false],
    seq [mark "=", self (.expression .free), semicolon true],
    seq [word "as", word "namespace", anyWord .identifier, semicolon false],
    defaultExport self,
    inRole .declaration (anyDeclaration self)]])

/-! ### Control -/

/-- An expression in parentheses after a keyword. -/
def condition : Phrase :=
  node .parenthesizedExpression (parens (self (.expression .inside)))

/-- A block of statements. -/
def blockRule : Phrase := node .block (braces (many (self .statement)))

/-- An expression as a statement. -/
def expressionStatement : Phrase :=
  node .expressionStatement (seq [self (.expression .free), semicolon true])

/-- A choice between two statements. -/
def ifStatement : Phrase :=
  node .ifStatement (seq [word "if", condition self, self .statement,
    opt (node .elseClause (seq [word "else", self .statement]))])

/-- Whether no keyword that declares a constant or a variable comes next. -/
def noDeclaration (c : Cursor) : Bool := !atWord "const" c && !atWord "var" c

/-- A loop over the keys or elements of a value. -/
def forInStatement : Phrase :=
  node .forInStatement (seq [word "for", opt (word "await"), mark "(",
    alt [
      seq [wordOf ["var", "let", "const"], inRole .left (self (.pattern false)),
        opt (seq [mark "=", self (.assignment .loop)]), wordOf ["in", "of"]],
      guarded noDeclaration (seq [inRole .left (self (.pattern true)), wordOf ["in", "of"]]),
      guarded noDeclaration (seq [inRole .left (self (.operand .loop)), wordOf ["in", "of"]])],
    inRole .right (self (.expression .inside)), mark ")", inRole .body (self .statement)])

/-- A loop with a start, a condition and a step. -/
def forStatement : Phrase :=
  node .forStatement (seq [word "for", mark "(",
    alt [
      node .lexicalDeclaration (seq [declarators self ["let", "const"] .loop, mark ";"]),
      node .variableDeclaration (seq [declarators self ["var"] .loop, mark ";"]),
      seq [self (.expression .loop), mark ";"],
      mark ";"],
    opt (self (.expression .inside)), mark ";", opt (self (.expression .inside)), mark ")",
    inRole .body (self .statement)])

/-- A case of a switch. -/
def switchCase : Phrase :=
  let head := alt [seq [word "case", self (.expression .inside), mark ":"],
    seq [word "default", mark ":"]]
  node .switchCase (seq [head, many (guarded
    (fun c => !(atWord "case" c) && !(atWord "default" c)) (self .statement))])

/-- A statement that tries one block and recovers with others. -/
def tryStatement : Phrase :=
  let parameter := parens (seq [self (.pattern false), opt (typeClause self)])
  node .tryStatement (seq [word "try", self .block,
    opt (node .catchClause (seq [word "catch", opt parameter, self .block])),
    opt (node .finallyClause (seq [word "finally", self .block]))])

/-- A jump to the end or the head of a statement, which may be named. -/
def jump (k : Kind) (w : String) : Phrase :=
  node k (seq [word w, opt (guarded onLine (anyWord .statementLabel)), semicolon false])

/-- The end of a function. -/
def returnStatement : Phrase :=
  node .returnStatement (seq [word "return", alt [
    seq [check fun c => !endsStatement false c.ahead, self (.expression .free), semicolon true],
    semicolon false]])

/-- A statement with a name. -/
def labeledStatement : Phrase :=
  node .labeledStatement (seq [anyWord .statementLabel, mark ":", self .statement])

/-- A statement that begins with the word `w`. -/
def wordStatement (w : String) : Phrase :=
  match w with
  | "if" => ifStatement self
  | "for" => alt [forInStatement self, forStatement self]
  | "while" => node .whileStatement (seq [word "while", condition self, self .statement])
  | "do" => node .doStatement (seq [word "do", self .statement, word "while", condition self,
      opt (semicolon true)])
  | "switch" => node .switchStatement (seq [word "switch", condition self,
      node .switchBody (braces (many (switchCase self)))])
  | "try" => tryStatement self
  | "with" => node .withStatement (seq [word "with", condition self, self .statement])
  | "break" => jump .breakStatement "break"
  | "continue" => jump .continueStatement "continue"
  | "return" => returnStatement self
  | "throw" =>
    node .throwStatement (seq [word "throw", self (.expression .free), semicolon true])
  | "debugger" => node .debuggerStatement (seq [word "debugger", semicolon false])
  | "import" => alt [importStatement self, importAlias, expressionStatement self]
  | "export" => exportStatement self
  | "var" | "const" | "enum" | "interface" => plainDeclaration self
  | "namespace" =>
    alt [node .expressionStatement (seq [namespaceDeclaration self, opt (semicolon true)]),
      labeledStatement self, expressionStatement self]
  | "case" | "default" => fail
  | _ => alt [anyDeclaration self, labeledStatement self, expressionStatement self]

/-- A statement or declaration. -/
def statementRule : Phrase := fun c =>
  match c.word? with
  | some w => wordStatement self w c
  | none =>
    match c.head? with
    | some '{' => alt [self .block, expressionStatement self] c
    | some ';' => node .emptyStatement (mark ";") c
    | some '@' =>
      alt [exportStatement self, plainDeclaration self, expressionStatement self] c
    | _ => expressionStatement self c

end PageReach.Script.Grammar
