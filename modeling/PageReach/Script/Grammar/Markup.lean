import PageReach.Script.Grammar.Types

/-!
# Markup

Elements between tags. Outside tags every character but braces, angle brackets and ampersands is
text; an ampersand opens a character reference. Opening and closing names need not agree.
-/

namespace PageReach.Script.Grammar

open Phrase

variable (self : Symbol → Phrase)

/-- The length of the character reference ahead: a name or a code point between an ampersand and a
semicolon. -/
def characterReference? (cs : List Char) : Option Nat :=
  let closed (n : Nat) : Option Nat :=
    if (cs.drop n).head? = some ';' then some (n + 1) else none
  match cs with
  | '&' :: '#' :: x :: rest =>
    if x = 'x' || x = 'X' then
      let n := runLength isHexDigit rest
      if 0 < n && n ≤ 6 then closed (n + 3) else none
    else
      let n := runLength Char.isDigit (x :: rest)
      if 0 < n && n ≤ 5 then closed (n + 2) else none
  | '&' :: rest =>
    let n := runLength Char.isAlpha rest
    if 0 < n && n ≤ 30 then closed (n + 1) else none
  | _ => none

/-- The length of a quoted attribute value after its opening quote, the closing quote included. A
letter or a number sign after an ampersand must belong to a character reference. -/
def attributeRest? (q : Char) : (skip n : Nat) → List Char → Option Nat
  | _, _, [] => none
  | skip + 1, n, _ :: rest => attributeRest? q skip (n + 1) rest
  | 0, n, c :: rest =>
    if c = q then some (n + 1)
    else if c = '&' then
      match characterReference? (c :: rest) with
      | some k => attributeRest? q (k - 1) (n + 1) rest
      | none =>
        match rest with
        | d :: _ => if d.isAlpha || d = '#' then none else attributeRest? q 1 (n + 1) rest
        | [] => none
    else attributeRest? q 0 (n + 1) rest

/-- The length of the quoted attribute value ahead. -/
def attributeString? (cs : List Char) : Option Nat :=
  match cs with
  | q :: rest => if q = '\x27' || q = '\x22' then attributeRest? q 0 1 rest else none
  | [] => none

/-- The name of an element or attribute, with points or a colon between its parts. -/
def elementName : Phrase :=
  let part := lexeme .markupName markupName?
  node .nestedIdentifier (seq [part, many (seq [alt [mark ".", mark ":"], part])])

/-- An expression in braces among the children of an element; it may be left out. -/
def embedded : Phrase :=
  node .markupExpression (braces (opt (alt [spread self, self (.expression .inside)])))

/-- An attribute: a name with an optional value, or attributes spread from an object. -/
def elementAttribute : Phrase :=
  alt [
    embedded self,
    node .markupAttribute (seq [elementName, opt (seq [mark "=",
      alt [lexeme .string attributeString?, embedded self, self .element]])])]

/-- Name, type arguments and attributes in a tag. -/
def tagContent : Phrase :=
  seq [inRole .name elementName, opt (inRole .typeArguments (typeArguments self)),
    many (elementAttribute self)]

/-- The opening mark of a tag that is not a closing tag. -/
def tagOpen : Phrase :=
  lexeme .fixed fun cs =>
    match cs with
    | '<' :: '/' :: _ => none
    | '<' :: _ => some 1
    | _ => none

/-- Text between tags. -/
def elementText : Phrase :=
  immediate .markupText fun cs =>
    let n := runLength (fun c => !(['<', '>', '{', '}', '&'].contains c)) cs
    if 0 < n then some n else none

/-- What may stand between the tags of an element. -/
def elementChild : Phrase :=
  alt [elementText, immediate .markupText characterReference?, embedded self, self .element]

/-- An element, or a row of children between empty tags. -/
def elementRule : Phrase :=
  node .markupElement (seq [tagOpen, opt (tagContent self), alt [
    seq [chars "/", chars ">"],
    seq [chars ">", many (elementChild self), chars "</", opt elementName, chars ">"]]])

end PageReach.Script.Grammar
