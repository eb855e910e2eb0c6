/-!
# Lexemes

Each reader looks at the characters that lie ahead and answers how many of them make up a lexeme
of its class, or `none` if no such lexeme stands there. Which class is asked for is up to the
grammar: a slash opens a regular expression only where an operand is expected.
-/

namespace PageReach.Script

/-! ### Character classes -/

/-- Blank characters: they separate tokens and mean nothing else. -/
def isSpacing (c : Char) : Bool :=
  let n := c.toNat
  (0x09 ≤ n && n ≤ 0x0D) || n = 0x20 || n = 0x85 || n = 0xA0 || n = 0x1680 ||
  (0x2000 ≤ n && n ≤ 0x200B) || n = 0x2028 || n = 0x2029 || n = 0x202F || n = 0x205F ||
  n = 0x2060 || n = 0x3000 || n = 0xFEFF

/-- The ASCII characters that end an identifier. -/
def delimiters : List Char :=
  ":;\x60\x22\x27@#.,|^&<=>+-*/\\%?!~()[]\x7b\x7d".toList

/-- A character that may stand inside an identifier. -/
def isIdentifierPart (c : Char) : Bool :=
  0x20 ≤ c.toNat && !isSpacing c && !delimiters.contains c

/-- A character that may begin an identifier. -/
def isIdentifierStart (c : Char) : Bool := isIdentifierPart c && !c.isDigit

/-- A hexadecimal digit. -/
def isHexDigit (c : Char) : Bool :=
  c.isDigit || ('a' ≤ c && c ≤ 'f') || ('A' ≤ c && c ≤ 'F')

/-- An octal digit. -/
def isOctalDigit (c : Char) : Bool := '0' ≤ c && c ≤ '7'

/-- A binary digit. -/
def isBinaryDigit (c : Char) : Bool := c = '0' || c = '1'

/-- How many characters at the front satisfy `p`. -/
def runLength (p : Char → Bool) (cs : List Char) : Nat := (cs.takeWhile p).length

/-! ### Escapes -/

/-- The length of a braced code point, the opening brace included. -/
def bracedEscape? (cs : List Char) : Option Nat :=
  match cs with
  | '{' :: rest =>
    let n := runLength isHexDigit rest
    if 0 < n && (rest.drop n).head? = some '}' then some (n + 2) else none
  | _ => none

/-- The length of a code point after `u`: four hexadecimal digits, or any number in braces. -/
def codePointEscape? (cs : List Char) : Option Nat :=
  match bracedEscape? cs with
  | some n => some n
  | none => if runLength isHexDigit (cs.take 4) = 4 then some 4 else none

/-- The length of an escape in a string or a template, the backslash not counted. -/
def escape? (cs : List Char) : Option Nat :=
  match cs with
  | [] => none
  | 'x' :: rest => if runLength isHexDigit (rest.take 2) = 2 then some 3 else none
  | 'u' :: rest => (codePointEscape? rest).map (· + 1)
  | '\r' :: '\n' :: _ => some 2
  | c :: rest =>
    if isOctalDigit c then some (1 + runLength isOctalDigit (rest.take 2)) else some 1

/-! ### Words -/

/-- How many characters of an identifier stand at the front, when the first `skip` are known to
belong to it and `n` have been counted before. An escaped code point counts like the character it
names. -/
def identifierRun : (skip n : Nat) → List Char → Nat
  | _, n, [] => n
  | skip + 1, n, _ :: rest => identifierRun skip (n + 1) rest
  | 0, n, c :: rest =>
    if isIdentifierPart c then identifierRun 0 (n + 1) rest
    else
      match c, rest with
      | '\\', 'u' :: more =>
        match codePointEscape? more with
        | some k => identifierRun (k + 1) (n + 1) rest
        | none => n
      | _, _ => n

/-- The length of the identifier or keyword ahead. -/
def identifier? (cs : List Char) : Option Nat :=
  match cs with
  | [] => none
  | c :: _ =>
    if isIdentifierStart c || c = '\\' then
      let n := identifierRun 0 0 cs
      if 0 < n then some n else none
    else none

/-- The length of the private name ahead, its number sign included. -/
def privateName? (cs : List Char) : Option Nat :=
  match cs with
  | '#' :: rest => (identifier? rest).map (· + 1)
  | _ => none

/-- The length of the markup name ahead: an identifier that may hold hyphens. -/
def markupName? (cs : List Char) : Option Nat :=
  match cs with
  | c :: _ =>
    if isIdentifierStart c then some (runLength (fun d => isIdentifierPart d || d = '-') cs)
    else none
  | [] => none

/-! ### Numbers -/

/-- The length of a run of digits in which single underscores may stand between two digits. -/
def digitRun (p : Char → Bool) : List Char → Nat
  | [] => 0
  | c :: '_' :: d :: rest => if p c then (if p d then 2 + digitRun p (d :: rest) else 1) else 0
  | c :: rest => if p c then 1 + digitRun p rest else 0

/-- The length of a run of digits, if there is one. -/
def digits? (p : Char → Bool) (cs : List Char) : Option Nat :=
  let n := digitRun p cs
  if 0 < n then some n else none

/-- The length of an exponent. -/
def exponent? (cs : List Char) : Option Nat :=
  match cs with
  | e :: rest =>
    if e = 'e' || e = 'E' then
      match rest with
      | s :: more =>
        if s = '-' || s = '+' then (digits? Char.isDigit more).map (· + 2)
        else (digits? Char.isDigit rest).map (· + 1)
      | [] => none
    else none
  | [] => none

/-- The possible lengths of the whole part of a decimal number: a zero, or digits of which at most
the first is a zero. -/
def wholeParts (cs : List Char) : List Nat :=
  let from1 (ds : List Char) : Option Nat :=
    match ds with
    | d :: _ => if d.isDigit && d ≠ '0' then digits? Char.isDigit ds else none
    | [] => none
  match cs with
  | '0' :: rest => 1 :: ((from1 rest).map (· + 1)).toList
  | _ => (from1 cs).toList

/-- The lengths of the number literals that begin here, one for each way of writing a number. -/
def numberLengths (cs : List Char) : List Nat :=
  let radix (marks : List Char) (p : Char → Bool) : List Nat :=
    match cs with
    | '0' :: m :: rest =>
      if marks.contains m then
        match digits? p rest with
        | some n => if (rest.drop n).head? = some 'n' then [n + 3] else [n + 2]
        | none => []
      else []
    | _ => []
  let fraction (ds : List Char) : Nat :=
    let n := digitRun Char.isDigit ds
    n + (exponent? (ds.drop n)).getD 0
  let whole : List Nat := (wholeParts cs).flatMap fun w =>
    let rest := cs.drop w
    (match rest with
      | '.' :: ds => [w + 1 + fraction ds]
      | _ => []) ++ ((exponent? rest).map (w + ·)).toList
  let point : List Nat :=
    match cs with
    | '.' :: ds => if 0 < digitRun Char.isDigit ds then [1 + fraction ds] else []
    | _ => []
  let plain : List Nat :=
    match digits? Char.isDigit cs with
    | some n => if (cs.drop n).head? = some 'n' then [n + 1] else [n]
    | none => []
  radix ['x', 'X'] isHexDigit ++ radix ['b', 'B'] isBinaryDigit ++ radix ['o', 'O'] isOctalDigit ++
    whole ++ point ++ plain

/-- The length of the longest number literal ahead. -/
def number? (cs : List Char) : Option Nat := (numberLengths cs).max?

/-! ### Strings, templates and regular expressions -/

/-- The length of the rest of a string up to and with the closing quote `q`, when the first `skip`
characters are known to belong to it and `n` have been counted before. -/
def stringRest? (q : Char) : (skip n : Nat) → List Char → Option Nat
  | _, _, [] => none
  | skip + 1, n, _ :: rest => stringRest? q skip (n + 1) rest
  | 0, n, c :: rest =>
    if c = q then some (n + 1)
    else if c = '\\' then
      match escape? rest with
      | some k => stringRest? q k (n + 1) rest
      | none => none
    else if c = '\n' || c = '\r' then none
    else stringRest? q 0 (n + 1) rest

/-- The length of the string literal ahead. -/
def string? (cs : List Char) : Option Nat :=
  match cs with
  | q :: rest => if q = '\x27' || q = '\x22' then stringRest? q 0 1 rest else none
  | [] => none

/-- The length of the literal text of a template ahead, up to the closing mark or the next
substitution; `none` if an escape in it is ill-formed. The first `skip` characters are known to
belong to it and `n` have been counted before. -/
def templateRun? : (skip n : Nat) → List Char → Option Nat
  | _, n, [] => some n
  | skip + 1, n, _ :: rest => templateRun? skip (n + 1) rest
  | 0, n, c :: rest =>
    if c = '\x60' || (c = '$' && rest.head? = some '{') then some n
    else if c = '\\' then
      match escape? rest with
      | some k => templateRun? k (n + 1) rest
      | none => none
    else templateRun? 0 (n + 1) rest

/-- The length of a regular expression after its opening slash, the closing slash included, when
`n` characters have been counted before. Slashes in brackets do not close it, nor does one after a
backslash. -/
def regexRest? : (escaped inBrackets : Bool) → (n : Nat) → List Char → Option Nat
  | _, _, _, [] => none
  | escaped, inBrackets, n, c :: rest =>
    if c = '\n' then none
    else if escaped then regexRest? false inBrackets (n + 1) rest
    else if c = '\\' then regexRest? true inBrackets (n + 1) rest
    else if inBrackets then regexRest? false (c ≠ ']') (n + 1) rest
    else if c = '/' then some (n + 1)
    else regexRest? false (c = '[') (n + 1) rest

/-- The length of the regular expression ahead with its flags. -/
def regex? (cs : List Char) : Option Nat :=
  match cs with
  | '/' :: c :: rest =>
    if c = '/' || c = '*' then none
    else
      match regexRest? false false 1 (c :: rest) with
      | some n => some (n + runLength (fun f => 'a' ≤ f && f ≤ 'z') (cs.drop n))
      | none => none
  | _ => none

/-! ### Punctuation -/

/-- The punctuators, longer ones first. -/
def punctuators : List (List Char) :=
  [">>>=", "...", "===", "!==", "**=", "<<=", ">>=", ">>>", "&&=", "||=", "??=",
    "=>", "==", "!=", "<=", ">=", "&&", "||", "??", "?.", "++", "--", "+=", "-=", "*=", "/=", "%=",
    "&=", "|=", "^=", "<<", ">>", "**",
    "\x7b", "\x7d", "(", ")", "[", "]", ";", ",", "<", ">", "+", "-", "*", "/", "%", "&", "|", "^",
    "!", "~", "?", ":", "=", ".", "@"].map String.toList

/-- The longest punctuator ahead. An optional-chaining mark before a digit is a question mark, the
point belonging to the number. -/
def punctuator? (cs : List Char) : Option (List Char) :=
  match punctuators.find? (·.isPrefixOf cs) with
  | some ['?', '.'] => if ((cs.drop 2).head?.map Char.isDigit).getD false then some ['?']
    else some ['?', '.']
  | found => found

/-! ### Comments -/

/-- The length of a block comment up to and with its closing mark, when `n` characters have been
counted before. -/
def blockCommentRest? (n : Nat) : List Char → Option Nat
  | [] => none
  | '*' :: '/' :: _ => some (n + 2)
  | _ :: rest => blockCommentRest? (n + 1) rest

/-- The length of the comment ahead. A line comment ends before the line end. -/
def comment? (cs : List Char) : Option Nat :=
  match cs with
  | '/' :: '/' :: rest =>
    let isOnLine (c : Char) := c ≠ '\n' && c ≠ '\r' && c.toNat ≠ 0x2028 && c.toNat ≠ 0x2029
    some (2 + runLength isOnLine rest)
  | '/' :: '*' :: rest => blockCommentRest? 2 rest
  | _ => none

/-! ### The end of a statement -/

/-- Drops blanks and comments, the first `skip` characters being part of one; `none` if a slash
follows that opens no comment. -/
def skipToToken? : (skip : Nat) → List Char → Option (List Char)
  | _, [] => some []
  | skip + 1, _ :: rest => skipToToken? skip rest
  | 0, c :: rest =>
    if isSpacing c then skipToToken? 0 rest
    else if c = '/' then
      match comment? (c :: rest) with
      | some n => skipToToken? (n - 1) rest
      | none => none
    else some (c :: rest)

/-- Whether `in` or `instanceof` stands ahead, as a word of its own. -/
def opensRelation (cs : List Char) : Bool :=
  let ends (rest : List Char) : Bool := !((rest.head?.map Char.isAlpha).getD false)
  match cs with
  | 'i' :: 'n' :: rest =>
    ends rest || ("stanceof".toList.isPrefixOf rest && ends (rest.drop 8))
  | _ => false

/-- Whether a line that begins with `cs` begins a new statement, rather than going on with the one
before it. After an operand, an opening bracket continues the expression. -/
def opensStatement (afterOperand : Bool) (cs : List Char) : Bool :=
  match cs with
  | [] => true
  | '+' :: rest => rest.head? = some '+'
  | '-' :: rest => rest.head? = some '-'
  | '!' :: rest => rest.head? ≠ some '='
  | c :: _ =>
    if "\x60,.;*%><=?^|&/:".toList.contains c then false
    else if c = '(' || c = '[' then !afterOperand
    else !opensRelation cs

/-- Whether a statement may end here without a semicolon: at the end of the source, before a closing
brace, or at a line end after which a new statement begins. -/
def endsStatement (afterOperand : Bool) : List Char → Bool
  | [] => true
  | '}' :: rest =>
    if (rest.dropWhile isSpacing).head? = some ':' then afterOperand else true
  | '\n' :: rest =>
    match skipToToken? 0 rest with
    | some cs => opensStatement afterOperand cs
    | none => false
  | c :: rest => if isSpacing c then endsStatement afterOperand rest else false

end PageReach.Script
