import PageReach.Reach.Attribution

/-!
# Pages

Pages come from another analysis, so they may be given in any shape. A run needs a list of pages
with a route, a file and a list of attributions each.
-/

namespace PageReach

/-- A page as it is given; anything may be missing. -/
structure PageInput where
  route : Option Value := none
  file : Option Value := none
  /-- The attributions, if they are a list. -/
  entries : Option (List Listed) := none
deriving Repr, Inhabited

/-- Pages as they are given. -/
inductive PagesInput where
  | absent
  /-- Something that is no list. -/
  | other (v : Value)
  | list (pages : List PageInput)
deriving Repr, Inhabited

/-- A page with its attributions. -/
structure Page where
  route : Value
  file : Value
  entries : List Listed
deriving Repr, Inhabited

/-- What is wrong with the pages given. -/
inductive InputError where
  | noPages
  | noList (v : Value)
  /-- The page at `index` has no list of attributions. -/
  | noAttributions (index : Nat) (route : Option Value)
  /-- The page at `index` lacks its route or its file. -/
  | noPath (index : Nat)
deriving Repr, Inhabited

/-- The complaint in words. -/
def InputError.message : InputError → String
  | noPages => "Page list is missing"
  | noList _ => "Page list must be a list"
  | noAttributions _ _ => "Page has no attribution list"
  | noPath _ => "Page is missing its route or file path"

namespace Page

/-- The page at an index, if it has all it needs. -/
def check (index : Nat) (p : PageInput) : Except InputError Page :=
  match p.entries, p.route, p.file with
  | none, route, _ => .error (.noAttributions index route)
  | some entries, some route, some file => .ok ⟨route, file, entries⟩
  | some _, _, _ => .error (.noPath index)

/-- The pages from an index on, if all have what they need. -/
def checkFrom : (index : Nat) → List PageInput → Except InputError (List Page)
  | _, [] => .ok []
  | index, p :: ps => do
    let page ← check index p
    return page :: (← checkFrom (index + 1) ps)

/-- The pages of an input, if it is as a run needs it. -/
def checkAll : PagesInput → Except InputError (List Page)
  | .absent => .error .noPages
  | .other v => .error (.noList v)
  | .list pages => checkFrom 0 pages

/-- The file of a page as text; nothing, if the page names none. -/
def fileText? (p : Page) : Except Fault (Option String) :=
  match p.file with
  | .text s => .ok (if s = "" then none else some s)
  | v => if v.holds then .error .fileNotText else .ok none

/-- The route of a page as a key of a report. Lists and objects cannot be keys. -/
def routeKey (p : Page) : Except Fault String :=
  match p.route with
  | .text s => .ok s
  | .null => .ok "null"
  | .bool b => .ok (if b then "true" else "false")
  | .int n => .ok (toString n)
  | .float x => .ok x.text
  | .list _ | .object _ => .error .routeNotKey

end Page

end PageReach
