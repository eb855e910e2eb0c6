import PageReach.Dependency.Origin
import PageReach.Operation.Fact

/-!
# Walks from a page

A walk visits the files that a page reaches by its imports, nearest first. An import takes one hop.
Names imported from a pure barrel lead through the barrel to the files where they come from, which
takes two hops. The barrel's other re-exports are entered only if some name cannot be followed, or
if any name may be taken. Such a barrel is *opened*.

For each visited file the walk keeps the link by which it was reached, and for each operation the
nearest file with a fact about it. The number of files and of hops is limited; a walk that a limit
cuts short is marked as truncated.
-/

namespace PageReach

/-- The edge by which a walk reaches a file. -/
structure ParentLink where
  parent : String
  specifier : String
  line : Option Nat := none
  detail : Option String := none
deriving DecidableEq, Repr, Inhabited

/-- The state of a walk. -/
structure Walk where
  /-- Files to be visited with their hops, the next one first. -/
  queue : List (Nat × String) := []
  /-- The fewest hops in which a file has been reached so far. -/
  hops : Table Nat := .empty
  /-- Visited files in the order of their visits. -/
  visited : List String := []
  parents : Table ParentLink := .empty
  /-- Files whose edges have been followed. -/
  expanded : List String := []
  /-- Barrels whose edges are to be followed. -/
  opened : List String := []
  /-- The nearest fact about each operation, and its hops. -/
  best : Table (Fact × Nat) := .empty
  truncated : Bool := false
deriving Repr, Inhabited

namespace Walk

/-- The most hops from which edges are followed. -/
def maxHops : Nat := 30

/-- The hops of an import through a barrel: one in, and one out. -/
def barrelHops : Nat := 2

/-- The most files that a walk visits if nothing else is said. -/
def usualLimit : Nat := 20000

/-! ### Steps on the state -/

/-- Puts a file into the queue, behind all files that are as near. -/
def enqueue (hop : Nat) (file : String) : List (Nat × String) → List (Nat × String)
  | [] => [(hop, file)]
  | (h, f) :: rest =>
    if h ≤ hop then (h, f) :: enqueue hop file rest else (hop, file) :: (h, f) :: rest

/-- Whether reaching a file in so many hops is news. -/
def isNearer (w : Walk) (file : String) (hop : Nat) : Bool :=
  match w.hops.get? file with
  | none => true
  | some h => hop < h

/-- Takes note that a file is reached, unless it is visited or has been reached as early. -/
def push (w : Walk) (file : String) (hop : Nat) (link : Option ParentLink) : Walk :=
  if w.visited.contains file || !w.isNearer file hop then w
  else
    { w with
      hops := w.hops.insert file hop
      parents := match link with
        | none => w.parents
        | some l => w.parents.insert file l
      queue := enqueue hop file w.queue }

/-- Opens a barrel. -/
def openBarrel (w : Walk) (file : String) : Walk :=
  if w.opened.contains file then w else { w with opened := file :: w.opened }

/-- Keeps a fact if it is nearer than what is known about its operation. -/
def mergeFact (hop : Nat) (best : Table (Fact × Nat)) (fact : Fact) : Table (Fact × Nat) :=
  match best.get? fact.name with
  | some (_, h) => if hop < h then best.insert fact.name (fact, hop) else best
  | none => best.insert fact.name (fact, hop)

/-- Visits a file about which there are facts. -/
def visit (w : Walk) (file : String) (hop : Nat) (facts : List Fact) : Walk :=
  { w with
    visited := w.visited ++ [file]
    best := facts.foldl (mergeFact hop) w.best }

end Walk

/-- What a walk starts from. -/
structure Journey (m : Type → Type) where
  graph : Graph m
  entry : String
  /-- Facts about operations by file. -/
  facts : Table (List Fact)
  /-- The number of files to which specifiers can lead. -/
  fileCount : Nat
  /-- The most files to visit. -/
  limit : Nat := Walk.usualLimit

namespace Journey

variable {m : Type → Type} [Monad m]

/-- The origin of a name that a barrel exports. No search enters more files than there are. -/
def origin (j : Journey m) (barrel name : String) : m (Option String) := do
  return (← Origin.search j.graph (j.fileCount + 2) barrel name []).origin

/-- The names of an edge in words. -/
def namesDetail (e : Edge) : Option String :=
  e.names.map fun names => "names:" ++ String.intercalate "," names

/-- Follows the edges of `file` later on: at once if it is visited already, and else when it is.
`expand` follows edges. -/
def reopen (expand : String → Nat → Walk → m Walk) (file : String) (w : Walk) : m Walk :=
  let w := w.openBarrel file
  if w.visited.contains file then expand file ((w.hops.get? file).getD 0) w else return w

/-- Follows a name through a barrel that is `barrelHop` hops away. The second part of the outcome
tells that the name leads nowhere else, so that the barrel has to be opened. -/
def followName (j : Journey m) (expand : String → Nat → Walk → m Walk) (barrel : String)
    (hop barrelHop : Nat) (state : Walk × Bool) (name : String) : m (Walk × Bool) := do
  let (w, stuck) := state
  match ← j.origin barrel name with
  | none => return (w, true)
  | some file =>
    if file = barrel then return (w, true)
    else
      let w ← if ← j.graph.isPureBarrel file then reopen expand file w else pure w
      let link := ⟨barrel, "re-export:" ++ name, none, some "barrel"⟩
      return (w.push file (min (hop + Walk.barrelHops) (barrelHop + 1)) (some link), stuck)

/-- Follows an edge into a pure barrel. -/
def enterBarrel (j : Journey m) (expand : String → Nat → Walk → m Walk) (barrel : String)
    (hop : Nat) (e : Edge) (link : ParentLink) (w : Walk) : m Walk := do
  let w := w.push barrel (hop + 1) (some link)
  let barrelHop := (w.hops.get? barrel).getD (hop + 1)
  let (w, stuck) ← (e.names.getD []).foldlM (j.followName expand barrel hop barrelHop)
    (w, e.names.isNone)
  if stuck then reopen expand barrel w else return w

/-- Follows an edge of `file`. -/
def followEdge (j : Journey m) (expand : String → Nat → Walk → m Walk) (file : String) (hop : Nat)
    (w : Walk) (e : Edge) : m Walk := do
  match ← j.graph.resolve file e.specifier with
  | none => return w
  | some target =>
    if target = file then return w
    else
      let link := ⟨file, e.specifier, some e.start.line, namesDetail e⟩
      if target = j.entry then return w.push target (hop + 1) (some link)
      else if ← j.graph.isPureBarrel target then j.enterBarrel expand target hop e link w
      else return w.push target (hop + 1) (some link)

/-- Follows the edges of a file, once in a walk, opening at most `fuel` barrels below one another.
At the limit of hops the walk is cut short. -/
def expand (j : Journey m) : (fuel : Nat) → (file : String) → (hop : Nat) → Walk → m Walk
  | 0, _, _, w => return w
  | fuel + 1, file, hop, w =>
    if w.expanded.contains file then return w
    else do
      let w := { w with expanded := file :: w.expanded }
      let edges ← j.graph.edges file
      if Walk.maxHops ≤ hop then
        return { w with truncated := w.truncated || !edges.isEmpty }
      else edges.foldlM (j.followEdge (expand j fuel) file hop) w

/-- Visits a file and follows its edges, unless it is a barrel that is not opened. -/
def visit (j : Journey m) (file : String) (hop : Nat) (w : Walk) : m Walk := do
  let w := w.visit file hop ((j.facts.get? file).getD [])
  let barrel ← j.graph.isPureBarrel file
  if barrel && file ≠ j.entry && !w.opened.contains file then return w
  else j.expand (j.fileCount + 2) file hop w

/-- Visits the files of the queue, at most `fuel` of them. -/
def run (j : Journey m) : (fuel : Nat) → Walk → m Walk
  | 0, w => return w
  | fuel + 1, w =>
    match w.queue with
    | [] => return w
    | (hop, file) :: rest =>
      let w := { w with queue := rest }
      if w.visited.contains file then run j fuel w
      else if j.limit ≤ w.visited.length then return { w with truncated := true }
      else do
        let w ← j.visit file hop w
        run j fuel w

/-- The walk from the entry. A file is queued at most once for each number of hops, of which there
are fewer than 33. -/
def walk (j : Journey m) : m Walk :=
  j.run (33 * (j.fileCount + 2)) (({} : Walk).push j.entry 0 none)

end Journey

end PageReach
