import PageReach.Reach.Attribution
import PageReach.Reach.Walk
import PageReach.Text.Lines

/-!
# Evidence

The evidence for an attribution is the chain of imports from the entry of the page to the file of
the operation, and the place in that file where the operation is spoken of.
-/

namespace PageReach.Evidence

/-- The step by which a file was reached. -/
def ofLink (file : String) (link : ParentLink) : Evidence where
  kind := "import-edge"
  file := link.parent
  detail := link.specifier ++ " -> " ++ file ++ (match link.detail with
    | none | some "" => ""
    | some detail => " (" ++ detail ++ ")")
  line := link.line.map Int.ofNat

/-- The steps from `file` back to the entry, the last one first. A file that comes up again ends the
chain. -/
def back (parents : Table ParentLink) (entry : String) :
    (fuel : Nat) → (seen : List String) → (file : String) → List Evidence
  | 0, _, _ => []
  | fuel + 1, seen, file =>
    if file = entry then []
    else
      match parents.get? file with
      | none => []
      | some link =>
        ofLink file link ::
          if seen.contains link.parent then []
          else back parents entry fuel (link.parent :: seen) link.parent

/-- The chain of imports from the entry to a file. Each step but the last uses up a link. -/
def chain (parents : Table ParentLink) (entry file : String) : List Evidence :=
  (back parents entry (parents.size + 2) [file] file).reverse

/-- The line on which a source first speaks of an operation: of its document, or else its name. -/
def referenceLine? (source name : String) : Option Nat :=
  if source = "" then none
  else (Text.lineOf? source (name ++ "Document")).or (Text.lineOf? source name)

/-- The evidence for an operation in a file, given the file's text. -/
def ofSource (parents : Table ParentLink) (entry file name : String) (source : Option String) :
    List Evidence :=
  chain parents entry file ++
    [⟨"operation-reference", file, "ref:" ++ name,
      (source.bind (referenceLine? · name)).map Int.ofNat⟩]

end PageReach.Evidence
