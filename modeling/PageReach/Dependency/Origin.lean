import PageReach.Dependency.Graph

/-!
# Origins of exported names

A name that a barrel exports is followed through re-exports to the file where it comes from. Listed
names come before stars, and a star is followed only if no earlier one led anywhere. A file is
entered once in a search, so that re-exports in a circle come to an end.
-/

namespace PageReach.Origin

variable {m : Type → Type} [Monad m]

/-- The outcome of a search: the origin, if there is one, and the files that have been entered. -/
structure Search where
  origin : Option String
  visited : List String
deriving DecidableEq, Repr, Inhabited

/-- Follows the stars of a file one after the other until one of them leads to an origin. `follow`
searches the file that a star names. Once the files `visited` have been entered, `g visited` is
asked. -/
def throughStarsIn (g : List String → Graph m) (file : String)
    (follow : String → List String → m Search) :
    (stars : List String) → (visited : List String) → m Search
  | [], visited => return ⟨none, visited⟩
  | star :: stars, visited => do
    match ← (g visited).resolve file star with
    | none => throughStarsIn g file follow stars visited
    | some target =>
      let found ← follow target visited
      match found.origin with
      | some _ => return found
      | none => throughStarsIn g file follow stars found.visited

/-- Searches the origin of `name` as `file` exports it, entering at most `fuel` files below one
another and none of `visited`. Once the files `visited` have been entered, `g visited` is asked. -/
def searchIn (g : List String → Graph m) :
    (fuel : Nat) → (file name : String) → (visited : List String) → m Search
  | 0, _, _, visited => return ⟨none, visited⟩
  | fuel + 1, file, name, visited =>
    if visited.contains file then return ⟨none, visited⟩
    else do
      let visited := visited ++ [file]
      let surface ← (g visited).surface file
      if surface.declared.contains name then return ⟨some file, visited⟩
      else
        match surface.named.get? name with
        | none =>
          throughStarsIn g file (fun target visited => searchIn g fuel target name visited)
            surface.stars visited
        | some reexport =>
          match ← (g visited).resolve file reexport.specifier with
          | none => return ⟨none, visited⟩
          | some target =>
            if reexport.origin = "*" then return ⟨some target, visited⟩
            else if ← (g visited).isPureBarrel target then
              searchIn g fuel target reexport.origin visited
            else return ⟨some target, visited⟩

/-- Follows stars in one graph. -/
def throughStars (g : Graph m) (file : String) (follow : String → List String → m Search)
    (stars visited : List String) : m Search :=
  throughStarsIn (fun _ => g) file follow stars visited

/-- Searches an origin in one graph. -/
def search (g : Graph m) (fuel : Nat) (file name : String) (visited : List String) : m Search :=
  searchIn (fun _ => g) fuel file name visited

theorem search_succ (g : Graph m) (fuel : Nat) (file name : String) (visited : List String) :
    search g (fuel + 1) file name visited =
      if visited.contains file then return ⟨none, visited⟩
      else do
        let surface ← g.surface file
        if surface.declared.contains name then return ⟨some file, visited ++ [file]⟩
        else
          match surface.named.get? name with
          | none =>
            throughStars g file (fun target visited => search g fuel target name visited)
              surface.stars (visited ++ [file])
          | some reexport =>
            match ← g.resolve file reexport.specifier with
            | none => return ⟨none, visited ++ [file]⟩
            | some target =>
              if reexport.origin = "*" then return ⟨some target, visited ++ [file]⟩
              else if ← g.isPureBarrel target then
                search g fuel target reexport.origin (visited ++ [file])
              else return ⟨some target, visited ++ [file]⟩ :=
  rfl

end PageReach.Origin
