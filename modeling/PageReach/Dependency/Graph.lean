import PageReach.Dependency.Surface

/-!
# The module graph

What an analysis asks about the modules of a repository: the edges and the surface of a file, and
the file that a specifier names. The answers come in a monad, so that one analysis can be run on a
plain graph as well as on a repository whose files are read and remembered on the way.
-/

namespace PageReach

/-- Answers about the modules of a repository. -/
structure Graph (m : Type → Type) where
  /-- The edges of a file. -/
  edges : String → m (List Edge)
  /-- What a file exports. -/
  surface : String → m Surface
  /-- The file that a specifier names in a file. -/
  resolve : (file specifier : String) → m (Option String)

/-- The graph whose answers are changed by `t`. -/
def Graph.map {m n : Type → Type} (t : {α : Type} → m α → n α) (g : Graph m) : Graph n :=
  ⟨fun file => t (g.edges file), fun file => t (g.surface file),
    fun file specifier => t (g.resolve file specifier)⟩

/-- Whether a file holds nothing but imports and re-exports. -/
def Graph.isPureBarrel {m : Type → Type} [Monad m] (g : Graph m) (file : String) : m Bool := do
  return (← g.surface file).pureBarrel

end PageReach
