import PageReach.Reach.Walk

/-!
# What a walk is to reach

The files that a walk has to visit are described without queue, hops and order (`Stands`): a file is
*reached* (`Reaches`) from a file whose edges are *followed* (`Follows`), and the edges of a barrel
are followed only if it is asked for as a whole, for a name that cannot be followed through it, or
as the origin of a name.

The descriptions speak of a plain journey, whose graph answers without effects.
-/

namespace PageReach

/-- A specifier stands in `file`: in an edge, or in a re-export. -/
inductive Graph.Cites (g : Graph Id) (file : String) : String → Prop where
  | edge {e : Edge} : e ∈ (g.edges file).run → Cites g file e.specifier
  | named {name : String} {r : Reexport} :
    (g.surface file).run.named.get? name = some r → Cites g file r.specifier
  | star {specifier : String} : specifier ∈ (g.surface file).run.stars → Cites g file specifier

namespace Journey

variable (j : Journey Id)

/-! ## Edges: `Leads`, `Enters` and `Asks` -/

/-- The edge `e` of `file` leads to another file, `target`. -/
def Leads (file : String) (e : Edge) (target : String) : Prop :=
  e ∈ (j.graph.edges file).run ∧ (j.graph.resolve file e.specifier).run = some target ∧
    target ≠ file

/-- A file holds nothing but imports and re-exports. -/
def IsBarrel (file : String) : Prop := (j.graph.isPureBarrel file).run = true

instance (file : String) : Decidable (j.IsBarrel file) :=
  inferInstanceAs (Decidable ((j.graph.isPureBarrel file).run = true))

/-- The edge `e` of `file` leads into a barrel, other than the entry. -/
def Enters (file : String) (e : Edge) (barrel : String) : Prop :=
  j.Leads file e barrel ∧ j.IsBarrel barrel ∧ barrel ≠ j.entry

/-- The edge `e` asks `barrel` for a name that comes from `origin`. -/
def Asks (file : String) (e : Edge) (barrel name : String) (origin : Option String) : Prop :=
  j.Enters file e barrel ∧ name ∈ e.names.getD [] ∧ (j.origin barrel name).run = origin

/-! ## Reached and followed files: `Stands` -/

/-- What a walk is to do with a file. -/
inductive Standing where
  /-- Visit it. -/
  | reached
  /-- Follow its edges. -/
  | followed
deriving DecidableEq, Repr, Inhabited

/-- How files come to their standing. -/
inductive Stands : Standing → String → Prop where
  | entry (s : Standing) : Stands s j.entry
  /-- The edges of a file that is no barrel are followed. -/
  | plain {f : String} : Stands .reached f → ¬ j.IsBarrel f → Stands .followed f
  | edge {f t : String} {e : Edge} : Stands .followed f → j.Leads f e t → Stands .reached t
  /-- A barrel is asked for anything. -/
  | whole {f b : String} {e : Edge} :
    Stands .followed f → j.Enters f e b → e.names = none → Stands .followed b
  /-- A name leads nowhere, or not out of the barrel. -/
  | stuck {f b n : String} {e : Edge} {o : Option String} :
    Stands .followed f → j.Asks f e b n o → o = none ∨ o = some b → Stands .followed b
  | origin {f b n o : String} {e : Edge} :
    Stands .followed f → j.Asks f e b n (some o) → o ≠ b → Stands .reached o
  /-- The origin of a name is a barrel itself. -/
  | barrel {f b n o : String} {e : Edge} :
    Stands .followed f → j.Asks f e b n (some o) → o ≠ b → j.IsBarrel o → Stands .followed o

/-- A walk is to visit `file`. -/
def Reaches (file : String) : Prop := j.Stands .reached file

/-- A walk is to follow the edges of `file`. -/
def Follows (file : String) : Prop := j.Stands .followed file

end Journey

end PageReach
