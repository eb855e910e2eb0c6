import PageReach.Reach.Walk

/-!
# One walk, two monads

Searches and walks are written for any monad. If the answers of two graphs are related (`Graphs`),
then so is all that is worked out from them, as long as the relation goes along with `pure` and
`bind` (`Simulation`). This is proved once and for all here, for every function that a walk is made
of.

* **Searches** (`searchIn`, `Graphs.search`): by induction on the fuel.
* **Walks** (`Journeys.followEdge`, `Journeys.expand`, `Journeys.run`, `Journeys.walk`): one lemma
  for each function.
-/

namespace PageReach

variable {m n : Type → Type} [Monad m] [Monad n]

/-- A relation between computations in two monads that goes along with `pure` and `bind`. -/
structure Simulation (m n : Type → Type) [Monad m] [Monad n] where
  Rel : {α : Type} → m α → n α → Prop
  pure : ∀ {α : Type} (a : α), Rel (Pure.pure a) (Pure.pure a)
  bind : ∀ {α β : Type} {x : m α} {y : n α} {f : α → m β} {g : α → n β},
    Rel x y → (∀ a, Rel (f a) (g a)) → Rel (x >>= f) (y >>= g)

namespace Simulation

variable (S : Simulation m n)

theorem foldlM {α β : Type} {f : α → β → m α} {g : α → β → n α}
    (h : ∀ a b, S.Rel (f a b) (g a b)) (bs : List β) (a : α) :
    S.Rel (bs.foldlM f a) (bs.foldlM g a) := by
  induction bs generalizing a with
  | nil => exact S.pure a
  | cons b bs ih =>
      rw [List.foldlM_cons, List.foldlM_cons]
      exact S.bind (h a b) ih

/-- The answers of two graphs `g` and `h` are related. -/
structure Graphs (g : Graph m) (h : Graph n) : Prop where
  edges : ∀ file, S.Rel (g.edges file) (h.edges file)
  surface : ∀ file, S.Rel (g.surface file) (h.surface file)
  resolve : ∀ file specifier, S.Rel (g.resolve file specifier) (h.resolve file specifier)

variable {S} {g : Graph m} {h : Graph n}

theorem Graphs.isPureBarrel (H : S.Graphs g h) (file : String) :
    S.Rel (g.isPureBarrel file) (h.isPureBarrel file) :=
  S.bind (H.surface file) fun _ => S.pure _

/-! ## Searches: `Origin.searchIn` -/

theorem throughStarsIn {g : List String → Graph m} {h : List String → Graph n}
    (H : ∀ visited, S.Graphs (g visited) (h visited)) (file : String)
    {follow : String → List String → m Origin.Search}
    {follow' : String → List String → n Origin.Search}
    (hf : ∀ target visited, S.Rel (follow target visited) (follow' target visited))
    (stars visited : List String) :
    S.Rel (Origin.throughStarsIn g file follow stars visited)
      (Origin.throughStarsIn h file follow' stars visited) := by
  induction stars generalizing visited with
  | nil => exact S.pure _
  | cons star stars ih =>
      refine S.bind ((H visited).resolve file star) fun t => ?_
      cases t with
      | none => exact ih visited
      | some target =>
          refine S.bind (hf target visited) fun found => ?_
          cases found.origin with
          | some _ => exact S.pure _
          | none => exact ih found.visited

/-- Searches are related if the graphs are that are asked at each point. -/
theorem searchIn {g : List String → Graph m} {h : List String → Graph n}
    (H : ∀ visited, S.Graphs (g visited) (h visited)) (fuel : Nat) (file name : String)
    (visited : List String) :
    S.Rel (Origin.searchIn g fuel file name visited) (Origin.searchIn h fuel file name visited) := by
  induction fuel generalizing file name visited with
  | zero => exact S.pure _
  | succ fuel ih =>
      rw [Origin.searchIn, Origin.searchIn]
      split
      · exact S.pure _
      · refine S.bind ((H _).surface file) fun surface => ?_
        split
        · exact S.pure _
        · split
          · exact throughStarsIn H file (fun target visited => ih target name visited) _ _
          · refine S.bind ((H _).resolve file _) fun t => ?_
            cases t with
            | none => exact S.pure _
            | some target =>
                dsimp only
                split
                · exact S.pure _
                · refine S.bind ((H _).isPureBarrel target) fun barrel => ?_
                  cases barrel with
                  | false => exact S.pure _
                  | true => exact ih target _ _

theorem Graphs.search (H : S.Graphs g h) (fuel : Nat) (file name : String)
    (visited : List String) :
    S.Rel (Origin.search g fuel file name visited) (Origin.search h fuel file name visited) :=
  searchIn (fun _ => H) fuel file name visited

/-! ## Walks: `Journeys` -/

/-- Two walks `j` and `k` start from the same and ask related graphs. -/
structure Journeys (S : Simulation m n) (j : Journey m) (k : Journey n) : Prop where
  graph : S.Graphs j.graph k.graph
  entry : j.entry = k.entry
  facts : j.facts = k.facts
  fileCount : j.fileCount = k.fileCount
  limit : j.limit = k.limit

variable {j : Journey m} {k : Journey n} {ex : String → Nat → Walk → m Walk}
  {ex' : String → Nat → Walk → n Walk}

theorem Journeys.origin (J : S.Journeys j k) (barrel name : String) :
    S.Rel (j.origin barrel name) (k.origin barrel name) := by
  rw [Journey.origin, Journey.origin, J.fileCount]
  exact S.bind (J.graph.search _ _ _ _) fun _ => S.pure _

theorem reopen (S : Simulation m n)
    (hex : ∀ file hop w, S.Rel (ex file hop w) (ex' file hop w)) (file : String) (w : Walk) :
    S.Rel (Journey.reopen ex file w) (Journey.reopen ex' file w) := by
  rw [Journey.reopen, Journey.reopen]
  split
  · exact hex _ _ _
  · exact S.pure _

theorem Journeys.followName (J : S.Journeys j k)
    (hex : ∀ file hop w, S.Rel (ex file hop w) (ex' file hop w)) (barrel : String)
    (hop barrelHop : Nat) (state : Walk × Bool) (name : String) :
    S.Rel (j.followName ex barrel hop barrelHop state name)
      (k.followName ex' barrel hop barrelHop state name) := by
  refine S.bind (J.origin barrel name) fun o => ?_
  cases o with
  | none => exact S.pure _
  | some file =>
      dsimp only
      split
      · exact S.pure _
      · refine S.bind (J.graph.isPureBarrel file) fun b => ?_
        cases b with
        | false => exact S.bind (S.pure _) fun w => S.pure _
        | true => exact S.bind (S.reopen hex file _) fun w => S.pure _

theorem Journeys.enterBarrel (J : S.Journeys j k)
    (hex : ∀ file hop w, S.Rel (ex file hop w) (ex' file hop w)) (barrel : String) (hop : Nat)
    (e : Edge) (link : ParentLink) (w : Walk) :
    S.Rel (j.enterBarrel ex barrel hop e link w) (k.enterBarrel ex' barrel hop e link w) := by
  refine S.bind (S.foldlM (fun s name => J.followName hex barrel hop _ s name) _ _) fun s => ?_
  dsimp only
  split
  · exact S.reopen hex barrel _
  · exact S.pure _

theorem Journeys.followEdge (J : S.Journeys j k)
    (hex : ∀ file hop w, S.Rel (ex file hop w) (ex' file hop w)) (file : String) (hop : Nat)
    (w : Walk) (e : Edge) :
    S.Rel (j.followEdge ex file hop w e) (k.followEdge ex' file hop w e) := by
  refine S.bind (J.graph.resolve file e.specifier) fun t => ?_
  cases t with
  | none => exact S.pure _
  | some target =>
      dsimp only
      rw [J.entry]
      split
      · exact S.pure _
      · split
        · exact S.pure _
        · refine S.bind (J.graph.isPureBarrel target) fun b => ?_
          cases b with
          | false => exact S.pure _
          | true => exact J.enterBarrel hex target hop e _ w

theorem Journeys.expand (J : S.Journeys j k) (fuel : Nat) (file : String) (hop : Nat)
    (w : Walk) : S.Rel (j.expand fuel file hop w) (k.expand fuel file hop w) := by
  induction fuel generalizing file hop w with
  | zero => exact S.pure _
  | succ fuel ih =>
      rw [Journey.expand, Journey.expand]
      split
      · exact S.pure _
      · refine S.bind (J.graph.edges file) fun edges => ?_
        dsimp only
        split
        · exact S.pure _
        · exact S.foldlM (fun w e => J.followEdge ih file hop w e) edges _

theorem Journeys.visit (J : S.Journeys j k) (file : String) (hop : Nat) (w : Walk) :
    S.Rel (j.visit file hop w) (k.visit file hop w) := by
  rw [Journey.visit, Journey.visit, J.facts, J.entry, J.fileCount]
  refine S.bind (J.graph.isPureBarrel file) fun b => ?_
  split
  · exact S.pure _
  · exact J.expand _ file hop _

theorem Journeys.run (J : S.Journeys j k) (fuel : Nat) (w : Walk) :
    S.Rel (j.run fuel w) (k.run fuel w) := by
  induction fuel generalizing w with
  | zero => exact S.pure _
  | succ fuel ih =>
      rw [Journey.run, Journey.run, J.limit]
      split
      · exact S.pure _
      · dsimp only
        split
        · exact ih _
        · split
          · exact S.pure _
          · exact S.bind (J.visit _ _ _) ih

/-- **Related graphs give related walks.** -/
theorem Journeys.walk (J : S.Journeys j k) : S.Rel j.walk k.walk := by
  rw [Journey.walk, Journey.walk, J.fileCount, J.entry]
  exact J.run _ _

end Simulation

end PageReach
