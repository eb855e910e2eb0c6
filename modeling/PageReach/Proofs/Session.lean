import PageReach.Proofs.Module.Memory
import PageReach.Proofs.Simulation
import PageReach.Session.Repository

/-!
# What a session answers

A session answers from memory where it can, and otherwise from the disk and the resolver. What it
would answer is a plain function of the session (`answers`), and remembering an answer does not
change it.

* **Reading** (`textAt?`, `reading`): what there is to be read of a file, said from the entry, the
  size limit and the decoding alone.
* **Remembering** (`answers_putText` to `answers_putResolution`): what is put into a table changes
  no answer.
* **Giving** (`Gives`, `giving`, `gives_recall`): a computation has the same outcome in all sessions
  with the same answers.
* **Operations** (`gives_text` to `gives_resolve`, `giving_graph`): so every computation on the
  graph of a repository gives what the same computation on the plain answers gives, and it leaves a
  session with the same answers behind.
-/

namespace PageReach

open Script

/-! ## `Answers` -/

/-- Plain answers about the files of a repository. -/
@[ext] structure Answers where
  text : String → Except Fault (Option String)
  tree : String → Except Fault (Except ParseFailure SyntaxTree)
  edges : String → Except Fault (List Edge)
  surface : String → Except Fault Surface
  resolve : String → String → Except Fault (Option String)

/-- The module graph that the plain answers `A` describe. -/
def Answers.graph (A : Answers) : Graph (Except Fault) := ⟨A.edges, A.surface, A.resolve⟩

namespace Repository

open Session Table

/-- The text at `path`: that of a file which is below the size limit and UTF-8. -/
def textAt? (r : Repository) (path : String) : Option String :=
  match r.disk.entry? path with
  | some (.file bytes) =>
    if r.sizeLimit.any fun limit => limit ≤ (bytes.size : Int) then none else Disk.decode? bytes
  | _ => none

/-- What there is to be read of `file`. -/
def reading (r : Repository) (file : String) : Except Fault (Option String) :=
  if '\x00' ∈ (Path.join r.root file).toList then .error .unusablePath
  else .ok (r.textAt? (Path.join r.root file))

/-- The tree of `file` if it has the given text. -/
def treeOf (file : String) : Option String → Except ParseFailure SyntaxTree
  | none => .error .unreadable
  | some source => match parseFile? file source with
    | some t => .ok t
    | none => .error .syntaxError

/-- The edges of a file whose tree is known, or known to be missing. -/
def edgesOf : Except ParseFailure SyntaxTree → List Edge
  | .ok t => Edge.ofTree t
  | .error _ => []

/-- The surface of a file whose tree is known, or known to be missing. -/
def surfaceOf : Except ParseFailure SyntaxTree → Surface
  | .ok t => Surface.ofTree t
  | .error _ => Surface.unknown

/-- What the session `s` answers about the repository `r`. -/
def answers (r : Repository) (resolver : Resolver) (s : Session) : Answers :=
  let text := recalled s.texts r.reading
  let tree := recalled s.trees fun file => (text file).map (treeOf file)
  { text, tree
    edges := recalled s.edges fun file => (tree file).map edgesOf
    surface := recalled s.surfaces fun file => (tree file).map surfaceOf
    resolve := fun file specifier =>
      if specifier = "" then .ok none
      else (s.resolution? file specifier).elim
        (resolver.resolveVia s.configs.answer file specifier) .ok }

/-! ### Remembering changes no answer -/

variable {r : Repository} {resolver : Resolver} {s : Session} {file : String}

theorem answers_putText {a : Option String} (h : (r.answers resolver s).text file = .ok a) :
    r.answers resolver { s with texts := s.texts.insert file a } = r.answers resolver s := by
  have htexts := recalled_insert s.texts r.reading h
  simp only [answers, htexts]
  rfl

theorem answers_putTree {a : Except ParseFailure SyntaxTree}
    (h : (r.answers resolver s).tree file = .ok a) :
    r.answers resolver (s.putTree file a) = r.answers resolver s := by
  have htrees := recalled_insert s.trees
    (fun file => ((r.answers resolver s).text file).map (treeOf file)) h
  simp only [answers] at htrees
  simp only [answers, putTree, htrees]
  rfl

theorem answers_putEdges {a : List Edge} (h : (r.answers resolver s).edges file = .ok a) :
    r.answers resolver { s with edges := s.edges.insert file a } = r.answers resolver s := by
  have hedges := recalled_insert s.edges
    (fun file => ((r.answers resolver s).tree file).map edgesOf) h
  simp only [answers] at hedges
  simp only [answers, hedges]
  rfl

theorem answers_putSurface {a : Surface} (h : (r.answers resolver s).surface file = .ok a) :
    r.answers resolver { s with surfaces := s.surfaces.insert file a } = r.answers resolver s := by
  have hsurfaces := recalled_insert s.surfaces
    (fun file => ((r.answers resolver s).tree file).map surfaceOf) h
  simp only [answers] at hsurfaces
  simp only [answers, hsurfaces]
  rfl

theorem answers_putResolution {specifier : String} {a : Option String}
    (h : (r.answers resolver s).resolve file specifier = .ok a) :
    r.answers resolver (s.putResolution file specifier a) = r.answers resolver s := by
  apply Answers.ext <;> try rfl
  funext file' specifier'
  by_cases hkey : (file', specifier') = (file, specifier)
  · obtain ⟨rfl, rfl⟩ := Prod.mk.inj hkey
    rw [h]
    by_cases hempty : specifier' = ""
    · simp only [answers, hempty, if_true] at h ⊢
      exact h
    · simp [answers, hempty, resolution?, putResolution, Table.lookup_insertInto_self]
  · simp only [answers, resolution?, putResolution, Table.lookup_insertInto_of_ne hkey]

end Repository

/-! ## Giving an answer: `Gives` -/

section Giving

variable {r : Repository} {resolver : Resolver} {A : Answers} {α β : Type}

/-- In every session with the answers `A`, the computation `x` has the outcome `v` and leaves the
answers as they are. -/
def Gives (r : Repository) (resolver : Resolver) (A : Answers) (x : Run α) (v : Except Fault α) :
    Prop :=
  Tells (r.answers resolver) A x v

theorem Gives.pure (a : α) : Gives r resolver A (Pure.pure a) (.ok a) := Tells.pure a

theorem Gives.bind {x : Run α} {v : Except Fault α} {f : α → Run β} {g : α → Except Fault β}
    (hx : Gives r resolver A x v) (hf : ∀ a, v = .ok a → Gives r resolver A (f a) (g a)) :
    Gives r resolver A (x >>= f) (v >>= g) :=
  Tells.bind hx hf

/-- The computations of a session simulate those on its plain answers: a `Simulation`. -/
def giving {ε : Type} (r : Repository) (resolver : Resolver) (A : Answers) :
    Simulation (ExceptT ε (StateM Session)) (Except ε) where
  Rel := Tells (r.answers resolver) A
  pure a := Tells.pure a
  bind hx hf := Tells.bind hx fun a _ => hf a

theorem lookUp_on (look : Session → Option α) (s : Session) :
    (Access.plain.lookUp look).on s =
      (.ok (look s), if (look s).isSome then s.countHit else s.countMiss) := by
  have hconsult : (Access.plain.consult look).on s = (.ok (look s), s) := rfl
  rw [Access.lookUp, ExceptT.on_bind, hconsult]
  dsimp only
  cases look s <;> rfl

theorem recall_on (shelf : Shelf α) (file : String) (work : Run α) (s : Session) :
    (Access.plain.recall shelf file work).on s = match (shelf.table s).get? file with
      | some a => (.ok a, s.countHit)
      | none => (do
          let a ← work
          modify fun s => shelf.withTable s ((shelf.table s).insert file a)
          return a : Run α).on s.countMiss := by
  rw [Access.recall, ExceptT.on_bind, lookUp_on]
  dsimp only
  cases (shelf.table s).get? file <;> rfl

/-- `recall` gives what the shelf remembers, or else what is worked out, if the answers of the
session say so and do not mind what is put on the shelf. -/
theorem gives_recall {shelf : Shelf α} {file : String} {work : Run α} {v F : Except Fault α}
    (hwork : Gives r resolver A work v)
    (hread : ∀ s, r.answers resolver s = A → F = ((shelf.table s).get? file).elim v .ok)
    (hput : ∀ s a, r.answers resolver s = A → F = .ok a →
      r.answers resolver (shelf.withTable s ((shelf.table s).insert file a)) = A) :
    Gives r resolver A (Access.plain.recall shelf file work) F := by
  intro s hs
  have hF := hread s hs
  rw [recall_on]
  cases hg : (shelf.table s).get? file with
  | some a =>
      rw [hg] at hF
      exact ⟨s.countHit, by rw [hF]; rfl, hs⟩
  | none =>
      rw [hg] at hF
      obtain ⟨s', hrun, hs'⟩ := hwork s.countMiss hs
      simp only [ExceptT.on_bind, hrun]
      cases v with
      | error e => exact ⟨s', by rw [hF]; rfl, hs'⟩
      | ok a => exact ⟨_, by rw [hF]; rfl, hput s' a hs' hF⟩

/-! ## The operations of a repository: `giving_graph` -/

/-- `readDisk` gives what there is to be read, and counts an error or not. -/
theorem readDisk_on (r : Repository) (file : String) (s : Session) :
    (r.readDisk file).on s = (r.reading file, s) ∨
      (r.readDisk file).on s = (r.reading file, s.countReadError) := by
  unfold Repository.readDisk Repository.reading Repository.textAt? Repository.isOversized?
    Disk.readText
  dsimp only
  generalize Path.join r.root file = path
  by_cases hzero : '\x00' ∈ path.toList
  · rw [if_pos (List.contains_iff_mem.mpr hzero), if_pos hzero]
    exact .inl rfl
  rw [if_neg (mt List.contains_iff_mem.mp hzero), if_neg hzero]
  cases hentry : r.disk.entry? path with
  | none => cases r.sizeLimit <;> exact .inr rfl
  | some e =>
      cases e with
      | directory =>
          cases hlimit : r.sizeLimit with
          | none => exact .inr rfl
          | some limit =>
              dsimp only [Option.map_some]
              cases decide (limit ≤ (Entry.directory.size : Int))
              · exact .inr rfl
              · exact .inl rfl
      | file bytes =>
          cases hlimit : r.sizeLimit with
          | none =>
              dsimp only [Option.any_none]
              cases Disk.decode? bytes
              · exact .inr rfl
              · exact .inl rfl
          | some limit =>
              by_cases hbig : limit ≤ (bytes.size : Int)
              · simp only [Option.map_some, Option.any_some, Entry.size, hbig, decide_true, if_true]
                cases Disk.decode? bytes <;> exact .inl rfl
              · simp only [Option.map_some, Option.any_some, Entry.size, hbig, decide_false,
                  Bool.false_eq_true, if_false]
                cases Disk.decode? bytes
                · exact .inr rfl
                · exact .inl rfl

/-- A file on a path without zero characters is read by `reading`, be it to no text. -/
theorem Repository.exists_reading {r : Repository} {f : String}
    (h : '\x00' ∉ (Path.join r.root f).toList) : ∃ t, r.reading f = .ok t :=
  ⟨_, if_neg h⟩

theorem Repository.reading_of_unusable {r : Repository} {f : String}
    (h : '\x00' ∈ (Path.join r.root f).toList) : r.reading f = .error .unusablePath :=
  if_pos h

theorem gives_text (file : String) : Gives r resolver A (r.text file) (A.text file) := by
  apply gives_recall (v := r.reading file)
  · intro s hs
    rcases readDisk_on r file s with h | h
    · exact ⟨s, h, hs⟩
    · exact ⟨s.countReadError, h, hs⟩
  · rintro s rfl
    rfl
  · rintro s a rfl ha
    exact Repository.answers_putText ha

theorem tree_on (r : Repository) (file : String) (s : Session) :
    (r.tree file).on s = match s.trees.get? file with
      | some t => (.ok t, s)
      | none => (do
          let text ← r.text file
          modify (Session.putTree · file (Repository.treeOf file text))
          return Repository.treeOf file text : Run _).on s := by
  have hlook : (Access.plain.inside (do return (← get).trees.get? file)).on s =
      (.ok (s.trees.get? file), s) := rfl
  rw [Repository.tree, Access.tree, ExceptT.on_bind, hlook]
  dsimp only
  cases s.trees.get? file with
  | some t => rfl
  | none =>
      simp only [ExceptT.on_bind, Repository.text]
      rcases (Access.plain.text r file).on s with ⟨_ | text, s'⟩
      · rfl
      · cases text with
        | none => rfl
        | some source =>
            have hparse : (Access.plain.parse file source).on s' = (.ok (parseFile? file source), s') :=
              rfl
            dsimp only [Repository.treeOf]
            rw [ExceptT.on_bind, hparse]
            cases parseFile? file source <;> rfl

theorem gives_tree (file : String) : Gives r resolver A (r.tree file) (A.tree file) := by
  intro s hs
  rw [tree_on]
  cases hg : s.trees.get? file with
  | some t => exact ⟨s, by subst hs; simp [Repository.answers, Table.recalled, hg], hs⟩
  | none =>
      have htree : A.tree file = (A.text file).map (Repository.treeOf file) := by
        subst hs
        simp [Repository.answers, Table.recalled, hg]
      obtain ⟨s', hrun, hs'⟩ : ∃ s', (r.text file).on s = (A.text file, s') ∧
          r.answers resolver s' = A := gives_text file s hs
      simp only [ExceptT.on_bind, hrun]
      cases htext : A.text file with
      | error e => exact ⟨s', by rw [htree, htext]; rfl, hs'⟩
      | ok text =>
          rw [htext] at htree
          refine ⟨s'.putTree file (Repository.treeOf file text), by rw [htree]; rfl, ?_⟩
          rw [← hs'] at htree ⊢
          exact Repository.answers_putTree htree

theorem gives_edges (file : String) : Gives r resolver A (r.edges file) (A.edges file) := by
  apply gives_recall (v := (A.tree file).map Repository.edgesOf)
  · have htree : Gives r resolver A (r.tree file) (A.tree file) := gives_tree file
    have h := Gives.bind htree
      (f := fun t => match t with
        | .ok t => Pure.pure (Edge.ofTree t)
        | .error _ => Pure.pure [])
      (g := fun t => .ok (Repository.edgesOf t)) (by rintro (_ | _) _ <;> exact Gives.pure _)
    cases ht : A.tree file <;> rwa [ht] at h
  · rintro s rfl
    rfl
  · rintro s a rfl ha
    exact Repository.answers_putEdges ha

theorem gives_surface (file : String) : Gives r resolver A (r.surface file) (A.surface file) := by
  apply gives_recall (v := (A.tree file).map Repository.surfaceOf)
  · have htree : Gives r resolver A (r.tree file) (A.tree file) := gives_tree file
    have h := Gives.bind htree
      (f := fun t => match t with
        | .ok t => Pure.pure (Surface.ofTree t)
        | .error _ => Pure.pure Surface.unknown)
      (g := fun t => .ok (Repository.surfaceOf t)) (by rintro (_ | _) _ <;> exact Gives.pure _)
    cases ht : A.tree file <;> rwa [ht] at h
  · rintro s rfl
    rfl
  · rintro s a rfl ha
    exact Repository.answers_putSurface ha

theorem withConfigs_on (work : ConfigMemory.Recalling α) (s : Session) :
    (Session.withConfigs work).on s =
      ((work.on s.configs).1, { s with configs := (work.on s.configs).2 }) := rfl

theorem resolve_on (resolver : Resolver) (file : String) {specifier : String}
    (h : specifier ≠ "") (s : Session) :
    (Repository.resolve resolver file specifier).on s =
      match s.resolution? file specifier with
      | some target => (.ok target, s.countHit)
      | none => (do
          let target ← Session.withConfigs (resolver.resolveRemembering file specifier)
          modify (Session.putResolution · file specifier target)
          return target : Run _).on s.countMiss := by
  rw [Repository.resolve, Access.resolve, if_neg h, ExceptT.on_bind, lookUp_on]
  dsimp only
  cases s.resolution? file specifier <;> rfl

theorem gives_resolve (file specifier : String) :
    Gives r resolver A (Repository.resolve resolver file specifier) (A.resolve file specifier) := by
  intro s hs
  subst hs
  by_cases hempty : specifier = ""
  · exact ⟨s, by simp [Repository.resolve, Repository.answers, hempty]; rfl, rfl⟩
  · rw [resolve_on resolver file hempty]
    cases hg : s.resolution? file specifier with
    | some target =>
        exact ⟨s.countHit, by simp [Repository.answers, hempty, hg], rfl⟩
    | none =>
        have hres : (r.answers resolver s).resolve file specifier =
            resolver.resolveVia s.configs.answer file specifier := by
          simp [Repository.answers, hempty, hg]
        obtain ⟨configs, hrun, hconfigs⟩ :=
          Resolver.tells_resolveRemembering (r := resolver) file specifier s.configs rfl
        have hsame : r.answers resolver { s.countMiss with configs } = r.answers resolver s := by
          simp only [Repository.answers, hconfigs]
          rfl
        have hwork :
            (Session.withConfigs (resolver.resolveRemembering file specifier)).on s.countMiss =
            (resolver.resolveVia s.configs.answer file specifier,
              { s.countMiss with configs }) := by
          rw [withConfigs_on, show s.countMiss.configs = s.configs from rfl, hrun]
        rw [hres, ExceptT.on_bind, hwork]
        cases hr : resolver.resolveVia s.configs.answer file specifier with
        | error e => exact ⟨_, rfl, hsame⟩
        | ok target =>
            refine ⟨Session.putResolution { s.countMiss with configs } file specifier target, rfl, ?_⟩
            rw [← hsame] at hres ⊢
            exact Repository.answers_putResolution (hres.trans hr)

/-- **The graph of a repository answers as its session does**, operation by operation. -/
theorem giving_graph (r : Repository) (resolver : Resolver) (A : Answers) :
    (giving r resolver A).Graphs (r.graph resolver) A.graph where
  edges := gives_edges
  surface := gives_surface
  resolve := gives_resolve

theorem giving_adapted_graph {ε : Type} (r : Repository) (resolver : Resolver) (A : Answers)
    (f : Fault → ε) :
    (giving r resolver A).Graphs ((r.graph resolver).map (ExceptT.adapt f))
      (A.graph.map (Except.mapError f)) where
  edges file := (gives_edges file).adapt f
  surface file := (gives_surface file).adapt f
  resolve file specifier := (gives_resolve file specifier).adapt f

end Giving

end PageReach
