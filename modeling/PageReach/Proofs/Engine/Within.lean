import PageReach.Proofs.Engine.Order
import PageReach.Proofs.Walk.Confined

/-!
# Nothing outside the index

Files come into a run from many sides: as entries of pages, as targets of specifiers, as places of
facts. All of them are looked up in the index first. So a run reads and parses nothing else,
resolves to nothing else and visits nothing else, and neither is anything else told of it.

* **Sessions** (`Session.Within`, `keeps_text` to `keeps_resolve`): each operation of a repository
  keeps a session within given files.
* **Walks** (`confined_graph`, `keeps_walk`): so does a walk from an indexed file.
* **Runs** (`enrich_within`, `within_after`, `runs_keep_to_index`): so does a run, and any number of
  them.
-/

namespace PageReach

/-! ## Sessions: `Session.Within` -/

/-- All that the session `s` remembers of files is about the given `files`. -/
structure Session.Within (files : List String) (s : Session) : Prop where
  texts : s.texts.keys ⊆ files
  trees : s.trees.keys ⊆ files
  edges : s.edges.keys ⊆ files
  surfaces : s.surfaces.keys ⊆ files
  resolutions : ∀ key target, (key, some target) ∈ s.resolutions → target ∈ files

namespace Session.Within

variable {files : List String} {s : Session} {r : Repository} {resolver : Resolver} {file : String}

theorem countHit (h : s.Within files) : s.countHit.Within files :=
  ⟨h.texts, h.trees, h.edges, h.surfaces, h.resolutions⟩

theorem countMiss (h : s.Within files) : s.countMiss.Within files :=
  ⟨h.texts, h.trees, h.edges, h.surfaces, h.resolutions⟩

theorem putTree (h : s.Within files) (hfile : file ∈ files)
    (t : Except ParseFailure Script.SyntaxTree) : (s.putTree file t).Within files :=
  ⟨h.texts, Table.keys_insert_subset h.trees hfile t, h.edges, h.surfaces, h.resolutions⟩

theorem putResolution (h : s.Within files) (file specifier : String) {t : Option String}
    (ht : ∀ target ∈ t, target ∈ files) : (s.putResolution file specifier t).Within files := by
  refine ⟨h.texts, h.trees, h.edges, h.surfaces, ?_⟩
  intro key target hmem
  rcases Table.mem_insertInto hmem with heq | hmem
  · exact ht target (Prod.mk.inj heq).2.symm
  · exact h.resolutions key target hmem

theorem keeps_recall {α : Type} {shelf : Shelf α} {work : Run α}
    (hwork : Keeps (Within files) work fun _ => True)
    (hput : ∀ s a, s.Within files →
      (shelf.withTable s ((shelf.table s).insert file a)).Within files) :
    Keeps (Within files) (Access.plain.recall shelf file work) fun _ => True := by
  intro s hs
  rw [recall_on]
  cases (shelf.table s).get? file with
  | some a => exact ⟨hs.countHit, fun _ _ => trivial⟩
  | none =>
      have hmiss := hwork.bind fun a _ =>
        (Keeps.modified fun s hs => hput s a hs).bind fun _ _ => Keeps.pure (a := a) trivial
      exact hmiss s.countMiss hs.countMiss

theorem keeps_text (hfile : file ∈ files) : Keeps (Within files) (r.text file) fun _ => True := by
  refine keeps_recall ?_ fun s a hs => ?_
  · intro s hs
    refine ⟨?_, fun _ _ => trivial⟩
    change Within files ((r.readDisk file).on s).2
    rcases readDisk_on r file s with h | h
    · rw [h]
      exact hs
    · rw [h]
      exact ⟨hs.texts, hs.trees, hs.edges, hs.surfaces, hs.resolutions⟩
  · exact ⟨Table.keys_insert_subset hs.texts hfile a, hs.trees, hs.edges, hs.surfaces,
      hs.resolutions⟩

theorem keeps_tree (hfile : file ∈ files) : Keeps (Within files) (r.tree file) fun _ => True := by
  intro s hs
  rw [tree_on]
  cases s.trees.get? file with
  | some t => exact ⟨hs, fun _ _ => trivial⟩
  | none =>
      have hparse := (keeps_text (r := r) hfile).bind fun text _ =>
        (Keeps.modified fun s hs => hs.putTree hfile (Repository.treeOf file text)).bind
          fun _ _ => Keeps.pure (a := Repository.treeOf file text) (P := fun _ => True) trivial
      exact hparse s hs

theorem keeps_edges (hfile : file ∈ files) : Keeps (Within files) (r.edges file) fun _ => True := by
  refine keeps_recall ?_ fun s a hs => ?_
  · refine (keeps_tree hfile).bind fun t _ => ?_
    cases t <;> exact Keeps.pure trivial
  · exact ⟨hs.texts, hs.trees, Table.keys_insert_subset hs.edges hfile a, hs.surfaces,
      hs.resolutions⟩

theorem keeps_surface (hfile : file ∈ files) :
    Keeps (Within files) (r.surface file) fun _ => True := by
  refine keeps_recall ?_ fun s a hs => ?_
  · refine (keeps_tree hfile).bind fun t _ => ?_
    cases t <;> exact Keeps.pure trivial
  · exact ⟨hs.texts, hs.trees, hs.edges, Table.keys_insert_subset hs.surfaces hfile a,
      hs.resolutions⟩

theorem keeps_resolveRemembering (resolver : Resolver) (file specifier : String) :
    Keeps (Within resolver.index.files)
      (Session.withConfigs (resolver.resolveRemembering file specifier))
      fun t => ∀ target ∈ t, target ∈ resolver.index.files := by
  intro s hs
  obtain ⟨configs, hrun, -⟩ :=
    Resolver.tells_resolveRemembering (r := resolver) file specifier s.configs rfl
  rw [withConfigs_on, hrun]
  refine ⟨⟨hs.texts, hs.trees, hs.edges, hs.surfaces, hs.resolutions⟩, ?_⟩
  rintro t ht target rfl
  exact Resolver.mem_of_resolveVia ht

theorem keeps_resolve (resolver : Resolver) (file specifier : String) :
    Keeps (Within resolver.index.files) (Repository.resolve resolver file specifier)
      fun t => ∀ target ∈ t, target ∈ resolver.index.files := by
  by_cases hempty : specifier = ""
  · rw [Repository.resolve, Access.resolve, if_pos hempty]
    refine Keeps.pure ?_
    intro target htarget
    cases htarget
  · intro s hs
    rw [resolve_on resolver file hempty]
    cases hg : s.resolution? file specifier with
    | some t =>
        refine ⟨hs.countHit, ?_⟩
        rintro _ ⟨⟩ target rfl
        obtain ⟨front, back, hsplit, -⟩ := List.lookup_eq_some_iff.mp hg
        refine hs.resolutions (file, specifier) target ?_
        rw [hsplit]
        exact List.mem_append_right _ List.mem_cons_self
    | none =>
        have hmiss := (keeps_resolveRemembering resolver file specifier).bind fun t ht =>
          (Keeps.modified fun s hs => hs.putResolution file specifier ht).bind fun _ _ =>
            Keeps.pure (a := t) ht
        exact hmiss s.countMiss hs.countMiss

end Session.Within

/-- The `Assertion` about computations that keep an invariant `I` of the session. -/
def keeping (I : Session → Prop) : Assertion Run where
  Holds := Keeps I
  pure := Keeps.pure
  bind := Keeps.bind

namespace Engine

variable {e : Engine} {n : Nat} {st : State} {facts : Table (List Fact)} {page : Page}

theorem confined_graph (e : Engine) : (keeping (Session.Within e.index.files)).Confined
    (e.repository.graph e.resolver) (· ∈ e.index.files) fun _ => True where
  edges _ hf := Session.Within.keeps_edges hf
  surface _ hf := Session.Within.keeps_surface hf
  resolve f specifier _ := Session.Within.keeps_resolve e.resolver f specifier

/-- A walk from an indexed file visits indexed files only, and looks at no others on the way: it
keeps `Session.Within`. -/
theorem keeps_walk {entry : String} (hentry : entry ∈ e.index.files) (facts : Table (List Fact)) :
    Keeps (Session.Within e.index.files) (e.walk entry facts) fun w =>
      w.visited ⊆ e.index.files := by
  have hconfined : (keeping (Session.Within e.index.files)).Confined (e.journey entry facts).graph
      (· ∈ e.index.files) fun _ => True := confined_graph e
  exact Keeps.imp (hconfined.walk hentry) fun w hw f hf => (hw.visited f hf).1

/-! ## Runs: `Within` -/

/-- All that the engine `e` remembers and counts in `st` is about indexed files. -/
structure Within (e : Engine) (st : State) : Prop where
  session : st.session.Within e.index.files
  counts : st.reachability.keys ⊆ e.index.files

theorem keeps_inSession {α : Type} {x : Run α} {P : α → Prop}
    (h : Keeps (Session.Within e.index.files) x P) : Keeps e.Within (inSession x) P := by
  intro st hst
  obtain ⟨hsession, hP⟩ := h st.session hst.session
  exact ⟨⟨hsession, hst.counts⟩, hP⟩

theorem keys_countFiles_subset {files visited : List String} (hvisited : visited ⊆ files)
    {counts : Table Nat} (h : counts.keys ⊆ files) :
    (visited.foldl countFile counts).keys ⊆ files := by
  induction visited generalizing counts with
  | nil => exact h
  | cons f visited ih =>
      obtain ⟨hf, hrest⟩ := List.cons_subset.mp hvisited
      exact ih hrest (Table.keys_insert_subset h hf _)

theorem keeps_tour (facts : Table (List Fact)) (page : Page) (told : Table WalkSummary) :
    Keeps e.Within (e.tour facts page told) fun _ => True := by
  refine (Keeps.except page.fileText?).bind fun file? _ => ?_
  cases hentry : file?.bind e.index.locate with
  | none => exact Keeps.pure trivial
  | some entry =>
      obtain ⟨file, -, hlocate⟩ := Option.bind_eq_some_iff.mp hentry
      refine (keeps_inSession (keeps_walk (FileIndex.mem_of_locate hlocate) facts)).bind ?_
      intro w hw
      refine (Keeps.modified fun st hst => ?_).bind fun _ _ => ?_
      · exact ⟨hst.session, keys_countFiles_subset hw hst.counts⟩
      · exact (Keeps.except page.routeKey).bind fun key _ => Keeps.pure trivial

theorem keeps_tourAll (facts : Table (List Fact)) (pages : Vector Page n) (order : List (Fin n))
    (told : Table WalkSummary) :
    Keeps e.Within (e.tourAll facts pages order told) fun _ => True := by
  induction order generalizing told with
  | nil => exact Keeps.pure trivial
  | cons i order ih =>
      refine (keeps_tour facts (pages.get i) told).bind fun x _ => ?_
      exact (ih x.2).bind fun y _ => Keeps.pure trivial

theorem keeps_additions {t : Thresholds} {walked : Option (String × Walk)} (page : Page)
    (hbest : ∀ entry w, walked = some (entry, w) →
      ∀ x ∈ w.best.values, x.1.file ∈ e.index.files) :
    Keeps e.Within (e.additions t page walked) fun added =>
      ∀ a ∈ added, a.file ∈ e.index.files := by
  rcases walked with _ | ⟨entry, w⟩
  · exact Keeps.pure nofun
  · refine (Keeps.except (Listed.names page.entries)).bind fun known _ => Keeps.mapM ?_
    rintro ⟨fact, hops⟩ hx st hst
    have hfile : fact.file ∈ e.index.files := hbest entry w rfl _ (newFacts_subset w known hx)
    rw [attribution_on]
    refine Keeps.bind (Q := fun a : Attribution => a.file ∈ e.index.files)
      (keeps_inSession (Session.Within.keeps_text hfile)) (fun source _ => ?_) st hst
    apply Keeps.pure
    rw [attributionOf_file]
    exact hfile

theorem Toured.best_indexed {sources : List OperationSource} {walked : Option (String × Walk)}
    (h : e.Toured (e.factsByFile sources) page walked) :
    ∀ entry w, walked = some (entry, w) → ∀ x ∈ w.best.values, x.1.file ∈ e.index.files := by
  rintro entry w rfl x hx
  exact h.indexed (h.mem_visited hx)

/-- One run of `enrich`: it keeps to the index, whatever comes out. -/
theorem enrich_within (pages : Vector Page n) (order : List (Fin n))
    (sources : List OperationSource) (hs : e.Faithful st.session) (hst : e.Within st) :
    e.Within ((e.enrich pages order sources).run st).2 ∧
      ∀ i, ∃ added, ((e.enrich pages order sources).run st).1.1.get i =
          extend (pages.get i) added ∧
        ∀ a ∈ added, a.file ∈ e.index.files := by
  refine enrich_keeps ⟨hst.session, List.nil_subset _⟩ (keeps_tourAll _ pages order .empty) ?_
  intro tours walks st₁ hrun x hx t page
  have hs₀ : e.Faithful (State.mk st.session .empty).session := hs
  obtain ⟨-, htoured⟩ := tourAll_ok hs₀ hrun
  exact keeps_additions page (htoured x hx).best_indexed

/-- The call is one for a run over pages, `enrich` or `enrichInput`. -/
def Call.IsRun : Call → Prop
  | .enrich _ _ _ | .enrichInput _ _ => True
  | _ => False

theorem reply_within {c : Call} (hc : c.IsRun) (hs : e.Faithful st.session) (hst : e.Within st) :
    e.Within ((e.reply c).run st).2 := by
  cases c with
  | enrich pages order sources => exact (enrich_within pages order sources hs hst).1
  | enrichInput input sources =>
      show e.Within ((e.enrichInput input sources).run st).2
      rw [enrichInput_run]
      cases Page.checkAll input with
      | error problem => exact hst
      | ok pages => exact (enrich_within _ _ sources hs hst).1
  | _ => exact hc.elim

theorem within_after {runs : List Call} (h : ∀ c ∈ runs, c.IsRun) : e.Within (e.after runs) := by
  have hnew : e.Within {} := by
    refine ⟨⟨?_, ?_, ?_, ?_, nofun⟩, ?_⟩ <;> exact List.nil_subset _
  -- `Within` alone is no invariant: that facts are in indexed files is known of faithful walks only
  have hstep : ∀ c ∈ runs, ∀ st : State, e.Faithful st.session ∧ e.Within st →
      () = () ∧ e.Faithful ((e.reply c).run st).2.session ∧ e.Within ((e.reply c).run st).2 := by
    intro c hc st hst
    exact ⟨rfl, (reply_alike c hst.1).2, reply_within (h c hc) hst.1 hst.2⟩
  exact (mapM_run (p := fun _ => ()) hstep ⟨faithful_new e, hnew⟩).2.2

/-- **Runs keep to the index.** After any number of runs, all that is remembered or counted is about
indexed files, and specifiers have led to no others. In a session that keeps to the index, the walk
from a page's entry visits no others, and the session still keeps to it. No others come into the
attributions that the next run adds, or into its report. All this holds for runs that fail as well. -/
theorem runs_keep_to_index (e : Engine) (runs : List Call) (hruns : ∀ c ∈ runs, c.IsRun) :
    e.Within (e.after runs) ∧
    (∀ file entry facts s, e.index.locate file = some entry → s.Within e.index.files →
      ∀ outcome s', (e.walk entry facts).on s = (outcome, s') →
        s'.Within e.index.files ∧ ∀ w, outcome = .ok w → w.visited ⊆ e.index.files) ∧
    ∀ {n : Nat} (pages pages' : Vector Page n) order sources outcome st',
      (e.enrich pages order sources).run (e.after runs) = ((pages', outcome), st') →
        e.Within st' ∧
        (∀ report, outcome = .ok report → report.reachability.keys ⊆ e.index.files) ∧
        ∀ i, ∃ added : List Attribution, pages'.get i = { pages.get i with
            entries := (pages.get i).entries ++ added.map .attribution } ∧
          ∀ a ∈ added, a.file ∈ e.index.files := by
  have hst : e.Within (e.after runs) := within_after hruns
  refine ⟨hst, ?_, ?_⟩
  · intro file entry facts s hlocate hs outcome s' hrun
    have hwalk := keeps_walk (FileIndex.mem_of_locate hlocate) facts s hs
    rw [hrun] at hwalk
    exact hwalk
  · intro n pages pages' order sources outcome st' hrun
    obtain ⟨hst', hadded⟩ := enrich_within pages order sources (faithful_after e runs) hst
    rw [hrun] at hst' hadded
    refine ⟨hst', ?_, hadded⟩
    rintro report rfl
    obtain ⟨-, -, -, -, -, -, hreach⟩ := enrich_ok hrun
    rw [hreach]
    exact hst'.counts

/-- Of the two `filesAround`, only one is in the index. -/
def halfIndexed : Engine :=
  { ofTexts filesAround with resolver := { index := ⟨["a.ts"]⟩ } }

/-- Two runs, the second of which fails. -/
def runsAround : List Call :=
  [.enrich pagesAround [0, 1] [operationAround], .enrichInput .absent []]

/-- The other file of `halfIndexed` is on the disk. It is imported, and it is the entry of a page
and the place of a fact. -/
theorem runs_keep_to_index_around :
    (∀ c ∈ runsAround, c.IsRun) ∧
    (halfIndexed.after runsAround).reachability.keys = ["a.ts"] ∧
    (halfIndexed.after runsAround).session.texts.keys ⊆ ["a.ts"] ∧
    ∃ pages' outcome st', (halfIndexed.enrich pagesAround [1, 0] [operationAround]).run
        (halfIndexed.after runsAround) = ((pages', outcome), st') ∧
      ∀ i : Fin 2, ∃ added : List Attribution,
        pages'.get i = { pagesAround.get i with
          entries := (pagesAround.get i).entries ++ added.map .attribution } ∧
        ∀ a ∈ added, a.file ∈ ["a.ts"] := by
  have hruns : ∀ c ∈ runsAround, c.IsRun := by
    intro c hc
    rcases List.mem_cons.mp hc with rfl | hc
    · trivial
    · rw [List.mem_singleton.mp hc]
      trivial
  obtain ⟨hwithin, -, hnext⟩ := runs_keep_to_index halfIndexed runsAround hruns
  refine ⟨hruns, by decide +kernel, hwithin.session.texts, ?_⟩
  generalize hrun : (halfIndexed.enrich pagesAround [1, 0] [operationAround]).run
    (halfIndexed.after runsAround) = r
  obtain ⟨⟨pages', outcome⟩, st'⟩ := r
  obtain ⟨-, -, hadded⟩ := hnext pagesAround pages' [1, 0] [operationAround] outcome st' hrun
  exact ⟨pages', outcome, st', rfl, hadded⟩

end Engine

end PageReach
