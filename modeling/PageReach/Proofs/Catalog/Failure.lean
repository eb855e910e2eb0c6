import PageReach.Proofs.Catalog.Usage
import PageReach.Proofs.Files.Place

/-!
# What stops the building of a catalog

Files that cannot be read, texts that are no documents and scripts without a tree are counted, and
the catalog is built from the rest. Apart from paths that cannot be used, only one thing stops the
building: a generated document in which something other than a text stands for the kind of an
operation.

* **Gathering** (`gatherFrom_stops_iff`): `gatherFrom` stops exactly at a path that cannot be used
  or at a generated file that `Confuses`.
* **Building** (`buildFrom_stops_iff`, `exists_build`): once all is gathered, nothing stops `build`.
* **Kinds** (`confuses_iff`, `build_unless_confused`): what it takes to confuse, said about the tree
  of the file. A number for the kind does (`numberAsKind`).
-/

namespace PageReach

open Script

theorem Repository.reading_stops_iff {r : Repository} {file : String} :
    Stops (r.reading file) ↔ '\x00' ∈ (Path.join r.root file).toList := by
  by_cases hzero : '\x00' ∈ (Path.join r.root file).toList
  · rw [reading_of_unusable hzero]
    simp [hzero]
  · obtain ⟨t, ht⟩ := exists_reading hzero
    rw [ht]
    simp [hzero]

/-- What `reading` gives for a file that stands on the disk, where there is no `sizeLimit`. -/
theorem Repository.reading_of_file {r : Repository} {file path text : String}
    (hplace : Path.join r.root file = path) (hzero : '\x00' ∉ path.toList) (hlimit : r.sizeLimit = none)
    (hentry : r.disk.entry? path = some (.file text.toUTF8)) (htext : '\r' ∉ text.toList) :
    r.reading file = .ok (some text) := by
  rw [reading, hplace, if_neg hzero, textAt?, hentry]
  dsimp only
  rw [hlimit, Option.any_none, if_neg Bool.false_ne_true, Disk.decode?_toUTF8 htext]

namespace Catalog

variable {r : Repository} {documentFiles scripts : List String} {d : Draft} {file : String}

/-! ## `gatherFrom` -/

theorem readGenerated_stops_iff {text : Option String} :
    Stops (Draft.readGenerated file d text) ↔
      ∃ root, text.bind (parseFile? file) = some root ∧ Stops (Operation.generatedDocuments root) := by
  rcases text with _ | source
  · simp [Draft.readGenerated]
  · unfold Draft.readGenerated
    dsimp only [Option.bind_some]
    cases hparse : parseFile? file source with
    | none => split <;> simp
    | some root =>
        split
        · rw [stops_return]
          simp
        · rename_i hwords
          -- a source that is not read has nothing in it that could stop the reading
          have hnone := Operation.generatedDocument?_of_no_words hparse (by simpa using hwords)
          have hgoes : ¬ Stops (Operation.generatedDocuments root) := by
            rw [Operation.generatedDocuments_stops_iff]
            rintro ⟨t, ht, hstops⟩
            rw [hnone t ht] at hstops
            exact not_stops_ok _ hstops
          simp [hgoes]

theorem script?_eq_some_iff {root : SyntaxTree} : r.script? file = some root ↔
    ∃ t, r.reading file = .ok t ∧ t.bind (parseFile? file) = some root := by
  rw [Repository.script?, Repository.content?]
  cases r.reading file <;> simp [Except.toOption]

/-- `file` is generated and has a tree, and `generatedDocuments` stops in this tree. -/
def Confuses (r : Repository) (file : String) : Prop :=
  Draft.isGenerated file = true ∧
    ∃ root, r.script? file = some root ∧ Stops (Operation.generatedDocuments root)

theorem addGenerated_stops_iff (d : Draft) (file : String) :
    Stops (if Draft.isGenerated file then r.reading file >>= Draft.readGenerated file d else .ok d) ↔
      Draft.isGenerated file = true ∧ Stops (r.reading file) ∨ Confuses r file := by
  cases hgenerated : Draft.isGenerated file with
  | false => simp [Confuses, hgenerated]
  | true =>
      rw [if_pos rfl, stops_bind]
      simp only [readGenerated_stops_iff, Confuses, hgenerated, true_and, script?_eq_some_iff]
      refine or_congr_right ⟨?_, ?_⟩
      · rintro ⟨t, ht, root, hroot, hstops⟩
        exact ⟨root, ⟨t, ht, hroot⟩, hstops⟩
      · rintro ⟨root, ⟨t, ht, hroot⟩, hstops⟩
        exact ⟨t, ht, root, hroot, hstops⟩

theorem gatherFrom_stops_iff : Stops (Draft.gatherFrom r.reading documentFiles scripts) ↔
    (∃ f ∈ documentFiles ++ scripts, Stops (r.reading f)) ∨ ∃ f ∈ scripts, Confuses r f := by
  have hdocuments (d : Draft) := stops_foldlM (l := documentFiles) (a := d)
    (P := fun file => Stops (r.reading file)) fun d file =>
      stops_return (x := r.reading file) (f := Draft.readDocument file d)
  have hscripts (d : Draft) := stops_foldlM (l := scripts) (a := d)
    (P := fun file => Stops (r.reading file)) fun d file =>
      stops_return (x := r.reading file) (f := Draft.readScript file d)
  have hgenerated (d : Draft) := stops_foldlM (l := scripts) (a := d) (addGenerated_stops_iff (r := r))
  rw [Draft.gatherFrom, stops_bind_of_iff fun d =>
    (stops_bind_of_iff hgenerated).trans (or_congr_left (hscripts d)), hdocuments]
  -- a script that cannot be read as a generated file has stopped the run before
  constructor
  · rintro (⟨f, hf, hstops⟩ | ⟨f, hf, hstops⟩ | ⟨f, hf, ⟨-, hstops⟩ | hconfuses⟩)
    · exact .inl ⟨f, List.mem_append_left _ hf, hstops⟩
    · exact .inl ⟨f, List.mem_append_right _ hf, hstops⟩
    · exact .inl ⟨f, List.mem_append_right _ hf, hstops⟩
    · exact .inr ⟨f, hf, hconfuses⟩
  · rintro (⟨f, hf, hstops⟩ | ⟨f, hf, hconfuses⟩)
    · rcases List.mem_append.mp hf with hf | hf
      · exact .inl ⟨f, hf, hstops⟩
      · exact .inr (.inl ⟨f, hf, hstops⟩)
    · exact .inr (.inr ⟨f, hf, .inr hconfuses⟩)

/-- Once `gatherFrom` has gathered all definitions, nothing stops the search for uses. -/
theorem buildFrom_stops_iff : Stops (buildFrom r.reading documentFiles scripts) ↔
    Stops (Draft.gatherFrom r.reading documentFiles scripts) := by
  rw [buildFrom, stops_bind]
  refine ⟨?_, .inl⟩
  rintro (h | ⟨draft, hdraft, h⟩)
  · exact h
  · dsimp only at h
    split at h
    · exact absurd h (not_stops_ok _)
    · rw [stops_return, stops_foldlM fun t file =>
        stops_return (x := r.reading file) (f := readUses _ file t)] at h
      obtain ⟨f, hf, hstops⟩ := h
      exact gatherFrom_stops_iff.mpr (.inl ⟨f, List.mem_append_right _ hf, hstops⟩)

/-! ## `build` -/

/-- `build` returns a catalog once the definitions are gathered. -/
theorem exists_build (h : Draft.gatherFrom r.reading documentFiles scripts = .ok d) :
    ∃ c session, (build r documentFiles scripts).on {} = (.ok c, session) ∧
      buildFrom r.reading documentFiles scripts = .ok c ∧
      c.documents = withUsualNames d.documents (firstDefinitions d.definitions).keys ∧
      r.definitions documentFiles scripts = d.definitions := by
  have hdefinitions : r.definitions documentFiles scripts = d.definitions :=
    (gains_gatherFrom h).definitions.symm
  rcases stops_or_ok (buildFrom r.reading documentFiles scripts) with hstops | ⟨c, hc⟩
  · rw [buildFrom_stops_iff, h] at hstops
    exact absurd hstops (not_stops_ok d)
  · obtain ⟨session, hrun⟩ := build_on_new r documentFiles scripts
    obtain ⟨d', hd', -, hdocuments, -⟩ := exists_draft_of_buildFrom hc
    rw [h] at hd'
    cases hd'
    rw [hc] at hrun
    rw [hdefinitions] at hdocuments
    exact ⟨c, session, hrun, hc, hdocuments, hdefinitions⟩

theorem confuses_iff : Confuses r file ↔ Draft.isGenerated file = true ∧
    ∃ root, r.script? file = some root ∧ ∃ t ∈ Operation.constants root, ∃ name operation kind,
      Operation.Declares t name operation kind ∧ kind.text? = none ∧ kind.holds = true := by
  simp only [Confuses, Operation.generatedDocuments_stops_iff, Operation.generatedDocument?_stops_iff]

/-- **Only a kind that is no text stops the building of a catalog.** A catalog is built from all files,
whatever is in them, unless a generated file declares the document of an operation for whose kind there
stands a value that holds something and is no text. (And paths must not hold a zero character.) In a
catalog that is built, it is counted how many texts were no documents and how many scripts could not be
parsed, though it seemed that they hold documents; all operations that are defined elsewhere are
listed. -/
theorem build_unless_confused (r : Repository) (documentFiles scripts : List String) :
    (Stops ((build r documentFiles scripts).on {}).1 ↔
      (∃ f ∈ documentFiles ++ scripts, '\x00' ∈ (Path.join r.root f).toList) ∨
      ∃ f ∈ scripts, Draft.isGenerated f = true ∧
        ∃ root, r.script? f = some root ∧ ∃ t ∈ Operation.constants root, ∃ name operation kind,
          Operation.Declares t name operation kind ∧ kind.text? = none ∧ kind.holds = true) ∧
    ∀ c session, (build r documentFiles scripts).on {} = (.ok c, session) →
      c.coverage.documentFailures =
        ((r.documentTexts documentFiles scripts).filter fun x => isNoDocument x.2).length ∧
      c.coverage.scriptFailures = (scripts.filter (r.breaks mayEmbed)).length +
        (scripts.filter fun f => Draft.isGenerated f && r.breaks mayExport f).length ∧
      ∀ name, name ∈ c.sources.map (·.name) ↔
        name ∈ (r.definitions documentFiles scripts).map (·.name) := by
  constructor
  · obtain ⟨session, hrun⟩ := build_on_new r documentFiles scripts
    rw [hrun, buildFrom_stops_iff, gatherFrom_stops_iff]
    simp only [Repository.reading_stops_iff, confuses_iff]
  · intro c session h
    have hbuilt := buildFrom_of_build h
    obtain ⟨draft, hdraft, hcoverage, -, -⟩ := exists_draft_of_buildFrom hbuilt
    have hgains := gains_gatherFrom hdraft
    rw [hcoverage, hgains.documentFailures, hgains.scriptFailures, List.filter_map, List.length_map,
      List.length_append]
    exact ⟨Nat.zero_add _, Nat.zero_add _, fun name => mem_names_iff hbuilt⟩

/-- A generated document in which `5` stands for the kind of its operation. -/
def numbered : String :=
  "export const ADocument=\x7bkind:\"Document\",definitions:[\x7bkind:\"OperationDefinition\"," ++
  "operation:5,name:\x7bvalue:\"A\"\x7d\x7d]\x7d"

/-- A repository with one generated file, which holds `numbered`. -/
def numberAsKind : Repository :=
  { disk := Disk.empty.write "/a.generated.ts" numbered.toUTF8, root := "/" }

theorem reading_numberAsKind : numberAsKind.reading "a.generated.ts" = .ok (some numbered) := by
  have hplace : Path.join numberAsKind.root "a.generated.ts" = "/a.generated.ts" := by
    show Path.join "/" "a.generated.ts" = "/a.generated.ts"
    decide
  have hreturn : '\r' ∉ numbered.toList := by
    delta numbered
    rw [String.toList_append]
    simp
  refine Repository.reading_of_file hplace (by decide) rfl ?_ hreturn
  show Disk.entry? (Disk.empty.write "/a.generated.ts" numbered.toUTF8) "/a.generated.ts" = _
  generalize numbered.toUTF8 = content
  rfl

/-- If there is nothing but a generated file, then what stops `readGenerated` stops `build`. -/
theorem build_of_generated {text : String} {fault : Fault} (hread : r.reading file = .ok (some text))
    (hgenerated : Draft.isGenerated file = true)
    (hstops : Draft.readGenerated file (Draft.readScript file {} (some text)) (some text) =
      .error fault) : ((build r [] [file]).on {}).1 = .error fault := by
  obtain ⟨session, hrun⟩ := build_on_new r [] [file]
  rw [hrun, buildFrom]
  simp only [Draft.gatherFrom, List.foldlM_cons, List.foldlM_nil, hread, hgenerated, if_true, ok_bind,
    pure_bind, hstops, error_bind]

/-- The number stops `build`, though any word that is no kind stands for a query. -/
theorem number_as_kind_stops :
    ((build numberAsKind [] ["a.generated.ts"]).on {}).1 = .error .kindNotText ∧
    OperationKind.ofValue (.text "5") = .ok .query := by
  have hstops : (Draft.readGenerated "a.generated.ts" (Draft.readScript "a.generated.ts" {} numbered)
      numbered).map (·.definitions) = .error .kindNotText := by decide +kernel
  exact ⟨build_of_generated reading_numberAsKind (by decide +kernel) (eq_error_of_map hstops),
    by decide +kernel⟩

end Catalog

end PageReach
