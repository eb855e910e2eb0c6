import PageReach.Proofs.Catalog.Usage
import PageReach.Proofs.Engine.Walk
import PageReach.Proofs.Files.Place

/-!
# The records of a catalog

Each operation has one record, which says how the operation is first defined. The files that use it
are sorted, and none of them is the file that defines it (`first_definitions_listed`). So the facts
of a record speak of each file once (`facts_eq`). The file that defines an operation has a name,
because it can be read and the root itself is no file (`Repository.content?_root`).
-/

namespace PageReach

/-- A file without a name is the root itself, and that is no file: its `content?` is nothing. -/
theorem Repository.content?_root {r : Repository} (h : r.disk.isFile r.root = false) :
    r.content? "" = none := by
  by_cases hzero : '\x00' ∈ (Path.join r.root "").toList
  · rw [content?, reading_of_unusable hzero]
    rfl
  · rw [content?, reading, if_neg hzero, textAt?, Disk.entry?_join_empty]
    cases hentry : Disk.entry? r.disk r.root with
    | none => rfl
    | some entry =>
        cases entry with
        | file bytes => simp [Disk.isFile, hentry] at h
        | directory => rfl

namespace OperationSource

theorem foldl_new {known files : List String} (h : (known ++ files).Nodup) :
    files.foldl (fun known f => if known.contains f then known else known ++ [f]) known =
      known ++ files := by
  induction files generalizing known with
  | nil => simp
  | cons f files ih =>
      have hf : f ∉ known := fun hmem =>
        (List.nodup_append.mp h).2.2 f hmem f List.mem_cons_self rfl
      rw [List.append_cons] at h
      rw [List.foldl_cons, if_neg (mt List.contains_iff_mem.mp hf), ih h, ← List.append_cons]

/-- The `facts` of a record are about the file that defines the operation, and then about the files
in `usedIn`, if these are all different. -/
theorem facts_eq {s : OperationSource} {home : String} (hhome : s.definedIn = some home)
    (hne : home ≠ "") (hnodup : (home :: s.usedIn).Nodup) :
    s.facts = (home :: s.usedIn).map fun f => ⟨s.name, s.kind, f⟩ := by
  have hfiles : s.files = home :: s.usedIn := by
    simp only [files, hhome]
    exact foldl_new (show ([home] ++ s.usedIn).Nodup from hnodup)
  rw [facts, hfiles]

end OperationSource

namespace Catalog

/-- **Each operation is listed once, as it is first defined, with the files that use it in order.** An
operation is listed exactly if it is defined somewhere: in a document, in a text that is embedded in a
script, or in a generated file, looked through in this order. The files that use an operation are indexed
and sorted, and do not define it. So there is one fact for each file of an operation, and the first one is
about its definition. -/
theorem first_definitions_listed (r : Repository) (documentFiles paths : List String) (c : Catalog)
    (session : Session) (hroot : r.disk.isFile r.root = false)
    (h : (build r documentFiles (FileIndex.ofPaths paths).files).on {} = (.ok c, session)) :
    (c.sources.map (·.name)).Nodup ∧
    (∀ name, name ∈ c.sources.map (·.name) ↔
      name ∈ (r.definitions documentFiles (FileIndex.ofPaths paths).files).map (·.name)) ∧
    ∀ s ∈ c.sources,
      (r.definitions documentFiles (FileIndex.ofPaths paths).files).find? (·.name = s.name) =
        some { s with usedIn := [] } ∧
      s.usedIn.Pairwise (· < ·) ∧ s.usedIn ⊆ (FileIndex.ofPaths paths).files ∧
      ∃ home, s.definedIn = some home ∧ home ∉ s.usedIn ∧
        s.facts = (home :: s.usedIn).map fun f => ⟨s.name, s.kind, f⟩ := by
  have hsorted : (FileIndex.ofPaths paths).files.Pairwise (· < ·) := pairwise_sortedSet _
  generalize (FileIndex.ofPaths paths).files = scripts at h hsorted ⊢
  have hscripts : scripts.Nodup := hsorted.imp fun hlt => String.ne_of_lt hlt
  have hbuilt := buildFrom_of_build h
  refine ⟨?_, fun name => mem_names_iff hbuilt, ?_⟩
  · rw [names_of_sources hbuilt]
    exact nodup_keys_firstDefinitions _
  · intro s hs
    obtain ⟨hfirst, husedIn⟩ := first_of_mem_sources hscripts hbuilt hs
    obtain ⟨-, home, hhome, hreadable⟩ := home_of_mem_definitions (List.mem_of_find?_eq_some hfirst)
    have hused : s.usedIn.Pairwise (· < ·) := husedIn ▸ hsorted.filter _
    have hnot : home ∉ s.usedIn := by
      rw [husedIn]
      simp [show s.definedIn = some home from hhome]
    have hne : home ≠ "" := by
      rintro rfl
      rw [Repository.content?_root hroot] at hreadable
      cases hreadable
    have hnodup : (home :: s.usedIn).Nodup :=
      List.nodup_cons.mpr ⟨hnot, hused.imp fun hlt => String.ne_of_lt hlt⟩
    refine ⟨hfirst, hused, ?_, home, hhome, hnot, OperationSource.facts_eq hhome hne hnodup⟩
    rw [husedIn]
    exact List.filter_subset_self _

/-- A repository with the operation `A`, which is defined in a document, and once more in a script
under the name of its document. -/
def definedTwice : Repository :=
  (Engine.ofTexts [("a.graphql", "query A \x7b x \x7d"),
    ("b.ts", "const ADocument = gql`mutation A \x7b x \x7d`;\n"),
    ("c.ts", "useQuery(ADocument);\n")]).repository

/-- The document of `definedTwice` counts. Both scripts mention its name. -/
theorem first_definitions_listed_of_twice :
    definedTwice.disk.isFile definedTwice.root = false ∧
    ∃ c session, (build definedTwice ["a.graphql"] (FileIndex.ofPaths ["b.ts", "c.ts"]).files).on {} =
        (.ok c, session) ∧
      c.sources = [⟨"A", .query, some "a.graphql", ["b.ts", "c.ts"]⟩] ∧
      (c.sources.map (·.name)).Nodup ∧
      ∀ s ∈ c.sources, ∃ home, s.definedIn = some home ∧
        s.facts = (home :: s.usedIn).map fun f => ⟨s.name, s.kind, f⟩ := by
  have hroot : definedTwice.disk.isFile definedTwice.root = false := by decide +kernel
  have hindex : (FileIndex.ofPaths ["b.ts", "c.ts"]).files = ["b.ts", "c.ts"] :=
    FileIndex.files_of_pairwise (by decide +kernel) (by decide)
  have heval : ((build definedTwice ["a.graphql"] ["b.ts", "c.ts"]).on {}).1.toOption.map (·.sources) =
      some [⟨"A", .query, some "a.graphql", ["b.ts", "c.ts"]⟩] := by decide +kernel
  rw [← hindex] at heval
  obtain ⟨c, session, hbuild, hsources⟩ := ExceptT.exists_on heval
  obtain ⟨hnames, -, hrecords⟩ :=
    first_definitions_listed definedTwice ["a.graphql"] ["b.ts", "c.ts"] c session hroot hbuild
  refine ⟨hroot, c, session, hbuild, ?_, hnames, ?_⟩
  · rw [hsources, hindex]
  · intro s hs
    obtain ⟨-, -, -, home, hhome, -, hfacts⟩ := hrecords s hs
    exact ⟨home, hhome, hfacts⟩

end Catalog

end PageReach
