import PageReach.Proofs.Catalog.Failure

/-!
# A document and a script

In a repository of a single document and a single script, the catalog follows from the two texts:
`draftOf` reads the document first and then the script, and `exists_build_ofPair` gives the catalog
that is built from the draft. So small catalogs need no disk to be read from.
-/

namespace PageReach

namespace Repository

/-- A disk with a document at `/d.gql` and a script at `/u.ts`. -/
def pairDisk (document script : ByteArray) : Disk :=
  (Disk.empty.write "/d.gql" document).write "/u.ts" script

/-- The repository that holds a `document` and a `script`. -/
def ofPair (document script : String) : Repository :=
  { disk := pairDisk document.toUTF8 script.toUTF8, root := "/" }

variable {document script : String}

theorem reading_document (h : '\r' ∉ document.toList) :
    (ofPair document script).reading "d.gql" = .ok (some document) := by
  have hplace : Path.join (ofPair document script).root "d.gql" = "/d.gql" := by
    show Path.join "/" "d.gql" = "/d.gql"
    decide
  refine reading_of_file hplace (by decide) rfl ?_ h
  show Disk.entry? (pairDisk document.toUTF8 script.toUTF8) "/d.gql" = _
  generalize document.toUTF8 = first, script.toUTF8 = second
  rfl

theorem reading_script (h : '\r' ∉ script.toList) :
    (ofPair document script).reading "u.ts" = .ok (some script) := by
  have hplace : Path.join (ofPair document script).root "u.ts" = "/u.ts" := by
    show Path.join "/" "u.ts" = "/u.ts"
    decide
  refine reading_of_file hplace (by decide) rfl ?_ h
  show Disk.entry? (pairDisk document.toUTF8 script.toUTF8) "/u.ts" = _
  generalize document.toUTF8 = first, script.toUTF8 = second
  rfl

end Repository

namespace Catalog

/-- The index of the script, without a run of `FileIndex.ofPaths`. -/
theorem files_script : (FileIndex.ofPaths ["u.ts"]).files = ["u.ts"] :=
  FileIndex.files_of_pairwise (by decide +kernel) (List.pairwise_singleton _ _)

theorem mem_files_script : "u.ts" ∈ (FileIndex.ofPaths ["u.ts"]).files := by
  rw [files_script]
  exact List.mem_singleton_self _

/-- What `gatherFrom` gathers from a document and a script. -/
def draftOf (document script : String) : Draft :=
  Draft.readScript "u.ts" (Draft.readDocument "d.gql" {} (some document)) (some script)

variable {document script : String}

theorem gatherFrom_ofPair (hdocument : '\r' ∉ document.toList) (hscript : '\r' ∉ script.toList) :
    Draft.gatherFrom (Repository.ofPair document script).reading ["d.gql"] ["u.ts"] =
      .ok (draftOf document script) := by
  have hgenerated : Draft.isGenerated "u.ts" = false := by rfl
  simp only [Draft.gatherFrom, List.foldlM_cons, List.foldlM_nil, Repository.reading_document hdocument,
    Repository.reading_script hscript, hgenerated, ok_bind, pure_bind]
  rfl

/-- **The catalog of a document and a script is built**, with the names of documents and the
definitions in `draftOf`. -/
theorem exists_build_ofPair (hdocument : '\r' ∉ document.toList) (hscript : '\r' ∉ script.toList) :
    ∃ c session, (build (.ofPair document script) ["d.gql"] (FileIndex.ofPaths ["u.ts"]).files).on {} =
        (.ok c, session) ∧
      buildFrom (Repository.ofPair document script).reading ["d.gql"] ["u.ts"] = .ok c ∧
      c.documents = withUsualNames (draftOf document script).documents
        (firstDefinitions (draftOf document script).definitions).keys ∧
      (Repository.ofPair document script).definitions ["d.gql"] ["u.ts"] =
        (draftOf document script).definitions := by
  rw [files_script]
  exact exists_build (gatherFrom_ofPair hdocument hscript)

end Catalog

end PageReach
