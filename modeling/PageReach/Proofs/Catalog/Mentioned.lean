import Mathlib.Data.List.ProdSigma
import PageReach.Proofs.Catalog.Mention
import PageReach.Proofs.Catalog.Pair
import PageReach.Proofs.Document.Row

/-!
# Files that mention documents

A file that mentions the document of an operation uses the operation. Mentions are looked for as long as
there are fewer than `maxNames` names of documents, and one counts unless another name covers it.

* **Names** (`documentNames`, `soughtNames_eq`): what is looked for, and that it is nothing if there are
  too many names.
* **Use** (`mem_usedIn_iff`, `uncovered_mentions_used`): a file uses an operation if it `Calls` it, or if a
  document of the operation stands in it as a `WholeWord` that is not `Covered`.
* **Crowds** (`crowd_unused`): with `maxNames` names or more, no mention counts.
* **Dollar signs** (`shadowed_unused`): a name that goes on behind a dollar sign takes the place of a
  shorter one. Both are cases of `LosesMention`.
-/

namespace PageReach.Catalog

open Text

/-! ## Names of documents -/

/-- The names of documents that hold operations of the catalog and that end in `Document`. -/
def documentNames (c : Catalog) : List String :=
  (c.documents.entries.filter fun x =>
    (c.sources.map (·.name)).contains x.2 && endsWith x.1 "Document").map (·.1)

variable {r : Repository} {documentFiles scripts : List String} {c : Catalog} {s : OperationSource}
  {key file source : String}

theorem soughtNames_eq (h : buildFrom r.reading documentFiles scripts = .ok c) :
    soughtNames (firstDefinitions (r.definitions documentFiles scripts)) c.documents =
      if c.documentNames.length < maxNames then c.documentNames else [] := by
  have hknown (name : String) :
      (firstDefinitions (r.definitions documentFiles scripts)).contains name =
        (c.sources.map (·.name)).contains name := by
    rw [Bool.eq_iff_iff, List.contains_iff_mem, mem_names_iff h, contains_firstDefinitions, List.mem_map]
  simp only [soughtNames, hknown]
  rfl

theorem endsWith_of_mem_documentNames (h : key ∈ c.documentNames) : endsWith key "Document" = true := by
  obtain ⟨x, hx, rfl⟩ := List.mem_map.mp h
  exact (Bool.and_eq_true _ _ ▸ (List.mem_filter.mp hx).2).2

theorem toList_ne_nil_of_mem_documentNames (h : key ∈ c.documentNames) : key.toList ≠ [] := by
  intro hnil
  have hends := endsWith_of_mem_documentNames h
  rw [endsWith, hnil] at hends
  cases hends

theorem mem_documentNames (hs : s ∈ c.sources) (hkey : c.documents.get? key = some s.name)
    (hends : endsWith key "Document" = true) : key ∈ c.documentNames := by
  refine List.mem_map.mpr ⟨(key, s.name), List.mem_filter.mpr ⟨Table.mem_entries_of_get? hkey, ?_⟩, rfl⟩
  rw [List.contains_iff_mem.mpr (List.mem_map_of_mem hs), hends]
  rfl

/-- In a catalog in which all documents have their usual names, these are the `documentNames`. -/
theorem documentNames_of_usual {names : List String} (hlisted : c.sources.map (·.name) = names)
    (hentries : c.documents.entries = names.map fun n => (n ++ "Document", n)) :
    c.documentNames = names.map (· ++ "Document") := by
  rw [documentNames, hlisted, hentries, List.filter_eq_self.mpr, List.map_map]
  · rfl
  · intro x hx
    obtain ⟨n, hn, rfl⟩ := List.mem_map.mp hx
    simp [hn, endsWith]

/-! ## The files in `usedIn` -/

/-- Whether one of the calls in `source` refers to the operation `name`. -/
def Calls (c : Catalog) (file source name : String) : Prop :=
  name ∈ (Repository.factsOf c.documents file (some source)).map Fact.name

theorem mem_usedNames_iff {sought : List String} {name : String} :
    name ∈ usedNames sought c.documents file (some source) ↔
      Calls c file source name ∨ Operation.hasSign source = true ∧
        ∃ key ∈ mentions sought source, c.documents.get? key = some name := by
  rw [usedNames]
  split
  · rename_i hsign
    rw [List.mem_append, List.mem_filterMap, or_comm]
    simp [Calls, hsign]
  · rename_i hsign
    simp [Calls, hsign, Repository.factsOf_some]

/-- The files in `usedIn`, by what is found in them: a call, or one of the `mentions`. -/
theorem mem_usedIn_iff (hscripts : scripts.Nodup)
    (h : buildFrom r.reading documentFiles scripts = .ok c) (hs : s ∈ c.sources) (hfile : file ∈ scripts)
    (hhome : s.definedIn ≠ some file) (hsource : r.content? file = some source) :
    file ∈ s.usedIn ↔ Calls c file source s.name ∨ c.documentNames.length < maxNames ∧
      Operation.hasSign source = true ∧
        ∃ key ∈ mentions c.documentNames source, c.documents.get? key = some s.name := by
  rw [(first_of_mem_sources hscripts h hs).2, List.mem_filter, namesFoundIn, hsource, soughtNames_eq h]
  simp only [hfile, hhome, Bool.and_eq_true, List.contains_iff_mem, mem_usedNames_iff, true_and, ne_eq,
    not_false_eq_true, decide_true]
  split
  · rename_i hfew
    simp [hfew]
  · rename_i hmany
    simp [hmany, mentions_nil]

theorem hasSign_of_wholeWord {front back : List Char} (hends : endsWith key "Document" = true)
    (hwhole : WholeWord source.toList front key.toList back) : Operation.hasSign source = true := by
  have hkey : "Document".toList <:+ key.toList := List.isSuffixOf_iff_suffix.mp hends
  refine Operation.hasSign_iff.mpr ⟨"Document", by decide, hkey.isInfix.trans ?_⟩
  rw [hwhole.split]
  exact ⟨front, back, by rw [List.append_assoc]⟩

/-- **A file uses an operation if it mentions the document and the mention is not covered.** Let
`file` be indexed and not be the one that defines the operation `s`. If there are fewer than
`maxNames` names of documents, then the file uses the operation as soon as one of its documents is
mentioned as a `WholeWord` and no other name covers this mention; among names that are `IsWordy`
none does. A file with a call that refers to the operation uses it in any case. And nothing else
counts; so with too many names, only calls do. -/
theorem uncovered_mentions_used (r : Repository) (documentFiles paths : List String) (c : Catalog)
    (session : Session)
    (h : (build r documentFiles (FileIndex.ofPaths paths).files).on {} = (.ok c, session))
    (s : OperationSource) (hs : s ∈ c.sources) (file source : String)
    (hfile : file ∈ (FileIndex.ofPaths paths).files) (hhome : s.definedIn ≠ some file)
    (hsource : r.content? file = some source) :
    (c.documentNames.length < maxNames → ∀ key front back, c.documents.get? key = some s.name →
      endsWith key "Document" = true → IsWordy key.toList →
      WholeWord source.toList front key.toList back →
        (¬ Covered (c.documentNames.map String.toList) source.toList front key.toList →
          file ∈ s.usedIn) ∧
        ((∀ other ∈ c.documentNames, IsWordy other.toList) → file ∈ s.usedIn)) ∧
    (Calls c file source s.name → file ∈ s.usedIn) ∧
    (file ∈ s.usedIn → Calls c file source s.name ∨ c.documentNames.length < maxNames ∧
      ∃ key ∈ c.documentNames, c.documents.get? key = some s.name ∧
        ∃ front back, WholeWord source.toList front key.toList back) := by
  have hused := mem_usedIn_iff FileIndex.nodup_files (buildFrom_of_build h) hs hfile hhome hsource
  have hnames (key : String) : key ∈ c.documentNames → key.toList ≠ [] :=
    toList_ne_nil_of_mem_documentNames
  refine ⟨?_, fun hcalls => hused.mpr (.inl hcalls), ?_⟩
  · intro hfew key front back hkey hends hwordy hwhole
    have hmem := mem_documentNames hs hkey hends
    have hfree (hfree : ¬ Covered (c.documentNames.map String.toList) source.toList front key.toList) :
        file ∈ s.usedIn :=
      hused.mpr (.inr ⟨hfew, hasSign_of_wholeWord hends hwhole, key,
        mem_mentions hnames hmem hwhole hfree, hkey⟩)
    refine ⟨hfree, fun hall => hfree fun hcovered => ?_⟩
    obtain ⟨other, hother, hnot⟩ := not_isWordy_of_covered (by simpa using hnames) (hnames key hmem)
      hwordy hwhole hcovered
    obtain ⟨k, hk, rfl⟩ := List.mem_map.mp hother
    exact hnot (hall k hk)
  · intro h
    rcases hused.mp h with hcalls | ⟨hfew, -, key, hmention, hkey⟩
    · exact .inl hcalls
    · obtain ⟨hmem, hwhole⟩ := wholeWord_of_mem_mentions hnames hmention
      exact .inr ⟨hfew, key, hmem, hkey, hwhole⟩

/-- A repository with a script that hands on `ADocument`, in no call that is known. -/
def handedOn : Repository := .ofPair "query A \x7b x \x7d" "log(ADocument);\n"

theorem build_handedOn :
    ∃ c session, (build handedOn ["d.gql"] (FileIndex.ofPaths ["u.ts"]).files).on {} =
        (.ok c, session) ∧
      c.documentNames = ["ADocument"] ∧ c.documents.get? "ADocument" = some "A" ∧
      ∃ s ∈ c.sources, s.name = "A" ∧ s.definedIn = some "d.gql" := by
  have heval : ((draftOf "query A \x7b x \x7d" "log(ADocument);\n").documents.entries,
      (draftOf "query A \x7b x \x7d" "log(ADocument);\n").definitions) =
        ([], [⟨"A", .query, some "d.gql", []⟩]) := by decide +kernel
  obtain ⟨hentries, hdefined⟩ := Prod.mk.inj heval
  have hnamed : (draftOf "query A \x7b x \x7d" "log(ADocument);\n").documents = .empty :=
    Table.eq_of_entries hentries
  obtain ⟨c, session, hbuild, hbuilt, hdocuments, hdefinitions⟩ :=
    exists_build_ofPair (show '\r' ∉ "query A \x7b x \x7d".toList by decide)
      (show '\r' ∉ "log(ADocument);\n".toList by decide)
  rw [hnamed, hdefined] at hdocuments
  rw [hdefined] at hdefinitions
  have hlisted : c.sources.map (·.name) = ["A"] := by
    rw [names_of_sources hbuilt, hdefinitions]
    rfl
  obtain ⟨s, hs, hname⟩ := List.mem_map.mp (hlisted ▸ List.mem_singleton_self "A")
  have hfirst := (first_of_mem_sources (List.nodup_singleton _) hbuilt hs).1
  rw [hdefinitions, hname] at hfirst
  have hhome : some (some "d.gql") = some s.definedIn :=
    congrArg (Option.map OperationSource.definedIn) hfirst
  refine ⟨c, session, hbuild, ?_, ?_, s, hs, hname, (Option.some.inj hhome).symm⟩
  · rw [documentNames_of_usual hlisted (by rw [hdocuments]; rfl)]
    rfl
  · rw [hdocuments]
    rfl

theorem uncovered_mentions_used_of_handedOn :
    ∃ c session, (build handedOn ["d.gql"] (FileIndex.ofPaths ["u.ts"]).files).on {} =
        (.ok c, session) ∧
      "u.ts" ∈ (FileIndex.ofPaths ["u.ts"]).files ∧
      handedOn.content? "u.ts" = some "log(ADocument);\n" ∧ c.documentNames.length < maxNames ∧
      WholeWord "log(ADocument);\n".toList "log(".toList "ADocument".toList ");\n".toList ∧
      ∃ s ∈ c.sources, s.definedIn ≠ some "u.ts" ∧ c.documents.get? "ADocument" = some s.name ∧
        "u.ts" ∈ s.usedIn := by
  obtain ⟨c, session, hbuild, hkeys, hkey, s, hs, hname, hdefined⟩ := build_handedOn
  rw [← hname] at hkey
  have hhome : s.definedIn ≠ some "u.ts" := by
    rw [hdefined]
    decide
  have hfew : c.documentNames.length < maxNames := by
    rw [hkeys]
    decide
  have hcontent : handedOn.content? "u.ts" = some "log(ADocument);\n" :=
    Repository.content?_of_reading (Repository.reading_script (by decide))
  have hwhole : WholeWord "log(ADocument);\n".toList "log(".toList "ADocument".toList
      ");\n".toList := by
    constructor <;> decide
  have hmentions := (uncovered_mentions_used handedOn ["d.gql"] ["u.ts"] c session hbuild s hs "u.ts"
    "log(ADocument);\n" mem_files_script hhome hcontent).1 hfew "ADocument" "log(".toList ");\n".toList
    hkey (by decide) (by decide) hwhole
  refine ⟨c, session, hbuild, mem_files_script, hcontent, hfew, hwhole, s, hs, hhome, hkey,
    hmentions.2 ?_⟩
  rw [hkeys]
  decide

/-! ## Crowds: `maxNames` names or more -/

/-- A repository with a document that holds operations of all `names`, and a script that mentions
the document of one of them. -/
def crowded (names : List String) : Repository := .ofPair (Document.row names) "aaDocument;\n"

variable {names : List String}

/-- The definition of the query `name` in the document. -/
def queryOf (name : String) : OperationSource := ⟨name, .query, some "d.gql", []⟩

theorem draftOf_crowded (hne : names ≠ []) (hnames : ∀ n ∈ names, Document.IsName n) :
    (draftOf (Document.row names) "aaDocument;\n").documents = .empty ∧
      (draftOf (Document.row names) "aaDocument;\n").definitions = names.map queryOf := by
  have hoperations := Document.operations?_row hne hnames
  have htags : Operation.tags.any (Text.contains "aaDocument;\n") = false := by decide
  have hdocument : Draft.readDocument "d.gql" {} (some (Document.row names)) =
      { definitions := names.map queryOf } := by
    have hrow : Document.row names ≠ "" := by
      intro hempty
      rw [hempty, show Document.operations? "" = none from rfl] at hoperations
      cases hoperations
    simp only [Draft.readDocument, Draft.addText, hoperations, Draft.define, List.nil_append,
      List.map_map]
    rfl
  rw [draftOf, hdocument]
  simp only [Draft.readScript, htags]
  exact ⟨rfl, rfl⟩

theorem entries_crowded (hnodup : names.Nodup) :
    (firstDefinitions (names.map queryOf)).entries = names.map fun n => (n, queryOf n) := by
  have hpairs : firstDefinitions (names.map queryOf) =
      (names.map fun n => (n, queryOf n)).foldl (fun t p => t.insertNew p.1 p.2) .empty := by
    rw [firstDefinitions, List.foldl_map, List.foldl_map]
    rfl
  rw [hpairs, Table.foldl_insertNew]
  · rfl
  · simpa [Table.keys, Table.empty, Function.comp_def] using hnodup

theorem keys_crowded (hnodup : names.Nodup) : (firstDefinitions (names.map queryOf)).keys = names := by
  rw [Table.keys, entries_crowded hnodup, List.map_map, Function.comp_def, List.map_id']

theorem nodup_usualNames (hnodup : names.Nodup) : (names.map (· ++ "Document")).Nodup :=
  hnodup.map fun _ _ h => (String.append_left_inj _).mp h

theorem entries_withUsualNames (hnodup : names.Nodup) :
    (withUsualNames .empty names).entries = names.map fun n => (n ++ "Document", n) := by
  have hpairs : withUsualNames .empty names =
      (names.map fun n => (n ++ "Document", n)).foldl (fun t p => t.insertNew p.1 p.2) .empty := by
    rw [withUsualNames, List.foldl_map]
  rw [hpairs, Table.foldl_insertNew]
  · rfl
  · simpa [Table.keys, Table.empty, Function.comp_def] using nodup_usualNames hnodup

/-- The script calls nothing. -/
theorem factsOf_script (documents : Table String) :
    Repository.factsOf documents "u.ts" (some "aaDocument;\n") = [] := by
  have heval : (Script.parseFile? "u.ts" "aaDocument;\n").map (fun root =>
      (Operation.calls root).length) = some 0 := by
    decide +kernel
  obtain ⟨root, hroot, hcalls⟩ := Option.map_eq_some_iff.mp heval
  have hnone : Operation.factsOfTree root "u.ts" documents = [] := by
    rw [Operation.factsOfTree_eq_nil_iff, List.length_eq_zero_iff.mp hcalls]
    simp
  rw [Repository.factsOf_some, Repository.treeOf, hroot]
  split
  · exact hnone
  · rfl

/-- **In a crowd, no mention counts.** All operations are listed, and their documents have names,
but the script is not among the files in `usedIn` of the one that it mentions. -/
theorem crowd_unused (hnames : ∀ n ∈ names, Document.IsName n) (hnodup : names.Nodup)
    (hmany : maxNames ≤ names.length) :
    ∃ c session, (build (crowded names) ["d.gql"] (FileIndex.ofPaths ["u.ts"]).files).on {} =
        (.ok c, session) ∧
      (∀ n ∈ names, c.documents.get? (n ++ "Document") = some n) ∧
      c.sources = names.map queryOf := by
  have hne : names ≠ [] := by
    rintro rfl
    cases hmany
  have hscript : '\r' ∉ "aaDocument;\n".toList := by decide
  obtain ⟨hempty, hdefined⟩ := draftOf_crowded hne hnames
  obtain ⟨c, session, hrun, hbuilt, hdocuments, hdefinitions⟩ :=
    exists_build_ofPair (Document.return_not_mem_row hnames) hscript
  rw [hempty, hdefined, keys_crowded hnodup] at hdocuments
  rw [hdefined] at hdefinitions
  have hentries : c.documents.entries = names.map fun n => (n ++ "Document", n) := by
    rw [hdocuments, entries_withUsualNames hnodup]
  have hlisted : c.sources.map (·.name) = names := by
    rw [names_of_sources hbuilt, hdefinitions, keys_crowded hnodup]
  have hcrowd : c.documentNames.length = names.length := by
    rw [documentNames_of_usual hlisted hentries, List.length_map]
  refine ⟨c, session, hrun, ?_, ?_⟩
  · intro n hn
    refine Table.get?_of_mem_entries ?_ (hentries ▸ List.mem_map_of_mem hn)
    rw [Table.keys, hentries, List.map_map]
    exact nodup_usualNames hnodup
  · -- nothing is looked for, and nothing is called
    have hfound : namesFoundIn (.ofPair (Document.row names) "aaDocument;\n") (names.map queryOf)
        c.documents "u.ts" = [] := by
      rw [namesFoundIn, ← hdefinitions, soughtNames_eq hbuilt, if_neg (by omega),
        Repository.content?_of_reading (Repository.reading_script hscript)]
      refine List.eq_nil_iff_forall_not_mem.mpr fun name hname => ?_
      rcases mem_usedNames_iff.mp hname with hcalls | ⟨-, key, hkey, -⟩
      · rw [Calls, factsOf_script] at hcalls
        cases hcalls
      · rw [mentions_nil] at hkey
        cases hkey
    obtain ⟨-, -, -, -, hsources⟩ := exists_draft_of_buildFrom hbuilt
    rw [hsources, hdefinitions, entries_crowded hnodup, List.map_map]
    refine List.map_congr_left fun n _ => ?_
    simp [hfound]

/-- The letters from `a` to `z` and from `A` to `Z`. -/
def letters : List Char :=
  ['a', 'b', 'c', 'd', 'e', 'f', 'g', 'h', 'i', 'j', 'k', 'l', 'm', 'n', 'o', 'p', 'q', 'r', 's', 't',
    'u', 'v', 'w', 'x', 'y', 'z', 'A', 'B', 'C', 'D', 'E', 'F', 'G', 'H', 'I', 'J', 'K', 'L', 'M', 'N',
    'O', 'P', 'Q', 'R', 'S', 'T', 'U', 'V', 'W', 'X', 'Y', 'Z']

/-- The words of two letters. -/
def twoLetters : List String := (letters ×ˢ letters).map fun p => String.ofList [p.1, p.2]

theorem isName_of_mem_twoLetters {name : String} (h : name ∈ twoLetters) : Document.IsName name := by
  have hletters : ∀ c ∈ letters, (Document.beginsName c && Document.inName c) = true :=
    List.all_eq_true.mp (by decide)
  simp only [Bool.and_eq_true] at hletters
  obtain ⟨⟨a, b⟩, hp, rfl⟩ := List.mem_map.mp h
  obtain ⟨ha, hb⟩ := List.mem_product.mp hp
  refine ⟨⟨a, [b], String.toList_ofList, (hletters a ha).1⟩, ?_⟩
  simp [(hletters a ha).2, (hletters b hb).2]

theorem nodup_twoLetters : twoLetters.Nodup := by
  have hletters : letters.Nodup := by decide
  refine (hletters.product hletters).map fun p q h => ?_
  simpa [Prod.ext_iff] using h

theorem maxNames_le_twoLetters : maxNames ≤ twoLetters.length := by
  rw [twoLetters, List.length_map, List.length_product]
  decide

/-! ## Names behind a dollar sign -/

/-- Names that are in order stay as they are in `longestFirst`. -/
theorem longestFirst_of_pairwise {sought : List String}
    (h : sought.Pairwise fun a b => (b.length < a.length || (a.length = b.length && a ≤ b)) = true) :
    longestFirst sought = sought :=
  List.mergeSort_of_pairwise h

/-- A script that gives its document the name `A$BDocument`, which ends in the name of another
one. -/
def shadowing : String := "const A$BDocument = gql`query X \x7ba\x7d`;\n"

/-- A repository with a document of the query `B` and the script `shadowing`. -/
def shadowed : Repository := .ofPair "query B \x7ba\x7d" shadowing

theorem mentions_shadowing :
    mentions ["A$BDocument", "BDocument", "XDocument"] shadowing = ["A$BDocument"] := by
  rw [mentions, longestFirst_of_pairwise (by decide)]
  decide +kernel

/-- The longer name is found, and it is the name of a document that the script itself defines. So
nothing uses `B`. -/
theorem shadowed_unused :
    ∃ c session, (build shadowed ["d.gql"] (FileIndex.ofPaths ["u.ts"]).files).on {} =
        (.ok c, session) ∧
      c.documents.get? "BDocument" = some "B" ∧
      c.sources = [queryOf "B", ⟨"X", .query, some "u.ts", []⟩] := by
  have heval : ((draftOf "query B \x7ba\x7d" shadowing).documents.entries,
      (draftOf "query B \x7ba\x7d" shadowing).definitions) =
        ([("A$BDocument", "X")], [queryOf "B", ⟨"X", .query, some "u.ts", []⟩]) := by decide +kernel
  obtain ⟨hentries, hdefined⟩ := Prod.mk.inj heval
  have hnamed : (draftOf "query B \x7ba\x7d" shadowing).documents = ⟨[("A$BDocument", "X")]⟩ :=
    Table.eq_of_entries hentries
  have hscript : '\r' ∉ shadowing.toList := by decide
  obtain ⟨c, session, hrun, hbuilt, hdocuments, hdefinitions⟩ :=
    exists_build_ofPair (show '\r' ∉ "query B \x7ba\x7d".toList by decide) hscript
  rw [hnamed, hdefined] at hdocuments
  rw [hdefined] at hdefinitions
  have hc : c.documents = ⟨[("A$BDocument", "X"), ("BDocument", "B"), ("XDocument", "X")]⟩ := hdocuments
  refine ⟨c, session, hrun, by rw [hc]; rfl, ?_⟩
  have hfound : namesFoundIn shadowed [queryOf "B", ⟨"X", .query, some "u.ts", []⟩] c.documents "u.ts" =
      ["X"] := by
    rw [namesFoundIn, hc, shadowed, Repository.content?_of_reading (Repository.reading_script hscript)]
    show usedNames ["A$BDocument", "BDocument", "XDocument"] _ _ _ = _
    rw [usedNames, mentions_shadowing]
    decide +kernel
  obtain ⟨-, -, -, -, hsources⟩ := exists_draft_of_buildFrom hbuilt
  rw [shadowed] at hfound
  rw [hsources, hdefinitions]
  simp only [List.filter_cons, List.filter_nil, hfound]
  decide +kernel

/-! ## `LosesMention` -/

/-- In the catalog that is built, `file` does not use an operation that another file defines,
although the document `key` of the operation stands in the file as a `WholeWord`. -/
def LosesMention (r : Repository) (documentFiles paths : List String) (file key : String) : Prop :=
  ∃ c session, (build r documentFiles (FileIndex.ofPaths paths).files).on {} = (.ok c, session) ∧
    file ∈ (FileIndex.ofPaths paths).files ∧
    ∃ s ∈ c.sources, c.documents.get? key = some s.name ∧ s.definedIn ≠ some file ∧
      file ∉ s.usedIn ∧ endsWith key "Document" = true ∧ IsWordy key.toList ∧
      ∃ source front back, r.content? file = some source ∧
        WholeWord source.toList front key.toList back

/-- **Mentions are lost in crowds and behind dollar signs**: `aaDocument` in `crowded`, and
`BDocument` in `shadowed`. -/
theorem mentions_lost :
    LosesMention (crowded twoLetters) ["d.gql"] ["u.ts"] "u.ts" "aaDocument" ∧
      LosesMention shadowed ["d.gql"] ["u.ts"] "u.ts" "BDocument" := by
  constructor
  · have haa : "aa" ∈ twoLetters :=
      List.mem_map.mpr ⟨('a', 'a'), List.mem_product.mpr ⟨by decide, by decide⟩, rfl⟩
    obtain ⟨c, session, hrun, hdocuments, hsources⟩ :=
      crowd_unused (fun _ => isName_of_mem_twoLetters) nodup_twoLetters maxNames_le_twoLetters
    refine ⟨c, session, hrun, mem_files_script, queryOf "aa", ?_, hdocuments "aa" haa, by decide,
      by decide, by decide, by decide, "aaDocument;\n", [], ";\n".toList, ?_, ?_⟩
    · rw [hsources]
      exact List.mem_map_of_mem haa
    · exact Repository.content?_of_reading (Repository.reading_script (by decide))
    · constructor <;> decide
  · obtain ⟨c, session, hrun, hdocument, hsources⟩ := shadowed_unused
    refine ⟨c, session, hrun, mem_files_script, queryOf "B", ?_, hdocument, by decide, by decide,
      by decide, by decide, shadowing, "const A$".toList, " = gql`query X \x7ba\x7d`;\n".toList, ?_, ?_⟩
    · rw [hsources]
      exact List.mem_cons_self
    · exact Repository.content?_of_reading (Repository.reading_script (by decide))
    · constructor <;> decide

end PageReach.Catalog
