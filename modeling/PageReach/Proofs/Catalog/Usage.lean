import PageReach.Proofs.Catalog.Definition

/-!
# Operations and the files that use them

A catalog has one record for each name, with its first definition. The files that use an operation
are added script by script, and within a script in any order and as often as names are found.

* **First definitions** (`get?_firstDefinitions`): a name stands for the first definition with this
  name.
* **Uses** (`foldl_use`, `foldl_addUsage`, `entries_of_uses`): in the end, the files in `usedIn` are
  just the scripts in which the name is found, in the order of the scripts.
* **Records** (`names_of_sources`, `first_of_mem_sources`): what the `sources` of a catalog are.
-/

namespace PageReach

/-! ## Indexed scripts: `files` -/

namespace FileIndex

variable {paths : List String}

theorem nodup_files : (ofPaths paths).files.Nodup :=
  (pairwise_sortedSet _).imp fun hlt => String.ne_of_lt hlt

/-- Relative paths in order are indexed by `ofPaths` as they are. -/
theorem files_of_pairwise (hpaths : paths.filterMap Path.relative? = paths)
    (h : paths.Pairwise (· < ·)) : (ofPaths paths).files = paths := by
  rw [ofPaths, hpaths, sortedSet_of_pairwise h]

end FileIndex

namespace Catalog

/-! ## `firstDefinitions` -/

section First

variable {definitions : List OperationSource} {name : String}

theorem get?_firstDefinitions (definitions : List OperationSource) (name : String) :
    (firstDefinitions definitions).get? name = definitions.find? (·.name = name) := by
  have hfold (t : Table OperationSource) :
      (definitions.foldl (fun t s => t.insertNew s.name s) t).get? name =
        (t.get? name).or (definitions.find? (·.name = name)) := by
    induction definitions generalizing t with
    | nil => simp
    | cons s definitions ih =>
        rw [List.foldl_cons, ih, Table.get?_insertNew, Option.or_assoc, List.find?_cons]
        by_cases hname : s.name = name
        · simp [hname]
        · have hne : ¬ name = s.name := fun h => hname h.symm
          simp [hname, hne]
  rw [firstDefinitions, hfold, Table.get?_empty, Option.none_or]

theorem nodup_keys_firstDefinitions (definitions : List OperationSource) :
    (firstDefinitions definitions).keys.Nodup := by
  have hfold (t : Table OperationSource) (ht : t.keys.Nodup) :
      (definitions.foldl (fun t s => t.insertNew s.name s) t).keys.Nodup := by
    induction definitions generalizing t with
    | nil => exact ht
    | cons s definitions ih => exact ih _ (Table.nodup_keys_insertNew ht s.name s)
  exact hfold .empty List.nodup_nil

theorem find?_of_mem_firstDefinitions {x : String × OperationSource}
    (h : x ∈ (firstDefinitions definitions).entries) :
    definitions.find? (·.name = x.1) = some x.2 := by
  rw [← get?_firstDefinitions]
  exact Table.get?_of_mem_entries (nodup_keys_firstDefinitions definitions) h

theorem name_of_mem_firstDefinitions {x : String × OperationSource}
    (h : x ∈ (firstDefinitions definitions).entries) : x.2.name = x.1 := by
  simpa using List.find?_some (find?_of_mem_firstDefinitions h)

theorem contains_firstDefinitions :
    (firstDefinitions definitions).contains name = true ↔ ∃ s ∈ definitions, s.name = name := by
  simp [Table.contains, get?_firstDefinitions]

end First

/-! ## Adding uses: `addUsage` -/

section Uses

variable {file : String} {t : Table OperationSource}

theorem addUsage_addUsage (file : String) (s : OperationSource) :
    addUsage file (addUsage file s) = addUsage file s := by
  unfold addUsage
  split
  · rfl
  · simp

theorem foldl_use (file : String) (names : List String) (t : Table OperationSource) :
    (names.foldl (use file) t).entries =
      t.entries.map fun x => (x.1, if x.1 ∈ names then addUsage file x.2 else x.2) := by
  induction names generalizing t with
  | nil => simp
  | cons name names ih =>
      rw [List.foldl_cons, ih, use, List.map_map]
      refine List.map_congr_left fun x _ => ?_
      -- a name may be found again, but then its file is there already
      by_cases hname : x.1 = name <;> by_cases hnames : x.1 ∈ names <;>
        simp [hname, hnames, addUsage_addUsage]

theorem soughtNames_congr {t' : Table OperationSource} (h : t'.keys = t.keys)
    (documents : Table String) : soughtNames t' documents = soughtNames t documents := by
  have hcontains : t'.contains = t.contains := by
    funext key
    rw [Bool.eq_iff_iff, Table.contains_iff_mem_keys, Table.contains_iff_mem_keys, h]
  rw [soughtNames, soughtNames, hcontains]

/-- With scripts one after the other, `addUsage` adds a file only once, and never the one that
defines the operation. -/
theorem foldl_addUsage {files : List String} (hfiles : files.Nodup) {s : OperationSource}
    (hnew : ∀ f ∈ files, f ∉ s.usedIn) :
    files.foldl (fun s f => addUsage f s) s =
      { s with usedIn := s.usedIn ++ files.filter fun f => s.definedIn ≠ some f } := by
  induction files generalizing s with
  | nil => simp
  | cons f files ih =>
      obtain ⟨hf, hfiles⟩ := List.nodup_cons.mp hfiles
      have hunused : f ∉ s.usedIn := hnew f List.mem_cons_self
      rw [List.foldl_cons, List.filter_cons]
      by_cases hhome : s.definedIn = some f
      · have hsame : addUsage f s = s := by simp [addUsage, hhome]
        rw [hsame, ih hfiles fun g hg => hnew g (List.mem_cons_of_mem f hg)]
        simp [hhome]
      · have hadded : addUsage f s = { s with usedIn := s.usedIn ++ [f] } := by
          simp [addUsage, hhome, hunused]
        rw [hadded, ih hfiles]
        · simp [hhome]
        · intro g hg hmem
          rcases List.mem_append.mp hmem with hmem | hmem
          · exact hnew g (List.mem_cons_of_mem f hg) hmem
          · exact hf (List.mem_singleton.mp hmem ▸ hg)

/-- The uses that a pass of `readUses` over `scripts` adds. -/
theorem entries_of_uses {r : Repository} {documents : Table String} {scripts : List String}
    {t' : Table OperationSource}
    (h : scripts.foldlM (fun t file => do return readUses documents file t (← r.reading file)) t =
      .ok t') :
    t'.entries = t.entries.map fun x => (x.1, (scripts.filter fun f =>
      (usedNames (soughtNames t documents) documents f (r.content? f)).contains x.1).foldl
        (fun s f => addUsage f s) x.2) := by
  induction scripts generalizing t with
  | nil =>
      cases h
      simp
  | cons file scripts ih =>
      rw [List.foldlM_cons] at h
      obtain ⟨t₁, ht₁, h⟩ := exists_ok_of_bind h
      obtain ⟨text, htext, ht₁⟩ := exists_ok_of_bind ht₁
      cases ht₁
      have hentries := foldl_use file (usedNames (soughtNames t documents) documents file text) t
      have hkeys : (readUses documents file t text).keys = t.keys := by
        rw [Table.keys, readUses, hentries, List.map_map]
        rfl
      rw [ih h, soughtNames_congr hkeys, readUses, hentries, List.map_map]
      refine List.map_congr_left fun x _ => ?_
      rw [List.filter_cons, Repository.content?_of_reading htext]
      by_cases hused : x.1 ∈ usedNames (soughtNames t documents) documents file text <;>
        simp [hused]

end Uses

/-! ## The `sources` of a catalog -/

variable {r : Repository} {documentFiles scripts : List String} {c : Catalog} {s : OperationSource}

theorem of_mem_heldIn {files : List String} {texts : String → List String} {x : String × String}
    (h : x ∈ heldIn files texts) : x.2 ∈ texts x.1 := by
  obtain ⟨f, -, hx⟩ := List.mem_flatMap.mp h
  obtain ⟨text, htext, rfl⟩ := List.mem_map.mp hx
  exact htext

theorem isSome_content?_of_script? {file : String} (h : (r.script? file).isSome = true) :
    (r.content? file).isSome = true := by
  cases hcontent : r.content? file with
  | some text => rfl
  | none => simp [Repository.script?, hcontent] at h

theorem isSome_content?_of_mem_documentTexts {x : String × String}
    (h : x ∈ r.documentTexts documentFiles scripts) : (r.content? x.1).isSome = true := by
  rcases List.mem_append.mp h with h | h
  · have htext := of_mem_heldIn h
    rw [Option.mem_toList] at htext
    exact Option.isSome_of_mem htext
  · have htext := of_mem_heldIn h
    refine isSome_content?_of_script? ?_
    cases hscript : r.script? x.1 with
    | some root => rfl
    | none => simp [hscript] at htext

/-- Every one of the `definitions` is in a file that can be read. -/
theorem home_of_mem_definitions (h : s ∈ r.definitions documentFiles scripts) :
    s.usedIn = [] ∧ ∃ home, s.definedIn = some home ∧ (r.content? home).isSome = true := by
  rcases List.mem_append.mp h with h | h
  · obtain ⟨x, hx, hs⟩ := List.mem_flatMap.mp h
    obtain ⟨op, -, rfl⟩ := List.mem_map.mp hs
    exact ⟨rfl, x.1, rfl, isSome_content?_of_mem_documentTexts hx⟩
  · obtain ⟨f, -, hs⟩ := List.mem_flatMap.mp h
    cases hscript : r.script? f with
    | none => simp [hscript] at hs
    | some root =>
        rw [hscript, Option.elim_some] at hs
        obtain ⟨t, -, hs⟩ := List.mem_filterMap.mp hs
        obtain ⟨g, -, rfl⟩ := Option.map_eq_some_iff.mp hs
        exact ⟨rfl, f, rfl, isSome_content?_of_script? (by rw [hscript]; rfl)⟩

/-- The `usedNames` of a script, given the definitions of operations. -/
def namesFoundIn (r : Repository) (definitions : List OperationSource) (documents : Table String)
    (file : String) : List String :=
  usedNames (soughtNames (firstDefinitions definitions) documents) documents file (r.content? file)

/-- What a catalog is made of: the draft that `gatherFrom` gathers, with the usual names of
documents, and the first definitions with their uses. -/
theorem exists_draft_of_buildFrom (h : buildFrom r.reading documentFiles scripts = .ok c) :
    ∃ draft, Draft.gatherFrom r.reading documentFiles scripts = .ok draft ∧
      c.coverage = draft.coverage ∧
      c.documents = withUsualNames draft.documents
        (firstDefinitions (r.definitions documentFiles scripts)).keys ∧
      c.sources = (firstDefinitions (r.definitions documentFiles scripts)).entries.map fun x =>
        (scripts.filter fun f => (namesFoundIn r (r.definitions documentFiles scripts) c.documents
          f).contains x.1).foldl (fun s f => addUsage f s) x.2 := by
  obtain ⟨draft, hdraft, h⟩ := exists_ok_of_bind h
  rw [(gains_gatherFrom hdraft).definitions, List.nil_append] at h
  dsimp only at h
  refine ⟨draft, hdraft, ?_⟩
  split at h
  · rename_i hempty
    cases h
    refine ⟨rfl, rfl, ?_⟩
    rw [Table.values, List.isEmpty_iff.mp hempty, List.map_nil, List.map_nil]
  · obtain ⟨used, hused, h⟩ := exists_ok_of_bind h
    cases h
    refine ⟨rfl, rfl, ?_⟩
    rw [Table.values, entries_of_uses hused, List.map_map]
    rfl

theorem name_foldl_addUsage (files : List String) (s : OperationSource) :
    (files.foldl (fun s f => addUsage f s) s).name = s.name := by
  induction files generalizing s with
  | nil => rfl
  | cons f files ih =>
      rw [List.foldl_cons, ih, addUsage]
      split <;> rfl

/-- There is one record in `sources` for each name that is defined. -/
theorem names_of_sources (h : buildFrom r.reading documentFiles scripts = .ok c) :
    c.sources.map (·.name) = (firstDefinitions (r.definitions documentFiles scripts)).keys := by
  obtain ⟨-, -, -, -, hsources⟩ := exists_draft_of_buildFrom h
  rw [hsources, Table.keys, List.map_map]
  refine List.map_congr_left fun x hx => ?_
  rw [Function.comp_apply, name_foldl_addUsage, name_of_mem_firstDefinitions hx]

theorem mem_names_iff {name : String} (h : buildFrom r.reading documentFiles scripts = .ok c) :
    name ∈ c.sources.map (·.name) ↔ name ∈ (r.definitions documentFiles scripts).map (·.name) := by
  rw [names_of_sources h, ← Table.contains_iff_mem_keys, contains_firstDefinitions, List.mem_map]

/-- **A record is the first definition of its name, with the scripts in which the name is found**
(`namesFoundIn`), in the order of the scripts and without the one that defines it. -/
theorem first_of_mem_sources (hscripts : scripts.Nodup)
    (h : buildFrom r.reading documentFiles scripts = .ok c) (hs : s ∈ c.sources) :
    (r.definitions documentFiles scripts).find? (·.name = s.name) = some { s with usedIn := [] } ∧
      s.usedIn = scripts.filter fun f => s.definedIn ≠ some f &&
        (namesFoundIn r (r.definitions documentFiles scripts) c.documents f).contains s.name := by
  obtain ⟨-, -, -, -, hsources⟩ := exists_draft_of_buildFrom h
  rw [hsources] at hs
  obtain ⟨x, hx, rfl⟩ := List.mem_map.mp hs
  have hname := name_of_mem_firstDefinitions hx
  have hfind := find?_of_mem_firstDefinitions hx
  have hunused := (home_of_mem_definitions (List.mem_of_find?_eq_some hfind)).1
  rw [foldl_addUsage (hscripts.filter _) (by simp [hunused]), hunused, List.filter_filter]
  dsimp only
  refine ⟨?_, by rw [hname]; rfl⟩
  rw [hname, hfind, ← hunused, ← hname]

end Catalog

end PageReach
