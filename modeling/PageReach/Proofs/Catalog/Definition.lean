import PageReach.Proofs.Catalog.Reading
import PageReach.Proofs.Operation.Generated

/-!
# Definitions in order

Definitions come from document files first, then from the documents embedded in scripts, and then
from generated files: script by script, and within a script in document order.

* **Embedded documents** (`embeddedIn_eq_templates`, `templates_of_no_tag`): the search with the
  names of declarations finds the `templates` of a tree. Sources are searched for a few words before
  they are parsed, which changes nothing, because what is looked for is spelled with them.
* **Gains** (`Gains.foldlM`, `Gains.readDocument`, `Gains.readScript`, `Gains.readGenerated`): what
  a draft gains from one text, from one file, and step by step from many.
* **All definitions** (`gains_gatherFrom`): `gatherFrom` gains the `definitions` of the repository.
-/

namespace PageReach

open Script Text

namespace Repository

/-- The text of `file`, if `reading` finds one. -/
def content? (r : Repository) (file : String) : Option String := (r.reading file).toOption.join

/-- The tree of `file`, if its `content?` can be parsed. -/
def script? (r : Repository) (file : String) : Option SyntaxTree :=
  (r.content? file).bind (parseFile? file)

theorem content?_of_reading {r : Repository} {file : String} {t : Option String}
    (h : r.reading file = .ok t) : r.content? file = t := by
  rw [content?, h]
  rfl

end Repository

namespace Catalog

/-! ## Embedded documents: `templates` -/

/-- The literal with the document, if `t` is a call of one of the `Operation.tags`. -/
def template? (t : SyntaxTree) : Option SyntaxTree :=
  if t.kind = .callExpression then Operation.embedded? t else none

/-- The documents embedded in `root`, in document order. What is part of an embedded document embeds
none itself, so nothing below a `template?` is looked at. -/
def templates (root : SyntaxTree) : List SyntaxTree :=
  (root.preorder fun t => (template? t).isNone).filterMap template?

theorem template?_leaf (k : Kind) (r : Option Role) (p : Position) (s : String) :
    template? (.leaf k r p s) = none := by
  unfold template?
  split
  · rename_i hkind
    cases hkind
    rfl
  · rfl

theorem embeddedInAll_eq_flatMap (outer : Option String) (ts : List SyntaxTree) :
    Draft.embeddedInAll outer ts = ts.flatMap (Draft.embeddedIn outer) := by
  induction ts with
  | nil => rfl
  | cons t ts ih => rw [Draft.embeddedInAll, ih, List.flatMap_cons]

theorem embeddedIn_node (outer : Option String) (k : Kind) (r : Option Role) (p : Position)
    (ts : List SyntaxTree) : Draft.embeddedIn outer (.node k r p ts) =
      match template? (.node k r p ts) with
      | some literal => [(literal, outer)]
      | none => Draft.embeddedInAll (Draft.declared? (.node k r p ts) outer) ts := by
  rw [Draft.embeddedIn]
  rfl

theorem embeddedIn_eq_templates (outer : Option String) (root : SyntaxTree) :
    (Draft.embeddedIn outer root).map (·.1) = templates root := by
  induction root generalizing outer with
  | leaf k r p s =>
      simp [Draft.embeddedIn, templates, SyntaxTree.preorder, template?_leaf]
  | node k r p ts ih =>
      rw [embeddedIn_node, templates, SyntaxTree.preorder]
      cases htemplate : template? (.node k r p ts) with
      | some literal => simp [htemplate]
      | none =>
          simp only [htemplate, Option.isNone_none, if_true, List.filterMap_cons,
            embeddedInAll_eq_flatMap, SyntaxTree.preorderOf_eq_flatMap, List.map_flatMap,
            List.filterMap_flatMap]
          exact List.flatMap_congr fun t ht => ih t ht _

theorem exists_tag_of_template? {t literal : SyntaxTree} (h : template? t = some literal) :
    ∃ tag ∈ Operation.tags, tag.toList <:+: t.chars := by
  unfold template? Operation.embedded? at h
  split at h
  · dsimp only at h
    split at h
    · cases h
    · split at h
      · cases h
      · rename_i callee hcallee
        split at h
        · cases h
        · rename_i htag
          simp only [Bool.or_eq_true, not_or, Bool.not_eq_true', Bool.not_eq_false,
            List.contains_iff_mem] at htag
          refine ⟨callee.text, htag.2, ?_⟩
          rw [SyntaxTree.toList_text]
          exact (SyntaxTree.infix_of_child? hcallee).trans (SyntaxTree.infix_of_unwrap t)
  · cases h

/-- A `source` in which none of the `Operation.tags` stands embeds no document. -/
theorem templates_of_no_tag {file source : String} {root : SyntaxTree}
    (hroot : parseFile? file source = some root)
    (htags : Operation.tags.any (Text.contains source) = false) : templates root = [] := by
  refine List.filterMap_eq_nil_iff.mpr fun t ht => ?_
  cases htemplate : template? t with
  | none => rfl
  | some literal =>
      obtain ⟨tag, htag, hwithin⟩ := exists_tag_of_template? htemplate
      have hroot' := chars_of_parse? hroot
      have hcontains : Text.contains source tag = true := by
        rw [contains_iff, ← hroot']
        exact hwithin.trans (SyntaxTree.infix_of_mem_preorder ht)
      rw [List.any_eq_true.mpr ⟨tag, htag, hcontains⟩] at htags
      cases htags

/-! ## What a file defines: `Gains` -/

/-- The operations that `text` defines, for the `file` that holds it. -/
def definedBy (file text : String) : List OperationSource :=
  ((Document.operations? text).getD []).map fun op => ⟨op.name, op.kind, some file, []⟩

/-- Whether `text` is not empty, but no document. -/
def isNoDocument (text : String) : Bool := text ≠ "" && (Document.operations? text).isNone

/-- Whether `source` may embed documents: one of the `Operation.tags` stands in it. -/
def mayEmbed (source : String) : Bool := Operation.tags.any (Text.contains source)

/-- Whether a source may export documents. -/
def mayExport (source : String) : Bool :=
  Text.contains source "Document" && Text.contains source "definitions"

/-- Whether a `source` that seems to be `worth` it cannot be parsed. -/
def isBroken (worth : String → Bool) (file source : String) : Bool :=
  worth source && (parseFile? file source).isNone

/-- The texts of the `templates` in a script. -/
def embeddedTexts (root : SyntaxTree) : List String := (templates root).map Draft.embeddedText

/-- The operations of the `generatedDocuments` of a script, in the order of their declarations. -/
def exportedBy (file : String) (root : SyntaxTree) : List OperationSource :=
  (Operation.constants root).filterMap fun t =>
    (Operation.generatedDocument? t).toOption.join.map fun g => ⟨g.operation, g.kind, some file, []⟩

/-- From `d` to `d'` a draft gains `definitions`. Those of the `texts` that are no documents are
counted, and so are `scripts` without a tree. -/
structure Gains (d d' : Draft) (definitions : List OperationSource) (texts scripts : List String) :
    Prop where
  definitions : d'.definitions = d.definitions ++ definitions
  documentFailures :
    d'.coverage.documentFailures = d.coverage.documentFailures + texts.length
  scriptFailures : d'.coverage.scriptFailures = d.coverage.scriptFailures + scripts.length

namespace Gains

variable {d d₁ d₂ : Draft} {l l₁ l₂ : List OperationSource} {ts ts₁ ts₂ ss ss₁ ss₂ : List String}
  {file : String}

theorem refl (d : Draft) : Gains d d [] [] [] where
  definitions := (List.append_nil _).symm
  documentFailures := rfl
  scriptFailures := rfl

theorem trans (h₁ : Gains d d₁ l₁ ts₁ ss₁) (h₂ : Gains d₁ d₂ l₂ ts₂ ss₂) :
    Gains d d₂ (l₁ ++ l₂) (ts₁ ++ ts₂) (ss₁ ++ ss₂) where
  definitions := by rw [h₂.definitions, h₁.definitions, List.append_assoc]
  documentFailures := by
    rw [h₂.documentFailures, h₁.documentFailures, List.length_append, Nat.add_assoc]
  scriptFailures := by rw [h₂.scriptFailures, h₁.scriptFailures, List.length_append, Nat.add_assoc]

/-- **Step by step, a draft gains what the steps gain.** By induction over `xs`, with
`Gains.trans`. -/
theorem foldlM {α : Type} {f : Draft → α → Except Fault Draft} {g : α → List OperationSource}
    {texts scripts : α → List String} {xs : List α}
    (step : ∀ d x d', f d x = .ok d' → Gains d d' (g x) (texts x) (scripts x))
    (h : xs.foldlM f d = .ok d₁) :
    Gains d d₁ (xs.flatMap g) (xs.flatMap texts) (xs.flatMap scripts) := by
  induction xs generalizing d with
  | nil =>
      cases h
      exact refl _
  | cons x xs ih =>
      rw [List.foldlM_cons] at h
      obtain ⟨d', hd', h⟩ := exists_ok_of_bind h
      exact (step d x d' hd').trans (ih h)

theorem foldl {α : Type} {f : Draft → α → Draft} {g : α → List OperationSource}
    {texts : α → List String} (step : ∀ d x, Gains d (f d x) (g x) (texts x) [])
    (xs : List α) (d : Draft) :
    Gains d (xs.foldl f d) (xs.flatMap g) (xs.flatMap texts) [] := by
  induction xs generalizing d with
  | nil => exact refl d
  | cons x xs ih => exact (step d x).trans (ih _)

/-! ### One text: `addText` -/

theorem addText (d : Draft) (file text : String) (holder? : Option String) (h : text ≠ "") :
    Gains d (d.addText file text holder?) (definedBy file text) ([text].filter isNoDocument) [] := by
  unfold Draft.addText definedBy
  cases hparsed : Document.operations? text with
  | none =>
      have hfails : isNoDocument text = true := by simp [isNoDocument, h, hparsed]
      constructor <;> simp [Draft.count, hfails]
  | some operations =>
      have hfails : isNoDocument text = false := by simp [isNoDocument, hparsed]
      constructor <;> simp [Draft.define, hfails]

/-- An empty text is not looked at by `readDocument`, and defines nothing. -/
theorem readDocument (d : Draft) (file : String) (text : Option String) :
    Gains d (Draft.readDocument file d text) (text.toList.flatMap (definedBy file))
      (text.toList.filter isNoDocument) [] := by
  rcases text with _ | text
  · exact refl d
  · by_cases hempty : text = ""
    · subst hempty
      exact refl d
    · simp only [Draft.readDocument, Option.toList_some, List.flatMap_cons, List.flatMap_nil,
        List.append_nil]
      exact addText d file text none hempty

theorem addEmbedded (d : Draft) (file : String) (x : SyntaxTree × Option String) :
    Gains d (Draft.addEmbedded file d x) (definedBy file (Draft.embeddedText x.1))
      ([Draft.embeddedText x.1].filter isNoDocument) [] := by
  obtain ⟨literal, holder?⟩ := x
  rw [Draft.addEmbedded]
  split
  · rename_i hempty
    rw [hempty]
    exact refl d
  · rename_i hempty
    exact addText d file _ holder? hempty

/-! ### One file: `readScript` and `readGenerated` -/

/-- A `count` of something else is no gain. -/
theorem of_count {f : Coverage → Coverage} (h : Gains (d.count f) d₁ l ts ss)
    (hdocuments : (f d.coverage).documentFailures = d.coverage.documentFailures)
    (hscripts : (f d.coverage).scriptFailures = d.coverage.scriptFailures) : Gains d d₁ l ts ss where
  definitions := h.definitions
  documentFailures := hdocuments ▸ h.documentFailures
  scriptFailures := hscripts ▸ h.scriptFailures

theorem countBroken (d : Draft) (file : String) :
    Gains d (d.count fun c => { c with scriptFailures := c.scriptFailures + 1 }) [] [] [file] where
  definitions := (List.append_nil _).symm
  documentFailures := rfl
  scriptFailures := rfl

theorem readScript (d : Draft) (file : String) (text : Option String) :
    Gains d (Draft.readScript file d text)
      (((text.bind (parseFile? file)).elim [] embeddedTexts).flatMap (definedBy file))
      (((text.bind (parseFile? file)).elim [] embeddedTexts).filter isNoDocument)
      ([file].filter fun _ => text.any (isBroken mayEmbed file)) := by
  refine of_count (f := fun c => { c with filesScanned := c.filesScanned + 1 }) ?_ rfl rfl
  unfold Draft.readScript
  generalize d.count _ = d
  rcases text with _ | source
  · exact refl d
  · dsimp only [Option.bind_some, Option.any_some]
    split
    · rename_i htags
      cases hparse : parseFile? file source with
      | none =>
          have hbroken : isBroken mayEmbed file source = true := by
            simp [isBroken, mayEmbed, htags, hparse]
          rw [hbroken]
          exact countBroken d file
      | some root =>
          have hwhole : isBroken mayEmbed file source = false := by simp [isBroken, hparse]
          have hgains := foldl (fun d x => addEmbedded d file x) (Draft.embeddedIn none root) d
          have htexts : embeddedTexts root =
              (Draft.embeddedIn none root).map fun x => Draft.embeddedText x.1 := by
            rw [embeddedTexts, ← embeddedIn_eq_templates none root, List.map_map]
            rfl
          rw [← List.filter_flatMap, ← List.map_eq_flatMap, ← htexts] at hgains
          rw [hwhole, Option.elim_some, htexts, List.flatMap_map, ← htexts]
          exact hgains
    · rename_i htags
      have hwhole : isBroken mayEmbed file source = false := by simp [isBroken, mayEmbed, htags]
      rw [hwhole]
      cases hparse : parseFile? file source with
      | none => exact refl d
      | some root =>
          rw [Option.elim_some, embeddedTexts, templates_of_no_tag hparse (by simpa using htags)]
          exact refl d

theorem addDocuments (d : Draft) (file : String) (found : List Operation.GeneratedDocument) :
    Gains d (d.addDocuments file found) (found.map fun g => ⟨g.operation, g.kind, some file, []⟩) []
      [] where
  definitions := rfl
  documentFailures := rfl
  scriptFailures := rfl

theorem exportedBy_of_ok {root : SyntaxTree} {found : List Operation.GeneratedDocument} (file : String)
    (h : Operation.generatedDocuments root = .ok found) :
    exportedBy file root = found.map fun g => ⟨g.operation, g.kind, some file, []⟩ := by
  rw [Operation.generatedDocuments_ok h, List.map_filterMap]
  rfl

theorem exportedBy_of_no_words {source : String} {root : SyntaxTree}
    (hroot : parseFile? file source = some root) (hwords : mayExport source = false) :
    exportedBy file root = [] := by
  refine List.filterMap_eq_nil_iff.mpr fun t ht => ?_
  rw [Operation.generatedDocument?_of_no_words hroot hwords t ht]
  rfl

theorem readGenerated {text : Option String} (h : Draft.readGenerated file d text = .ok d₁) :
    Gains d d₁ ((text.bind (parseFile? file)).elim [] (exportedBy file)) []
      ([file].filter fun _ => text.any (isBroken mayExport file)) := by
  rcases text with _ | source
  · cases h
    exact refl d
  · dsimp only [Option.bind_some, Option.any_some]
    unfold Draft.readGenerated at h
    dsimp only at h
    split at h
    · rename_i hwords
      refine of_count (f := fun c => { c with generatedFiles := c.generatedFiles + 1 }) ?_ rfl rfl
      generalize d.count _ = d at h
      cases hparse : parseFile? file source with
      | none =>
          have hbroken : isBroken mayExport file source = true := by
            simpa [isBroken, mayExport, hparse] using hwords
          rw [hparse] at h
          cases h
          rw [hbroken]
          exact countBroken d file
      | some root =>
          have hwhole : isBroken mayExport file source = false := by simp [isBroken, hparse]
          rw [hparse] at h
          obtain ⟨found, hfound, h⟩ := exists_ok_of_bind h
          cases h
          rw [hwhole, Option.elim_some, exportedBy_of_ok file hfound]
          exact addDocuments d file found
    · rename_i hwords
      have hwords : mayExport source = false := by simpa [mayExport] using hwords
      have hwhole : isBroken mayExport file source = false := by simp [isBroken, hwords]
      cases h
      rw [hwhole]
      cases hparse : parseFile? file source with
      | none => exact refl d
      | some root =>
          rw [Option.elim_some, exportedBy_of_no_words hparse hwords]
          exact refl d

end Gains

end Catalog

/-! ## All `definitions` -/

/-- The `texts` of some `files` in order, each with its file. -/
def heldIn (files : List String) (texts : String → List String) : List (String × String) :=
  files.flatMap fun f => (texts f).map (f, ·)

namespace Repository

open Catalog

/-- The texts that should be documents, in order, each with the file that holds it: those of
`documentFiles`, and then the `embeddedTexts` of `scripts`. -/
def documentTexts (r : Repository) (documentFiles scripts : List String) : List (String × String) :=
  heldIn documentFiles (fun f => (r.content? f).toList) ++
    heldIn scripts fun f => (r.script? f).elim [] embeddedTexts

/-- All definitions of operations in order: those in `documentTexts`, and then those that generated
files export (`exportedBy`). -/
def definitions (r : Repository) (documentFiles scripts : List String) : List OperationSource :=
  ((r.documentTexts documentFiles scripts).flatMap fun x => definedBy x.1 x.2) ++
    (scripts.filter Draft.isGenerated).flatMap fun f => (r.script? f).elim [] (exportedBy f)

/-- Whether `file` has a text that seems to be `worth` parsing and `isBroken`. -/
def breaks (r : Repository) (worth : String → Bool) (file : String) : Bool :=
  (r.content? file).any (isBroken worth file)

end Repository

namespace Catalog

variable {r : Repository} {documentFiles scripts : List String} {d d₁ : Draft}

theorem filter_eq_flatMap (p : String → Bool) (files : List String) :
    files.flatMap (fun f => [f].filter p) = files.filter p := by
  rw [← List.filter_flatMap, List.flatMap_singleton']

/-- A pass over `files` gains what the `texts` in them define. -/
theorem Gains.texts {f : Draft → String → Except Fault Draft} {texts : String → List String}
    {broken : String → Bool} {files : List String}
    (step : ∀ d file d', f d file = .ok d' → Gains d d' ((texts file).flatMap (definedBy file))
      ((texts file).filter isNoDocument) ([file].filter broken))
    (h : files.foldlM f d = .ok d₁) :
    Gains d d₁ ((heldIn files texts).flatMap fun x => definedBy x.1 x.2)
      (((heldIn files texts).map (·.2)).filter isNoDocument) (files.filter broken) := by
  have hgains := Gains.foldlM step h
  rw [filter_eq_flatMap] at hgains
  simpa [heldIn, List.flatMap_assoc, List.flatMap_map, List.map_flatMap, List.filter_flatMap,
    Function.comp_def] using hgains

theorem gains_document {file : String}
    (h : (do return Draft.readDocument file d (← r.reading file)) = .ok d₁) :
    Gains d d₁ ((r.content? file).toList.flatMap (definedBy file))
      ((r.content? file).toList.filter isNoDocument) [] := by
  obtain ⟨t, ht, hd⟩ := exists_ok_of_bind h
  cases hd
  rw [Repository.content?_of_reading ht]
  exact Gains.readDocument d file t

theorem gains_script {file : String}
    (h : (do return Draft.readScript file d (← r.reading file)) = .ok d₁) :
    Gains d d₁ (((r.script? file).elim [] embeddedTexts).flatMap (definedBy file))
      (((r.script? file).elim [] embeddedTexts).filter isNoDocument)
      ([file].filter (r.breaks mayEmbed)) := by
  obtain ⟨t, ht, hd⟩ := exists_ok_of_bind h
  cases hd
  have hgains := Gains.readScript d file t
  simp only [List.filter_cons, List.filter_nil, Repository.breaks, Repository.script?,
    Repository.content?_of_reading ht] at hgains ⊢
  exact hgains

theorem gains_generated {file : String}
    (h : (if Draft.isGenerated file then r.reading file >>= Draft.readGenerated file d else .ok d) =
      .ok d₁) :
    Gains d d₁ (([file].filter Draft.isGenerated).flatMap fun f =>
        (r.script? f).elim [] (exportedBy f)) []
      ([file].filter fun f => Draft.isGenerated f && r.breaks mayExport f) := by
  cases hfile : Draft.isGenerated file with
  | false =>
      rw [hfile] at h
      cases h
      simp only [List.filter_cons, hfile, Bool.false_and]
      exact Gains.refl d
  | true =>
      rw [hfile] at h
      obtain ⟨t, ht, hd⟩ := exists_ok_of_bind h
      have hgains := Gains.readGenerated hd
      simp only [List.filter_cons, hfile, Bool.true_and, if_true, List.filter_nil,
        List.flatMap_cons, List.flatMap_nil, List.append_nil, Repository.breaks,
        Repository.script?, Repository.content?_of_reading ht] at hgains ⊢
      exact hgains

/-- **The definitions that `gatherFrom` gathers are all `definitions`, in order.** Besides, it
counts the texts that are no documents and the scripts that cannot be parsed. -/
theorem gains_gatherFrom (h : Draft.gatherFrom r.reading documentFiles scripts = .ok d) :
    Gains {} d (r.definitions documentFiles scripts)
      (((r.documentTexts documentFiles scripts).map (·.2)).filter isNoDocument)
      (scripts.filter (r.breaks mayEmbed) ++
        scripts.filter fun f => Draft.isGenerated f && r.breaks mayExport f) := by
  obtain ⟨d₁, h₁, h⟩ := exists_ok_of_bind h
  obtain ⟨d₂, h₂, h₃⟩ := exists_ok_of_bind h
  have hdocuments : Gains {} d₁ _ _ (documentFiles.filter fun _ => false) :=
    Gains.texts (fun _ _ _ hd => gains_document hd) h₁
  have hembedded := Gains.texts (fun _ _ _ hd => gains_script hd) h₂
  have hgenerated := Gains.foldlM (fun _ _ _ hd => gains_generated hd) h₃
  have hall := (hdocuments.trans hembedded).trans hgenerated
  have hnone : scripts.flatMap (fun _ => ([] : List String)) = [] :=
    List.flatMap_eq_nil_iff.mpr fun _ _ => rfl
  simp only [filter_eq_flatMap, ← List.flatMap_assoc, List.filter_false, List.nil_append, hnone,
    List.append_nil, ← List.flatMap_append, ← List.filter_append, ← List.map_append] at hall
  exact hall

end Catalog

end PageReach
