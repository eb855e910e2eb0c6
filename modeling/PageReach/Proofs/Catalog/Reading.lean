import PageReach.Catalog.Basic
import PageReach.Proofs.Fault
import PageReach.Proofs.Session.Snapshot

/-!
# The catalog as a function of texts

A catalog is gathered in passes, and a file may be looked at in each of them: once its text is read,
the session remembers it, and later its tree and its facts. What comes out depends on the texts
alone.

* **Finding out** (`Finds`, `Finds.text_bind`, `Finds.look_bind`): in every session that tells the
  same texts, a computation has the same outcome.
* **Gathering** (`gatherFrom`, `finds_gather`) and **uses** (`usedNames`, `finds_addUses`): the
  passes of `build`, written as functions of texts.
* **New sessions** (`build_on_new`): a catalog that is built in a new session is `buildFrom` what
  `reading` the files gives.
-/

namespace PageReach

open Script

/-! ## Finding something out from texts: `Finds` -/

/-- What the session `s` tells of the texts, and whether all that it remembers follows from them. -/
def Repository.told (generated : Table String) (r : Repository) (s : Session) :
    (String → Except Fault (Option String)) × Prop :=
  (r.toldText s, s.Coherent generated)

/-- In every coherent session that tells `texts`, the computation `x` has the outcome `v`, and it
leaves such a session behind. -/
def Finds {α : Type} (generated : Table String) (r : Repository)
    (texts : String → Except Fault (Option String)) (x : Run α) (v : Except Fault α) : Prop :=
  Tells (r.told generated) (texts, True) x v

section Finds

variable {generated : Table String} {r : Repository} {file : String} {α β : Type}
  {texts : String → Except Fault (Option String)} {t : Option String}

/-- What a look at a file gives by `Learns` can be found out from its text. -/
theorem Learns.finds {x : Run α} {v : Option String → α} (h : Learns generated r file x v) :
    Finds generated r texts x ((texts file).map v) := by
  intro s hs
  obtain ⟨rfl, hcoherent⟩ := Prod.mk.inj hs
  obtain ⟨s', hrun, hs', htext, hothers⟩ := h s (of_eq_true hcoherent)
  have htold : r.toldText s' = r.toldText s := by
    have hafter := Repository.told_after .text [] htext hothers
    simp only [Repository.firstSeen, ite_self] at hafter
    exact hafter
  exact ⟨s', hrun, Prod.ext htold (eq_true hs')⟩

/-- After `r.text file`, the text of the file is known to what follows. -/
theorem Finds.text_bind {f : Option String → Run α} {g : Option String → Except Fault α}
    (h : ∀ t, texts file = .ok t → Finds generated r texts (f t) (g t)) :
    Finds generated r texts (r.text file >>= f) (texts file >>= g) := by
  refine Tells.bind ?_ h
  have htext : Finds generated r texts _ _ := (learns_text generated r file).finds
  cases htexts : texts file <;> rwa [htexts] at htext

/-- Another look at a file whose text is known gives what follows from the text. -/
theorem Finds.look_bind {x : Run α} {v : Option String → α} {f : α → Run β} {w : Except Fault β}
    (hx : Learns generated r file x v) (ht : texts file = .ok t)
    (hf : Finds generated r texts (f (v t)) w) : Finds generated r texts (x >>= f) w := by
  have hlook : Finds generated r texts x _ := hx.finds
  rw [ht] at hlook
  refine Tells.bind hlook (g := fun _ => w) fun a ha => ?_
  cases ha
  exact hf

/-- In a new session, texts are told as `reading` the files gives them. -/
theorem Finds.on_new {x : Run α} {v : Except Fault α} (h : Finds generated r r.reading x v) :
    ∃ s, x.on {} = (v, s) := by
  obtain ⟨s, hrun, -⟩ := h {} (Prod.ext rfl (eq_true (Session.coherent_new generated)))
  exact ⟨s, hrun⟩

end Finds

namespace Catalog

/-! ## Gathering definitions: `gatherFrom` -/

namespace Draft

/-- Adds the operations of a document file that has the given text, as `addDocument` does. -/
def readDocument (file : String) (d : Draft) : Option String → Draft
  | none | some "" => d
  | some text => d.addText file text none

/-- Adds the operations of the documents embedded in a script that has the given text, as
`addScript` does. -/
def readScript (file : String) (d : Draft) (text : Option String) : Draft :=
  let d := d.count fun c => { c with filesScanned := c.filesScanned + 1 }
  match text with
  | none => d
  | some source =>
    if Operation.tags.any (Text.contains source) then
      match parseFile? file source with
      | none => d.count fun c => { c with scriptFailures := c.scriptFailures + 1 }
      | some root => (embeddedIn none root).foldl (addEmbedded file) d
    else d

/-- Whether a code generator writes the file. -/
def isGenerated (file : String) : Bool := generatedPatterns.any (Glob.covered · file)

/-- Adds the documents of a generated file that has the given text, as `addGenerated` does. -/
def readGenerated (file : String) (d : Draft) (text : Option String) : Except Fault Draft :=
  match text with
  | none => .ok d
  | some source =>
    if Text.contains source "Document" && Text.contains source "definitions" then
      let d := d.count fun c => { c with generatedFiles := c.generatedFiles + 1 }
      match parseFile? file source with
      | none => .ok (d.count fun c => { c with scriptFailures := c.scriptFailures + 1 })
      | some root => do return d.addDocuments file (← Operation.generatedDocuments root)
    else .ok d

/-- The definitions that `gather` gathers, as a function of `texts`. -/
def gatherFrom (texts : String → Except Fault (Option String)) (documents scripts : List String) :
    Except Fault Draft := do
  let d ← documents.foldlM (fun d file => do return readDocument file d (← texts file)) {}
  let d ← scripts.foldlM (fun d file => do return readScript file d (← texts file)) d
  scripts.foldlM (fun d file =>
    if isGenerated file then texts file >>= readGenerated file d else .ok d) d

variable {generated : Table String} {r : Repository}
  {texts : String → Except Fault (Option String)}

theorem finds_addDocument (d : Draft) (file : String) :
    Finds generated r texts (addDocument r d file) (do return readDocument file d (← texts file)) := by
  refine Finds.text_bind fun t _ => ?_
  rcases t with _ | text
  · exact Tells.pure d
  · by_cases htext : text = ""
    · subst htext
      exact Tells.pure d
    · simp only [readDocument]
      exact Tells.pure _

theorem finds_addScript (d : Draft) (file : String) :
    Finds generated r texts (addScript r d file) (do return readScript file d (← texts file)) := by
  refine Finds.text_bind fun t ht => ?_
  rcases t with _ | source
  · exact Tells.pure _
  · dsimp only [readScript]
    split
    · refine Finds.look_bind (learns_tree generated r file) ht ?_
      dsimp only [Repository.treeOf]
      cases parseFile? file source <;> exact Tells.pure _
    · exact Tells.pure _

theorem finds_addGenerated (d : Draft) (file : String) :
    Finds generated r texts (addGenerated r d file)
      (if isGenerated file then texts file >>= readGenerated file d else .ok d) := by
  unfold addGenerated isGenerated
  cases generatedPatterns.any (Glob.covered · file) with
  | false => exact Tells.pure d
  | true =>
      refine Finds.text_bind fun t ht => ?_
      rcases t with _ | source
      · exact Tells.pure d
      · dsimp only [readGenerated]
        split
        · refine Finds.look_bind (learns_tree generated r file) ht ?_
          dsimp only [Repository.treeOf]
          cases parseFile? file source with
          | none => exact Tells.pure _
          | some root => exact Tells.bind (Tells.lift _) fun _ _ => Tells.pure _
        · exact Tells.pure d

theorem finds_gather (documents scripts : List String) :
    Finds generated r texts (gather r documents scripts) (gatherFrom texts documents scripts) :=
  Tells.bind (Tells.foldlM finds_addDocument documents {}) fun d _ =>
    Tells.bind (Tells.foldlM finds_addScript scripts d) fun d' _ =>
      Tells.foldlM finds_addGenerated scripts d'

end Draft

/-! ## Looking for uses: `buildFrom` -/

/-- The operations that a file with the given text uses, where `sought` are the names of documents
that are looked for. -/
def usedNames (sought : List String) (documents : Table String) (file : String) :
    Option String → List String
  | none => []
  | some source =>
    if Operation.hasSign source then
      (mentions sought source).filterMap documents.get? ++
        (Repository.factsOf documents file (some source)).map Fact.name
    else []

/-- Adds the `usedNames` of a file that has the given text. -/
def readUses (documents : Table String) (file : String) (t : Table OperationSource)
    (text : Option String) : Table OperationSource :=
  (usedNames (soughtNames t documents) documents file text).foldl (use file) t

/-- The catalog that `build` builds, as a function of `texts`. -/
def buildFrom (texts : String → Except Fault (Option String)) (documentFiles scripts : List String) :
    Except Fault Catalog := do
  let draft ← Draft.gatherFrom texts documentFiles scripts
  let unique := firstDefinitions draft.definitions
  let documents := withUsualNames draft.documents unique.keys
  let used ← if unique.entries.isEmpty then pure unique
    else scripts.foldlM (fun t file => do return readUses documents file t (← texts file)) unique
  return ⟨used.values, documents, draft.coverage⟩

variable {r : Repository} {texts : String → Except Fault (Option String)}

theorem finds_addUses (documents : Table String) (t : Table OperationSource) (file : String) :
    Finds documents r texts (addUses r documents t file)
      (do return readUses documents file t (← texts file)) := by
  refine Finds.text_bind fun text htext => ?_
  rcases text with _ | source
  · exact Tells.pure t
  · dsimp only [readUses, usedNames]
    split
    · rw [List.foldl_append]
      exact Finds.look_bind (learns_facts documents r file) htext (Tells.pure _)
    · exact Tells.pure t

/-- **A catalog built in a new session follows from what `reading` the files gives.** -/
theorem build_on_new (r : Repository) (documentFiles scripts : List String) :
    ∃ s, (build r documentFiles scripts).on {} = (buildFrom r.reading documentFiles scripts, s) := by
  -- facts depend on the names of all documents, which are known only after the gathering
  cases hdraft : Draft.gatherFrom r.reading documentFiles scripts with
  | error fault =>
      have hgather : Finds .empty r r.reading _ _ := Draft.finds_gather documentFiles scripts
      refine Finds.on_new (Tells.bind hgather fun d hd => ?_)
      rw [hdraft] at hd
      cases hd
  | ok draft =>
      have hgather : Finds (withUsualNames draft.documents (firstDefinitions draft.definitions).keys) r
          r.reading _ _ :=
        Draft.finds_gather documentFiles scripts
      refine Finds.on_new (Tells.bind hgather fun d hd => ?_)
      rw [hdraft] at hd
      cases hd
      dsimp only
      split
      · exact Tells.bind (Tells.pure _) fun used _ => Tells.pure _
      · exact Tells.bind (Tells.foldlM (finds_addUses _) scripts _) fun used _ => Tells.pure _

theorem buildFrom_of_build {documentFiles scripts : List String} {c : Catalog} {session : Session}
    (h : (build r documentFiles scripts).on {} = (.ok c, session)) :
    buildFrom r.reading documentFiles scripts = .ok c := by
  obtain ⟨s', hrun⟩ := build_on_new r documentFiles scripts
  rw [h] at hrun
  exact (Prod.mk.inj hrun).1.symm

end Catalog

end PageReach
