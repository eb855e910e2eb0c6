import Mathlib.Data.Set.Card
import PageReach.Proofs.Session
import PageReach.Proofs.Session.Journal

/-!
# Counters keep up with tables

Each time a table is asked, either a hit or a miss is counted, and after a miss an entry is added.
An entry may have to wait: while the edges of a file are worked out, a miss has been counted for
them, and the tree and the text of the file are asked for meanwhile. So the number of misses is that
of all entries and of the pending ones (`Balanced`). The work for a pending entry leaves alone the
tables that depend on trees (`derived`), so that the entry is still new when it is added.

* **Balance** (`Balanced.hit`, `Balanced.miss`, `Balanced.putText` to `Balanced.putOn`): what is
  counted and what is added.
* **Operations** (`recall_cases`, `read_cases`, `tree_cases`, `resolve_cases`): all that an
  operation can do to a journal.
* **Invariants** (`preserves_recall`, `preserves_perform`, `preserves_performAll`): one call keeps
  the balance, and so do many.
* **Counters** (`Balanced.parseFailures_eq`, `Balanced.read_once`, `counters_keep_up`): what the
  counters of a session say about its tables.
-/

namespace PageReach

open Script Table

/-- The number of entries in the tables of which `hits` and `misses` are counted. -/
def Session.remembered (s : Session) : Nat :=
  s.texts.size + s.edges.size + s.surfaces.size + s.facts.size + s.resolutions.length

/-- The tables whose entries take some work with texts, trees or configurations. -/
def Session.derived (s : Session) : Table (List Edge) × Table Surface × Table (List Fact) ×
    List ((String × String) × Option String) :=
  (s.edges, s.surfaces, s.facts, s.resolutions)

/-- Whether there is a reason instead of a tree. -/
def isFailure : Except ParseFailure SyntaxTree → Bool
  | .ok _ => false
  | .error _ => true

/-- Whether the parser had a text to work on, with or without success: the failure is not
`unreadable`. -/
def isParsed : Except ParseFailure SyntaxTree → Bool
  | .error .unreadable => false
  | _ => true

/-- A shelf that holds one of the tables in `Session.derived`. -/
structure Shelf.IsDerived {α : Type} (shelf : Shelf α) : Prop where
  table_eq : ∀ s s', s.derived = s'.derived → shelf.table s = shelf.table s'
  remembered : ∀ s t,
    (shelf.withTable s t).remembered + (shelf.table s).size = s.remembered + t.size
  rest : ∀ s t, ∃ edges surfaces facts, shelf.withTable s t = { s with edges, surfaces, facts }

namespace Session.Deed

variable (deeds : List Session.Deed) (file : String)

/-- The files that were read, in the order of `deeds`. -/
def filesRead (deeds : List Session.Deed) : List String := deeds.filterMap fun
  | .read file => some file
  | _ => none

/-- The files that were parsed, in the order of `deeds`. -/
def filesParsed (deeds : List Session.Deed) : List String := deeds.filterMap fun
  | .parsed file => some file
  | _ => none

/-- What is noted while the tree `t` of `file` is made. -/
def ofTree (file : String) (t : Except ParseFailure SyntaxTree) : List Session.Deed :=
  if isParsed t then [.parsed file] else []

theorem count_consulted : (deeds ++ [consulted]).count consulted = deeds.count consulted + 1 := by
  rw [List.count_append, List.count_singleton_self]

theorem filesRead_append (more : List Session.Deed) :
    filesRead (deeds ++ more) = filesRead deeds ++ filesRead more := List.filterMap_append

theorem filesParsed_append (more : List Session.Deed) :
    filesParsed (deeds ++ more) = filesParsed deeds ++ filesParsed more := List.filterMap_append

theorem count_read : deeds.count (.read file) = (filesRead deeds).count file := by
  rw [filesRead, List.count_filterMap, List.count]
  exact List.countP_congr fun deed _ => by cases deed <;> simp

theorem count_parsed : deeds.count (.parsed file) = (filesParsed deeds).count file := by
  rw [filesParsed, List.count_filterMap, List.count]
  exact List.countP_congr fun deed _ => by cases deed <;> simp

end Session.Deed

namespace Journal

open Session.Deed

/-- Counters, tables and deeds fit together, while `pending` entries are still being worked out. -/
structure Balanced (pending : Nat) (j : Journal) : Prop where
  asked : j.session.hits + j.session.misses = j.deeds.count .consulted
  missed : j.session.misses = j.session.remembered + pending
  errors : j.session.readErrors ≤ j.session.texts.size
  failures : j.session.parseFailures = (j.session.trees.keysWhere isFailure).length
  read : filesRead j.deeds = j.session.texts.keys
  parsed : filesParsed j.deeds = j.session.trees.keysWhere isParsed
  texts : j.session.texts.keys.Nodup
  trees : j.session.trees.keys.Nodup

theorem balanced_new : Balanced 0 {} where
  asked := rfl
  missed := rfl
  errors := Nat.le_refl _
  failures := rfl
  read := rfl
  parsed := rfl
  texts := List.nodup_nil
  trees := List.nodup_nil

/-- A table was asked that has the entry. -/
def hit (j : Journal) : Journal := ⟨j.session.countHit, j.deeds ++ [.consulted]⟩

/-- A table was asked that does not have the entry. -/
def miss (j : Journal) : Journal := ⟨j.session.countMiss, j.deeds ++ [.consulted]⟩

/-! ## What keeps the balance: `Balanced` -/

variable {j j' : Journal} {n : Nat} {file : String} {α β : Type}

namespace Balanced

/-- A table was asked; a miss leaves one more entry to be added, so `m` is `n` or one more. -/
theorem consult (h : j.Balanced n) {m hits misses : Nat}
    (hasked : hits + misses = j.session.hits + j.session.misses + 1)
    (hmissed : misses = j.session.remembered + m) :
    Balanced m ⟨{ j.session with hits, misses }, j.deeds ++ [.consulted]⟩ where
  asked := by rw [count_consulted, hasked, h.asked]
  missed := hmissed
  errors := h.errors
  failures := h.failures
  read := by rw [filesRead_append, h.read]; exact List.append_nil _
  parsed := by rw [filesParsed_append, h.parsed]; exact List.append_nil _
  texts := h.texts
  trees := h.trees

theorem hit (h : j.Balanced n) : j.hit.Balanced n := h.consult (by omega) h.missed

theorem miss (h : j.Balanced n) : j.miss.Balanced (n + 1) :=
  h.consult (by omega) (congrArg (· + 1) h.missed)

/-- A text is read, with an error or without one, and added. -/
theorem putText (h : j.Balanced (n + 1)) (hnew : j.session.texts.get? file = none)
    (t : Option String) {errors : Nat} (herrors : errors ≤ j.session.readErrors + 1) :
    Balanced n ⟨{ j.session with texts := j.session.texts.insert file t, readErrors := errors },
      j.deeds ++ [.read file]⟩ where
  asked := by simpa using h.asked
  missed := by
    have hmissed := h.missed
    simp only [Session.remembered, size_insert_of_new hnew] at hmissed ⊢
    omega
  errors := by
    have hold := h.errors
    simp only [size_insert_of_new hnew]
    omega
  failures := h.failures
  read := by rw [filesRead_append, h.read, keys_insert_of_new hnew]; rfl
  parsed := by rw [filesParsed_append, h.parsed]; exact List.append_nil _
  texts := nodup_keys_insert h.texts file t
  trees := h.trees

/-- A tree is added, or a reason why there is none. -/
theorem putTree (h : j.Balanced n) (hnew : j.session.trees.get? file = none)
    (t : Except ParseFailure SyntaxTree) :
    Balanced n ⟨j.session.putTree file t, j.deeds ++ ofTree file t⟩ where
  asked := by
    have hnone : (ofTree file t).count consulted = 0 := by unfold ofTree; split <;> rfl
    rw [List.count_append, hnone]
    exact h.asked
  missed := h.missed
  errors := h.errors
  failures := by
    simp only [Session.putTree, keysWhere_insert_of_new hnew, List.length_append, h.failures]
    cases t <;> rfl
  read := by
    have hnone : filesRead (ofTree file t) = [] := by unfold ofTree; split <;> rfl
    rw [filesRead_append, hnone, List.append_nil]
    exact h.read
  parsed := by
    simp only [Session.putTree, keysWhere_insert_of_new hnew, filesParsed_append, h.parsed, ofTree]
    split <;> rfl
  texts := h.texts
  trees := nodup_keys_insert h.trees file t

/-- A specifier is settled, whereby configurations may have been read. -/
theorem putResolution (h : j.Balanced (n + 1)) {specifier : String}
    (hnew : j.session.resolution? file specifier = none) (target : Option String)
    (configs : ConfigMemory) :
    Balanced n ⟨({ j.session with configs } : Session).putResolution file specifier target,
      j.deeds⟩ where
  asked := h.asked
  missed := by
    have hmissed := h.missed
    simp only [Session.remembered, Session.putResolution] at hmissed ⊢
    rw [insertInto_of_lookup_eq_none hnew, List.length_append, List.length_singleton]
    omega
  errors := h.errors
  failures := h.failures
  read := h.read
  parsed := h.parsed
  texts := h.texts
  trees := h.trees

/-- An entry is added to one of the tables in `Session.derived`. -/
theorem putOn (h : j.Balanced (n + 1)) {shelf : Shelf α} (hshelf : shelf.IsDerived)
    (hnew : (shelf.table j.session).get? file = none) (a : α) :
    Balanced n ⟨shelf.withTable j.session ((shelf.table j.session).insert file a), j.deeds⟩ := by
  have hremembered := hshelf.remembered j.session ((shelf.table j.session).insert file a)
  obtain ⟨edges, surfaces, facts, hsession⟩ :=
    hshelf.rest j.session ((shelf.table j.session).insert file a)
  rw [size_insert_of_new hnew] at hremembered
  rw [hsession] at hremembered ⊢
  refine ⟨h.asked, ?_, h.errors, h.failures, h.read, h.parsed, h.texts, h.trees⟩
  have hmissed := h.missed
  dsimp only
  omega

end Balanced

/-! ## What the operations do: `recall_cases` -/

theorem consult_on (look : Session → Option α) (j : Journal) :
    (noting.consult look).on j = (.ok (look j.session), ⟨j.session, j.deeds ++ [.consulted]⟩) := rfl

theorem inside_on (x : Run α) (j : Journal) :
    (noting.inside x).on j = ((x.on j.session).1, ⟨(x.on j.session).2, j.deeds⟩) :=
  (noted_on [] x j).trans (by rw [List.append_nil])

theorem modify_on (f : Session → Session) (j : Journal) :
    (noting.inside (modify f)).on j = (.ok ⟨⟩, ⟨f j.session, j.deeds⟩) := by
  rw [inside_on, ExceptT.on_modify]

theorem parse_on (file source : String) (j : Journal) :
    (noting.parse file source).on j =
      (.ok (parseFile? file source), ⟨j.session, j.deeds ++ [.parsed file]⟩) :=
  noted_on [.parsed file] (Access.plain.parse file source) j

/-- `lookUp` asks once, and counts a hit or a miss. -/
theorem lookUp_on (look : Session → Option α) (j : Journal) :
    (noting.lookUp look).on j =
      (.ok (look j.session), if (look j.session).isSome then j.hit else j.miss) := by
  rw [Access.lookUp, ExceptT.on_bind, consult_on]
  dsimp only
  cases look j.session <;> rw [ExceptT.on_bind, modify_on] <;> rfl

/-- `recall` finds the entry on the shelf, or it is worked out and added. -/
theorem recall_cases {shelf : Shelf α} {work : Noting α} {a : α}
    (h : (noting.recall shelf file work).on j = (.ok a, j')) :
    ((shelf.table j.session).get? file = some a ∧ j' = j.hit) ∨
    ((shelf.table j.session).get? file = none ∧ ∃ j₁, work.on j.miss = (.ok a, j₁) ∧
      j' = ⟨shelf.withTable j₁.session ((shelf.table j₁.session).insert file a), j₁.deeds⟩) := by
  rw [Access.recall, ExceptT.on_bind, lookUp_on] at h
  dsimp only at h
  cases hg : (shelf.table j.session).get? file with
  | some v =>
      rw [hg] at h
      cases h
      exact .inl ⟨rfl, rfl⟩
  | none =>
      rw [hg] at h
      obtain ⟨v, j₁, hwork, hstore⟩ := ExceptT.ok_of_bind h
      rw [ExceptT.on_bind, modify_on] at hstore
      cases hstore
      exact .inr ⟨rfl, j₁, hwork, rfl⟩

/-- To `read` a file changes nothing but the count of errors. -/
theorem read_cases {r : Repository} {t : Option String}
    (h : (noting.read r file).on j = (.ok t, j')) :
    ∃ errors ≤ j.session.readErrors + 1,
      j' = ⟨{ j.session with readErrors := errors }, j.deeds ++ [.read file]⟩ := by
  have hread : (noting.read r file).on j = _ := noted_on [.read file] (r.readDisk file) j
  rw [h] at hread
  obtain ⟨-, rfl⟩ := Prod.mk.inj hread
  rcases readDisk_on r file j.session with hdisk | hdisk
  · exact ⟨j.session.readErrors, by omega, by rw [hdisk]⟩
  · exact ⟨j.session.readErrors + 1, Nat.le_refl _, by rw [hdisk]; rfl⟩

/-- For `tree`, a tree is there already, or it is made from the text and added. -/
theorem tree_cases {r : Repository} {t : Except ParseFailure SyntaxTree}
    (h : (noting.tree r file).on j = (.ok t, j')) :
    j' = j ∨
    (j.session.trees.get? file = none ∧ ∃ text j₁, (noting.text r file).on j = (.ok text, j₁) ∧
      j' = ⟨j₁.session.putTree file t, j₁.deeds ++ ofTree file t⟩) := by
  have hlook : (noting.inside (do return (← get).trees.get? file)).on j =
      (.ok (j.session.trees.get? file), j) := inside_on _ j
  have hput {t' : Except ParseFailure SyntaxTree} {j₁ : Journal}
      (h : (do noting.inside (modify (Session.putTree · file t')); return t' : Noting _).on j₁ =
        (.ok t, j')) : t' = t ∧ j' = ⟨j₁.session.putTree file t, j₁.deeds⟩ := by
    rw [ExceptT.on_bind, modify_on] at h
    cases h
    exact ⟨rfl, rfl⟩
  rw [Access.tree, ExceptT.on_bind, hlook] at h
  dsimp only at h
  cases hg : j.session.trees.get? file with
  | some t' =>
      rw [hg] at h
      cases h
      exact .inl rfl
  | none =>
      rw [hg] at h
      obtain ⟨text, j₁, htext, hrest⟩ := ExceptT.ok_of_bind h
      refine .inr ⟨rfl, text, j₁, htext, ?_⟩
      cases text with
      | none =>
          obtain ⟨rfl, hj'⟩ := hput hrest
          rw [hj']
          exact congrArg (Journal.mk _) (List.append_nil _).symm
      | some source =>
          obtain ⟨parsed, j₂, hparse, hrest⟩ := ExceptT.ok_of_bind hrest
          rw [parse_on] at hparse
          cases hparse
          obtain ⟨rfl, hj'⟩ := hput hrest
          rw [hj']
          cases parseFile? file source <;> rfl

/-- For `resolve`, a specifier is settled already, or its target is worked out and added. -/
theorem resolve_cases {resolver : Resolver} {specifier : String} {target : Option String}
    (h : (noting.resolve resolver file specifier).on j = (.ok target, j')) :
    j' = j ∨ j' = j.hit ∨
    (j.session.resolution? file specifier = none ∧ ∃ configs,
      j' = ⟨({ j.session.countMiss with configs } : Session).putResolution file specifier target,
        j.deeds ++ [.consulted]⟩) := by
  rw [Access.resolve] at h
  split at h
  · cases h
    exact .inl rfl
  · rw [ExceptT.on_bind, lookUp_on] at h
    dsimp only at h
    cases hg : j.session.resolution? file specifier with
    | some known =>
        rw [hg] at h
        cases h
        exact .inr (.inl rfl)
    | none =>
        rw [hg] at h
        obtain ⟨found, j₁, hfound, hstore⟩ := ExceptT.ok_of_bind h
        rw [inside_on, withConfigs_on] at hfound
        rw [ExceptT.on_bind, modify_on] at hstore
        cases hstore
        obtain ⟨-, rfl⟩ := Prod.mk.inj hfound
        exact .inr (.inr ⟨rfl, _, rfl⟩)

/-! ## What the operations keep: `Preserves` -/

/-- Where something comes out of `x`, what held before holds again. -/
def Preserves (I : Journal → Prop) (x : Noting α) : Prop :=
  ∀ ⦃j a j'⦄, I j → x.on j = (.ok a, j') → I j'

/-- `Balanced`, and the tables in `Session.derived` are as they are in `s`. -/
def BalancedWith (n : Nat) (s : Session) (j : Journal) : Prop :=
  j.Balanced n ∧ j.session.derived = s.derived

theorem Preserves.pure {I : Journal → Prop} (a : α) : Preserves I (Pure.pure a) := by
  intro j a' j' hj h
  cases h
  exact hj

theorem Preserves.bind {I : Journal → Prop} {x : Noting α} {f : α → Noting β} (hx : Preserves I x)
    (hf : ∀ a, Preserves I (f a)) : Preserves I (x >>= f) := by
  intro j b j' hj h
  obtain ⟨a, j₁, hrun, hrest⟩ := ExceptT.ok_of_bind h
  exact hf a (hx hj hrun) hrest

theorem preserves_text (r : Repository) (file : String) (s : Session) :
    Preserves (BalancedWith n s) (noting.text r file) := by
  rintro j t j' ⟨hj, hs⟩ h
  rcases recall_cases h with ⟨-, rfl⟩ | ⟨hnew, j₁, hread, rfl⟩
  · exact ⟨hj.hit, hs⟩
  · obtain ⟨errors, herrors, rfl⟩ := read_cases hread
    exact ⟨hj.miss.putText hnew t herrors, hs⟩

theorem trees_of_text {r : Repository} {t : Option String}
    (h : (noting.text r file).on j = (.ok t, j')) : j'.session.trees = j.session.trees := by
  rcases recall_cases h with ⟨-, rfl⟩ | ⟨-, j₁, hread, rfl⟩
  · rfl
  · obtain ⟨errors, -, rfl⟩ := read_cases hread
    rfl

theorem preserves_tree (r : Repository) (file : String) (s : Session) :
    Preserves (BalancedWith n s) (noting.tree r file) := by
  intro j t j' hj h
  rcases tree_cases h with rfl | ⟨hnew, text, j₁, htext, rfl⟩
  · exact hj
  · obtain ⟨hj₁, hs⟩ := preserves_text r file s hj htext
    rw [← trees_of_text htext] at hnew
    exact ⟨hj₁.putTree hnew t, hs⟩

/-- An entry that is pending is still new when it has been worked out, since `work` leaves the
derived tables alone. -/
theorem preserves_recall {shelf : Shelf α} (hshelf : shelf.IsDerived) (file : String)
    {work : Noting α} (hwork : ∀ n s, Preserves (BalancedWith n s) work) :
    Preserves (Balanced n) (noting.recall shelf file work) := by
  intro j a j' hj h
  rcases recall_cases h with ⟨-, rfl⟩ | ⟨hnew, j₁, hrun, rfl⟩
  · exact hj.hit
  · -- during the work one entry more is pending, and the shelf stays as it is
    obtain ⟨hj₁, hs⟩ := hwork (n + 1) j.session ⟨hj.miss, rfl⟩ hrun
    rw [← hshelf.table_eq _ _ hs] at hnew
    exact hj₁.putOn hshelf hnew a

theorem isDerived_edgeShelf : Session.edgeShelf.IsDerived where
  table_eq _ _ h := congrArg (·.1) h
  remembered s t := by
    simp only [Session.edgeShelf, Session.remembered]
    omega
  rest _ t := ⟨t, _, _, rfl⟩

theorem isDerived_surfaceShelf : Session.surfaceShelf.IsDerived where
  table_eq _ _ h := congrArg (·.2.1) h
  remembered s t := by
    simp only [Session.surfaceShelf, Session.remembered]
    omega
  rest _ t := ⟨_, t, _, rfl⟩

theorem isDerived_factShelf : Session.factShelf.IsDerived where
  table_eq _ _ h := congrArg (·.2.2.1) h
  remembered s t := by
    simp only [Session.factShelf, Session.remembered]
    omega
  rest _ t := ⟨_, _, t, rfl⟩

theorem preserves_edges (r : Repository) (file : String) :
    Preserves (Balanced n) (noting.edges r file) := by
  refine preserves_recall isDerived_edgeShelf file fun n s => ?_
  refine (preserves_tree r file s).bind fun t => ?_
  cases t <;> exact Preserves.pure _

theorem preserves_surface (r : Repository) (file : String) :
    Preserves (Balanced n) (noting.surface r file) := by
  refine preserves_recall isDerived_surfaceShelf file fun n s => ?_
  refine (preserves_tree r file s).bind fun t => ?_
  cases t <;> exact Preserves.pure _

theorem preserves_facts (r : Repository) (generated : Table String) (file : String) :
    Preserves (Balanced n) (noting.facts r generated file) := by
  refine preserves_recall isDerived_factShelf file fun n s => ?_
  refine (preserves_text r file s).bind fun text => ?_
  cases text with
  | none => exact Preserves.pure _
  | some source =>
      dsimp only
      split
      · refine (preserves_tree r file s).bind fun t => ?_
        cases t <;> exact Preserves.pure _
      · exact Preserves.pure _

theorem preserves_resolve (resolver : Resolver) (file specifier : String) :
    Preserves (Balanced n) (noting.resolve resolver file specifier) := by
  intro j target j' hj h
  rcases resolve_cases h with rfl | rfl | ⟨hnew, configs, rfl⟩
  · exact hj
  · exact hj.hit
  · exact hj.miss.putResolution hnew target configs

theorem preserves_answer (r : Repository) (generated : Table String) (file : String)
    (question : Question) : Preserves (Balanced n) (noting.answer r generated file question) := by
  cases question with
  | text =>
      refine Preserves.bind (fun j t j' hj h => ?_) fun _ => Preserves.pure _
      exact (preserves_text r file j.session ⟨hj, rfl⟩ h).1
  | tree =>
      refine Preserves.bind (fun j t j' hj h => ?_) fun _ => Preserves.pure _
      exact (preserves_tree r file j.session ⟨hj, rfl⟩ h).1
  | edges => exact (preserves_edges r file).bind fun _ => Preserves.pure _
  | surface => exact (preserves_surface r file).bind fun _ => Preserves.pure _
  | facts => exact (preserves_facts r generated file).bind fun _ => Preserves.pure _

/-- One call keeps the balance, whatever it asks for: `answer` or `resolve`. -/
theorem preserves_perform (c : Session.Call) : Preserves (Balanced n) (noting.perform c) := by
  cases c with
  | ask r generated question file =>
      exact (preserves_answer r generated file question).bind fun _ => Preserves.pure _
  | resolve resolver file specifier =>
      exact (preserves_resolve resolver file specifier).bind fun _ => Preserves.pure _

/-- Calls one after the other keep the balance. -/
theorem preserves_performAll (calls : List Session.Call) :
    Preserves (Balanced n) (calls.forM noting.perform) := by
  induction calls with
  | nil => exact Preserves.pure _
  | cons c calls ih => exact (preserves_perform c).bind fun _ => ih

/-! ## The counters of a session -/

/-- Failures are counted once for each file without a tree in `trees`. -/
theorem Balanced.parseFailures_eq (h : j.Balanced n) :
    j.session.parseFailures =
      {file | ∃ failure, j.session.trees.get? file = some (.error failure)}.ncard := by
  have hfailed : {file | ∃ failure, j.session.trees.get? file = some (.error failure)} =
      ↑(j.session.trees.keysWhere isFailure).toFinset := by
    ext file
    rw [List.coe_toFinset, Set.mem_ofPred_eq, Set.mem_ofPred_eq, mem_keysWhere h.trees]
    constructor
    · rintro ⟨failure, hget⟩
      exact ⟨_, hget, rfl⟩
    · rintro ⟨t, hget, hfailure⟩
      cases t with
      | ok t => cases hfailure
      | error failure => exact ⟨failure, hget⟩
  rw [hfailed, Set.ncard_coe_finset,
    List.toFinset_card_of_nodup (nodup_keysWhere h.trees isFailure), h.failures]

/-- A file is read once if its text is in `texts`, and not at all otherwise. -/
theorem Balanced.read_once (h : j.Balanced n) (file : String) :
    j.deeds.count (.read file) ≤ 1 ∧
      (.read file ∈ j.deeds ↔ ∃ text, j.session.texts.get? file = some text) := by
  rw [← List.count_pos_iff, Session.Deed.count_read, List.count_pos_iff, h.read,
    ← contains_iff_mem_keys, contains, Option.isSome_iff_exists]
  exact ⟨List.nodup_iff_count_le_one.mp h.texts file, Iff.rfl⟩

/-- A file is parsed once if it could be read when its tree was asked for, and else not at all. -/
theorem Balanced.parsed_once (h : j.Balanced n) (file : String) :
    j.deeds.count (.parsed file) ≤ 1 ∧ (.parsed file ∈ j.deeds ↔
      ∃ t, j.session.trees.get? file = some t ∧ t ≠ .error .unreadable) := by
  rw [← List.count_pos_iff, Session.Deed.count_parsed, List.count_pos_iff, h.parsed,
    mem_keysWhere h.trees]
  refine ⟨List.nodup_iff_count_le_one.mp (nodup_keysWhere h.trees isParsed) file, ?_⟩
  refine exists_congr fun t => and_congr_right fun _ => ?_
  rcases t with (_ | _) | _ <;> simp [isParsed]

/-- **The counters of a session keep up with its tables.** Whatever a new session is asked for, as
long as no fault stops it, there are as many hits and misses as times that a table was asked, and as
many misses as entries in these tables. There are as many failures as files that are known to have no
tree, and no more errors than texts. No file is read twice, and none is parsed twice: the files that
were read are those with an entry for their text, and of these the readable ones were parsed if their
trees were asked for. -/
theorem counters_keep_up (calls : List Session.Call) (s : Session)
    (h : (calls.forM Session.Call.perform).on {} = (.ok ⟨⟩, s)) :
    ∃ deeds, (calls.forM noting.perform).on {} = (.ok ⟨⟩, ⟨s, deeds⟩) ∧
      s.hits + s.misses = deeds.count .consulted ∧
      s.misses = s.texts.size + s.edges.size + s.surfaces.size + s.facts.size +
        s.resolutions.length ∧
      s.parseFailures = {file | ∃ failure, s.trees.get? file = some (.error failure)}.ncard ∧
      s.readErrors ≤ s.texts.size ∧
      ∀ file,
        (deeds.count (.read file) ≤ 1 ∧
          (.read file ∈ deeds ↔ ∃ text, s.texts.get? file = some text)) ∧
        deeds.count (.parsed file) ≤ 1 ∧
          (.parsed file ∈ deeds ↔ ∃ t, s.trees.get? file = some t ∧ t ≠ .error .unreadable) := by
  obtain ⟨deeds, hrun⟩ := exists_journal h
  have hbalanced : Balanced 0 ⟨s, deeds⟩ := preserves_performAll calls balanced_new hrun
  exact ⟨deeds, hrun, hbalanced.asked, hbalanced.missed, hbalanced.parseFailures_eq,
    hbalanced.errors, fun file => ⟨hbalanced.read_once file, hbalanced.parsed_once file⟩⟩

/-- Calls about a file that cannot be parsed, and about one that is missing. -/
def callsAboutBroken : List Session.Call :=
  let r : Repository := ⟨⟨⟨[("", .directory), ("a.ts", .file "(".toUTF8)]⟩⟩, "/", none⟩
  [.ask r .empty .edges "a.ts", .ask r .empty .surface "a.ts", .ask r .empty .facts "a.ts",
    .ask r .empty .tree "b.ts", .resolve ⟨⟨["a.ts"]⟩, {}, none⟩ "b.ts" "./a"]

theorem counters_keep_up_of_broken : ∃ s deeds,
    (callsAboutBroken.forM Session.Call.perform).on {} = (.ok ⟨⟩, s) ∧
    (callsAboutBroken.forM noting.perform).on {} = (.ok ⟨⟩, ⟨s, deeds⟩) ∧
    (s.hits, s.misses, s.parseFailures, s.readErrors) = (1, 6, 2, 1) ∧
    deeds.count .consulted = 7 ∧
    {file | ∃ failure, s.trees.get? file = some (.error failure)}.ncard = 2 ∧
    deeds.count (.read "a.ts") ≤ 1 := by
  have hcounts : (fun run : Except Fault PUnit × Session => (run.1.isOk, run.2.hits, run.2.misses,
      run.2.parseFailures, run.2.readErrors))
        ((callsAboutBroken.forM Session.Call.perform).on {}) = (true, 1, 6, 2, 1) := by
    decide +kernel
  rcases hrun : (callsAboutBroken.forM Session.Call.perform).on {} with ⟨outcome, s⟩
  rw [hrun] at hcounts
  obtain ⟨hok, hcounts⟩ := Prod.mk.inj hcounts
  cases outcome with
  | error fault => cases hok
  | ok _ =>
      obtain ⟨deeds, hdeeds, hasked, -, hfailures, -, honce⟩ :=
        counters_keep_up callsAboutBroken s hrun
      obtain ⟨hhits, hmisses, hfailed, -⟩ : s.hits = 1 ∧ s.misses = 6 ∧ s.parseFailures = 2 ∧
        s.readErrors = 1 := by simpa using hcounts
      exact ⟨s, deeds, rfl, hdeeds, hcounts, by omega, by omega, (honce "a.ts").1.1⟩

end Journal

end PageReach
