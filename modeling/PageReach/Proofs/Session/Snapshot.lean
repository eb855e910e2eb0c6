import PageReach.Proofs.Session
import PageReach.Session.Question

/-!
# Snapshots

The answers about a file are put on five shelves at different times, and the disk may change in
between. Still they fit together: whatever a session remembers about a file follows from the text
that it remembers (`Coherent`), and this text is the one that the first question about the file
found (`firstSeen`). So all answers about a file speak of the disk as it was then.

* **Learning** (`Learns`, `Learns.bind`, `Learns.recall`): a computation that looks at a file gives
  what follows from its text.
* **Operations** (`learns_text` to `learns_facts`, `learns_answer`): every question about a file is
  such a computation.
* **Events** (`told_after`, `respond_run`, `answers_as_first_seen`): questions and changes of the
  disk in any order.
-/

namespace PageReach

open Script Table

/-! ## What follows from a text: `answerOf` -/

/-- The facts about `file` if it has the given text. -/
def Repository.factsOf (generated : Table String) (file : String) : Option String → List Fact
  | none => []
  | some source => Operation.factsOfSource source file generated

/-- The facts in a file whose tree is known, or known to be missing. -/
def Repository.factsOfParsed (generated : Table String) (file : String) :
    Except ParseFailure SyntaxTree → List Fact
  | .ok t => Operation.factsOfTree t file generated
  | .error _ => []

/-- Only a text with a sign of an operation (`hasSign`) has to be parsed. -/
theorem Repository.factsOf_some (generated : Table String) (file source : String) :
    Repository.factsOf generated file (some source) =
      if Operation.hasSign source then
        Repository.factsOfParsed generated file (Repository.treeOf file (some source))
      else [] := by
  simp only [Repository.factsOf, Operation.factsOfSource, Repository.treeOf]
  cases parseFile? file source <;> rfl

/-- The answer that follows from the `text` of a file. -/
def Question.answerOf (generated : Table String) (file : String) (text : Option String) :
    Question → Answer
  | .text => .text text
  | .tree => .tree (Repository.treeOf file text)
  | .edges => .edges (Repository.edgesOf (Repository.treeOf file text))
  | .surface => .surface (Repository.surfaceOf (Repository.treeOf file text))
  | .facts => .facts (Repository.factsOf generated file text)

/-- Whatever the session `s` remembers about a file follows from the remembered text. -/
structure Session.Coherent (generated : Table String) (s : Session) : Prop where
  trees : ∀ file a, s.trees.get? file = some a →
    ∃ t, s.texts.get? file = some t ∧ a = Repository.treeOf file t
  edges : ∀ file a, s.edges.get? file = some a →
    ∃ t, s.texts.get? file = some t ∧ a = Repository.edgesOf (Repository.treeOf file t)
  surfaces : ∀ file a, s.surfaces.get? file = some a →
    ∃ t, s.texts.get? file = some t ∧ a = Repository.surfaceOf (Repository.treeOf file t)
  facts : ∀ file a, s.facts.get? file = some a →
    ∃ t, s.texts.get? file = some t ∧ a = Repository.factsOf generated file t

theorem Session.coherent_new (generated : Table String) : Session.Coherent generated {} where
  trees _ _ h := nomatch h
  edges _ _ h := nomatch h
  surfaces _ _ h := nomatch h
  facts _ _ h := nomatch h

section Coherent

variable {generated : Table String} {s : Session} {file : String} {t : Option String}

/-- A `table` keeps to the texts if what is put in follows from the text of its file. -/
theorem follows_insert {α : Type} {texts : Table (Option String)} {table : Table α}
    {v : String → Option String → α}
    (h : ∀ f a, table.get? f = some a → ∃ t, texts.get? f = some t ∧ a = v f t)
    (ht : texts.get? file = some t) (f : String) (a : α)
    (ha : (table.insert file (v file t)).get? f = some a) :
    ∃ t, texts.get? f = some t ∧ a = v f t := by
  by_cases hf : f = file
  · subst hf
    rw [get?_insert_self] at ha
    exact ⟨t, ht, (Option.some.inj ha).symm⟩
  · rw [get?_insert_of_ne _ hf] at ha
    exact h f a ha

/-- A `table` that keeps to the texts keeps to more of them as well. -/
theorem follows_more {α : Type} {texts : Table (Option String)} {table : Table α}
    {v : String → Option String → α}
    (h : ∀ f a, table.get? f = some a → ∃ t, texts.get? f = some t ∧ a = v f t)
    (hnew : texts.get? file = none) (f : String) (a : α) (ha : table.get? f = some a) :
    ∃ u, (texts.insert file t).get? f = some u ∧ a = v f u := by
  obtain ⟨u, hu, hau⟩ := h f a ha
  have hf : f ≠ file := by
    rintro rfl
    rw [hnew] at hu
    cases hu
  exact ⟨u, by rw [get?_insert_of_ne _ hf]; exact hu, hau⟩

theorem Session.Coherent.putText (h : s.Coherent generated) (hnew : s.texts.get? file = none) :
    Session.Coherent generated { s with texts := s.texts.insert file t } where
  trees := follows_more h.trees hnew
  edges := follows_more h.edges hnew
  surfaces := follows_more h.surfaces hnew
  facts := follows_more h.facts hnew

theorem Session.Coherent.putTree (h : s.Coherent generated) (ht : s.texts.get? file = some t) :
    (s.putTree file (Repository.treeOf file t)).Coherent generated where
  trees := follows_insert h.trees ht
  edges := h.edges
  surfaces := h.surfaces
  facts := h.facts

end Coherent

/-! ## Learning and using a text: `Learns` and `Uses` -/

section Looking

variable {generated : Table String} {r : Repository} {file : String} {α β : Type}

/-- The text of `file` as the session `s` tells it. -/
def Repository.toldText (r : Repository) (s : Session) (file : String) :
    Except Fault (Option String) :=
  s.texts.recalled r.reading file

/-- The computation `x` looks at `file` and gives what follows from its text, which is remembered
from then on. The texts of other files stay as they are. -/
def Learns (generated : Table String) (r : Repository) (file : String) (x : Run α)
    (v : Option String → α) : Prop :=
  ∀ s : Session, s.Coherent generated → ∃ s' : Session,
    x.on s = ((r.toldText s file).map v, s') ∧ s'.Coherent generated ∧
    s'.texts.get? file = (r.toldText s file).toOption ∧
    ∀ f, f ≠ file → s'.texts.get? f = s.texts.get? f

/-- Where the text `t` of `file` is remembered, the computation gives `b` and leaves all texts as
they are. -/
def Uses (generated : Table String) (file : String) (t : Option String) (x : Run α) (b : α) : Prop :=
  ∀ s : Session, s.Coherent generated → s.texts.get? file = some t → ∃ s' : Session,
    x.on s = (.ok b, s') ∧ s'.Coherent generated ∧ s'.texts.get? = s.texts.get?

theorem toldText_of_remembered {s : Session} {t : Option String}
    (h : s.texts.get? file = some t) : r.toldText s file = .ok t := by
  rw [Repository.toldText, recalled, h, Option.elim_some]

/-- What follows from a remembered text is what a look at the file gives. -/
theorem told_of_remembered {s s' : Session} {t : Option String} {v : Option String → α}
    (ht : s.texts.get? file = some t) (hs' : s'.Coherent generated) (htexts : s'.texts = s.texts) :
    ∃ s₁ : Session, ((.ok (v t) : Except Fault α), s') = ((r.toldText s file).map v, s₁) ∧
      s₁.Coherent generated ∧ s₁.texts.get? file = (r.toldText s file).toOption ∧
      ∀ f, f ≠ file → s₁.texts.get? f = s.texts.get? f := by
  have htold : r.toldText s file = .ok t := toldText_of_remembered ht
  refine ⟨s', ?_, hs', ?_, ?_⟩
  · rw [htold]
    rfl
  · rw [htold, htexts]
    exact ht
  · intro f _
    rw [htexts]

theorem Uses.pure (generated : Table String) (file : String) (t : Option String) (b : α) :
    Uses generated file t (Pure.pure b) b :=
  fun s hs _ => ⟨s, rfl, hs, rfl⟩

theorem Learns.uses {x : Run α} {v : Option String → α} (h : Learns generated r file x v)
    (t : Option String) : Uses generated file t x (v t) := by
  intro s hs ht
  obtain ⟨s', hrun, hs', htext, hothers⟩ := h s hs
  rw [toldText_of_remembered ht] at hrun htext
  refine ⟨s', hrun, hs', ?_⟩
  funext f
  by_cases hf : f = file
  · rw [hf, ht]
    exact htext
  · exact hothers f hf

/-- Once a file has been looked at, the rest of a computation can use its text. -/
theorem Learns.bind {x : Run α} {v : Option String → α} {f : α → Run β} {w : Option String → β}
    (hx : Learns generated r file x v) (hf : ∀ t, Uses generated file t (f (v t)) (w t)) :
    Learns generated r file (x >>= f) w := by
  intro s hs
  obtain ⟨s₁, hrun, hs₁, htext, hothers⟩ := hx s hs
  rw [ExceptT.on_bind, hrun]
  cases htold : r.toldText s file with
  | error fault =>
      rw [htold] at htext
      exact ⟨s₁, rfl, hs₁, htext, hothers⟩
  | ok t =>
      rw [htold] at htext
      obtain ⟨s₂, hrun₂, hs₂, htexts⟩ := hf t s₁ hs₁ htext
      refine ⟨s₂, hrun₂, hs₂, ?_, ?_⟩
      · rw [htexts]
        exact htext
      · intro f' hne
        rw [htexts]
        exact hothers f' hne

/-- A shelf on which things lie that follow from texts gives what follows from the text. -/
theorem Learns.recall {shelf : Shelf α} {work : Run α} {v : Option String → α}
    (hwork : Learns generated r file work v)
    (hread : ∀ s, Session.Coherent generated s → ∀ a, (shelf.table s).get? file = some a →
      ∃ t, s.texts.get? file = some t ∧ a = v t)
    (hput : ∀ s t, Session.Coherent generated s → s.texts.get? file = some t →
      (shelf.withTable s ((shelf.table s).insert file (v t))).Coherent generated)
    (htexts : ∀ s table, (shelf.withTable s table).texts = s.texts) :
    Learns generated r file (Access.plain.recall shelf file work) v := by
  intro s hs
  rw [recall_on]
  cases hg : (shelf.table s).get? file with
  | some a =>
      obtain ⟨t, ht, rfl⟩ := hread s hs a hg
      exact told_of_remembered ht ⟨hs.trees, hs.edges, hs.surfaces, hs.facts⟩ rfl
  | none =>
      have hmiss : s.countMiss.Coherent generated := ⟨hs.trees, hs.edges, hs.surfaces, hs.facts⟩
      have hstore (t : Option String) : Uses generated file t (do
          modify fun s => shelf.withTable s ((shelf.table s).insert file (v t))
          return v t : Run α) (v t) := by
        intro s hs ht
        refine ⟨_, rfl, hput s t hs ht, ?_⟩
        rw [htexts]
      exact hwork.bind hstore s.countMiss hmiss

/-! ## The operations of a repository: `learns_answer` -/

theorem learns_text (generated : Table String) (r : Repository) (file : String) :
    Learns generated r file (r.text file) id := by
  intro s hs
  rw [Repository.text, Access.text, recall_on]
  cases hg : (Session.textShelf.table s).get? file with
  | some t =>
      exact told_of_remembered (v := id) hg ⟨hs.trees, hs.edges, hs.surfaces, hs.facts⟩ rfl
  | none =>
      have htold : r.toldText s file = r.reading file := by
        rw [Repository.toldText, recalled, show s.texts.get? file = none from hg, Option.elim_none]
      -- reading the disk changes nothing but counts
      obtain ⟨s₁, hread, hs₁, htexts⟩ : ∃ s₁,
          (Access.plain.read r file).on s.countMiss = (r.reading file, s₁) ∧
            s₁.Coherent generated ∧ s₁.texts = s.texts := by
        rcases readDisk_on r file s.countMiss with h | h
        · exact ⟨_, h, ⟨hs.trees, hs.edges, hs.surfaces, hs.facts⟩, rfl⟩
        · exact ⟨_, h, ⟨hs.trees, hs.edges, hs.surfaces, hs.facts⟩, rfl⟩
      have hnew : s₁.texts.get? file = none := htexts ▸ hg
      rw [ExceptT.on_bind, hread, htold]
      cases r.reading file with
      | error fault => exact ⟨s₁, rfl, hs₁, hnew, fun f _ => by rw [htexts]⟩
      | ok t =>
          refine ⟨{ s₁ with texts := s₁.texts.insert file t }, rfl, hs₁.putText hnew,
            get?_insert_self _ _ _, ?_⟩
          intro f hf
          rw [get?_insert_of_ne _ hf, htexts]

theorem learns_tree (generated : Table String) (r : Repository) (file : String) :
    Learns generated r file (r.tree file) (Repository.treeOf file) := by
  intro s hs
  rw [tree_on]
  cases hg : s.trees.get? file with
  | some a =>
      obtain ⟨t, ht, rfl⟩ := hs.trees file a hg
      exact told_of_remembered ht hs rfl
  | none =>
      have hstore (t : Option String) : Uses generated file t (do
          modify (Session.putTree · file (Repository.treeOf file t))
          return Repository.treeOf file t : Run _) (Repository.treeOf file t) :=
        fun s hs ht => ⟨_, rfl, hs.putTree ht, rfl⟩
      exact (learns_text generated r file).bind hstore s hs

theorem learns_edges (generated : Table String) (r : Repository) (file : String) :
    Learns generated r file (r.edges file) fun t =>
      Repository.edgesOf (Repository.treeOf file t) := by
  refine Learns.recall ?_ (fun s hs => hs.edges file) (fun s t hs ht => ?_) (fun _ _ => rfl)
  · refine (learns_tree generated r file).bind fun t => ?_
    cases Repository.treeOf file t <;> exact Uses.pure _ _ _ _
  · exact ⟨hs.trees, follows_insert hs.edges ht, hs.surfaces, hs.facts⟩

theorem learns_surface (generated : Table String) (r : Repository) (file : String) :
    Learns generated r file (r.surface file) fun t =>
      Repository.surfaceOf (Repository.treeOf file t) := by
  refine Learns.recall ?_ (fun s hs => hs.surfaces file) (fun s t hs ht => ?_) (fun _ _ => rfl)
  · refine (learns_tree generated r file).bind fun t => ?_
    cases Repository.treeOf file t <;> exact Uses.pure _ _ _ _
  · exact ⟨hs.trees, hs.edges, follows_insert hs.surfaces ht, hs.facts⟩

theorem learns_facts (generated : Table String) (r : Repository) (file : String) :
    Learns generated r file (r.facts generated file) (Repository.factsOf generated file) := by
  refine Learns.recall ?_ (fun s hs => hs.facts file) (fun s t hs ht => ?_) (fun _ _ => rfl)
  · refine (learns_text generated r file).bind fun t => ?_
    cases t with
    | none => exact Uses.pure _ _ _ _
    | some source =>
        rw [Repository.factsOf_some]
        dsimp only [id]
        split
        · -- the file may have been parsed before, but then from this text
          have htree := learns_tree generated r file
          refine Learns.uses (v := fun t => Repository.factsOfParsed generated file
            (Repository.treeOf file t)) (htree.bind fun t => ?_) (some source)
          cases Repository.treeOf file t <;> exact Uses.pure _ _ _ _
        · exact Uses.pure _ _ _ _
  · exact ⟨hs.trees, hs.edges, hs.surfaces, follows_insert hs.facts ht⟩

/-- **Every answer follows from the text of the file**, by `answerOf`. -/
theorem learns_answer (generated : Table String) (r : Repository) (file : String)
    (question : Question) :
    Learns generated r file (r.answer generated file question) fun t =>
      question.answerOf generated file t := by
  cases question with
  | text => exact (learns_text generated r file).bind fun _ => Uses.pure _ _ _ _
  | tree => exact (learns_tree generated r file).bind fun _ => Uses.pure _ _ _ _
  | edges => exact (learns_edges generated r file).bind fun _ => Uses.pure _ _ _ _
  | surface => exact (learns_surface generated r file).bind fun _ => Uses.pure _ _ _ _
  | facts => exact (learns_facts generated r file).bind fun _ => Uses.pure _ _ _ _

end Looking

/-! ## Events: `respond` -/

namespace Repository

/-- The repository at the time of the first question about `file`. -/
def firstSeen (file : String) : Repository → List Event → Repository
  | r, [] => r
  | r, .ask _ f :: events => if f = file then r else firstSeen file r events
  | r, .change f :: events => firstSeen file (r.changed f) events

variable {generated : Table String} {r : Repository} {file : String} {events : List Event}

theorem firstSeen_root : (r.firstSeen file events).root = r.root := by
  induction events generalizing r with
  | nil => rfl
  | cons event events ih =>
      cases event with
      | ask question f =>
          rw [firstSeen]
          split
          · rfl
          · exact ih
      | change f => exact ih (r := r.changed f)

/-- What comes after a question about a file does not change how the file was first seen. -/
theorem firstSeen_append {question : Question} {early late : List Event} :
    r.firstSeen file (early ++ .ask question file :: late) =
      r.firstSeen file (early ++ [.ask question file]) := by
  induction early generalizing r with
  | nil => simp [firstSeen]
  | cons event early ih =>
      cases event with
      | ask question' f =>
          simp only [List.cons_append, firstSeen, ih]
      | change f => exact ih (r := r.changed f)

/-- Only a path that cannot be used stops `reading`, whatever is on the disk. -/
theorem reading_of_error {r' : Repository} {fault : Fault} (hroot : r'.root = r.root)
    (h : r.reading file = .error fault) : r'.reading file = .error fault := by
  by_cases hzero : '\x00' ∈ (Path.join r.root file).toList
  · rw [reading_of_unusable hzero] at h
    rw [reading_of_unusable (hroot ▸ hzero), ← h]
  · obtain ⟨t, ht⟩ := exists_reading hzero
    rw [ht] at h
    cases h

/-- The answer to the question of an event. -/
def answerSeen? (reading : String → Except Fault (Option String)) (generated : Table String) :
    Event → Option (Except Fault Answer)
  | .ask question file => some ((reading file).map (question.answerOf generated file))
  | .change _ => none

theorem told_now (s : Session) (question : Question) :
    s.texts.recalled (fun f => (r.firstSeen f (.ask question file :: events)).reading f) file =
      r.toldText s file := by
  simp only [recalled, toldText, firstSeen, if_true]

/-- After a question about `file`, its text is told as it was for this question, whether the text is
remembered or the path cannot be used. -/
theorem told_after {s s' : Session} (question : Question) (events : List Event)
    (htext : s'.texts.get? file = (r.toldText s file).toOption)
    (hothers : ∀ f, f ≠ file → s'.texts.get? f = s.texts.get? f) :
    s'.texts.recalled (fun f => (r.firstSeen f events).reading f) =
      s.texts.recalled fun f => (r.firstSeen f (.ask question file :: events)).reading f := by
  funext f
  by_cases hf : f = file
  · subst hf
    rw [told_now, recalled, htext]
    cases htold : r.toldText s f with
    | ok t => rfl
    | error fault =>
        have hreading : r.reading f = .error fault := by
          rw [toldText, recalled] at htold
          cases hg : s.texts.get? f with
          | none =>
              rw [hg] at htold
              exact htold
          | some t =>
              rw [hg] at htold
              cases htold
        exact reading_of_error firstSeen_root hreading
  · have hne : ¬ file = f := fun h => hf h.symm
    simp only [recalled, hothers f hf, firstSeen, hne, if_false]

theorem respond_run (r : Repository) (events : List Event) {s : Session}
    (hs : s.Coherent generated) :
    ((respond generated r events).run s).1 = events.filterMap (answerSeen?
      (s.texts.recalled fun file => (r.firstSeen file events).reading file) generated) := by
  -- events one by one: a question adds at most the text of its file to what is remembered
  induction events generalizing r s with
  | nil => rfl
  | cons event events ih =>
      cases event with
      | change f => exact ih (r.changed f) hs
      | ask question file =>
          obtain ⟨s', hrun, hs', htext, hothers⟩ := learns_answer generated r file question s hs
          have hnext : ((respond generated r (.ask question file :: events)).run s).1 =
              (r.toldText s file).map (question.answerOf generated file) ::
                ((respond generated r events).run s').1 := by
            show ((r.answer generated file question).on s).1 ::
              ((respond generated r events).run ((r.answer generated file question).on s).2).1 = _
            rw [hrun]
          rw [hnext, ih r hs', told_after question events htext hothers, List.filterMap_cons]
          simp only [answerSeen?, told_now]

/-- **All answers about a file speak of the disk as it was at the first question about the file.** They
follow from what reading the file would give on that disk, be it a text, nothing or a fault. Whatever
is done to the disk after a question about a file, and whatever is asked then, the file counts as it
was first seen. -/
theorem answers_as_first_seen (r : Repository) (generated : Table String) (events : List Event) :
    ((respond generated r events).run {}).1 = events.filterMap
      (answerSeen? (fun file => (r.firstSeen file events).reading file) generated) ∧
    ∀ early question file late, events = early ++ .ask question file :: late →
      r.firstSeen file events = r.firstSeen file (early ++ [.ask question file]) := by
  refine ⟨respond_run r events (Session.coherent_new generated), ?_⟩
  rintro early question file late rfl
  exact firstSeen_append

end Repository

end PageReach
