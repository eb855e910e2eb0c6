import PageReach.Proofs.Module.Resolver
import PageReach.Proofs.Session
import PageReach.Proofs.Walk.Completeness
import PageReach.Reach.Engine

/-!
# The walks of an engine

An engine walks in a session, which may know something already and may meet a fault. What it does
there is described by a plain journey that is made from the repository alone.

* **Sessions** (`answers`, `Faithful`): a faithful session remembers nothing but what a new one
  would find out.
* **The plain journey** (`answered`, `plain`, `answered_matches_plain`): the journey on the answers
  of a new session, with and without faults.
* **Walks** (`ended_of_walk`, `Safe.walk`): every walk that comes back is the walk of that journey,
  and it comes back unless a specifier cannot be resolved or a path cannot be used (`Safe`).
* **Visits** (`walk_visits_reached`): a walk visits what is to be reached.
-/

namespace PageReach

/-! ## Answers without faults: `Answers.plain` -/

namespace Answers

/-- The module graph of the plain answers `A` with nothing in the place of faults. -/
def plain (A : Answers) : Graph Id where
  edges f := (A.edges f).toOption.getD []
  surface f := (A.surface f).toOption.getD .unknown
  resolve f specifier := (A.resolve f specifier).toOption.getD none

variable {A : Answers} {T : Prop} {f specifier : String}

theorem yields_default {α : Type} {x : Except Fault α} (a : α) (h : T → ∃ b, x = .ok b) :
    Yields T x (x.toOption.getD a) fun _ => True := by
  cases x with
  | ok b => exact ⟨rfl, trivial⟩
  | error fault =>
      intro hT
      obtain ⟨b, hb⟩ := h hT
      exact nomatch hb

theorem yields_edges (h : T → ∃ es, A.edges f = .ok es) :
    Yields T (A.graph.edges f) (A.plain.edges f) fun _ => True :=
  yields_default [] h

theorem yields_surface (h : T → ∃ x, A.surface f = .ok x) :
    Yields T (A.graph.surface f) (A.plain.surface f) fun _ => True :=
  yields_default Surface.unknown h

theorem yields_resolve (h : T → ∃ t, A.resolve f specifier = .ok t) :
    Yields T (A.graph.resolve f specifier) (A.plain.resolve f specifier) fun _ => True :=
  yields_default none h

theorem resolve_of_plain {target : String} (h : (A.plain.resolve f specifier).run = some target) :
    A.resolve f specifier = .ok (some target) := by
  have h' : (A.resolve f specifier).toOption.getD none = some target := h
  cases hres : A.resolve f specifier with
  | error fault =>
      rw [hres] at h'
      exact nomatch h'
  | ok t =>
      rw [hres] at h'
      exact congrArg _ h'

end Answers

namespace Engine

variable {e : Engine} {entry : String} {facts : Table (List Fact)} {s s' : Session} {w : Walk}

/-! ## `Faithful` sessions -/

/-- What a new session of the engine `e` answers. -/
def answers (e : Engine) : Answers := e.repository.answers e.resolver {}

/-- The session `s` remembers nothing but what a new one would find out. -/
def Faithful (e : Engine) (s : Session) : Prop := e.repository.answers e.resolver s = e.answers

theorem faithful_new (e : Engine) : e.Faithful {} := rfl

/-! ### New sessions: `answers` -/

theorem answers_tree (e : Engine) (f : String) :
    e.answers.tree f = (e.repository.reading f).map (Repository.treeOf f) := by
  simp only [answers, Repository.answers, Table.recalled, Table.get?_empty, Option.elim_none]

theorem answers_edges (e : Engine) (f : String) :
    e.answers.edges f = (e.answers.tree f).map Repository.edgesOf := by
  simp only [answers, Repository.answers, Table.recalled, Table.get?_empty, Option.elim_none]

theorem answers_surface (e : Engine) (f : String) :
    e.answers.surface f = (e.answers.tree f).map Repository.surfaceOf := by
  simp only [answers, Repository.answers, Table.recalled, Table.get?_empty, Option.elim_none]

theorem answers_resolve {specifier : String} (h : specifier ≠ "") (f : String) :
    e.answers.resolve f specifier = e.resolver.resolve f specifier := by
  rw [Resolver.resolve_eq]
  simp [answers, Repository.answers, h, Session.resolution?]

/-- A specifier leads to an indexed file, or nowhere. -/
theorem mem_index_of_resolve {file specifier target : String}
    (h : e.answers.resolve file specifier = .ok (some target)) : target ∈ e.index.files := by
  by_cases hempty : specifier = ""
  · simp [answers, Repository.answers, hempty] at h
  · rw [answers_resolve hempty] at h
    exact Resolver.mem_of_resolveVia h

/-! ## The `plain` journey -/

/-- The journey on the plain `answers`, which may fail. -/
def answered (e : Engine) (entry : String) (facts : Table (List Fact)) :
    Journey (Except Fault) where
  graph := e.answers.graph
  entry := entry
  facts := facts
  fileCount := e.index.files.length
  limit := e.limit

/-- The journey on the plain `answers`, with nothing in the place of faults. -/
def plain (e : Engine) (entry : String) (facts : Table (List Fact)) : Journey Id where
  graph := e.answers.plain
  entry := entry
  facts := facts
  fileCount := e.index.files.length
  limit := e.limit

/-- Nothing can go wrong in a walk: all specifiers that stand in the entry and the indexed files can
be resolved, be it to nothing, and no path holds a zero character. -/
structure Safe (e : Engine) (entry : String) : Prop where
  resolves : ∀ f ∈ entry :: e.index.files, ∀ specifier, e.answers.plain.Cites f specifier →
    ∃ t, e.resolver.resolve f specifier = .ok t
  usable : ∀ f ∈ entry :: e.index.files, '\x00' ∉ (Path.join e.repository.root f).toList

theorem Safe.tree (h : e.Safe entry) {f : String} (hf : f ∈ entry :: e.index.files) :
    ∃ t, e.answers.tree f = .ok t := by
  obtain ⟨text, htext⟩ := Repository.exists_reading (h.usable f hf)
  rw [answers_tree, htext]
  exact ⟨_, rfl⟩

theorem Safe.edges (h : e.Safe entry) {f : String} (hf : f ∈ entry :: e.index.files) :
    ∃ t, e.answers.edges f = .ok t := by
  obtain ⟨t, ht⟩ := h.tree hf
  rw [answers_edges, ht]
  exact ⟨_, rfl⟩

theorem Safe.surface (h : e.Safe entry) {f : String} (hf : f ∈ entry :: e.index.files) :
    ∃ t, e.answers.surface f = .ok t := by
  obtain ⟨t, ht⟩ := h.tree hf
  rw [answers_surface, ht]
  exact ⟨_, rfl⟩

theorem Safe.resolve (h : e.Safe entry) {f specifier : String} (hf : f ∈ entry :: e.index.files)
    (hcites : e.answers.plain.Cites f specifier) :
    ∃ t, e.answers.resolve f specifier = .ok t := by
  by_cases hempty : specifier = ""
  · exact ⟨none, by simp [answers, Repository.answers, hempty]⟩
  · rw [answers_resolve hempty]
    exact h.resolves f hf specifier hcites

/-- The journey `plain` says what `answered` says, whatever fuel `n` there is beyond enough. -/
theorem answered_matches_plain (e : Engine) (entry : String) (facts : Table (List Fact)) {T : Prop}
    (hT : T → e.Safe entry) {n : Nat} (hn : e.index.files.length ≤ n) :
    Journey.Matches T ((e.answered entry facts).withRoom n) (e.plain entry facts)
      e.index.files where
  entry := rfl
  facts := rfl
  limit := rfl
  edges _ hf := Answers.yields_edges fun h => (hT h).edges hf
  surface _ hf := Answers.yields_surface fun h => (hT h).surface hf
  resolve _ hf _ hcites := Answers.yields_resolve fun h => (hT h).resolve hf hcites
  leads _ _ _ ht := mem_index_of_resolve (Answers.resolve_of_plain ht)
  room := hn
  room' := Nat.le_refl _

/-! ## Walks in a session: `walk` -/

theorem walk_gives (e : Engine) (entry : String) (facts : Table (List Fact)) (n : Nat) :
    Gives e.repository e.resolver e.answers ((e.journey entry facts).withRoom n).walk
      ((e.answered entry facts).withRoom n).walk :=
  Simulation.Journeys.walk (S := giving e.repository e.resolver e.answers)
    { graph := giving_graph _ _ _
      entry := (rfl : entry = entry)
      facts := (rfl : facts = facts)
      fileCount := (rfl : n = n)
      limit := (rfl : e.limit = e.limit) }

/-- A walk that comes back is `Ended` in the plain journey. -/
theorem ended_of_walk (hs : e.Faithful s) (h : (e.walk entry facts).on s = (.ok w, s')) :
    (e.plain entry facts).Ended w ∧ e.Faithful s' := by
  obtain ⟨s'', hrun, hs''⟩ := walk_gives e entry facts e.index.files.length s hs
  obtain ⟨hw, rfl⟩ := Prod.mk.inj (h.symm.trans hrun)
  have hyields := Journey.walk_yields
    (answered_matches_plain e entry facts (T := False) nofun (Nat.le_refl _))
  rw [← hw] at hyields
  exact ⟨hyields.2, hs''⟩

/-- If nothing can go wrong (`Safe`), the walk comes back, and more fuel would not change it. -/
theorem Safe.walk (h : e.Safe entry) (hs : e.Faithful s) (facts : Table (List Fact)) {n : Nat}
    (hn : e.index.files.length ≤ n) :
    ∃ s', ((e.journey entry facts).withRoom n).walk.on s =
      (.ok (e.plain entry facts).walk.run, s') ∧ e.Faithful s' := by
  obtain ⟨s', hrun, hs'⟩ := walk_gives e entry facts n s hs
  have hyields := Journey.walk_yields
    (answered_matches_plain e entry facts (T := True) (fun _ => h) hn)
  refine ⟨s', ?_, hs'⟩
  rw [hrun, hyields.eq_ok.1]

/-! ## Small repositories: `ofTexts` -/

/-- The engine of a repository that holds the given `files`. -/
def ofTexts (files : List (String × String)) : Engine where
  repository :=
    { disk := files.foldl (fun d f => d.write ("/" ++ f.1) f.2.toUTF8) .empty, root := "/" }
  resolver := { index := ⟨files.map (·.1)⟩ }

theorem ofTexts_safe {files : List (String × String)}
    (h : ∀ f ∈ entry :: (ofTexts files).index.files, '\x00' ∉ (Path.join "/" f).toList) :
    (ofTexts files).Safe entry where
  resolves f _ specifier _ := by
    unfold Resolver.resolve Resolver.resolveVia
    split
    · exact ⟨none, rfl⟩
    · exact ⟨_, rfl⟩
  usable := h

/-- A barrel with two names, one of which is asked for, in files that import one another. -/
def barrelInCircle : List (String × String) :=
  [("a.ts", "import { x } from './b';\n"),
    ("b.ts", "export { x } from './c';\nexport { y } from './d';\n"),
    ("c.ts", "import './a';\nexport const x = 1;\n"),
    ("d.ts", "export const y = 1;\n")]

/-- The walk around `barrelInCircle`, which leaves out where the other name comes from. -/
theorem walk_circle :
    ∃ w s', ((ofTexts barrelInCircle).walk "a.ts" .empty).on {} = (.ok w, s') ∧
      w.truncated = false ∧ w.visited = ["a.ts", "b.ts", "c.ts"] ∧
      w.hops.entries = [("a.ts", 0), ("b.ts", 1), ("c.ts", 2)] ∧
      (Evidence.chain w.parents "a.ts" "c.ts").length = 2 := by
  have heval : (((ofTexts barrelInCircle).walk "a.ts" .empty).on {}).1.toOption.map
      (fun w => (w.truncated, w.visited, w.hops.entries,
        (Evidence.chain w.parents "a.ts" "c.ts").length)) =
      some (false, ["a.ts", "b.ts", "c.ts"], [("a.ts", 0), ("b.ts", 1), ("c.ts", 2)], 2) := by
    decide +kernel
  obtain ⟨w, s', hrun, hw⟩ := ExceptT.exists_on heval
  simp only [Prod.mk.injEq] at hw
  exact ⟨w, s', hrun, hw⟩

/-! ## What a walk visits -/

/-- **A walk visits what is to be reached.** If nothing can go wrong (`Safe`), it comes back, and
fuel is never what ends it. It visits files once and only such as are to be reached, and if it is
not truncated, all of these. So the order of edges does not matter, and a barrel which is asked only
for names from elsewhere is not followed to anything. -/
theorem walk_visits_reached (e : Engine) (entry : String) (facts : Table (List Fact)) (s : Session)
    (hsafe : e.Safe entry) (hs : e.Faithful s) :
    ∃ w,
      (∃ s', (e.walk entry facts).on s = (.ok w, s') ∧ e.Faithful s') ∧
      (∀ n, e.index.files.length ≤ n → ∃ s',
        ((e.journey entry facts).withRoom n).walk.on s = (.ok w, s') ∧ e.Faithful s') ∧
      (w.queue = [] ∨ w.truncated = true) ∧
      w.visited.Nodup ∧
      (∀ f ∈ w.visited, (e.plain entry facts).Reaches f) ∧
      (w.truncated = false → ∀ f, (e.plain entry facts).Reaches f → f ∈ w.visited) ∧
      (w.truncated = false → ∀ (e₂ : Engine) facts₂ s₂ w₂ s₂', e₂.Faithful s₂ →
        (e.plain entry facts).Reordered (e₂.plain entry facts₂) →
        (e₂.walk entry facts₂).on s₂ = (.ok w₂, s₂') → w₂.truncated = false →
        ∀ f, f ∈ w.visited ↔ f ∈ w₂.visited) ∧
      ∀ b, (e.plain entry facts).Bypassed b → b ∉ w.expanded ∧ ∀ f ∈ w.visited, f ≠ entry →
        (∃ p x, p ≠ b ∧ (e.plain entry facts).Follows p ∧ (e.plain entry facts).Leads p x f) ∨
        ∃ p x b' n, (e.plain entry facts).Follows p ∧
          (e.plain entry facts).Asks p x b' n (some f) ∧ f ≠ b' := by
  obtain ⟨s', hrun, hs'⟩ := hsafe.walk hs facts (Nat.le_refl _)
  obtain ⟨hended, -⟩ := ended_of_walk hs hrun
  refine ⟨_, ⟨s', hrun, hs'⟩, fun n hn => hsafe.walk hs facts hn, hended.empty_or_truncated,
    hended.nodup, fun f hf => hended.reaches hf, fun ht f hf => (hended.complete ht hf).1, ?_, ?_⟩
  · intro ht e₂ facts₂ s₂ w₂ s₂' hs₂ hsame hrun₂ ht₂ f
    exact hsame.mem_visited_iff hended (ended_of_walk hs₂ hrun₂).1 ht ht₂
  · intro b hb
    refine ⟨fun hmem => hb.not_follows (hended.follows hmem), fun f hf hne => ?_⟩
    rcases (hended.reaches hf).from_followed hne with ⟨p, x, hp, hl⟩ | horigin
    · exact .inl ⟨p, x, fun heq => hb.not_follows (heq ▸ hp), hp, hl⟩
    · exact .inr horigin

/-- A barrel is asked for one of its two names, and the files import one another in a circle: what
the other name comes from is left out. -/
theorem walk_visits_reached_of_circle :
    (ofTexts barrelInCircle).Safe "a.ts" ∧
      ∃ w s', ((ofTexts barrelInCircle).walk "a.ts" .empty).on {} = (.ok w, s') ∧
        w.visited = ["a.ts", "b.ts", "c.ts"] ∧
        ∀ f, ((ofTexts barrelInCircle).plain "a.ts" .empty).Reaches f ↔ f ∈ w.visited := by
  have hsafe : (ofTexts barrelInCircle).Safe "a.ts" := ofTexts_safe (by decide +kernel)
  obtain ⟨w, s', hrun, ht, hvisited, -, -⟩ := walk_circle
  obtain ⟨w', ⟨s'', hrun', -⟩, -, -, -, hsound, hcomplete, -⟩ :=
    walk_visits_reached (ofTexts barrelInCircle) "a.ts" .empty {} hsafe (faithful_new _)
  cases hrun.symm.trans hrun'
  exact ⟨hsafe, w, s', hrun, hvisited, fun f => ⟨hcomplete ht f, hsound f⟩⟩

end Engine

end PageReach
