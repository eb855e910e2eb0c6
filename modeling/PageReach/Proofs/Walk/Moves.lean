import Mathlib.Logic.Relation
import PageReach.Proofs.Walk.Reach
import PageReach.Proofs.Walk.State

/-!
# The moves of a walk

A walk is a sequence of small moves (`Move`): a file of the queue is left out or visited, the edges
of a visited file are taken up, a file is pushed, a barrel is opened. Each move says what justifies
it (`Offer`, `Opens`, `Allows`). What holds at the start and is kept by every move holds all along,
whatever the order in which the walk happens to make its moves (`Sound.moves`).
-/

namespace PageReach.Journey

variable (j : Journey Id)

/-! ## Moves: `Move` -/

/-- The followed file `f` leads into a barrel `b` which is at most `barrelHop` hops away. The barrel
is visited already, or else at most one hop farther away than the file. -/
structure Entering (w : Walk) (f : String) (hop : Nat) (e : Edge) (b : String) (barrelHop : Nat) :
    Prop where
  expanded : f ∈ w.expanded
  hops : w.hops.get? f = some hop
  near : hop < Walk.maxHops
  enters : j.Enters f e b
  known : ∃ h, w.hops.get? b = some h ∧ h ≤ barrelHop
  order : b ∈ w.visited ∨ barrelHop ≤ hop + 1

/-- What justifies that a file is pushed by `Walk.push`. -/
inductive Offer (w : Walk) : String → Nat → ParentLink → Prop where
  | edge {f t : String} {hop : Nat} {e : Edge} :
    f ∈ w.expanded → w.hops.get? f = some hop → hop < Walk.maxHops → j.Leads f e t →
      Offer w t (hop + 1) ⟨f, e.specifier, some e.start.line, namesDetail e⟩
  | name {f b n o : String} {hop barrelHop : Nat} {e : Edge} :
    j.Entering w f hop e b barrelHop → j.Asks f e b n (some o) → o ≠ b →
      Offer w o (min (hop + Walk.barrelHops) (barrelHop + 1))
        ⟨b, "re-export:" ++ n, none, some "barrel"⟩

/-- What justifies that a barrel is opened by `Walk.openBarrel`. -/
inductive Opens (w : Walk) : String → Prop where
  | whole {f b : String} {e : Edge} :
    f ∈ w.expanded → j.Enters f e b → e.names = none → Opens w b
  | stuck {f b n : String} {e : Edge} {o : Option String} :
    f ∈ w.expanded → j.Asks f e b n o → o = none ∨ o = some b → Opens w b
  | origin {f b n o : String} {e : Edge} :
    f ∈ w.expanded → j.Asks f e b n (some o) → o ≠ b → j.IsBarrel o → Opens w o

/-- The edges of `file` may be followed as things are. -/
def Allows (w : Walk) (file : String) : Prop :=
  ¬ j.IsBarrel file ∨ file = j.entry ∨ file ∈ w.opened

/-- The walk with the edges of `file` taken up; at the limit of hops they are dropped. -/
def takeUp (w : Walk) (file : String) (hop : Nat) : Walk :=
  { w with
    expanded := file :: w.expanded
    truncated := w.truncated ||
      (decide (Walk.maxHops ≤ hop) && !(j.graph.edges file).run.isEmpty) }

/-- A single move. -/
inductive Move : Walk → Walk → Prop where
  | push {w : Walk} {file : String} {hop : Nat} {link : ParentLink} :
    j.Offer w file hop link → Move w (w.push file hop (some link))
  | opening {w : Walk} {b : String} : j.Opens w b → Move w (w.openBarrel b)
  | takeUp {w : Walk} {f : String} {hop : Nat} :
    f ∈ w.visited → f ∉ w.expanded → w.hops.get? f = some hop → j.Allows w f →
      Move w (j.takeUp w f hop)
  | skip {w : Walk} {hop : Nat} {f : String} {rest : List (Nat × String)} :
    w.queue = (hop, f) :: rest → f ∈ w.visited → Move w { w with queue := rest }
  | visit {w : Walk} {hop : Nat} {f : String} {rest : List (Nat × String)} :
    w.queue = (hop, f) :: rest → f ∉ w.visited → w.visited.length < j.limit →
      Move w (Walk.visit { w with queue := rest } f hop ((j.facts.get? f).getD []))

/-- Any number of moves, one `Move` after the other. -/
abbrev Moves : Walk → Walk → Prop := Relation.ReflTransGen j.Move

/-- The walk before its first move. -/
def start : Walk := ({} : Walk).push j.entry 0 none

/-! ## What every walk keeps: `Sound` -/

/-- What holds of a walk after any moves. -/
structure Sound (w : Walk) : Prop where
  nodup : w.visited.Nodup
  ordered : Walk.Ordered w.queue
  /-- Files of the queue are known to be as near as they stand there. -/
  queued : ∀ h f, (h, f) ∈ w.queue → ∃ h', w.hops.get? f = some h' ∧ h' ≤ h
  /-- What is known but not visited waits in the queue. -/
  waiting : ∀ f h, w.hops.get? f = some h → f ∉ w.visited → (h, f) ∈ w.queue
  known : ∀ f ∈ w.visited, ∃ h, w.hops.get? f = some h
  near : ∀ f h, w.hops.get? f = some h → h ≤ Walk.maxHops + 1
  reaches : ∀ f h, w.hops.get? f = some h → j.Reaches f
  expanded_nodup : w.expanded.Nodup
  expanded_visited : ∀ f ∈ w.expanded, f ∈ w.visited
  follows : ∀ f ∈ w.expanded, j.Follows f
  opened : ∀ b ∈ w.opened, j.Follows b

variable {j} {w w' : Walk}

theorem start_eq : j.start =
    { hops := Table.empty.insert j.entry 0, queue := [(0, j.entry)] } := rfl

theorem get?_hops_start {f : String} {h : Nat} :
    j.start.hops.get? f = some h ↔ f = j.entry ∧ h = 0 := by
  rw [start_eq, Table.get?_insert, Table.get?_empty]
  by_cases hf : f = j.entry
  · simp [hf, eq_comm]
  · simp [hf]

theorem sound_start : j.Sound j.start where
  nodup := List.nodup_nil
  ordered := List.pairwise_singleton _ _
  queued h f hq := by
    obtain ⟨rfl, rfl⟩ : h = 0 ∧ f = j.entry := by simpa [start_eq] using hq
    exact ⟨0, get?_hops_start.mpr ⟨rfl, rfl⟩, Nat.le_refl _⟩
  waiting f h hf _ := by
    obtain ⟨rfl, rfl⟩ := get?_hops_start.mp hf
    exact List.mem_singleton.mpr rfl
  known f hf := absurd hf List.not_mem_nil
  near f h hf := by
    obtain ⟨-, rfl⟩ := get?_hops_start.mp hf
    exact Nat.zero_le _
  reaches f h hf := by
    obtain ⟨rfl, -⟩ := get?_hops_start.mp hf
    exact .entry _
  expanded_nodup := List.nodup_nil
  expanded_visited f hf := absurd hf List.not_mem_nil
  follows f hf := absurd hf List.not_mem_nil
  opened b hb := absurd hb List.not_mem_nil

/-! ### Justifications: `Offer`, `Opens` and `Allows` -/

/-- What is pushed is to be reached (`Reaches`), and not too far away. -/
theorem Sound.offer (hw : j.Sound w) {file : String} {hop : Nat} {link : ParentLink}
    (h : j.Offer w file hop link) : j.Reaches file ∧ hop ≤ Walk.maxHops + 1 := by
  cases h with
  | edge hf _ hnear hl => exact ⟨.edge (hw.follows _ hf) hl, by omega⟩
  | name he ha hne =>
      refine ⟨.origin (hw.follows _ he.expanded) ha hne, ?_⟩
      have := he.near
      simp only [Walk.barrelHops]
      omega

/-- What is opened is to be followed (`Follows`). -/
theorem Sound.opens (hw : j.Sound w) {b : String} (h : j.Opens w b) : j.Follows b := by
  cases h with
  | whole hf he hn => exact .whole (hw.follows _ hf) he hn
  | stuck hf ha ho => exact .stuck (hw.follows _ hf) ha ho
  | origin hf ha hne hb => exact .barrel (hw.follows _ hf) ha hne hb

/-- What may be taken up is to be followed (`Follows`). -/
theorem Sound.allows (hw : j.Sound w) {f : String} (hf : f ∈ w.visited) (h : j.Allows w f) :
    j.Follows f := by
  obtain ⟨hop, hhop⟩ := hw.known f hf
  rcases h with h | rfl | h
  · exact .plain (hw.reaches f hop hhop) h
  · exact .entry _
  · exact hw.opened f h

/-- A file that comes up in the `queue` for the first time stands there with its hops. -/
theorem Sound.head_hops (hw : j.Sound w) {hop : Nat} {f : String} {rest : List (Nat × String)}
    (hq : w.queue = (hop, f) :: rest) (hf : f ∉ w.visited) : w.hops.get? f = some hop := by
  obtain ⟨h, hh, hle⟩ := hw.queued hop f (hq ▸ List.mem_cons_self)
  have hmem : (h, f) ∈ (hop, f) :: rest := hq ▸ hw.waiting f h hh hf
  have hge : hop ≤ h := Walk.Ordered.head_le (hq ▸ hw.ordered) hmem
  rw [hh, Nat.le_antisymm hle hge]

/-! ### Moves keep what holds: `Sound.moves` -/

theorem Sound.push (hw : j.Sound w) {file : String} {hop : Nat} {link : ParentLink}
    (h : j.Offer w file hop link) : j.Sound (w.push file hop (some link)) := by
  by_cases ht : w.Takes file hop
  · obtain ⟨hreach, hnear⟩ := hw.offer h
    rw [Walk.push_of_takes ht]
    refine ⟨hw.nodup, hw.ordered.enqueue, ?_, ?_, ?_, ?_, ?_, hw.expanded_nodup,
      hw.expanded_visited, hw.follows, hw.opened⟩
    · intro h' f hq
      rcases Walk.mem_enqueue.mp hq with heq | hold
      · cases heq
        exact ⟨hop, Table.get?_insert_self _ _ _, Nat.le_refl _⟩
      · by_cases hf : f = file
        · subst hf
          obtain ⟨h'', hh, hle⟩ := hw.queued h' f hold
          have := ht.2 h'' hh
          exact ⟨hop, Table.get?_insert_self _ _ _, by omega⟩
        · rw [Table.get?_insert_of_ne _ hf]
          exact hw.queued h' f hold
    · intro f h' hh hf
      by_cases hfile : f = file
      · subst hfile
        rw [Table.get?_insert_self] at hh
        cases hh
        exact Walk.mem_enqueue.mpr (.inl rfl)
      · rw [Table.get?_insert_of_ne _ hfile] at hh
        exact Walk.mem_enqueue.mpr (.inr (hw.waiting f h' hh hf))
    · intro f hf
      have hfile : f ≠ file := fun e => ht.1 (e ▸ hf)
      rw [Table.get?_insert_of_ne _ hfile]
      exact hw.known f hf
    · intro f h' hh
      by_cases hfile : f = file
      · subst hfile
        rw [Table.get?_insert_self] at hh
        cases hh
        exact hnear
      · rw [Table.get?_insert_of_ne _ hfile] at hh
        exact hw.near f h' hh
    · intro f h' hh
      by_cases hfile : f = file
      · exact hfile ▸ hreach
      · rw [Table.get?_insert_of_ne _ hfile] at hh
        exact hw.reaches f h' hh
  · rw [Walk.push_of_not_takes ht]
    exact hw

theorem Sound.move (hw : j.Sound w) (h : j.Move w w') : j.Sound w' := by
  cases h with
  | push h => exact hw.push h
  | @opening b hb =>
      refine ⟨by simpa using hw.nodup, by simpa using hw.ordered, by simpa using hw.queued,
        by simpa using hw.waiting, by simpa using hw.known, by simpa using hw.near,
        by simpa using hw.reaches, by simpa using hw.expanded_nodup,
        by simpa using hw.expanded_visited, by simpa using hw.follows, ?_⟩
      intro b' hb'
      rcases Walk.mem_opened_openBarrel.mp hb' with rfl | hb'
      · exact hw.opens hb
      · exact hw.opened b' hb'
  | takeUp hv he _ ha =>
      refine ⟨hw.nodup, hw.ordered, hw.queued, hw.waiting, hw.known, hw.near, hw.reaches,
        List.nodup_cons.mpr ⟨he, hw.expanded_nodup⟩, ?_, ?_, hw.opened⟩
      · intro f' hf'
        rcases List.mem_cons.mp hf' with rfl | hf'
        · exact hv
        · exact hw.expanded_visited f' hf'
      · intro f' hf'
        rcases List.mem_cons.mp hf' with rfl | hf'
        · exact hw.allows hv ha
        · exact hw.follows f' hf'
  | @skip hop f rest hq hf =>
      refine ⟨hw.nodup, (List.pairwise_cons.mp (hq ▸ hw.ordered)).2, ?_, ?_, hw.known, hw.near,
        hw.reaches, hw.expanded_nodup, hw.expanded_visited, hw.follows, hw.opened⟩
      · intro h f' hq'
        exact hw.queued h f' (hq ▸ List.mem_cons_of_mem _ hq')
      · intro f' h hh hf'
        rcases List.mem_cons.mp (hq ▸ hw.waiting f' h hh hf') with heq | hmem
        · cases heq
          exact absurd hf hf'
        · exact hmem
  | @visit hop f rest hq hf hlimit =>
      refine ⟨?_, (List.pairwise_cons.mp (hq ▸ hw.ordered)).2, ?_, ?_, ?_, hw.near,
        hw.reaches, hw.expanded_nodup, ?_, hw.follows, hw.opened⟩
      · exact List.nodup_append.mpr ⟨hw.nodup, List.pairwise_singleton _ f, fun a ha b hb hab =>
          hf (List.mem_singleton.mp hb ▸ hab ▸ ha)⟩
      · intro h f' hq'
        exact hw.queued h f' (hq ▸ List.mem_cons_of_mem _ hq')
      · intro f' h hh hf'
        have hnot : f' ∉ w.visited ∧ f' ≠ f := by
          simpa [Walk.visit, not_or] using hf'
        rcases List.mem_cons.mp (hq ▸ hw.waiting f' h hh hnot.1) with heq | hmem
        · cases heq
          exact absurd rfl hnot.2
        · exact hmem
      · intro f' hf'
        rcases List.mem_append.mp hf' with hf' | hf'
        · exact hw.known f' hf'
        · rw [List.mem_singleton.mp hf']
          exact ⟨hop, hw.head_hops hq hf⟩
      · intro f' hf'
        exact List.mem_append_left _ (hw.expanded_visited f' hf')

/-- **What holds at the start holds after any moves.** -/
theorem Sound.moves (hw : j.Sound w) (h : j.Moves w w') : j.Sound w' := by
  induction h with
  | refl => exact hw
  | tail _ hmove ih => exact ih.move hmove

end PageReach.Journey
