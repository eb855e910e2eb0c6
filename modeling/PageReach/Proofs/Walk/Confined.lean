import PageReach.Proofs.Walk.State

/-!
# Walks stay inside

A walk asks about its entry and about files to which specifiers have led it, and about no others. So
what holds of the entry and of all files to which specifiers lead holds of every file that the walk
asks about (`Confined.walk`). Nothing has to be known for this but how computations are put together
(`Assertion`), and it is proved for every function that a walk is made of.
-/

namespace PageReach

variable {m : Type → Type} [Monad m]

/-- Assertions about computations and their outcomes that go along with `pure` and `bind`. -/
structure Assertion (m : Type → Type) [Monad m] where
  Holds : {α : Type} → m α → (α → Prop) → Prop
  pure : ∀ {α : Type} {P : α → Prop} {a : α}, P a → Holds (Pure.pure a) P
  bind : ∀ {α β : Type} {P : α → Prop} {Q : β → Prop} {x : m α} {f : α → m β},
    Holds x P → (∀ a, P a → Holds (f a) Q) → Holds (x >>= f) Q

/-- All files of the queue are in `K`, and all visited ones in `V` as well. -/
structure Walk.Inside (K V : String → Prop) (w : Walk) : Prop where
  queued : ∀ q ∈ w.queue, K q.2
  visited : ∀ f ∈ w.visited, K f ∧ V f

namespace Walk.Inside

variable {K V : String → Prop} {w : Walk} {file : String} {hop : Nat}

theorem push (h : w.Inside K V) (hfile : K file) (link : Option ParentLink) :
    (w.push file hop link).Inside K V := by
  unfold Walk.push
  split
  · exact h
  · refine ⟨?_, h.visited⟩
    intro q hq
    rcases mem_enqueue.mp hq with rfl | hq
    · exact hfile
    · exact h.queued q hq

theorem openBarrel (h : w.Inside K V) : (w.openBarrel file).Inside K V := by
  rw [Walk.openBarrel]
  split
  · exact h
  · exact ⟨h.queued, h.visited⟩

theorem visit (h : w.Inside K V) (hK : K file) (hV : V file) (facts : List Fact) :
    (w.visit file hop facts).Inside K V := by
  refine ⟨h.queued, ?_⟩
  intro f hf
  rcases List.mem_append.mp hf with hf | hf
  · exact h.visited f hf
  · rw [List.mem_singleton.mp hf]
    exact ⟨hK, hV⟩

end Walk.Inside

namespace Assertion

variable (L : Assertion m)

theorem foldlM {α β : Type} {I : α → Prop} {f : α → β → m α}
    (h : ∀ a b, I a → L.Holds (f a b) I) (bs : List β) {a : α} (ha : I a) :
    L.Holds (bs.foldlM f a) I := by
  induction bs generalizing a with
  | nil => exact L.pure ha
  | cons b bs ih =>
      rw [List.foldlM_cons]
      exact L.bind (h a b ha) fun a' ha' => ih ha'

/-- A graph `g` can be asked about files in `K`. Specifiers lead from them to such files only, and a
file whose surface is told is in `V`. -/
structure Confined (g : Graph m) (K V : String → Prop) : Prop where
  edges : ∀ f, K f → L.Holds (g.edges f) fun _ => True
  surface : ∀ f, K f → L.Holds (g.surface f) fun _ => V f
  resolve : ∀ f specifier, K f → L.Holds (g.resolve f specifier) fun t => ∀ target ∈ t, K target

variable {L} {g : Graph m} {K V : String → Prop}

theorem Confined.isPureBarrel (H : L.Confined g K V) {file : String} (hfile : K file) :
    L.Holds (g.isPureBarrel file) fun _ => V file :=
  L.bind (H.surface file hfile) fun _ hV => L.pure hV

/-! ## Searches: `Origin.search` -/

theorem Confined.throughStars (H : L.Confined g K V) {file : String} (hfile : K file)
    {follow : String → List String → m Origin.Search}
    (hfollow : ∀ target visited, K target →
      L.Holds (follow target visited) fun found => ∀ o ∈ found.origin, K o)
    (stars visited : List String) :
    L.Holds (Origin.throughStars g file follow stars visited)
      fun found => ∀ o ∈ found.origin, K o := by
  induction stars generalizing visited with
  | nil => exact L.pure nofun
  | cons star stars ih =>
      refine L.bind (H.resolve file star hfile) fun t ht => ?_
      cases t with
      | none => exact ih visited
      | some target =>
          refine L.bind (hfollow target visited (ht target rfl)) fun found hfound => ?_
          cases horigin : found.origin with
          | some _ => exact L.pure hfound
          | none => exact ih found.visited

theorem Confined.search (H : L.Confined g K V) (fuel : Nat) {file : String} (hfile : K file)
    (name : String) (visited : List String) :
    L.Holds (Origin.search g fuel file name visited) fun found => ∀ o ∈ found.origin, K o := by
  induction fuel generalizing file name visited with
  | zero => exact L.pure nofun
  | succ fuel ih =>
      rw [Origin.search_succ]
      split
      · exact L.pure nofun
      · refine L.bind (H.surface file hfile) fun surface _ => ?_
        split
        · refine L.pure ?_
          rintro o ⟨⟩
          exact hfile
        · split
          · exact H.throughStars hfile (fun target visited htarget => ih htarget name visited) _ _
          · refine L.bind (H.resolve file _ hfile) fun t ht => ?_
            cases t with
            | none => exact L.pure nofun
            | some target =>
                have htarget : K target := ht target rfl
                have hfound : ∀ o ∈ some target, K o := by
                  rintro o ⟨⟩
                  exact htarget
                dsimp only
                split
                · exact L.pure hfound
                · refine L.bind (H.isPureBarrel htarget) fun barrel _ => ?_
                  cases barrel with
                  | false => exact L.pure hfound
                  | true => exact ih htarget _ _

/-! ## Walks: `Journey.walk` -/

variable {j : Journey m} {ex : String → Nat → Walk → m Walk} {w : Walk}

theorem Confined.origin (H : L.Confined j.graph K V) {barrel : String} (hbarrel : K barrel)
    (name : String) : L.Holds (j.origin barrel name) fun t => ∀ o ∈ t, K o :=
  L.bind (H.search _ hbarrel name []) fun _ hfound => L.pure hfound

theorem reopen
    (hex : ∀ file hop w, K file → w.Inside K V → L.Holds (ex file hop w) (Walk.Inside K V))
    {file : String} (hfile : K file) (hw : w.Inside K V) :
    L.Holds (Journey.reopen ex file w) (Walk.Inside K V) := by
  rw [Journey.reopen]
  split
  · exact hex _ _ _ hfile hw.openBarrel
  · exact L.pure hw.openBarrel

theorem Confined.followName (H : L.Confined j.graph K V)
    (hex : ∀ file hop w, K file → w.Inside K V → L.Holds (ex file hop w) (Walk.Inside K V))
    {barrel : String} (hbarrel : K barrel) (hop barrelHop : Nat) (state : Walk × Bool)
    (name : String) (hw : state.1.Inside K V) :
    L.Holds (j.followName ex barrel hop barrelHop state name) fun s => s.1.Inside K V := by
  refine L.bind (H.origin hbarrel name) fun o ho => ?_
  cases o with
  | none => exact L.pure hw
  | some file =>
      have hfile : K file := ho file rfl
      dsimp only
      split
      · exact L.pure hw
      · refine L.bind (H.isPureBarrel hfile) fun b _ => ?_
        have hpush : ∀ w : Walk, w.Inside K V → ∀ hop link,
            (w.push file hop link, state.2).1.Inside K V := by
          intro w hw hop link
          exact hw.push hfile link
        cases b with
        | false => exact L.bind (L.pure hw) fun w hw => L.pure (hpush w hw _ _)
        | true => exact L.bind (reopen hex hfile hw) fun w hw => L.pure (hpush w hw _ _)

theorem Confined.enterBarrel (H : L.Confined j.graph K V)
    (hex : ∀ file hop w, K file → w.Inside K V → L.Holds (ex file hop w) (Walk.Inside K V))
    {barrel : String} (hbarrel : K barrel) (hop : Nat) (e : Edge) (link : ParentLink)
    (hw : w.Inside K V) :
    L.Holds (j.enterBarrel ex barrel hop e link w) (Walk.Inside K V) := by
  have hpush : (w.push barrel (hop + 1) (some link), e.names.isNone).1.Inside K V :=
    hw.push hbarrel (some link)
  -- the flag next to the walk decides only whether the barrel is opened, which is safe either way
  refine L.bind (L.foldlM (I := fun s : Walk × Bool => s.1.Inside K V)
    (fun s name => H.followName hex hbarrel hop _ s name) _ hpush) fun s hs => ?_
  dsimp only
  split
  · exact reopen hex hbarrel hs
  · exact L.pure hs

theorem Confined.followEdge (H : L.Confined j.graph K V)
    (hex : ∀ file hop w, K file → w.Inside K V → L.Holds (ex file hop w) (Walk.Inside K V))
    {file : String} (hfile : K file) (hop : Nat) (hw : w.Inside K V) (e : Edge) :
    L.Holds (j.followEdge ex file hop w e) (Walk.Inside K V) := by
  refine L.bind (H.resolve file e.specifier hfile) fun t ht => ?_
  cases t with
  | none => exact L.pure hw
  | some target =>
      have htarget : K target := ht target rfl
      dsimp only
      split
      · exact L.pure hw
      · split
        · exact L.pure (hw.push htarget _)
        · refine L.bind (H.isPureBarrel htarget) fun b _ => ?_
          cases b with
          | false => exact L.pure (hw.push htarget _)
          | true => exact H.enterBarrel hex htarget hop e _ hw

theorem Confined.expand (H : L.Confined j.graph K V) (fuel : Nat) {file : String} (hfile : K file)
    (hop : Nat) (hw : w.Inside K V) : L.Holds (j.expand fuel file hop w) (Walk.Inside K V) := by
  induction fuel generalizing file hop w with
  | zero => exact L.pure hw
  | succ fuel ih =>
      rw [Journey.expand]
      split
      · exact L.pure hw
      · refine L.bind (H.edges file hfile) fun edges _ => ?_
        dsimp only
        split
        · exact L.pure ⟨hw.queued, hw.visited⟩
        · -- marking a file as expanded touches neither the queue nor the visits
          refine L.foldlM (fun w e hw => ?_) edges ⟨hw.queued, hw.visited⟩
          exact H.followEdge (fun _ hop _ hfile hw => ih hfile hop hw) hfile hop hw e

theorem Confined.visit (H : L.Confined j.graph K V) {file : String} (hfile : K file) (hop : Nat)
    (hw : w.Inside K V) : L.Holds (j.visit file hop w) (Walk.Inside K V) := by
  refine L.bind (H.isPureBarrel hfile) fun b hV => ?_
  split
  · exact L.pure (hw.visit hfile hV _)
  · exact H.expand _ hfile hop (hw.visit hfile hV _)

theorem Confined.run (H : L.Confined j.graph K V) (fuel : Nat) (hw : w.Inside K V) :
    L.Holds (j.run fuel w) (Walk.Inside K V) := by
  induction fuel generalizing w with
  | zero => exact L.pure hw
  | succ fuel ih =>
      rw [Journey.run]
      split
      · exact L.pure hw
      · rename_i hop file rest hqueue
        have hfile : K file := hw.queued _ (hqueue ▸ List.mem_cons_self)
        have hrest : Walk.Inside K V { w with queue := rest } :=
          ⟨fun q hq => hw.queued q (hqueue ▸ List.mem_cons_of_mem _ hq), hw.visited⟩
        dsimp only
        split
        · exact ih hrest
        · split
          · exact L.pure ⟨hrest.queued, hrest.visited⟩
          · exact L.bind (H.visit hfile hop hrest) fun w hw => ih hw

/-- **A walk stays `Inside`.** -/
theorem Confined.walk (H : L.Confined j.graph K V) (hentry : K j.entry) :
    L.Holds j.walk (Walk.Inside K V) := by
  have hnew : Walk.Inside K V {} := ⟨nofun, nofun⟩
  exact H.run _ (hnew.push hentry none)

end Assertion

end PageReach
