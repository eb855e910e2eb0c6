import PageReach.Proofs.Dependency.Origin
import PageReach.Proofs.Walk.Reach

/-!
# Answers that may fail

A graph may stop with a fault where a plain one answers. The two are compared answer by answer
(`Yields`): what is worked out from the one is what is worked out from the other, and a property of
it is kept track of on the way. The comparison comes in two strengths. The strict one, with `True`,
says that there is no fault (`Yields.eq_ok`); the loose one, with `False`, speaks only of what comes
out without one.

Both sides look for origins with a fuel of their own, and the outcome does not depend on it as long
as it is large enough (`search`).
-/

namespace PageReach

variable {α β : Type} {T : Prop}

/-- A computation gives the plain value `v`, of which `P` holds; it may stop with a fault only if `T`
is false. -/
def Yields (T : Prop) (x : Except Fault α) (v : Id α) (P : α → Prop) : Prop :=
  match x with
  | .ok a => a = v.run ∧ P a
  | .error _ => ¬ T

theorem Yields.pure {a : α} {P : α → Prop} (h : P a) :
    Yields T (Pure.pure a : Except Fault α) (Pure.pure a : Id α) P :=
  ⟨rfl, h⟩

theorem Yields.bind {x : Except Fault α} {v : Id α} {P : α → Prop} {f : α → Except Fault β}
    {g : α → Id β} {Q : β → Prop} (hx : Yields T x v P)
    (hf : ∀ a, a = v.run → P a → Yields T (f a) (g a) Q) : Yields T (x >>= f) (v >>= g) Q := by
  cases x with
  | error e => exact hx
  | ok a =>
      obtain ⟨ha, hP⟩ := hx
      have h := hf a ha hP
      rw [ha] at h ⊢
      exact h

theorem Yields.imp {x : Except Fault α} {v : Id α} {P Q : α → Prop} (hx : Yields T x v P)
    (h : ∀ a, P a → Q a) : Yields T x v Q := by
  cases x with
  | error e => exact hx
  | ok a => exact ⟨hx.1, h a hx.2⟩

theorem Yields.eq_ok {x : Except Fault α} {v : Id α} {P : α → Prop} (hx : Yields True x v P) :
    x = .ok v.run ∧ P v.run := by
  cases x with
  | error e => exact absurd trivial hx
  | ok a => exact ⟨congrArg _ hx.1, hx.1 ▸ hx.2⟩

/-- A loop gets every item done, if what is done stays done: by induction on the row of items. -/
theorem Yields.foldlM {f : α → β → Except Fault α} {g : α → β → Id α} {I : α → Prop}
    {R : α → α → Prop} {Q : β → α → Prop} (refl : ∀ a, R a a)
    (trans : ∀ {a b c}, R a b → R b c → R a c) (keep : ∀ {a b}, I a → R a b → I b)
    (stay : ∀ {a b i}, R a b → Q i a → Q i b) {items : List β}
    (step : ∀ i ∈ items, ∀ a, I a → Yields T (f a i) (g a i) fun a' => R a a' ∧ Q i a') {a : α}
    (ha : I a) :
    Yields T (items.foldlM f a) (items.foldlM g a) fun a' => R a a' ∧ ∀ i ∈ items, Q i a' := by
  induction items generalizing a with
  | nil => exact Yields.pure ⟨refl a, fun _ h => absurd h List.not_mem_nil⟩
  | cons i items ih =>
      rw [List.foldlM_cons, List.foldlM_cons]
      refine Yields.bind (step i List.mem_cons_self a ha) fun b _ hb => ?_
      have hrest := ih (fun i hi => step i (List.mem_cons_of_mem _ hi)) (keep ha hb.1)
      refine hrest.imp fun c hc => ⟨trans hb.1 hc.1, fun i' hi' => ?_⟩
      rcases List.mem_cons.mp hi' with rfl | hi'
      · exact stay hc.1 hb.2
      · exact hc.2 i' hi'

/-! ## Journeys with the same answers: `Matches` -/

/-- A journey with fuel for `fileCount` files. -/
def Journey.withRoom {m : Type → Type} (j : Journey m) (fileCount : Nat) : Journey m :=
  { j with fileCount }

/-- A journey answers about the entry and the given files as a plain one does, specifiers lead to
these files only, and both sides have fuel enough for them. -/
structure Journey.Matches (T : Prop) (k : Journey (Except Fault)) (j : Journey Id)
    (files : List String) : Prop where
  entry : k.entry = j.entry
  facts : k.facts = j.facts
  limit : k.limit = j.limit
  edges : ∀ f ∈ j.entry :: files, Yields T (k.graph.edges f) (j.graph.edges f) fun _ => True
  surface : ∀ f ∈ j.entry :: files, Yields T (k.graph.surface f) (j.graph.surface f) fun _ => True
  resolve : ∀ f ∈ j.entry :: files, ∀ s, j.graph.Cites f s →
    Yields T (k.graph.resolve f s) (j.graph.resolve f s) fun _ => True
  leads : ∀ f s t, (j.graph.resolve f s).run = some t → t ∈ files
  room : files.length ≤ k.fileCount
  room' : files.length ≤ j.fileCount

namespace Journey.Matches

variable {k : Journey (Except Fault)} {j : Journey Id} {files : List String}

theorem isPureBarrel (H : Matches T k j files) {f : String} (hf : f ∈ j.entry :: files) :
    Yields T (k.graph.isPureBarrel f) (j.graph.isPureBarrel f) fun _ => True :=
  Yields.bind (H.surface f hf) fun _ _ _ => Yields.pure trivial

/-- A search ends with a known origin, if any, and adds to the files that have been entered
(`visited`). -/
structure Searched (j : Journey Id) (files visited : List String) (r : Origin.Search) : Prop where
  adds : visited ⊆ r.visited
  origin : ∀ o, r.origin = some o → o ∈ j.entry :: files

theorem Searched.mono {visited visited' : List String} {r : Origin.Search}
    (h : Searched j files visited' r) (hsub : visited ⊆ visited') : Searched j files visited r :=
  ⟨List.Subset.trans hsub h.adds, h.origin⟩

theorem throughStars (H : Matches T k j files) {file : String} (hfile : file ∈ j.entry :: files)
    {follow : String → List String → Except Fault Origin.Search}
    {follow' : String → List String → Id Origin.Search} (stars visited : List String)
    (hfollow : ∀ target visited', target ∈ j.entry :: files → visited ⊆ visited' →
      Yields T (follow target visited') (follow' target visited') (Searched j files visited'))
    (hstars : ∀ star ∈ stars, j.graph.Cites file star) :
    Yields T (Origin.throughStars k.graph file follow stars visited)
      (Origin.throughStars j.graph file follow' stars visited) (Searched j files visited) := by
  induction stars generalizing visited with
  | nil => exact Yields.pure ⟨List.Subset.refl _, fun _ h => nomatch h⟩
  | cons star stars ih =>
      have hstar := hstars star List.mem_cons_self
      have hrest : ∀ s ∈ stars, j.graph.Cites file s := fun s hs =>
        hstars s (List.mem_cons_of_mem _ hs)
      refine Yields.bind (H.resolve file hfile star hstar) fun t ht _ => ?_
      cases t with
      | none => exact ih visited hfollow hrest
      | some target =>
          have htarget := List.mem_cons_of_mem j.entry (H.leads file star target ht.symm)
          refine Yields.bind (hfollow target visited htarget (List.Subset.refl _))
            fun found _ hfound => ?_
          cases ho : found.origin with
          | some o => exact Yields.pure hfound
          | none =>
              have hlater := ih found.visited
                (fun t v ht hv => hfollow t v ht (List.Subset.trans hfound.adds hv)) hrest
              exact hlater.imp fun r hr => hr.mono hfound.adds

/-- Searches agree, whatever fuel they have beyond what is enough: each level of a search enters a
known file that has not been entered before. -/
theorem search (H : Matches T k j files) (fuel fuel' : Nat) (file name : String)
    (visited : List String) (hfile : file ∈ j.entry :: files)
    (hfuel : Origin.unentered (j.entry :: files) visited < fuel)
    (hfuel' : Origin.unentered (j.entry :: files) visited < fuel') :
    Yields T (Origin.search k.graph fuel file name visited)
      (Origin.search j.graph fuel' file name visited) (Searched j files visited) := by
  induction fuel generalizing fuel' file name visited with
  | zero => omega
  | succ fuel ih =>
      obtain ⟨fuel', rfl⟩ : ∃ n, fuel' = n + 1 := ⟨fuel' - 1, by omega⟩
      rw [Origin.search_succ, Origin.search_succ]
      by_cases hmem : file ∈ visited
      · rw [if_pos (List.contains_iff_mem.mpr hmem), if_pos (List.contains_iff_mem.mpr hmem)]
        exact Yields.pure ⟨List.Subset.refl _, fun _ h => nomatch h⟩
      · rw [if_neg (mt List.contains_iff_mem.mp hmem), if_neg (mt List.contains_iff_mem.mp hmem)]
        -- one more file has been entered, which makes up for the fuel that is used
        have hless := Origin.unentered_snoc_lt hfile hmem
        have hsub := List.subset_append_left visited [file]
        have found (o : Option String) (ho : ∀ f, o = some f → f ∈ j.entry :: files) :
            Searched j files visited ⟨o, visited ++ [file]⟩ := ⟨hsub, ho⟩
        refine Yields.bind (H.surface file hfile) fun surface hsurface _ => ?_
        split
        · exact Yields.pure (found _ fun f hf => Option.some.inj hf ▸ hfile)
        · split
          · refine (H.throughStars hfile _ _ (fun target visited' ht hv => ?_)
              (fun star hstar => ?_)).imp fun r hr => hr.mono hsub
            · have hle := Origin.unentered_le (j.entry :: files) hv
              exact ih fuel' target name visited' ht (by omega) (by omega)
            · exact .star (hsurface ▸ hstar)
          · rename_i reexport hnamed
            have hcites : j.graph.Cites file reexport.specifier := .named (hsurface ▸ hnamed)
            refine Yields.bind (H.resolve file hfile _ hcites) fun t ht _ => ?_
            cases t with
            | none => exact Yields.pure (found none fun _ h => nomatch h)
            | some target =>
                have htarget := List.mem_cons_of_mem j.entry (H.leads file _ target ht.symm)
                dsimp only
                split
                · exact Yields.pure (found _ fun f hf => Option.some.inj hf ▸ htarget)
                · refine Yields.bind (H.isPureBarrel htarget) fun barrel _ _ => ?_
                  cases barrel with
                  | false => exact Yields.pure (found _ fun f hf => Option.some.inj hf ▸ htarget)
                  | true =>
                      exact (ih fuel' target _ _ htarget (by omega) (by omega)).imp
                        fun r hr => hr.mono hsub

theorem origin (H : Matches T k j files) {barrel : String} (hb : barrel ∈ j.entry :: files)
    (name : String) :
    Yields T (k.origin barrel name) (j.origin barrel name) fun o =>
      ∀ f, o = some f → f ∈ j.entry :: files := by
  have := H.room
  have := H.room'
  have hle := Origin.unentered_le_length (j.entry :: files) []
  rw [List.length_cons] at hle
  exact Yields.bind (H.search _ _ barrel name [] hb (by omega) (by omega))
    fun r _ hr => Yields.pure hr.origin

end Journey.Matches

/-! ## Plain journeys without a fault: `lift` -/

/-- A plain journey `j`, as one that might fail. -/
def Journey.lift (j : Journey Id) : Journey (Except Fault) where
  graph := ⟨fun f => .ok (j.graph.edges f).run, fun f => .ok (j.graph.surface f).run,
    fun f s => .ok (j.graph.resolve f s).run⟩
  entry := j.entry
  facts := j.facts
  fileCount := j.fileCount
  limit := j.limit

namespace Journey.Matches

variable {k : Journey (Except Fault)} {j : Journey Id} {files : List String}

theorem plain (H : Matches T k j files) : Matches True j.lift j files where
  entry := rfl
  facts := rfl
  limit := rfl
  edges _ _ := ⟨rfl, trivial⟩
  surface _ _ := ⟨rfl, trivial⟩
  resolve _ _ _ _ := ⟨rfl, trivial⟩
  leads := H.leads
  room := H.room'
  room' := H.room'

theorem origin_known (H : Matches T k j files) {b n o : String} (hb : b ∈ j.entry :: files)
    (ho : (j.origin b n).run = some o) : o ∈ j.entry :: files := by
  exact (H.plain.origin hb n).eq_ok.2 o ho

theorem leads_known (H : Matches T k j files) {f t : String} {e : Edge} (h : j.Leads f e t) :
    t ∈ j.entry :: files :=
  List.mem_cons_of_mem _ (H.leads f e.specifier t h.2.1)

/-- Nothing is reached (`Stands`) but the entry and the files to which specifiers lead. -/
theorem stands_known (H : Matches T k j files) {s : Journey.Standing} {f : String}
    (h : j.Stands s f) : f ∈ j.entry :: files := by
  induction h with
  | entry s => exact List.mem_cons_self
  | plain _ _ ih => exact ih
  | edge _ hl _ => exact H.leads_known hl
  | whole _ he _ _ => exact H.leads_known he.1
  | stuck _ ha _ _ => exact H.leads_known ha.1.1
  | origin _ ha _ _ => exact H.origin_known (H.leads_known ha.1.1) ha.2.2
  | barrel _ ha _ _ _ => exact H.origin_known (H.leads_known ha.1.1) ha.2.2

end Journey.Matches

end PageReach
