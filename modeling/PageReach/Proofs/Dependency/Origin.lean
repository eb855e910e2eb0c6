import Mathlib.Data.List.Basic
import PageReach.Dependency.Origin

/-!
# Searches for origins

A name *traces* to its origin through a chain of files (`Traces`): each of them re-exports the name
from the next, by a star or by listing it, and the last one declares it or lists it from elsewhere.
A `search` finds the end of such a chain, and the files that it enters on the way are all that it
adds.

All branches of a search share the files that have been entered. A branch that comes upon one of
them gives up, although it might have led to an origin from there. Nothing is missed as long as
names stay the same (`NoRenames`): when a search finds nothing, each file that it has entered is
*spent* (`Spent`), which means that it is not the end of a chain and that chains go on from it to
entered files only.

* **Fuel** (`unentered_snoc_lt`): each level of a search enters a known file that is new.
* **No chain from spent files** (`Traces.not_of_spent`).
* **Searches** (`throughStars_outcome`, `search_outcome`): with enough fuel a search has an
  `Outcome`.
* **Completeness** (`Outcome.isSome_of_traces`): if there is a chain at all, something is found.
-/

namespace PageReach.Origin

/-! ## Files that are `unentered` -/

/-- How many of the `known` files have not been `visited`. -/
def unentered (known visited : List String) : Nat := known.countP (· ∉ visited)

theorem unentered_le_length (known visited : List String) :
    unentered known visited ≤ known.length :=
  List.countP_le_length

theorem unentered_le {visited visited' : List String} (known : List String)
    (h : visited ⊆ visited') : unentered known visited' ≤ unentered known visited := by
  apply List.countP_mono_left
  intro f _ hf
  simp only [decide_eq_true_eq] at hf ⊢
  exact fun hmem => hf (h hmem)

theorem unentered_snoc_lt {known visited : List String} {file : String} (hfile : file ∈ known)
    (hnew : file ∉ visited) : unentered known (visited ++ [file]) < unentered known visited := by
  obtain ⟨before, after, rfl⟩ := List.append_of_mem hfile
  have hbefore := unentered_le before (List.subset_append_left visited [file])
  have hafter := unentered_le after (List.subset_append_left visited [file])
  simp only [unentered, List.countP_append, List.countP_cons] at hbefore hafter ⊢
  simp only [hnew, List.mem_append, List.mem_singleton, or_true, not_true_eq_false, decide_false,
    not_false_eq_true, decide_true, if_true, Bool.false_eq_true, if_false] at hbefore hafter ⊢
  omega

/-! ## Chains: `Traces` -/

/-- `Traces g file name files origin`: from `file` on, `name` leads through `files` to `origin`. -/
inductive Traces (g : Graph Id) : (file name : String) → List String → String → Prop where
  /-- The file declares the name. -/
  | declared {file name : String} :
    name ∈ (g.surface file).run.declared → Traces g file name [file] file
  /-- The file lists the name from a file where it is not followed any further. -/
  | listed {file name target : String} {r : Reexport} :
    (g.surface file).run.named.get? name = some r →
    (g.resolve file r.specifier).run = some target →
    (g.isPureBarrel target).run = false ∨ r.origin = "*" →
    Traces g file name [file] target
  /-- The file lists the name from a barrel, which may know it by another name. -/
  | barrel {file name target origin : String} {r : Reexport} {files : List String} :
    (g.surface file).run.named.get? name = some r →
    (g.resolve file r.specifier).run = some target →
    (g.isPureBarrel target).run = true →
    Traces g target r.origin files origin → Traces g file name (file :: files) origin
  /-- The file knows nothing of the name, and one of its stars leads on. -/
  | star {file name star target origin : String} {files : List String} :
    name ∉ (g.surface file).run.declared →
    (g.surface file).run.named.get? name = none →
    star ∈ (g.surface file).run.stars →
    (g.resolve file star).run = some target →
    Traces g target name files origin → Traces g file name (file :: files) origin

/-- There is a chain whose files are distinct and outside `visited`. -/
def Leads (g : Graph Id) (file name : String) (visited : List String) (origin : String) : Prop :=
  ∃ files, Traces g file name files origin ∧ files.Nodup ∧ ∀ f ∈ files, f ∉ visited

/-- No re-export of the known files gives a name to something of another name. -/
def NoRenames (g : Graph Id) (known : List String) : Prop :=
  ∀ file ∈ known, ∀ name r, (g.surface file).run.named.get? name = some r →
    r.origin = name ∨ r.origin = "*"

variable {g : Graph Id} {known visited visited' stars : List String} {file name origin : String}

theorem Leads.of_end (h : Traces g file name [file] origin) (hnew : file ∉ visited) :
    Leads g file name visited origin := by
  refine ⟨[file], h, List.pairwise_singleton _ file, ?_⟩
  intro f hf
  rwa [List.mem_singleton.mp hf]

/-- A chain goes on outside of `visited` and of the file that it comes from. -/
theorem Leads.cons {target name' : String} (h : Leads g target name' visited' origin)
    (hsub : visited ++ [file] ⊆ visited') (hnew : file ∉ visited)
    (hstep : ∀ files, Traces g target name' files origin → Traces g file name (file :: files) origin) :
    Leads g file name visited origin := by
  obtain ⟨files, htraces, hnodup, hout⟩ := h
  have hfile : file ∉ files := fun hf => hout file hf (hsub (by simp))
  refine ⟨file :: files, hstep files htraces, List.nodup_cons.mpr ⟨hfile, hnodup⟩, ?_⟩
  intro f hf
  rcases List.mem_cons.mp hf with rfl | hf
  · exact hnew
  · exact fun hmem => hout f hf (hsub (List.mem_append_left _ hmem))

/-! ## `Spent` files -/

/-- No chain of the name ends at a file, and all of them go on to files in `visited` without another
name. -/
structure Spent (g : Graph Id) (name : String) (visited : List String) (file : String) : Prop where
  declared : name ∉ (g.surface file).run.declared
  star : (g.surface file).run.named.get? name = none →
    ∀ star ∈ (g.surface file).run.stars, ∀ target, (g.resolve file star).run = some target →
      target ∈ visited
  named : ∀ r, (g.surface file).run.named.get? name = some r →
    ∀ target, (g.resolve file r.specifier).run = some target →
      r.origin = name ∧ r.origin ≠ "*" ∧ (g.isPureBarrel target).run = true ∧ target ∈ visited

theorem Spent.mono (h : Spent g name visited file) (hsub : visited ⊆ visited') :
    Spent g name visited' file where
  declared := h.declared
  star hn s hs t ht := hsub (h.star hn s hs t ht)
  named r hr t ht := by
    obtain ⟨hname, hstar, hbarrel, hmem⟩ := h.named r hr t ht
    exact ⟨hname, hstar, hbarrel, hsub hmem⟩

/-- From files that lead to one another only, and of which none is an end, there is no chain. By
induction over `Traces`. -/
theorem Traces.not_of_spent {files : List String} (h : Traces g file name files origin)
    (hspent : ∀ f ∈ visited, Spent g name visited f) (hfile : file ∈ visited) : False := by
  induction h with
  | declared hd => exact (hspent _ hfile).declared hd
  | listed hr ht hend =>
      obtain ⟨-, hstar, hbarrel, -⟩ := (hspent _ hfile).named _ hr _ ht
      rcases hend with hend | hend
      · exact Bool.false_ne_true (hend.symm.trans hbarrel)
      · exact hstar hend
  | barrel hr ht _ _ ih =>
      obtain ⟨hname, -, -, hmem⟩ := (hspent _ hfile).named _ hr _ ht
      exact ih (hname ▸ hspent) hmem
  | star _ hn hs ht _ ih => exact ih hspent ((hspent _ hfile).star hn _ hs _ ht)

/-! ## What a search may end with: `Outcome` -/

/-- All files that have been entered since `visited` are `Spent`. -/
def AllSpent (g : Graph Id) (name : String) (visited visited' : List String) : Prop :=
  ∀ f ∈ visited', f ∉ visited → Spent g name visited' f

theorem AllSpent.refl (g : Graph Id) (name : String) (visited : List String) :
    AllSpent g name visited visited :=
  fun _ hf hnew => absurd hf hnew

theorem AllSpent.trans {visited'' : List String} (h : AllSpent g name visited visited')
    (h' : AllSpent g name visited' visited'') (hsub : visited' ⊆ visited'') :
    AllSpent g name visited visited'' := by
  intro f hf hnew
  by_cases hmem : f ∈ visited'
  · exact (h f hmem hnew).mono hsub
  · exact h' f hf hmem

/-- If `file` is `Spent`, and what has been entered after it is, then all is. -/
theorem AllSpent.snoc (h : AllSpent g name (visited ++ [file]) visited')
    (hfile : Spent g name visited' file) : AllSpent g name visited visited' := by
  intro f hf hnew
  by_cases heq : f = file
  · exact heq ▸ hfile
  · exact h f hf (by simp [hnew, heq])

/-- What a search for `name` in `file` may end with. Nothing is found only if all has been tried,
provided that names stay the same. -/
structure Outcome (g : Graph Id) (known : List String) (file name : String) (visited : List String)
    (r : Search) : Prop where
  adds : visited <+: r.visited
  leads : ∀ o, r.origin = some o → Leads g file name visited o
  spent : NoRenames g known → r.origin = none →
    file ∈ r.visited ∧ AllSpent g name visited r.visited

/-- What following the stars of `file` may end with. -/
structure StarsOutcome (g : Graph Id) (known : List String) (file name : String)
    (stars visited : List String) (r : Search) : Prop where
  adds : visited <+: r.visited
  leads : ∀ o, r.origin = some o → ∃ star ∈ stars, ∃ target visited',
    (g.resolve file star).run = some target ∧ visited ⊆ visited' ∧ Leads g target name visited' o
  spent : NoRenames g known → r.origin = none →
    (∀ star ∈ stars, ∀ target, (g.resolve file star).run = some target → target ∈ r.visited) ∧
      AllSpent g name visited r.visited

theorem StarsOutcome.of_dangling {star : String} {r : Search}
    (hstar : (g.resolve file star).run = none)
    (h : StarsOutcome g known file name stars visited r) :
    StarsOutcome g known file name (star :: stars) visited r where
  adds := h.adds
  leads o ho := by
    obtain ⟨s, hs, hrest⟩ := h.leads o ho
    exact ⟨s, List.mem_cons_of_mem _ hs, hrest⟩
  spent hnames hnone := by
    obtain ⟨htargets, hall⟩ := h.spent hnames hnone
    refine ⟨?_, hall⟩
    intro s hs target ht
    rcases List.mem_cons.mp hs with rfl | hs
    · cases hstar.symm.trans ht
    · exact htargets s hs target ht

theorem StarsOutcome.of_found {star target : String} {found : Search}
    (hstar : (g.resolve file star).run = some target)
    (h : Outcome g known target name visited found) (hfound : found.origin = some origin) :
    StarsOutcome g known file name (star :: stars) visited found where
  adds := h.adds
  leads o ho := ⟨star, List.mem_cons_self, target, visited, hstar, List.Subset.refl _, h.leads o ho⟩
  spent _ hnone := by cases hfound.symm.trans hnone

theorem StarsOutcome.of_missed {star target : String} {found r : Search}
    (hstar : (g.resolve file star).run = some target)
    (h : Outcome g known target name visited found) (hmissed : found.origin = none)
    (hrest : StarsOutcome g known file name stars found.visited r) :
    StarsOutcome g known file name (star :: stars) visited r where
  adds := h.adds.trans hrest.adds
  leads o ho := by
    obtain ⟨s, hs, t, visited', ht, hsub, hleads⟩ := hrest.leads o ho
    exact ⟨s, List.mem_cons_of_mem _ hs, t, visited', ht,
      List.Subset.trans h.adds.subset hsub, hleads⟩
  spent hnames hnone := by
    obtain ⟨htarget, hall⟩ := h.spent hnames hmissed
    obtain ⟨htargets, hall'⟩ := hrest.spent hnames hnone
    refine ⟨?_, hall.trans hall' hrest.adds.subset⟩
    intro s hs t ht
    rcases List.mem_cons.mp hs with rfl | hs
    · cases hstar.symm.trans ht
      exact hrest.adds.subset htarget
    · exact htargets s hs t ht

theorem Outcome.of_end (h : Traces g file name [file] origin) (hnew : file ∉ visited) :
    Outcome g known file name visited ⟨some origin, visited ++ [file]⟩ where
  adds := List.prefix_append _ _
  leads o ho := by
    cases ho
    exact .of_end h hnew
  spent _ hnone := by cases hnone

theorem Outcome.of_unresolved {r : Reexport} (hd : name ∉ (g.surface file).run.declared)
    (hn : (g.surface file).run.named.get? name = some r)
    (ht : (g.resolve file r.specifier).run = none) :
    Outcome g known file name visited ⟨none, visited ++ [file]⟩ where
  adds := List.prefix_append _ _
  leads o ho := by cases ho
  spent _ _ := by
    refine ⟨by simp, (AllSpent.refl _ _ _).snoc ⟨hd, ?_, ?_⟩⟩
    · intro hn'
      cases hn.symm.trans hn'
    · intro r' hr' target ht'
      cases hn.symm.trans hr'
      cases ht.symm.trans ht'

theorem Outcome.of_barrel {r : Reexport} {target : String} {found : Search} (hnew : file ∉ visited)
    (hfile : file ∈ known) (hd : name ∉ (g.surface file).run.declared)
    (hn : (g.surface file).run.named.get? name = some r)
    (ht : (g.resolve file r.specifier).run = some target) (hstar : r.origin ≠ "*")
    (hb : (g.isPureBarrel target).run = true)
    (h : Outcome g known target r.origin (visited ++ [file]) found) :
    Outcome g known file name visited found where
  adds := (List.prefix_append _ _).trans h.adds
  leads o ho :=
    (h.leads o ho).cons (List.Subset.refl _) hnew fun _ htraces => .barrel hn ht hb htraces
  spent hnames hnone := by
    have hname : r.origin = name := (hnames file hfile name r hn).resolve_right hstar
    obtain ⟨htarget, hall⟩ := h.spent hnames hnone
    rw [hname] at hall
    refine ⟨h.adds.subset (by simp), hall.snoc ⟨hd, ?_, ?_⟩⟩
    · intro hn'
      cases hn.symm.trans hn'
    · intro r' hr' target' ht'
      cases hn.symm.trans hr'
      cases ht.symm.trans ht'
      exact ⟨hname, hstar, hb, htarget⟩

theorem Outcome.of_stars {found : Search} (hnew : file ∉ visited)
    (hd : name ∉ (g.surface file).run.declared)
    (hn : (g.surface file).run.named.get? name = none)
    (h : StarsOutcome g known file name (g.surface file).run.stars (visited ++ [file]) found) :
    Outcome g known file name visited found where
  adds := (List.prefix_append _ _).trans h.adds
  leads o ho := by
    obtain ⟨star, hs, target, visited', ht, hsub, hleads⟩ := h.leads o ho
    exact hleads.cons hsub hnew fun _ htraces => .star hd hn hs ht htraces
  spent hnames hnone := by
    obtain ⟨htargets, hall⟩ := h.spent hnames hnone
    refine ⟨h.adds.subset (by simp), hall.snoc ⟨hd, fun _ => htargets, ?_⟩⟩
    intro r hr
    cases hn.symm.trans hr

/-! ## Searches: `search` -/

theorem throughStars_outcome {follow : String → List String → Id Search}
    (hfollow : ∀ star ∈ stars, ∀ target visited', (g.resolve file star).run = some target →
      visited ⊆ visited' → Outcome g known target name visited' (follow target visited').run) :
    StarsOutcome g known file name stars visited
      (throughStars g file follow stars visited).run := by
  induction stars generalizing visited with
  | nil =>
      refine ⟨List.prefix_rfl, ?_, ?_⟩
      · intro o ho
        cases ho
      · exact fun _ _ => ⟨fun _ hs => absurd hs List.not_mem_nil, .refl _ _ _⟩
  | cons star stars ih =>
      have hrest {visited' : List String} (hsub : visited ⊆ visited') :=
        ih fun s hs t v ht hv =>
          hfollow s (List.mem_cons_of_mem _ hs) t v ht (List.Subset.trans hsub hv)
      rw [throughStars, throughStarsIn, Id.run_bind]
      cases ht : (g.resolve file star).run with
      | none => exact (hrest (List.Subset.refl _)).of_dangling ht
      | some target =>
          have hfound := hfollow star List.mem_cons_self target visited ht (List.Subset.refl _)
          dsimp only
          rw [Id.run_bind]
          cases ho : (follow target visited).run.origin with
          | some o => exact .of_found ht hfound ho
          | none => exact .of_missed ht hfound ho (hrest hfound.adds.subset)

/-- A search with enough fuel ends as it should: each level of it enters a known file that has not been
entered before. -/
theorem search_outcome (hknown : ∀ f s t, (g.resolve f s).run = some t → t ∈ known) (fuel : Nat)
    (hfile : file ∈ known) (hfuel : unentered known visited < fuel) :
    Outcome g known file name visited (search g fuel file name visited).run := by
  induction fuel generalizing file name visited with
  | zero => omega
  | succ fuel ih =>
      rw [search_succ]
      by_cases hmem : file ∈ visited
      · rw [if_pos (List.contains_iff_mem.mpr hmem)]
        refine ⟨List.prefix_rfl, ?_, fun _ _ => ⟨hmem, .refl _ _ _⟩⟩
        intro o ho
        cases ho
      · rw [if_neg (mt List.contains_iff_mem.mp hmem), Id.run_bind]
        have hless := unentered_snoc_lt hfile hmem
        by_cases hd : name ∈ (g.surface file).run.declared
        · rw [if_pos (List.contains_iff_mem.mpr hd)]
          exact .of_end (.declared hd) hmem
        · rw [if_neg (mt List.contains_iff_mem.mp hd)]
          cases hn : (g.surface file).run.named.get? name with
          | none =>
              refine .of_stars hmem hd hn (throughStars_outcome ?_)
              intro star _ target visited' ht hsub
              have hle := unentered_le known hsub
              exact ih (hknown _ _ _ ht) (by omega)
          | some r =>
              dsimp only
              rw [Id.run_bind]
              cases ht : (g.resolve file r.specifier).run with
              | none => exact .of_unresolved hd hn ht
              | some target =>
                  dsimp only
                  by_cases hstar : r.origin = "*"
                  · rw [if_pos hstar]
                    exact .of_end (.listed hn ht (.inr hstar)) hmem
                  · rw [if_neg hstar, Id.run_bind]
                    cases hb : (g.isPureBarrel target).run with
                    | false => exact .of_end (.listed hn ht (.inl hb)) hmem
                    | true =>
                        exact .of_barrel hmem hfile hd hn ht hstar hb (ih (hknown _ _ _ ht) (by omega))

/-- **A search finds something if there is a chain at all**, with nothing entered before and under
`NoRenames`. -/
theorem Outcome.isSome_of_traces {r : Search} (h : Outcome g known file name [] r)
    (hnames : NoRenames g known) {files : List String} (htraces : Traces g file name files origin) :
    ∃ o, r.origin = some o := by
  cases ho : r.origin with
  | some o => exact ⟨o, rfl⟩
  | none =>
      obtain ⟨hfile, hall⟩ := h.spent hnames ho
      exact (htraces.not_of_spent (fun f hf => hall f hf List.not_mem_nil) hfile).elim

end PageReach.Origin
