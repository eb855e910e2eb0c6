import PageReach.Proofs.Engine.Replies

/-!
# The origins that an engine finds

A search in a session also keeps the files that have been entered until a fault. Apart from that
(`forgetting`) it is the search on the plain graph, so it comes back where nothing can go wrong
(`Safe.origin`) and finds what names trace to (`origin_traces`).
-/

namespace PageReach.Engine

variable {e : Engine}

/-- What goes with a fault does not matter for what comes out without one: a `Simulation`. -/
def forgetting (ε : Type) : Simulation (Except (Fault × ε)) (Except Fault) where
  Rel x y := x.mapError Prod.fst = y
  pure _ := rfl
  bind {α β x y f g} hx hf := by
    subst hx
    cases x with
    | error fault => rfl
    | ok a => exact hf a

theorem forgetting_graph {ε : Type} (g : Graph (Except Fault)) (a : ε) :
    (forgetting ε).Graphs (g.map (Except.mapError (·, a))) g := by
  have hforget {α : Type} (x : Except Fault α) :
      (x.mapError (·, a)).mapError Prod.fst = x := by
    cases x <;> rfl
  exact ⟨fun _ => hforget _, fun _ => hforget _, fun _ _ => hforget _⟩

theorem eq_ok_of_mapError {ε ε' α : Type} {x : Except ε α} {f : ε → ε'} {a : α}
    (h : x.mapError f = .ok a) : x = .ok a := by
  cases x with
  | error _ => cases h
  | ok b =>
      cases h
      rfl

/-- If nothing can go wrong (`Safe`), a search comes back, and more fuel would not change it. -/
theorem Safe.origin {barrel : String} (h : e.Safe barrel) {s : Session} (hs : e.Faithful s)
    (name : String) (visited : List String) {n : Nat} (hn : e.index.files.length + 2 ≤ n) :
    ∃ s', (e.origin barrel name visited).on s =
      (.ok (Origin.search e.answers.plain n barrel name visited).run, s') ∧ e.Faithful s' := by
  obtain ⟨s', hrun, hs'⟩ := tells_origin e barrel name visited s hs
  have hle : Origin.unentered (barrel :: e.index.files) visited < e.index.files.length + 2 :=
    Nat.lt_succ_of_le (Origin.unentered_le_length _ visited)
  have hmatches := answered_matches_plain e barrel .empty (T := True) (fun _ => h) (Nat.le_refl _)
  have hplain : Origin.search e.answers.graph (e.index.files.length + 2) barrel name visited =
      .ok (Origin.search e.answers.plain n barrel name visited).run :=
    (hmatches.search _ n barrel name visited List.mem_cons_self hle
      (Nat.lt_of_lt_of_le hle hn)).eq_ok.1
  have hforget := Simulation.searchIn (forgetting_graph e.answers.graph) (e.index.files.length + 2)
    barrel name visited
  refine ⟨s', ?_, hs'⟩
  rw [hrun, eq_ok_of_mapError (hforget.trans hplain)]

/-- **Searches find what names trace to.** If nothing can go wrong (`Safe`), a search comes back,
whatever has been entered before, and fuel is never what ends it. It only adds to the entered files.
What it finds is the end of a chain through distinct files that had not been entered. If no
re-export renames anything and no file has been entered, it finds something wherever there is a
chain, although all of its branches share the entered files. -/
theorem origin_traces (e : Engine) (barrel name : String) (visited : List String) (s : Session)
    (hsafe : e.Safe barrel) (hs : e.Faithful s) :
    ∃ r s',
      (e.origin barrel name visited).on s = (.ok r, s') ∧ e.Faithful s' ∧
      (∀ n, e.index.files.length + 2 ≤ n →
        (Origin.search e.answers.plain n barrel name visited).run = r) ∧
      visited <+: r.visited ∧
      (∀ o, r.origin = some o → ∃ files, Origin.Traces e.answers.plain barrel name files o ∧
        files.Nodup ∧ ∀ f ∈ files, f ∉ visited) ∧
      (Origin.NoRenames e.answers.plain (barrel :: e.index.files) → visited = [] →
        ∀ files o, Origin.Traces e.answers.plain barrel name files o → ∃ o', r.origin = some o') := by
  obtain ⟨s', hrun, hs'⟩ := hsafe.origin hs name visited (Nat.le_refl _)
  have houtcome : Origin.Outcome e.answers.plain (barrel :: e.index.files) barrel name visited
      (Origin.search e.answers.plain (e.index.files.length + 2) barrel name visited).run := by
    apply Origin.search_outcome _ _ List.mem_cons_self
    · exact Nat.lt_succ_of_le (Origin.unentered_le_length _ visited)
    · intro f specifier t ht
      exact List.mem_cons_of_mem _ (mem_index_of_resolve (Answers.resolve_of_plain ht))
  refine ⟨_, s', hrun, hs', ?_, houtcome.adds, houtcome.leads, ?_⟩
  · intro n hn
    obtain ⟨s'', hrun', -⟩ := hsafe.origin hs name visited hn
    exact Except.ok.inj (Prod.mk.inj (hrun'.symm.trans hrun)).1
  · rintro hnames rfl files o htraces
    exact houtcome.isSome_of_traces hnames htraces

/-- Two barrels re-export one another, and one of them a file besides. -/
def barrelsInCircle : List (String × String) :=
  [("a.ts", "export * from './b';\nexport * from './c';\n"), ("b.ts", "export * from './a';\n"),
    ("c.ts", "export const x = 1;\n")]

/-- The first star of `barrelsInCircle` leads back to where the search has been, and the second to
the origin. -/
theorem origin_traces_of_circle :
    let e := ofTexts barrelsInCircle
    e.Safe "a.ts" ∧ Origin.NoRenames e.answers.plain ("a.ts" :: e.index.files) ∧
      Origin.Traces e.answers.plain "a.ts" "x" ["a.ts", "c.ts"] "c.ts" ∧
      ∃ r s', (e.origin "a.ts" "x" []).on {} = (.ok r, s') ∧
        r.visited = ["a.ts", "b.ts", "c.ts"] ∧ (∃ o, r.origin = some o) ∧
        ∀ o, r.origin = some o → ∃ files, Origin.Traces e.answers.plain "a.ts" "x" files o := by
  intro e
  have hsafe : e.Safe "a.ts" := ofTexts_safe (by decide +kernel)
  have hnames : Origin.NoRenames e.answers.plain ("a.ts" :: e.index.files) := by
    have hnone : ∀ f ∈ "a.ts" :: e.index.files,
        (e.answers.plain.surface f).run.named.keys = [] := by
      decide +kernel
    intro f hf name r hr
    have hmem := List.mem_map_of_mem (f := Prod.fst) (Table.mem_entries_of_get? hr)
    rw [← Table.keys, hnone f hf] at hmem
    cases hmem
  have hsurface : "x" ∉ (e.answers.plain.surface "a.ts").run.declared ∧
      ((e.answers.plain.surface "a.ts").run.named.get? "x").isNone ∧
      "./c" ∈ (e.answers.plain.surface "a.ts").run.stars ∧
      (e.answers.plain.resolve "a.ts" "./c").run = some "c.ts" ∧
      "x" ∈ (e.answers.plain.surface "c.ts").run.declared := by
    decide +kernel
  obtain ⟨hdeclared, hnamed, hstar, hresolve, hend⟩ := hsurface
  have htraces : Origin.Traces e.answers.plain "a.ts" "x" ["a.ts", "c.ts"] "c.ts" :=
    .star hdeclared (Option.isNone_iff_eq_none.mp hnamed) hstar hresolve (.declared hend)
  have heval : ((e.origin "a.ts" "x" []).on {}).1.toOption.map (·.visited) =
      some ["a.ts", "b.ts", "c.ts"] := by
    decide +kernel
  obtain ⟨r, s', hrun, -, -, -, hsound, hcomplete⟩ :=
    origin_traces e "a.ts" "x" [] {} hsafe (faithful_new _)
  obtain ⟨r', s'', hrun', hvisited⟩ := ExceptT.exists_on heval
  cases hrun.symm.trans hrun'
  refine ⟨hsafe, hnames, htraces, r, s', hrun, hvisited, hcomplete hnames rfl _ _ htraces, ?_⟩
  intro o ho
  obtain ⟨files, hfiles, -⟩ := hsound o ho
  exact ⟨files, hfiles⟩

end PageReach.Engine
