import PageReach.Dependency.Surface
import PageReach.Proofs.Dependency.Edge
import PageReach.Proofs.Script.Grammar

/-!
# Surfaces and edges

The surface of a source and its edges are read off the same statements in two different ways.
Whatever module a surface leads to, by a star or by a name, an edge leads there as well. The edge
takes anything where all of the module is exported, and the name in question where names are listed.

* **Statements** (`Follows`, `backed_ofTree`): every star and every name of a surface stems from a
  statement that it follows.
* **Their edges** (`Follows.edge`, `exports_of_mem_reexports`): what the edge of such a statement
  takes.
* **Coverage** (`surface_covered_by_edges`): the two together. The origin of a name does not tell
  the two cases apart: the star that stands for a whole module can also be the name of an export,
  written as a string (`starAsName`).
-/

namespace PageReach.Surface

open Script SyntaxTree

variable {t : SyntaxTree} {s : String}

/-! ## Statements that a surface `Follows` -/

/-- `t` is a re-export of values from the module `s`. -/
structure Follows (t : SyntaxTree) (s : String) : Prop where
  shape : isReexport t = true
  values : t.hasToken ["type"] = false
  source : (t.child? .source).bind stringValue? = some s

/-- All of a module is exported by `t` under the name `x`. -/
def ExportsAll (t : SyntaxTree) (x : String) : Prop :=
  ∃ u ∈ t.named, u.kind = .namespaceExport ∧ u.named.getLast?.map nameText = some x

/-- What the module calls `origin` is exported under the name `x`. -/
def ExportsName (t : SyntaxTree) (origin x : String) : Prop :=
  ∃ s ∈ Edge.listed t, s.hasToken ["type"] = false ∧
    ∃ n, s.child? .name = some n ∧ n.nameText = origin ∧ ((s.child? .renamed).getD n).nameText = x

/-- Every star and every name of the surface `σ` stems from one of the statements `ts`. -/
structure Backed (ts : List SyntaxTree) (σ : Surface) : Prop where
  stars : ∀ s ∈ σ.stars, ∃ t ∈ ts, Follows t s ∧ t.hasToken ["*"] = true
  named : ∀ p ∈ σ.named.entries, ∃ t ∈ ts, ∃ s, Follows t s ∧ ∃ u ∈ t.named, p ∈ reexports s u

theorem add_cases (σ : Surface) (t : SyntaxTree) :
    (add σ t).stars = σ.stars ∧ (add σ t).named = σ.named ∨
      ∃ s, Follows t s ∧ add σ t = σ.reexport t s := by
  unfold add
  split
  · exact .inl ⟨rfl, rfl⟩
  · split
    · rename_i hshape
      split
      · exact .inl ⟨rfl, rfl⟩
      · rename_i hvalues
        split
        · rename_i s hsource
          exact .inr ⟨s, ⟨hshape, by simpa using hvalues, hsource⟩, rfl⟩
        · exact .inl ⟨rfl, rfl⟩
    · left
      split <;> exact ⟨rfl, rfl⟩

theorem Backed.add {ts : List SyntaxTree} {σ : Surface} (h : Backed ts σ) (ht : t ∈ ts) :
    Backed ts (σ.add t) := by
  rcases add_cases σ t with ⟨hstars, hnamed⟩ | ⟨s, hfollows, hadd⟩
  · exact ⟨hstars ▸ h.stars, hnamed ▸ h.named⟩
  · rw [hadd, reexport]
    split
    · rename_i hstar
      refine ⟨fun s' hs' => ?_, h.named⟩
      rcases List.mem_append.mp hs' with hs' | hs'
      · exact h.stars s' hs'
      · cases List.mem_singleton.mp hs'
        exact ⟨t, ht, hfollows, (Bool.and_eq_true_iff.mp hstar).1⟩
    · refine ⟨h.stars, fun p hp => ?_⟩
      rcases Table.mem_entries_insertAll hp with hp | hp
      · obtain ⟨u, hu, hp⟩ := List.mem_flatMap.mp hp
        exact ⟨t, ht, s, hfollows, u, hu, hp⟩
      · exact h.named p hp

theorem Backed.foldl {ts us : List SyntaxTree} {σ : Surface} (h : Backed ts σ) (hus : us ⊆ ts) :
    Backed ts (us.foldl Surface.add σ) := by
  induction us generalizing σ with
  | nil => exact h
  | cons u us ih =>
      obtain ⟨hu, hus⟩ := List.cons_subset.mp hus
      exact ih (h.add hu) hus

theorem backed_ofTree (root : SyntaxTree) : Backed root.children (ofTree root) := by
  have hblank : Backed root.children blank := ⟨by simp [blank], by simp [blank, Table.empty]⟩
  exact hblank.foldl (List.Subset.refl _)

/-! ## Their edges: `Edge.of?` -/

namespace Follows

theorem kind_eq (h : Follows t s) : t.kind = .exportStatement := by
  have hshape := h.shape
  simp only [isReexport, Bool.and_eq_true, decide_eq_true_eq] at hshape
  exact hshape.1.1.1.1

theorem isDependency (h : Follows t s) : Edge.IsDependency t := by
  refine .inr ⟨h.kind_eq, ?_⟩
  obtain ⟨source, hsource, -⟩ := Option.bind_eq_some_iff.mp h.source
  rw [hsource, Option.isSome_some]

theorem edge (h : Follows t s) (hs : s ≠ "") : Edge.of? t =
    some ⟨s, if Edge.taken t ≠ [] then some (sortedSet (Edge.taken t)) else none, t.start⟩ := by
  have hkind : t.kind ≠ .importStatement := by simp [h.kind_eq]
  have hvalues : t.hasToken (Edge.typeWords t) = false := by
    rw [Edge.typeWords, if_neg hkind]
    exact h.values
  have htarget : Edge.target? t = some s := by
    rw [Edge.target?, if_neg hkind]
    exact h.source
  rw [Edge.of?_of_isDependency h.isDependency, hvalues, htarget, Edge.request_of_export hkind]
  refine Edge.to?_eq_some_iff.mpr ⟨s, rfl, hs, ?_⟩
  split
  · exact .inr ⟨_, rfl, rfl⟩
  · exact .inl ⟨rfl, rfl⟩

theorem no_value (h : Follows t s) {u : SyntaxTree} (hu : u ∈ t.children) :
    ¬ (IsToken "default" u ∨ IsToken "=" u) := by
  intro htoken
  have hshape := h.shape
  simp only [isReexport, Bool.and_eq_true, Bool.not_eq_true'] at hshape
  have hfound : t.hasToken ["default", "="] = true := by
    refine hasToken_iff.mpr ⟨u, hu, ?_⟩
    simpa using htoken
  rw [hshape.1.2] at hfound
  cases hfound

/-- A list of names stands alone: there is no second list besides `clause`, and no star. -/
theorem eq_or_listsNothing (h : Follows t s) (hformed : t.Formed) {clause : SyntaxTree}
    (hmem : clause ∈ t.children) (hclause : clause.kind = .exportClause) :
    ∀ u ∈ t.children, u = clause ∨ ListsNothing u := by
  have hrow : ExportRow t.children := (hformed.shaped h.kind_eq rfl).2
  have hvalue : ∀ u ∈ t.children, ¬ (IsToken "default" u ∨ IsToken "=" u) := fun u hu => h.no_value hu
  generalize t.children = row at hmem hrow hvalue
  cases hrow with
  | unlisted hunlisted => exact absurd hclause (hunlisted clause hmem)
  | @listed front back clause' _ hfront hback =>
      have hall : ∀ u ∈ front ++ clause' :: back, u = clause' ∨ ListsNothing u := by
        intro u hu
        rcases List.mem_append.mp hu with hu | hu
        · exact .inr (hfront u hu)
        · rcases List.mem_cons.mp hu with rfl | hu
          · exact .inl rfl
          · exact .inr (hback u hu)
      rcases hall clause hmem with rfl | hnothing
      · exact hall
      · exact absurd hclause hnothing.no_clause
  | valued ht htoken => exact absurd htoken (hvalue _ ht)

/-- Where there is a star, no names are `taken`. -/
theorem taken_eq_nil (h : Follows t s) (hformed : t.Formed) {u : SyntaxTree} (hu : u ∈ t.children)
    (hstar : IsToken "*" u ∨ u.kind = .namespaceExport) : Edge.taken t = [] := by
  have hnone : t.named? .exportClause = none := by
    refine List.find?_eq_none.mpr fun clause hmem hclause => ?_
    have hclause : clause.kind = .exportClause := by simpa using hclause
    rcases h.eq_or_listsNothing hformed (List.mem_filter.mp hmem).1 hclause u hu with rfl | hnothing
    · rcases hstar with hstar | hstar
      · cases hstar.1.symm.trans hclause
      · cases hstar.symm.trans hclause
    · rcases hstar with hstar | hstar
      · exact hnothing.no_star hstar
      · exact hnothing.no_namespace hstar
  refine Edge.taken_eq_nil ?_
  simp [Edge.listed, h.kind_eq, hnone]

/-- The specifiers that count for edges are those of `clause`, the one list of names. -/
theorem listed_eq (h : Follows t s) (hformed : t.Formed) {clause : SyntaxTree} (hmem : clause ∈ t.named)
    (hclause : clause.kind = .exportClause) : Edge.listed t = Edge.specifiers .exportSpecifier clause := by
  have hfound : t.named? .exportClause = some clause := by
    cases hfind : t.named? .exportClause with
    | none => exact absurd hclause (by simpa using List.find?_eq_none.mp hfind clause hmem)
    | some u =>
        have hu : u ∈ t.children := (List.mem_filter.mp (List.mem_of_find?_eq_some hfind)).1
        have hkind : u.kind = .exportClause := by simpa using List.find?_some hfind
        rcases h.eq_or_listsNothing hformed (List.mem_filter.mp hmem).1 hclause u hu with rfl | hnothing
        · rfl
        · exact absurd hkind hnothing.no_clause
  simp [Edge.listed, h.kind_eq, hfound]

end Follows

theorem mem_ofTree_of_mem_children {root : SyntaxTree} {e : Edge} (hroot : root.kind = .program)
    (ht : t ∈ root.children) (hof : Edge.of? t = some e) : e ∈ Edge.ofTree root := by
  have henters : Edge.enters root = true := by simp [Edge.enters, hroot]
  rw [Edge.ofTree_eq, preorder_eq, henters, if_pos rfl, preorderOf_eq_flatMap]
  refine List.mem_filterMap.mpr ⟨t, List.mem_cons_of_mem _ (List.mem_flatMap.mpr ⟨t, ht, ?_⟩), hof⟩
  rw [preorder_eq]
  exact List.mem_cons_self

/-- What a child `u` of a re-export lists. -/
theorem exports_of_mem_reexports {x : String} {r : Reexport} (h : Follows t s) (hformed : t.Formed)
    {u : SyntaxTree} (hu : u ∈ t.named) (hmem : (x, r) ∈ reexports s u) : r.specifier = s ∧
      (u.kind = .namespaceExport ∧ ExportsAll t x ∧ r.origin = "*" ∨ ExportsName t r.origin x) := by
  unfold reexports at hmem
  split at hmem
  · rename_i hkind
    split at hmem
    · rename_i n hlast
      cases List.mem_singleton.mp hmem
      exact ⟨rfl, .inl ⟨hkind, ⟨u, hu, hkind, by simp [hlast]⟩, rfl⟩⟩
    · cases hmem
  · rename_i hkind
    obtain ⟨v, hv, hmem⟩ := List.mem_filterMap.mp hmem
    split at hmem
    · cases hmem
    · rename_i htype
      obtain ⟨n, hn, hmem⟩ := Option.map_eq_some_iff.mp hmem
      cases hmem
      refine ⟨rfl, .inr ⟨v, ?_, by simpa using htype, n, hn, rfl, rfl⟩⟩
      rw [h.listed_eq hformed hu hkind]
      exact hv
  · cases hmem

theorem ExportsName.mem_taken {origin x : String} (h : ExportsName t origin x)
    (hkind : t.kind = .exportStatement) : origin ∈ Edge.taken t := by
  obtain ⟨v, hv, htype, n, hn, rfl, -⟩ := h
  refine Edge.mem_taken.mpr ⟨v, hv, ?_, by rw [hn, Option.map_some]⟩
  simpa [Edge.typeWords, hkind] using htype

/-- **What a surface leads to, an edge of `Edge.ofTree` leads to as well.** -/
theorem surface_covered_by_edges {dialect : Dialect} {source : String} {root : SyntaxTree}
    (h : parse? dialect source = some root) :
    (∀ s ∈ (ofTree root).stars, s ≠ "" → ∃ e ∈ Edge.ofTree root, e.specifier = s ∧ e.names = none) ∧
    ∀ x r, (x, r) ∈ (ofTree root).named.entries → r.specifier ≠ "" →
      ∃ t ∈ root.children, ∃ e ∈ Edge.ofTree root, Edge.of? t = some e ∧ e.specifier = r.specifier ∧
        (ExportsAll t x ∧ r.origin = "*" ∧ e.names = none ∨
          ExportsName t r.origin x ∧ ∃ ns, e.names = some ns ∧ r.origin ∈ ns) := by
  have hroot := kind_of_parse? h
  have hformed {t : SyntaxTree} (ht : t ∈ root.children) : t.Formed :=
    (formed_of_parse? h).of_mem_children ht
  have hbacked := backed_ofTree root
  refine ⟨fun s hs hne => ?_, fun x r hr hne => ?_⟩
  · obtain ⟨t, ht, hfollows, hstar⟩ := hbacked.stars s hs
    refine ⟨_, mem_ofTree_of_mem_children hroot ht (hfollows.edge hne), rfl, if_neg ?_⟩
    obtain ⟨u, hu, _, hword, htoken⟩ := hasToken_iff.mp hstar
    cases List.mem_singleton.mp hword
    simpa using hfollows.taken_eq_nil (hformed ht) hu (.inl htoken)
  · obtain ⟨t, ht, s, hfollows, u, hu, hmem⟩ := hbacked.named (x, r) hr
    obtain ⟨rfl, hexports⟩ := exports_of_mem_reexports hfollows (hformed ht) hu hmem
    have hedge := hfollows.edge hne
    refine ⟨t, ht, _, mem_ofTree_of_mem_children hroot ht hedge, hedge, rfl, ?_⟩
    rcases hexports with ⟨hkind, hall, horigin⟩ | hname
    · refine .inl ⟨hall, horigin, if_neg ?_⟩
      simpa using hfollows.taken_eq_nil (hformed ht) (List.mem_filter.mp hu).1 (.inr hkind)
    · have htaken := hname.mem_taken hfollows.kind_eq
      exact .inr ⟨hname, _, if_pos (List.ne_nil_of_mem htaken), mem_sortedSet.mpr htaken⟩

/-- A star, a module under the name `n`, and a name that is written as a string. -/
def barrel : String :=
  "export * from './b';\nexport * as n from './c';\nexport \x7b \"p\" as q \x7d from './d';\n"

theorem surface_covered_by_edges_of_barrel : ∃ root, parse? .plain barrel = some root ∧
    (ofTree root).stars = ["./b"] ∧
    (ofTree root).named.entries = [("n", ⟨"./c", "*"⟩), ("q", ⟨"./d", "p"⟩)] ∧
    (∃ e ∈ Edge.ofTree root, e.specifier = "./b" ∧ e.names = none) ∧
    ∃ t ∈ root.children, ∃ e ∈ Edge.ofTree root, Edge.of? t = some e ∧ e.specifier = "./d" ∧
      (ExportsAll t "q" ∧ "p" = "*" ∧ e.names = none ∨
        ExportsName t "p" "q" ∧ ∃ ns, e.names = some ns ∧ "p" ∈ ns) := by
  have heval : (parse? .plain barrel).map (fun root =>
      ((ofTree root).stars, (ofTree root).named.entries)) =
      some (["./b"], [("n", ⟨"./c", "*"⟩), ("q", ⟨"./d", "p"⟩)]) := by
    decide +kernel
  obtain ⟨root, hparse, hroot⟩ := Option.map_eq_some_iff.mp heval
  obtain ⟨hstars, hnamed⟩ := Prod.mk.inj hroot
  have hcovered := surface_covered_by_edges hparse
  exact ⟨root, hparse, hstars, hnamed, hcovered.1 "./b" (by simp [hstars]) (by decide),
    hcovered.2 "q" ⟨"./d", "p"⟩ (by simp [hnamed]) (by decide)⟩

/-- A name that is spelled like the star. -/
def starAsName : String := "export \x7b \"*\" as x \x7d from './a';\n"

/-- The origin in `starAsName` stands for the whole module, but the edge takes one name. -/
theorem star_as_name_taken : ∃ root, parse? .markup starAsName = some root ∧
    (ofTree root).named.entries = [("x", ⟨"./a", "*"⟩)] ∧
    Edge.ofTree root = [⟨"./a", some ["*"], .origin⟩] := by
  have heval : (parse? .markup starAsName).map (fun root =>
      ((ofTree root).named.entries, Edge.ofTree root)) =
      some ([("x", ⟨"./a", "*"⟩)], [⟨"./a", some ["*"], .origin⟩]) := by
    decide +kernel
  obtain ⟨root, hparse, hroot⟩ := Option.map_eq_some_iff.mp heval
  exact ⟨root, hparse, (Prod.mk.inj hroot).1, (Prod.mk.inj hroot).2⟩

end PageReach.Surface
