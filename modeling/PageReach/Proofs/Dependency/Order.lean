import PageReach.Proofs.Dependency.Edge
import PageReach.Proofs.Script.Grammar

/-!
# Edges in document order

`ofTree` visits the trees of a source with a list of trees that wait. What comes out is what a recursion
over the tree gives.

* **Recursion** (`inTree`, `ofTree_eq_inTree`): the edge of a tree goes before the edges of its children,
  which go from left to right, and nothing below a dependency is looked at.
* **Nested calls** (`inTree_of_loads`): calls are looked into, so a call among the arguments of another
  one makes its edge after it.
* **Places** (`start_of_of?`, `pairwise_start_ofTree`): where the trees are `InOrder`, no edge starts
  before an earlier one.
-/

namespace PageReach.Edge

open Script SyntaxTree

variable {t root : SyntaxTree} {e : Edge}

mutual

/-- The edge that a tree makes by itself, followed by the edges of its children unless the tree
`IsDependency`. -/
def inTree : SyntaxTree → List Edge
  | leaf k r p s => (of? (leaf k r p s)).toList
  | node k r p ts =>
    (of? (node k r p ts)).toList ++ if IsDependency (node k r p ts) then [] else inRow ts

/-- The edges of a row of trees, from left to right. -/
def inRow : List SyntaxTree → List Edge
  | [] => []
  | t :: ts => inTree t ++ inRow ts

end

theorem inRow_eq_flatMap (ts : List SyntaxTree) : inRow ts = ts.flatMap inTree := by
  induction ts with
  | nil => rfl
  | cons t ts ih => rw [inRow, ih, List.flatMap_cons]

theorem enters_eq_false_iff : enters t = false ↔ IsDependency t := by
  refine ⟨fun h => ?_, enters_of_isDependency⟩
  unfold enters at h
  split at h
  · exact .inl ‹_›
  · exact .inr ⟨‹_›, by simpa using h⟩
  · cases h

/-- **The visit `ofTree` gives what the recursion `inTree` gives.** By induction over the tree,
since the list of waiting trees is visited tree by tree (`ofTree_eq`). -/
theorem ofTree_eq_inTree (root : SyntaxTree) : ofTree root = inTree root := by
  have hof (t : SyntaxTree) (ts : List SyntaxTree) :
      (t :: ts).filterMap of? = (of? t).toList ++ ts.filterMap of? := by
    cases h : of? t <;> simp [h]
  rw [ofTree_eq]
  induction root with
  | leaf k r p s => simp [preorder, inTree, hof]
  | node k r p ts ih =>
      rw [preorder, hof, inTree]
      congr 1
      by_cases hdependency : IsDependency (node k r p ts)
      · simp [hdependency, enters_of_isDependency hdependency]
      · have henters : enters (node k r p ts) = true := by
          rwa [← Bool.not_eq_false, enters_eq_false_iff]
        rw [if_pos henters, if_neg hdependency, preorderOf_eq_flatMap, inRow_eq_flatMap,
          List.filterMap_flatMap]
        exact List.flatMap_congr ih

/-- **Calls make edges wherever they stand.** The edge of a call that `Loads` a module goes before the
edges of what is below it, so also before those of the calls among its arguments. -/
theorem inTree_of_loads {specifier : String} (h : Loads t specifier) :
    inTree t = ⟨specifier, none, t.start⟩ :: inRow t.children := by
  have hof : of? t = some ⟨specifier, none, t.start⟩ :=
    (of?_call_eq_some_iff h.isCall).mpr ⟨specifier, h, rfl⟩
  have hcall : ¬ IsDependency t := by simp [IsDependency, h.isCall]
  cases t with
  | leaf k r p s => simp [inTree, hof, children, inRow]
  | node k r p ts => simp [inTree, hof, hcall, children]

/-! ## Places: `start` -/

theorem start_of_to? {specifier? : Option String} {r : Request} (h : to? t specifier? r = some e) :
    e.start = t.start := by
  obtain ⟨s, -, -, ⟨-, rfl⟩ | ⟨ns, -, rfl⟩⟩ := to?_eq_some_iff.mp h <;> rfl

/-- An edge starts where its statement or call `t` starts. -/
theorem start_of_of? (h : of? t = some e) : e.start = t.start := by
  unfold of? at h
  split at h
  · unfold ofImport? at h
    split at h
    · cases h
    · split at h <;> exact start_of_to? h
  · obtain ⟨source, -, h⟩ := Option.bind_eq_some_iff.mp h
    unfold ofReexport? at h
    split at h
    · cases h
    · exact start_of_to? h
  · rename_i hkind
    obtain ⟨specifier, -, rfl⟩ := (of?_call_eq_some_iff hkind).mp (by simpa [of?, hkind] using h)
    rfl
  · cases h

theorem pairwise_start_ofTree {a b : Nat} (h : InOrder a [root] b) :
    (ofTree root).Pairwise fun e e' => e.start.offset ≤ e'.start.offset := by
  have htrees := h.pairwise_preorderOf enters
  rw [preorderOf_eq_flatMap, List.flatMap_singleton] at htrees
  rw [ofTree_eq]
  refine List.Pairwise.filterMap of? (fun t u hle e he e' he' => ?_) htrees
  rwa [start_of_of? he, start_of_of? he']

/-- **Edges come in document order.** For every tree, the visit `ofTree` with a list of waiting
trees gives the edges that the recursion `inTree` gives. If the trees are `InOrder`, so that every
one covers a stretch of the source, with what is below it inside and its neighbours beside it, then
no edge starts before an earlier one. That is so for the tree of every source. -/
theorem edges_in_document_order (root : SyntaxTree) :
    ofTree root = inTree root ∧
    (∀ a b, InOrder a [root] b →
      (ofTree root).Pairwise fun e e' => e.start.offset ≤ e'.start.offset) ∧
    ∀ dialect source, parse? dialect source = some root → ∃ ending, InOrder 0 [root] ending :=
  ⟨ofTree_eq_inTree root, fun _ _ => pairwise_start_ofTree, fun _ _ => inOrder_of_parse?⟩

end PageReach.Edge
