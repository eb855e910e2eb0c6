import PageReach.Script.Tree

/-!
# Syntax trees by induction

What holds of a tree as soon as it holds of its children holds of all trees (`induct`). What is
below a tree is spelled out in the tree (`infix_of_mem_preorder`, `infix_of_mem_visit`). An
expression is behind its wrappers when there is nothing left to take off (`unwrap_eq`,
`unwrap_induct`).
-/

namespace PageReach.Script

/-- Wrappers that are written around or after an expression. -/
def Kind.isWrapper : Kind → Bool
  | .parenthesizedExpression | .asExpression | .satisfiesExpression | .nonNullExpression => true
  | _ => false

namespace SyntaxTree

@[elab_as_elim, induction_eliminator]
theorem induct {motive : SyntaxTree → Prop} (leaf : ∀ k r p s, motive (.leaf k r p s))
    (node : ∀ k r p ts, (∀ t ∈ ts, motive t) → motive (.node k r p ts)) (t : SyntaxTree) :
    motive t := by
  refine @SyntaxTree.rec motive (fun ts => ∀ t ∈ ts, motive t) leaf node ?_ ?_ t
  · simp
  · intro t ts ht hts
    simpa using ⟨ht, hts⟩

/-! ## Characters: `chars` -/

@[simp] theorem chars_leaf (k : Kind) (r : Option Role) (p : Position) (s : String) :
    (leaf k r p s).chars = s.toList := rfl

@[simp] theorem chars_node (k : Kind) (r : Option Role) (p : Position) (ts : List SyntaxTree) :
    (node k r p ts).chars = charsOf ts := rfl

@[simp] theorem charsOf_nil : charsOf [] = [] := rfl

@[simp] theorem charsOf_cons (t : SyntaxTree) (ts : List SyntaxTree) :
    charsOf (t :: ts) = t.chars ++ charsOf ts := rfl

@[simp] theorem charsOf_append (ts us : List SyntaxTree) :
    charsOf (ts ++ us) = charsOf ts ++ charsOf us := by
  induction ts with
  | nil => rfl
  | cons t ts ih => simp [ih]

@[simp] theorem chars_withRole (r : Role) (t : SyntaxTree) : (t.withRole r).chars = t.chars := by
  cases t <;> rfl

theorem charsOf_map {f : SyntaxTree → SyntaxTree} (hf : ∀ t, (f t).chars = t.chars)
    (ts : List SyntaxTree) : charsOf (ts.map f) = charsOf ts := by
  induction ts with
  | nil => rfl
  | cons t ts ih => simp [hf, ih]

@[simp] theorem toList_text (t : SyntaxTree) : t.text.toList = t.chars := by
  cases t <;> simp [text]

variable {t u : SyntaxTree}

theorem infix_of_mem {ts : List SyntaxTree} (h : t ∈ ts) : t.chars <:+: charsOf ts := by
  obtain ⟨front, back, rfl⟩ := List.append_of_mem h
  exact ⟨charsOf front, charsOf back, by simp⟩

theorem charsOf_children_suffix (t : SyntaxTree) : charsOf t.children <:+ t.chars := by
  cases t with
  | leaf k r p s => exact List.nil_suffix
  | node k r p ts => exact List.suffix_refl _

theorem infix_of_mem_named (h : u ∈ t.named) : u.chars <:+: t.chars :=
  (infix_of_mem (List.mem_filter.mp h).1).trans (charsOf_children_suffix t).isInfix

theorem infix_of_child? {r : Role} (h : t.child? r = some u) : u.chars <:+: t.chars :=
  (infix_of_mem (List.mem_of_find?_eq_some h)).trans (charsOf_children_suffix t).isInfix

theorem preorderOf_eq_flatMap (enter : SyntaxTree → Bool) (ts : List SyntaxTree) :
    preorderOf enter ts = ts.flatMap (preorder enter) := by
  induction ts with
  | nil => rfl
  | cons t ts ih => rw [preorderOf, ih, List.flatMap_cons]

theorem preorder_eq (enter : SyntaxTree → Bool) (t : SyntaxTree) :
    t.preorder enter = t :: if enter t then preorderOf enter t.children else [] := by
  cases t <;> simp [preorder, preorderOf, children]

/-- To `visit` from the left is to go through the trees in document order. -/
theorem visit_eq_flatMap (enter : SyntaxTree → Bool) (pending : List SyntaxTree) :
    visit enter pending = pending.flatMap (preorder enter) := by
  induction pending using visit.induct enter with
  | case1 => simp [visit]
  | case2 t ts ih =>
      simp only [dite_eq_ite] at ih
      rw [visit, ih, List.flatMap_cons, preorder_eq enter t]
      split <;> simp [preorderOf_eq_flatMap]

theorem infix_of_mem_preorder {enter : SyntaxTree → Bool} (h : u ∈ t.preorder enter) :
    u.chars <:+: t.chars := by
  induction t with
  | leaf k r p s =>
      cases List.mem_singleton.mp h
      exact List.infix_refl _
  | node k r p ts ih =>
      rw [preorder, List.mem_cons] at h
      rcases h with rfl | h
      · exact List.infix_refl _
      · split at h
        · rw [preorderOf_eq_flatMap] at h
          obtain ⟨t, ht, hu⟩ := List.mem_flatMap.mp h
          exact (ih t ht hu).trans (infix_of_mem ht)
        · cases h

/-- Whatever `visit` comes by is spelled out somewhere in the trees that it starts from. -/
theorem infix_of_mem_visit {enter : SyntaxTree → Bool} {pending : List SyntaxTree}
    (h : t ∈ visit enter pending) : t.chars <:+: charsOf pending := by
  rw [visit_eq_flatMap] at h
  obtain ⟨u, hu, ht⟩ := List.mem_flatMap.mp h
  exact (infix_of_mem_preorder ht).trans (infix_of_mem hu)

/-! ## Wrappers: `unwrap` -/

/-- What the wrapper `t` is wrapped around: the first of its operands, or the last one where a type
stands in front. -/
def inner? (t : SyntaxTree) : Option SyntaxTree :=
  if t.kind.isWrapper then t.operands.head?
  else if t.kind = .typeAssertion then t.operands.getLast?
  else none

theorem mem_of_inner? (h : t.inner? = some u) : u ∈ t.children := by
  unfold inner? at h
  split at h
  · exact (List.mem_filter.mp (List.mem_of_mem_head? h)).1
  · split at h
    · exact (List.mem_filter.mp (List.mem_of_mem_getLast? h)).1
    · simp at h

theorem unwrapFirst_eq (ts : List SyntaxTree) :
    unwrapFirst ts = (ts.filter isOperand).head?.map unwrap := by
  induction ts with
  | nil => rfl
  | cons t ts ih => by_cases h : t.isOperand <;> simp [unwrapFirst, h, ih]

theorem unwrapLast_eq (ts : List SyntaxTree) :
    unwrapLast ts = (ts.filter isOperand).getLast?.map unwrap := by
  induction ts with
  | nil => rfl
  | cons t ts ih => by_cases h : t.isOperand <;> simp [unwrapLast, h, ih, List.getLast?_cons]

theorem unwrap_eq (t : SyntaxTree) : t.unwrap = (t.inner?.map unwrap).getD t := by
  cases t with
  | leaf k r p s =>
      cases h : inner? (.leaf k r p s) with
      | none => rfl
      | some u => simpa [children] using mem_of_inner? h
  | node k r p ts =>
      unfold unwrap
      split
      case h_6 =>
        rename_i hassertion
        have hassertion : k ≠ .typeAssertion := hassertion
        simp [inner?, Kind.isWrapper, kind, hassertion]
      all_goals
        simp [inner?, Kind.isWrapper, kind, operands, children, unwrapFirst_eq, unwrapLast_eq]

theorem unwrap_of_inner? (h : t.inner? = some u) : t.unwrap = u.unwrap := by
  simp [unwrap_eq t, h]

theorem unwrap_of_no_inner (h : t.inner? = none) : t.unwrap = t := by
  simp [unwrap_eq t, h]

/-- To take wrappers off, one after the other, as `unwrap` does. -/
theorem unwrap_induct {motive : SyntaxTree → Prop} (bare : ∀ t, t.inner? = none → motive t)
    (wrapped : ∀ t u, t.inner? = some u → motive u → motive t) (t : SyntaxTree) : motive t := by
  induction t with
  | leaf k r p s => exact bare _ (by simp [inner?, operands, children])
  | node k r p ts ih =>
      cases h : inner? (.node k r p ts) with
      | none => exact bare _ h
      | some u => exact wrapped _ u h (ih u (mem_of_inner? h))

theorem infix_of_unwrap (t : SyntaxTree) : t.unwrap.chars <:+: t.chars := by
  induction t using unwrap_induct with
  | bare t h =>
      simp only [unwrap_of_no_inner h, List.infix_refl]
  | wrapped t u h ih =>
      rw [unwrap_of_inner? h]
      exact ih.trans ((infix_of_mem (mem_of_inner? h)).trans (charsOf_children_suffix t).isInfix)

theorem unwrap_unwrap (t : SyntaxTree) : t.unwrap.unwrap = t.unwrap := by
  induction t using unwrap_induct with
  | bare t h => simp [unwrap_of_no_inner h]
  | wrapped t u h ih => rw [unwrap_of_inner? h, ih]

end SyntaxTree

end PageReach.Script
