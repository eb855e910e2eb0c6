import PageReach.Proofs.Script.Tree

/-!
# Trees in document order

Trees stand *in order* (`InOrder`) if each of them covers a stretch of the source, the stretches
follow one another, and what is below a tree lies within the stretch of that tree. Then the trees
that a walk comes by, each before what is below it and everything from left to right, start at later
and later places (`InOrder.pairwise_preorderOf`).
-/

namespace PageReach.Script

theorem Position.offset_le_advance (p : Position) (cs : List Char) :
    p.offset ≤ (p.advance cs).offset := by
  induction cs generalizing p with
  | nil => exact Nat.le_refl _
  | cons c cs ih => exact Nat.le_trans (Nat.le_add_right _ _) (ih (p.step c))

namespace SyntaxTree

variable {a b m : Nat} {t : SyntaxTree} {ts us inner : List SyntaxTree} {k : Kind} {r : Option Role}

@[simp] theorem start_withRole (r : Role) (t : SyntaxTree) : (t.withRole r).start = t.start := by
  cases t <;> rfl

/-- The trees cover stretches between the offsets `a` and `b`, one after the other, each from where it
starts to some end, with what is below in between. -/
inductive InOrder : Nat → List SyntaxTree → Nat → Prop where
  | nil {a b : Nat} : a ≤ b → InOrder a [] b
  | leaf {a b ending : Nat} {k : Kind} {r : Option Role} {p : Position} {s : String}
      {ts : List SyntaxTree} :
    a ≤ p.offset → p.offset ≤ ending → InOrder ending ts b → InOrder a (.leaf k r p s :: ts) b
  | node {a b ending : Nat} {k : Kind} {r : Option Role} {p : Position} {us ts : List SyntaxTree} :
    a ≤ p.offset → InOrder p.offset us ending → InOrder ending ts b →
    InOrder a (.node k r p us :: ts) b

namespace InOrder

theorem le (h : InOrder a ts b) : a ≤ b := by
  induction h with
  | nil h => exact h
  | leaf hstart hend _ ih => omega
  | node hstart _ _ ihus ih => omega

theorem append (hts : InOrder a ts m) (hus : InOrder m us b) : InOrder a (ts ++ us) b := by
  induction hts with
  | nil h =>
      -- the first tree may start later than where the row begins
      cases hus with
      | nil h' => exact .nil (Nat.le_trans h h')
      | leaf hstart hend hrest => exact .leaf (Nat.le_trans h hstart) hend hrest
      | node hstart hbelow hrest => exact .node (Nat.le_trans h hstart) hbelow hrest
  | leaf hstart hend _ ih => exact .leaf hstart hend (ih hus)
  | node hstart hbelow _ _ ih => exact .node hstart hbelow (ih hus)

theorem split (h : InOrder a (ts ++ us) b) : ∃ m, InOrder a ts m ∧ InOrder m us b := by
  induction ts generalizing a with
  | nil => exact ⟨a, .nil (Nat.le_refl a), h⟩
  | cons t ts ih =>
      cases h with
      | leaf hstart hend hrest =>
          obtain ⟨m, hts, hus⟩ := ih hrest
          exact ⟨m, .leaf hstart hend hts, hus⟩
      | node hstart hbelow hrest =>
          obtain ⟨m, hts, hus⟩ := ih hrest
          exact ⟨m, .node hstart hbelow hts, hus⟩

/-- A row may as well begin where its first tree `t` starts. -/
theorem from_start (h : InOrder a (t :: ts) b) :
    a ≤ t.start.offset ∧ InOrder t.start.offset (t :: ts) b := by
  cases h with
  | leaf hstart hend hrest => exact ⟨hstart, .leaf (Nat.le_refl _) hend hrest⟩
  | node hstart hbelow hrest => exact ⟨hstart, .node (Nat.le_refl _) hbelow hrest⟩

/-- A node that starts with the first of the trees `inner`, or at `place` if there are none, and
goes on with `us`. -/
theorem node_of_start {place : Position} (hinner : InOrder a inner place.offset)
    (hus : InOrder place.offset us b) :
    InOrder a [.node k r ((inner.head?.map start).getD place) (inner ++ us)] b := by
  cases inner with
  | nil => exact .node hinner.le hus (.nil (Nat.le_refl b))
  | cons t ts =>
      obtain ⟨hstart, hinner⟩ := hinner.from_start
      exact .node hstart (hinner.append hus) (.nil (Nat.le_refl b))

/-- Roles have nothing to do with places: `withRole` keeps the order. -/
theorem map {f : SyntaxTree → SyntaxTree} (hf : ∀ t, f t = t ∨ ∃ role, f t = t.withRole role)
    (h : InOrder a ts b) : InOrder a (ts.map f) b := by
  induction ts generalizing a with
  | nil => exact h
  | cons t ts ih =>
      rw [List.map_cons]
      cases h with
      | leaf hstart hend hrest =>
          rcases hf (.leaf _ _ _ _) with heq | ⟨role, heq⟩ <;>
            · rw [heq]
              exact .leaf hstart hend (ih hrest)
      | node hstart hbelow hrest =>
          rcases hf (.node _ _ _ _) with heq | ⟨role, heq⟩ <;>
            · rw [heq]
              exact .node hstart hbelow (ih hrest)

/-! ## Walks: `preorderOf` -/

/-- The trees that a walk comes by start within the stretch of the row that it walks through. -/
theorem start_of_mem {enter : SyntaxTree → Bool} (h : InOrder a ts b) (ht : t ∈ preorderOf enter ts) :
    a ≤ t.start.offset ∧ t.start.offset ≤ b := by
  induction h with
  | nil => cases ht
  | leaf hstart hend hrest ih =>
      have hle := hrest.le
      rcases List.mem_cons.mp ht with rfl | ht
      · exact ⟨hstart, Nat.le_trans hend hle⟩
      · have := ih ht
        omega
  | node hstart hbelow hrest ihbelow ih =>
      have hle := hrest.le
      have hend := hbelow.le
      rw [preorderOf, preorder_eq, List.cons_append, List.mem_cons, List.mem_append] at ht
      rcases ht with rfl | ht | ht
      · exact ⟨hstart, Nat.le_trans hend hle⟩
      · split at ht
        · have := ihbelow ht
          omega
        · cases ht
      · have := ih ht
        omega

/-- **Trees that are `InOrder` are walked through in order.** -/
theorem pairwise_preorderOf (enter : SyntaxTree → Bool) (h : InOrder a ts b) :
    (preorderOf enter ts).Pairwise fun t u => t.start.offset ≤ u.start.offset := by
  induction h with
  | nil => exact .nil
  | leaf hstart hend hrest ih =>
      refine List.pairwise_cons.mpr ⟨fun u hu => ?_, ih⟩
      exact Nat.le_trans hend (hrest.start_of_mem hu).1
  | @node a b ending k r p us ts hstart hbelow hrest ihbelow ih =>
      have hafter (u : SyntaxTree) (hu : u ∈ preorderOf enter ts) : ending ≤ u.start.offset :=
        (hrest.start_of_mem hu).1
      rw [preorderOf, preorder]
      split
      · refine List.pairwise_cons.mpr ⟨fun u hu => ?_, List.pairwise_append.mpr ⟨ihbelow, ih, ?_⟩⟩
        · rcases List.mem_append.mp hu with hu | hu
          · exact (hbelow.start_of_mem hu).1
          · exact Nat.le_trans hbelow.le (hafter u hu)
        · intro u hu v hv
          exact Nat.le_trans (hbelow.start_of_mem hu).2 (hafter v hv)
      · exact List.pairwise_cons.mpr ⟨fun u hu => Nat.le_trans hbelow.le (hafter u hu), ih⟩

end InOrder

end SyntaxTree

end PageReach.Script
