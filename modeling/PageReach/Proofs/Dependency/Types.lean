import PageReach.Proofs.Dependency.Edge
import PageReach.Script.Parse

/-!
# Dependencies on types

What is imported or re-exported as a type is erased before the program runs. A dependency is about
types only (`TypeOnly`) if it is marked as a whole, or if it lists nothing but specifiers that are
marked one by one. Such a dependency makes no edge, with one exception: a re-export of marked
specifiers, without the word in front of the list, makes an edge that may take anything
(`Unnoticed`).

* **No edge** (`of?_of_typeOnly`): from a dependency on types that is noticed.
* **An edge** (`exists_of?_of_target`): from every other one that names a module.
* **Whole trees** (`types_make_no_edge_unless_unnoticed`): both, and what the edges take.
-/

namespace PageReach.Edge

open Script SyntaxTree

variable {t : SyntaxTree} {e : Edge}

/-! ## Dependencies that are `TypeOnly` -/

/-- The dependency `t` lists specifiers, all of them marked as types, and binds nothing else. -/
def ListsTypes (t : SyntaxTree) : Prop :=
  bindsBeside t = false ∧ listed t ≠ [] ∧ ∀ s ∈ listed t, s.hasToken (typeWords t) = true

/-- The dependency `t` is marked as a whole, or `ListsTypes` that are marked one by one. -/
def TypeOnly (t : SyntaxTree) : Prop := t.hasToken (typeWords t) = true ∨ ListsTypes t

/-- A re-export of marked specifiers, without the word in front of the list. -/
def Unnoticed (t : SyntaxTree) : Prop :=
  t.kind = .exportStatement ∧ t.hasToken (typeWords t) = false ∧ ListsTypes t

instance : DecidablePred ListsTypes := fun _ => inferInstanceAs (Decidable (_ ∧ _))

instance : DecidablePred TypeOnly := fun _ => inferInstanceAs (Decidable (_ ∨ _))

theorem request_of_listsTypes (h : ListsTypes t) :
    request t = if t.kind = .importStatement then .erased else .anything := by
  obtain ⟨hbeside, hnonempty, hmarked⟩ := h
  split
  · rename_i hkind
    obtain ⟨s, hs⟩ := List.exists_mem_of_ne_nil _ hnonempty
    have hany : (listed t).any (·.hasToken (typeWords t)) = true :=
      List.any_eq_true.mpr ⟨s, hs, hmarked s hs⟩
    simp [request_of_import hkind, hbeside, taken_eq_nil hmarked, hany]
  · rename_i hkind
    simp [request_of_export hkind, taken_eq_nil hmarked]

/-- Only an import that `ListsTypes` can be erased. -/
theorem listsTypes_of_erased (hrequest : request t = .erased)
    (hnamed : ∀ s ∈ listed t, (s.child? .name).isSome) : t.kind = .importStatement ∧ ListsTypes t := by
  by_cases hkind : t.kind = .importStatement
  · rw [request_of_import hkind] at hrequest
    split at hrequest
    · cases hrequest
    rename_i hbeside
    split at hrequest
    · cases hrequest
    rename_i htaken
    split at hrequest
    · rename_i hany
      obtain ⟨s, hs, -⟩ := List.any_eq_true.mp hany
      refine ⟨hkind, by simpa using hbeside, List.ne_nil_of_mem hs, fun u hu => ?_⟩
      -- an unmarked specifier would have a name, and the name would be taken
      by_contra hunmarked
      obtain ⟨name, hname⟩ := Option.isSome_iff_exists.mp (hnamed u hu)
      have hmem : name.nameText ∈ taken t :=
        mem_taken.mpr ⟨u, hu, by simpa using hunmarked, by rw [hname, Option.map_some]⟩
      exact htaken (List.ne_nil_of_mem hmem)
    · cases hrequest
  · rw [request_of_export hkind] at hrequest
    split at hrequest <;> cases hrequest

/-! ## Their edges: `of?` -/

theorem of?_of_typeOnly (ht : IsDependency t) (htypes : TypeOnly t) (hnoticed : ¬ Unnoticed t) :
    of? t = none := by
  rw [of?_of_isDependency ht]
  split
  · rfl
  · rename_i hunmarked
    have hlists : ListsTypes t := htypes.resolve_left hunmarked
    have hkind : t.kind = .importStatement := by
      refine ht.resolve_right fun hexport => hnoticed ⟨hexport.1, ?_, hlists⟩
      simpa using hunmarked
    rw [request_of_listsTypes hlists, if_pos hkind, to?_erased]

theorem mem_taken_of_names {ns : List String} {name : String} (ht : IsDependency t)
    (hof : of? t = some e) (hns : e.names = some ns) (hname : name ∈ ns) : name ∈ taken t := by
  rw [of?_of_isDependency ht] at hof
  split at hof
  · cases hof
  · obtain ⟨s, -, -, ⟨-, rfl⟩ | ⟨ms, hrequest, rfl⟩⟩ := to?_eq_some_iff.mp hof
    · cases hns
    · cases hns
      rw [← eq_taken_of_request hrequest]
      exact mem_sortedSet.mp hname

/-- An edge that takes `names` comes from a dependency. -/
theorem isDependency_of_names {ns : List String} (hof : of? t = some e) (hns : e.names = some ns) :
    IsDependency t := by
  unfold of? at hof
  split at hof
  · exact .inl ‹_›
  · obtain ⟨source, hsource, -⟩ := Option.bind_eq_some_iff.mp hof
    exact .inr ⟨‹_›, by simp [hsource]⟩
  · unfold ofCall? at hof
    split at hof
    · split at hof
      · split at hof
        · obtain ⟨s, -, -, ⟨-, rfl⟩ | ⟨ms, hrequest, -⟩⟩ := to?_eq_some_iff.mp hof
          · cases hns
          · cases hrequest
        · cases hof
      · cases hof
    · cases hof
  · cases hof

theorem exists_of?_of_target {s : String} (ht : IsDependency t) (htarget : target? t = some s)
    (hs : s ≠ "") (hnamed : ∀ u ∈ listed t, (u.child? .name).isSome)
    (htypes : ¬ TypeOnly t ∨ Unnoticed t) :
    ∃ names, of? t = some ⟨s, names, t.start⟩ ∧ (Unnoticed t → names = none) := by
  have hunmarked : t.hasToken (typeWords t) = false := by
    rcases htypes with htypes | htypes
    · simpa using fun h => htypes (.inl h)
    · exact htypes.2.1
  rw [of?_of_isDependency ht, hunmarked, htarget]
  cases hrequest : request t with
  | anything => exact ⟨none, to?_eq_some_iff.mpr ⟨s, rfl, hs, .inl ⟨rfl, rfl⟩⟩, fun _ => rfl⟩
  | erased =>
      obtain ⟨hkind, hlists⟩ := listsTypes_of_erased hrequest hnamed
      rcases htypes with htypes | htypes
      · exact absurd (.inr hlists) htypes
      · cases hkind.symm.trans htypes.1
  | names ns =>
      refine ⟨some (sortedSet ns), to?_eq_some_iff.mpr ⟨s, rfl, hs, .inr ⟨ns, rfl, rfl⟩⟩, fun h => ?_⟩
      rw [request_of_listsTypes h.2.2, if_neg (by simp [h.1])] at hrequest
      cases hrequest

/-- **Types make no edges, unless they are re-exported one by one.** -/
theorem types_make_no_edge_unless_unnoticed (root : SyntaxTree) :
    (∀ t ∈ root.preorder enters, IsDependency t →
      (TypeOnly t → ¬ Unnoticed t → ofTree t = []) ∧
      ∀ s, target? t = some s → s ≠ "" → (∀ u ∈ listed t, (u.child? .name).isSome) →
        ¬ TypeOnly t ∨ Unnoticed t →
        ∃ names, ofTree t = [⟨s, names, t.start⟩] ∧ (Unnoticed t → names = none)) ∧
    ∀ e ∈ ofTree root, ∃ t ∈ root.preorder enters, of? t = some e ∧
      (IsDependency t → TypeOnly t → Unnoticed t) ∧
      ∀ ns, e.names = some ns → ∀ name ∈ ns, ∃ s ∈ listed t,
        s.hasToken (typeWords t) = false ∧ (s.child? .name).map nameText = some name := by
  refine ⟨fun t _ ht => ⟨fun htypes hnoticed => ?_, fun s htarget hs hnamed htypes => ?_⟩, fun e he => ?_⟩
  · rw [ofTree_of_isDependency ht, of?_of_typeOnly ht htypes hnoticed, Option.toList_none]
  · obtain ⟨names, hof, hnames⟩ := exists_of?_of_target ht htarget hs hnamed htypes
    exact ⟨names, by rw [ofTree_of_isDependency ht, hof, Option.toList_some], hnames⟩
  · rw [ofTree_eq] at he
    obtain ⟨t, ht, hof⟩ := List.mem_filterMap.mp he
    refine ⟨t, ht, hof, fun hdependency htypes => ?_, fun ns hns name hname => ?_⟩
    · by_contra hnoticed
      rw [of?_of_typeOnly hdependency htypes hnoticed] at hof
      cases hof
    · exact mem_taken.mp (mem_taken_of_names (isDependency_of_names hof hns) hof hns hname)

/-- A re-export of one name, which is marked as a type. -/
def typeReexported : String := "export \x7b type A \x7d from './a';\n"

/-- The edge of `typeReexported` may take anything. -/
theorem marked_reexport_makes_edge : ∃ root, parse? .markup typeReexported = some root ∧
    (∃ t ∈ root.preorder enters, IsDependency t ∧ TypeOnly t) ∧
    ofTree root = [⟨"./a", none, .origin⟩] := by
  have heval : (parse? .markup typeReexported).map (fun root =>
      ((root.preorder enters).any fun t => decide (IsDependency t ∧ TypeOnly t), ofTree root)) =
      some (true, [⟨"./a", none, .origin⟩]) := by
    decide +kernel
  obtain ⟨root, hparse, hroot⟩ := Option.map_eq_some_iff.mp heval
  obtain ⟨hany, hedges⟩ := Prod.mk.inj hroot
  obtain ⟨t, ht, htypes⟩ := List.any_eq_true.mp hany
  exact ⟨root, hparse, ⟨t, ht, of_decide_eq_true htypes⟩, hedges⟩

end PageReach.Edge
