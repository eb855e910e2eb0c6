import PageReach.Proofs.Walk.Best
import PageReach.Reach.Engine

/-!
# What is to be added to a page

A page gets the operations of a walk that it does not list yet, each once and the nearest first.

* **Names of a list** (`names_append`): what has been added is listed from then on, unless the name
  of the operation begins with a decoration (`Undecorated`).
* **New facts** (`mem_newFacts`, `sorted_newFacts`, `nodup_newFacts_names`): `newFacts` takes from
  `best` the facts with unknown names, sorted by distance, and each name once.
-/

namespace PageReach

/-! ## The `names` of a list -/

namespace Listed

/-- The name does not begin with a decoration, so `names` leaves it as it is. -/
def Undecorated (name : String) : Prop := ∀ c, name.toList.head? = some c → isDecoration c = false

theorem Undecorated.trimStart {name : String} (h : Undecorated name) :
    Text.trimStart isDecoration name = name := by
  rw [Text.trimStart]
  cases hname : name.toList with
  | nil => rw [List.dropWhile_nil, ← hname, String.ofList_toList]
  | cons c rest =>
      have hc : isDecoration c = false := h c (by rw [hname, List.head?_cons])
      rw [List.dropWhile_cons_of_neg (by rw [hc]; exact Bool.false_ne_true), ← hname,
        String.ofList_toList]

theorem names_attributions {added : List Attribution} (h : ∀ a ∈ added, Undecorated a.name) :
    names (added.map .attribution) = .ok (added.map (·.name)) := by
  induction added with
  | nil => rfl
  | cons a added ih =>
      have hname : name (.attribution a) = .ok a.name :=
        congrArg Except.ok (h a List.mem_cons_self).trimStart
      have hrest := ih fun b hb => h b (List.mem_cons_of_mem _ hb)
      rw [names] at hrest ⊢
      rw [List.map_cons, List.mapM_cons, hname, hrest]
      rfl

theorem names_append {entries : List Listed} {known : List String} {added : List Attribution}
    (hknown : names entries = .ok known) (h : ∀ a ∈ added, Undecorated a.name) :
    names (entries ++ added.map .attribution) = .ok (known ++ added.map (·.name)) := by
  have hadded := names_attributions h
  rw [names] at hknown hadded ⊢
  rw [List.mapM_append, hknown, hadded]
  rfl

end Listed

/-! ## `newFacts` -/

namespace Engine

open Journey (Nearest)

variable {w : Walk} {met : List (Fact × Nat)} {known : List String}

theorem newFacts_sublist (w : Walk) (known : List String) :
    (newFacts w known).Sublist (w.best.values.mergeSort fun a b => a.2 ≤ b.2) :=
  List.filter_sublist

theorem newFacts_subset (w : Walk) (known : List String) : newFacts w known ⊆ w.best.values :=
  fun _ hx => (List.mergeSort_perm _ _).mem_iff.mp ((newFacts_sublist w known).subset hx)

theorem sorted_newFacts (w : Walk) (known : List String) :
    (newFacts w known).Pairwise fun a b => a.2 ≤ b.2 := by
  have hsorted : (w.best.values.mergeSort fun a b => a.2 ≤ b.2).Pairwise
      fun a b => decide (a.2 ≤ b.2) = true := by
    apply List.pairwise_mergeSort
    · intro a b c hab hbc
      rw [decide_eq_true_eq] at hab hbc ⊢
      exact Nat.le_trans hab hbc
    · intro a b
      rw [Bool.or_eq_true, decide_eq_true_eq, decide_eq_true_eq]
      exact Nat.le_total a.2 b.2
  exact (hsorted.imp of_decide_eq_true).sublist (newFacts_sublist w known)

theorem mem_newFacts (h : Nearest met w.best) {x : Fact × Nat} :
    x ∈ newFacts w known ↔ w.best.get? x.1.name = some x ∧ x.1.name ∉ known := by
  rw [newFacts, List.mem_filter, (List.mergeSort_perm _ _).mem_iff, Bool.not_eq_true',
    Bool.eq_false_iff, ne_eq, List.contains_iff_mem]
  refine and_congr_left fun _ => ⟨h.get?_of_mem_values, fun hget => ?_⟩
  exact List.mem_map.mpr ⟨_, Table.mem_entries_of_get? hget, rfl⟩

/-- The names in `newFacts` are those that are `met` and not `known`. -/
theorem mem_newFacts_names (h : Nearest met w.best) {name : String} :
    name ∈ (newFacts w known).map (·.1.name) ↔ name ∉ known ∧ ∃ x ∈ met, x.1.name = name := by
  rw [List.mem_map]
  constructor
  · rintro ⟨x, hx, rfl⟩
    obtain ⟨hget, hnew⟩ := (mem_newFacts h).mp hx
    exact ⟨hnew, x, (h.entry _ _ hget).1, rfl⟩
  · rintro ⟨hnew, x, hx, rfl⟩
    obtain ⟨y, hy, -⟩ := h.least x hx
    have hname := (h.entry _ _ hy).2
    exact ⟨y, (mem_newFacts h).mpr ⟨by rw [hname]; exact hy, by rw [hname]; exact hnew⟩, hname⟩

theorem nodup_newFacts_names (h : Nearest met w.best) :
    ((newFacts w known).map (·.1.name)).Nodup := by
  have hkeys : w.best.values.map (·.1.name) = w.best.keys := by
    rw [Table.values, Table.keys, List.map_map]
    refine List.map_congr_left ?_
    rintro ⟨name, x⟩ hmem
    exact (h.entry name x (Table.get?_of_mem_entries h.nodup hmem)).2
  have hsorted : ((w.best.values.mergeSort fun a b => a.2 ≤ b.2).map (·.1.name)).Nodup := by
    rw [((List.mergeSort_perm _ _).map _).nodup_iff, hkeys]
    exact h.nodup
  exact hsorted.sublist ((newFacts_sublist w known).map _)

end Engine

end PageReach
