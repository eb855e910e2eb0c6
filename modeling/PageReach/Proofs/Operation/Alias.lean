import Mathlib.Data.List.ReduceOption
import Mathlib.Logic.Relation
import PageReach.Proofs.Operation.Scope

/-!
# Chains of variables

A variable that stands for another variable *leads* to it (`LeadsTo`). From a name on, this makes a
chain, which either comes back to one of its own names (`Revisits`) or ends at a name that leads
nowhere (`EndsAt`). A search through the variables answers nothing in the first case; in the second
it answers what the last name tells by itself (`settled`).

The empty text counts as a name when it is looked up, but never as something that a name stands for
(`firstNonempty`).

* **Steps** (`resolveUnseen_of_leadsTo`, `resolveUnseen_of_last`): the search goes along the chain.
* **Chains** (`resolveUnseen_cases`, `resolve_to_end_of_chain`): so it ends where the chain ends.
-/

namespace PageReach.Operation.Scope

open Relation

variable {s : Scope} {seen : List String} {name u v w op : String}

/-! ## One step: `LeadsTo` -/

/-- The variable `v` stands for `w`, which is a variable as well. -/
def LeadsTo (s : Scope) (v w : String) : Prop :=
  s.bindings.get? v = some w ∧ w ≠ "" ∧ w ∈ s.bindings.keys

/-- Starting from `name`, the chain comes to a name that leads back to itself. -/
def Revisits (s : Scope) (name : String) : Prop :=
  ∃ v, ReflTransGen s.LeadsTo name v ∧ TransGen s.LeadsTo v v

/-- Starting from `name`, the chain comes to `u` and does not go on. -/
def EndsAt (s : Scope) (name u : String) : Prop :=
  ReflTransGen s.LeadsTo name u ∧ ∀ w, ¬ s.LeadsTo u w

/-- The first of the `texts` that is there and is not empty. -/
def firstNonempty (texts : List (Option String)) : Option String :=
  texts.reduceOption.find? (· ≠ "")

/-- What the name `u` tells if it leads to no further variable. -/
def settled (s : Scope) (u : String) : Option String :=
  match firstNonempty [s.bindings.get? u] with
  | some w =>
    if isDocumentName w then
      firstNonempty [s.generated.get? w, s.imports.get? w, some (cleanName w)]
    else some w
  | none =>
    if isPlaceholder u then firstNonempty [s.generated.get? u, s.imports.get? u]
    else firstNonempty [s.generated.get? u, s.imports.get? u, some (cleanName u)]

theorem leadsTo_iff :
    s.LeadsTo v w ↔ lookup? s.bindings v = some w ∧ s.bindings.contains w = true := by
  rw [LeadsTo, lookup?, Table.contains_iff_mem_keys]
  cases s.bindings.get? v <;> grind

theorem rightUnique_leadsTo (s : Scope) : Relator.RightUnique s.LeadsTo := by
  rintro v w w' ⟨hw, -⟩ ⟨hw', -⟩
  exact Option.some.inj (hw.symm.trans hw')

/-! ## The first of several texts: `firstNonempty` -/

theorem firstNonempty_cons (text : Option String) (texts : List (Option String)) :
    firstNonempty (text :: texts) =
      (text.bind fun op => if op = "" then none else some op).or (firstNonempty texts) := by
  cases text with
  | none => rfl
  | some op => by_cases h : op = "" <;> simp [firstNonempty, h]

@[simp] theorem firstNonempty_nil : firstNonempty [] = none := rfl

theorem ne_empty_of_firstNonempty {texts : List (Option String)} (h : firstNonempty texts = some op) :
    op ≠ "" := by
  simpa using List.find?_some h

theorem documentOperation?_eq (s : Scope) (name : String) :
    s.documentOperation? name = firstNonempty [s.generated.get? name, s.imports.get? name] := by
  simp [documentOperation?, lookup?, firstNonempty_cons]

theorem documentOperation?_or_clean (s : Scope) (name : String) :
    (s.documentOperation? name).or (cleanName? name) =
      firstNonempty [s.generated.get? name, s.imports.get? name, some (cleanName name)] := by
  simp [documentOperation?, lookup?, cleanName?, firstNonempty_cons, Option.or_assoc]

theorem ne_empty_of_settled (h : s.settled u = some op) : op ≠ "" := by
  unfold settled at h
  split at h
  · rename_i hw
    split at h
    · exact ne_empty_of_firstNonempty h
    · cases h
      exact ne_empty_of_firstNonempty hw
  · split at h <;> exact ne_empty_of_firstNonempty h

/-! ## The search, step by step: `resolveUnseen` -/

/-- More fuel than there are `bindings` changes nothing. -/
theorem resolveFrom_add (s : Scope) (seen : List String) (name : String) (extra : Nat) :
    s.resolveFrom (s.bindings.size + 2 + extra) seen name = s.resolveUnseen seen name := by
  induction extra with
  | zero => rfl
  | succ extra ih =>
      have hle := length_unfollowed_le s seen
      rw [← Nat.add_assoc, resolveFrom_succ (by omega), ih]

/-- The search `resolveUnseen` without its fuel. -/
theorem resolveUnseen_eq (s : Scope) (seen : List String) (name : String) :
    s.resolveUnseen seen name =
      if name ∈ seen then none
      else
        match lookup? s.bindings name with
        | some target =>
          if s.bindings.contains target then s.resolveUnseen (name :: seen) target
          else if isDocumentName target then (s.documentOperation? target).or (cleanName? target)
          else some target
        | none =>
          (s.documentOperation? name).or (if isPlaceholder name then none else cleanName? name) := by
  rw [← resolveFrom_add s seen name 1, resolveFrom]
  simp only [List.contains_eq_mem, decide_eq_true_eq]
  rfl

/-- A variable that `LeadsTo` another one is followed, and is not followed again. -/
theorem resolveUnseen_of_leadsTo (h : s.LeadsTo v w) (hv : v ∉ seen) :
    s.resolveUnseen seen v = s.resolveUnseen (v :: seen) w := by
  obtain ⟨hlookup, hcontains⟩ := leadsTo_iff.mp h
  rw [resolveUnseen_eq, if_neg hv, hlookup]
  simp only [hcontains, if_true]

/-- At a name that leads nowhere, the search ends with what the name tells (`settled`). -/
theorem resolveUnseen_of_last (h : ∀ w, ¬ s.LeadsTo v w) (hv : v ∉ seen) :
    s.resolveUnseen seen v = s.settled v := by
  have hentry : firstNonempty [s.bindings.get? v] = lookup? s.bindings v := by
    simp [firstNonempty_cons, lookup?]
  rw [resolveUnseen_eq, if_neg hv, settled, hentry]
  cases hlookup : lookup? s.bindings v with
  | none =>
      by_cases hplaceholder : isPlaceholder v = true
      · simp only [hplaceholder, if_true, Option.or_none, documentOperation?_eq]
      · simp only [hplaceholder, Bool.false_eq_true, if_false, documentOperation?_or_clean]
  | some w =>
      have hfree : s.bindings.contains w = false := by
        rw [Bool.eq_false_iff]
        exact fun hcontains => h w (leadsTo_iff.mpr ⟨hlookup, hcontains⟩)
      simp only [hfree, Bool.false_eq_true, if_false, documentOperation?_or_clean]

/-! ## The search as a whole: `resolve` -/

/-- With the variables in `seen` followed already, the search comes upon one of them or upon a name
that leads back to itself, and answers nothing; or it comes to the end of the chain. -/
theorem resolveUnseen_cases (s : Scope) (seen : List String) (v : String) :
    (∃ x, ReflTransGen s.LeadsTo v x ∧ (x ∈ seen ∨ TransGen s.LeadsTo x x) ∧
      s.resolveUnseen seen v = none) ∨
    ∃ u, s.EndsAt v u ∧ s.resolveUnseen seen v = s.settled u := by
  -- each step follows a variable that had not been followed
  induction hn : (s.unfollowed seen).length using Nat.strongRecOn generalizing seen v with
  | _ n ih =>
      by_cases hv : v ∈ seen
      · exact .inl ⟨v, .refl, .inl hv, resolveUnseen_of_mem hv⟩
      by_cases hnext : ∃ w, s.LeadsTo v w
      · obtain ⟨w, hw⟩ := hnext
        have hlt := unfollowed_lt (leadsTo_iff.mp hw).1 hv
        rw [resolveUnseen_of_leadsTo hw hv]
        rcases ih _ (hn ▸ hlt) (v :: seen) w rfl with ⟨x, hx, hback, hnone⟩ | ⟨u, ⟨hu, hlast⟩, hsettled⟩
        · refine .inl ?_
          rcases hback with hmem | hcircle
          · rcases List.mem_cons.mp hmem with rfl | hmem
            · exact ⟨x, .refl, .inr (.head' hw hx), hnone⟩
            · exact ⟨x, hx.head hw, .inl hmem, hnone⟩
          · exact ⟨x, hx.head hw, .inr hcircle, hnone⟩
        · exact .inr ⟨u, ⟨hu.head hw, hlast⟩, hsettled⟩
      · have hlast : ∀ w, ¬ s.LeadsTo v w := fun w hw => hnext ⟨w, hw⟩
        exact .inr ⟨v, ⟨.refl, hlast⟩, resolveUnseen_of_last hlast hv⟩

theorem EndsAt.unique (hu : s.EndsAt name u) (hv : s.EndsAt name v) : u = v := by
  rcases hu.1.total_of_right_unique (rightUnique_leadsTo s) hv.1 with h | h
  · rcases h.cases_head with rfl | ⟨w, hw, -⟩
    · rfl
    · exact absurd hw (hu.2 w)
  · rcases h.cases_head with rfl | ⟨w, hw, -⟩
    · rfl
    · exact absurd hw (hv.2 w)

/-- A circle of `LeadsTo` is not left again. -/
theorem transGen_of_circle (hv : TransGen s.LeadsTo v v) (h : ReflTransGen s.LeadsTo v u) :
    TransGen s.LeadsTo u u := by
  induction h with
  | refl => exact hv
  | tail _ hstep ih =>
      obtain ⟨w, hw, hback⟩ := TransGen.head'_iff.mp ih
      rw [rightUnique_leadsTo s hstep hw]
      exact .tail' hback hw

theorem Revisits.not_endsAt (h : s.Revisits name) (u : String) : ¬ s.EndsAt name u := by
  obtain ⟨v, hv, hcircle⟩ := h
  rintro ⟨hu, hlast⟩
  -- the end would lie on the circle, or in front of it
  obtain ⟨w, hw⟩ : ∃ w, s.LeadsTo u w := by
    rcases hv.total_of_right_unique (rightUnique_leadsTo s) hu with hvu | huv
    · obtain ⟨w, hw, -⟩ := TransGen.head'_iff.mp (transGen_of_circle hcircle hvu)
      exact ⟨w, hw⟩
    · obtain ⟨w, hw, -⟩ := TransGen.head'_iff.mp (TransGen.trans_right huv hcircle)
      exact ⟨w, hw⟩
  exact hlast w hw

/-- **A name stands for what the end of its chain tells.** Whatever the tables are, the search comes to
an end, and fuel beyond the number of variables changes nothing. If the chain that starts from the name
comes back to one of its names, then the name stands for nothing. Otherwise the chain ends at exactly one
name, and what that one tells is the answer. The answer is never empty. -/
theorem resolve_to_end_of_chain (s : Scope) (name : String) :
    (∀ extra, s.resolveFrom (s.bindings.size + 2 + extra) [] name = s.resolve name) ∧
    ((s.Revisits name ∧ (∀ u, ¬ s.EndsAt name u) ∧ s.resolve name = none) ∨
      (¬ s.Revisits name ∧ ∃ u, (∀ v, s.EndsAt name v ↔ v = u) ∧ s.resolve name = s.settled u)) ∧
    s.resolve name ≠ some "" := by
  have hcases := resolveUnseen_cases s [] name
  refine ⟨resolveFrom_add s [] name, ?_, ?_⟩
  · rcases hcases with ⟨x, hx, hback, hnone⟩ | ⟨u, hu, hsettled⟩
    · have hrevisits : s.Revisits name := ⟨x, hx, hback.resolve_left (by simp)⟩
      exact .inl ⟨hrevisits, hrevisits.not_endsAt, hnone⟩
    · refine .inr ⟨fun h => h.not_endsAt u hu, u, fun v => ⟨fun hv => hv.unique hu, ?_⟩, hsettled⟩
      rintro rfl
      exact hu
  · intro hempty
    rcases hcases with ⟨x, -, -, hnone⟩ | ⟨u, -, hsettled⟩
    · cases hempty.symm.trans hnone
    · exact ne_empty_of_settled (hsettled.symm.trans hempty) rfl

/-- A variable for the empty text ends a chain, and its own name is cleaned. -/
example : ({ bindings := ⟨[("user", "UserQuery"), ("UserQuery", "")]⟩ } : Scope).resolve "user" =
    some "User" := by
  decide

/-- On a circle, the generated documents are not asked. -/
example : ({ bindings := ⟨[("a", "bQuery"), ("bQuery", "cQuery"), ("cQuery", "bQuery")]⟩
             generated := ⟨[("bQuery", "B")]⟩ } : Scope).resolve "a" = none := by
  decide

end PageReach.Operation.Scope
