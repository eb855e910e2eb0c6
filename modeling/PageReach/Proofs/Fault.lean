import PageReach.Fault

/-!
# Computations that stop

A computation without a state either gives something or `Stops` with a fault. Whether it stops can
be told step by step.

* **Steps** (`stops_bind`, `stops_mapM`, `stops_foldlM`): a computation stops at a step, or the step
  gives something and the rest stops.
* **Rows** (`Meets`, `stops_findSomeM?`, `stops_findM?`): a search along a row stops at what is bad,
  unless it has found something good before.
-/

namespace PageReach

variable {α β : Type}

/-- The computation `x` stops with a fault. -/
def Stops (x : Except Fault α) : Prop := ∃ fault, x = .error fault

@[simp] theorem stops_error (fault : Fault) : Stops (.error fault : Except Fault α) := ⟨fault, rfl⟩

@[simp] theorem not_stops_ok (a : α) : ¬ Stops (.ok a) := by
  rintro ⟨fault, h⟩
  cases h

@[simp] theorem not_stops_pure (a : α) : ¬ Stops (pure a) := not_stops_ok a

theorem ok_bind (a : α) (f : α → Except Fault β) : .ok a >>= f = f a := rfl

theorem error_bind (fault : Fault) (f : α → Except Fault β) : .error fault >>= f = .error fault := rfl

/-- What comes out of two steps without a fault comes out of `x` and then of `f`. -/
theorem exists_ok_of_bind {x : Except Fault α} {f : α → Except Fault β} {b : β}
    (h : x >>= f = .ok b) : ∃ a, x = .ok a ∧ f a = .ok b := by
  cases x with
  | error fault => cases h
  | ok a => exact ⟨a, rfl, h⟩

theorem exists_ok_of_map {x : Except Fault α} {f : α → β} {b : β} (h : x.map f = .ok b) :
    ∃ a, x = .ok a ∧ f a = b := by
  cases x with
  | error fault => cases h
  | ok a => exact ⟨a, rfl, Except.ok.inj h⟩

theorem exists_ok_some_of_map {x : Except Fault (Option α)} {f : α → β} {b : β}
    (h : x.map (Option.map f) = .ok (some b)) : ∃ a, x = .ok (some a) ∧ f a = b := by
  obtain ⟨a?, hx, hmap⟩ := exists_ok_of_map h
  obtain ⟨a, rfl, ha⟩ := Option.map_eq_some_iff.mp hmap
  exact ⟨a, hx, ha⟩

theorem eq_error_of_map {x : Except Fault α} {f : α → β} {fault : Fault}
    (h : x.map f = .error fault) : x = .error fault := by
  cases x with
  | error other =>
      cases h
      rfl
  | ok a => cases h

theorem stops_or_ok (x : Except Fault α) : Stops x ∨ ∃ a, x = .ok a := by
  cases x with
  | error fault => exact .inl ⟨fault, rfl⟩
  | ok a => exact .inr ⟨a, rfl⟩

theorem stops_bind {x : Except Fault α} {f : α → Except Fault β} :
    Stops (x >>= f) ↔ Stops x ∨ ∃ a, x = .ok a ∧ Stops (f a) := by
  cases x with
  | error fault =>
      refine iff_of_true ⟨fault, rfl⟩ (.inl ⟨fault, rfl⟩)
  | ok a =>
      constructor
      · exact fun h => .inr ⟨a, rfl, h⟩
      · rintro (h | ⟨a', ha', h⟩)
        · exact absurd h (not_stops_ok a)
        · cases ha'
          exact h

/-- If it does not depend on what `x` gives whether `f` stops, then both stop if one of them
does. -/
theorem stops_bind_of_iff {x : Except Fault α} {f : α → Except Fault β} {P : Prop}
    (h : ∀ a, Stops (f a) ↔ P) : Stops (x >>= f) ↔ Stops x ∨ P := by
  rw [stops_bind]
  simp only [h]
  rcases stops_or_ok x with hx | ⟨a, ha⟩
  · simp [hx]
  · simp [ha]

theorem stops_return {x : Except Fault α} {f : α → β} : Stops (do return f (← x)) ↔ Stops x := by
  rw [stops_bind_of_iff (P := False) (by simp), or_false]

theorem stops_mapM {f : α → Except Fault β} {l : List α} :
    Stops (l.mapM f) ↔ ∃ a ∈ l, Stops (f a) := by
  induction l with
  | nil => simp
  | cons a l ih =>
      rw [List.mapM_cons, stops_bind_of_iff fun b => stops_return, ih]
      simp

theorem stops_forM {f : α → Except Fault PUnit} {l : List α} :
    Stops (l.forM f) ↔ ∃ a ∈ l, Stops (f a) := by
  induction l with
  | nil => simp
  | cons a l ih =>
      have hcons : (a :: l).forM f = f a >>= fun _ => l.forM f := rfl
      rw [hcons, stops_bind_of_iff fun _ => ih]
      simp

theorem stops_map {x : Except Fault α} {f : α → β} : Stops (x.map f) ↔ Stops x := by
  cases x with
  | error fault => exact iff_of_true ⟨fault, rfl⟩ ⟨fault, rfl⟩
  | ok a => exact iff_of_false (not_stops_ok _) (not_stops_ok _)

/-- If it depends on the element alone whether a step stops, then steps one after the other stop at the
first such element. -/
theorem stops_foldlM {f : α → β → Except Fault α} {P : β → Prop} (h : ∀ a b, Stops (f a b) ↔ P b)
    {l : List β} {a : α} : Stops (l.foldlM f a) ↔ ∃ b ∈ l, P b := by
  induction l generalizing a with
  | nil => simp
  | cons b l ih =>
      rw [List.foldlM_cons, stops_bind_of_iff fun a' => ih (a := a'), h]
      simp

/-! ## The first of a row: `Meets` -/

/-- Along the row `l`, something `bad` is met before anything `good`. -/
def Meets (bad : α → Prop) (good : α → Bool) (l : List α) : Prop :=
  ∃ front a back, l = front ++ a :: back ∧ (∀ b ∈ front, good b = false) ∧ bad a

section

variable {bad : α → Prop} {good : α → Bool} {a : α} {l : List α}

theorem not_meets_nil : ¬ Meets bad good [] := by
  rintro ⟨front, a, back, h, -⟩
  cases front <;> cases h

theorem meets_cons : Meets bad good (a :: l) ↔ bad a ∨ good a = false ∧ Meets bad good l := by
  constructor
  · rintro ⟨front, b, back, h, hfront, hb⟩
    cases front with
    | nil =>
        cases h
        exact .inl hb
    | cons c front =>
        cases h
        obtain ⟨ha, hfront⟩ := List.forall_mem_cons.mp hfront
        exact .inr ⟨ha, front, b, back, rfl, hfront, hb⟩
  · rintro (ha | ⟨ha, front, b, back, rfl, hfront, hb⟩)
    · exact ⟨[], a, l, rfl, by simp, ha⟩
    · exact ⟨a :: front, b, back, rfl, List.forall_mem_cons.mpr ⟨ha, hfront⟩, hb⟩

/-- `findSomeM?` stops at what is bad, unless it has found something good before. -/
theorem stops_findSomeM? {f : α → Except Fault (Option β)} (hbad : ∀ a, Stops (f a) ↔ bad a)
    (hgood : ∀ a o, f a = .ok o → o.isSome = good a) :
    Stops (l.findSomeM? f) ↔ Meets bad good l := by
  induction l with
  | nil => exact iff_of_false (not_stops_pure _) not_meets_nil
  | cons a l ih =>
      rw [List.findSomeM?, meets_cons, ← hbad]
      rcases stops_or_ok (f a) with hstop | ⟨o, ho⟩
      · exact iff_of_true (stops_bind.mpr (.inl hstop)) (.inl hstop)
      · have ha := hgood a o ho
        rw [ho, ok_bind]
        cases o with
        | some b => simp [← ha]
        | none => simp [← ha, ih]

theorem findM?_eq (p : α → Except Fault Bool) (l : List α) :
    l.findM? p = l.findSomeM? fun a => (p a).map fun b => if b then some a else none := by
  induction l with
  | nil => rfl
  | cons a l ih =>
      rw [List.findM?, List.findSomeM?, ih]
      rcases p a with fault | _ | _ <;> rfl

theorem stops_findM? {p : α → Except Fault Bool} (hbad : ∀ a, Stops (p a) ↔ bad a)
    (hgood : ∀ a b, p a = .ok b → b = good a) : Stops (l.findM? p) ↔ Meets bad good l := by
  rw [findM?_eq]
  refine stops_findSomeM? (fun a => stops_map.trans (hbad a)) fun a o ho => ?_
  cases hp : p a with
  | error fault =>
      rw [hp] at ho
      cases ho
  | ok b =>
      rw [hp] at ho
      cases ho
      rw [← hgood a b hp]
      cases b <;> rfl

/-- Where `findM?` does not stop, it finds the first that is good. -/
theorem eq_find?_of_findM? {p : α → Except Fault Bool} (hgood : ∀ a b, p a = .ok b → b = good a)
    {o : Option α} (h : l.findM? p = .ok o) : o = l.find? good := by
  induction l with
  | nil =>
      cases h
      rfl
  | cons a l ih =>
      rw [List.findM?] at h
      obtain ⟨b, hb, h⟩ := exists_ok_of_bind h
      rw [List.find?_cons, ← hgood a b hb]
      cases b with
      | true =>
          cases h
          rfl
      | false => exact ih h

end

end PageReach
