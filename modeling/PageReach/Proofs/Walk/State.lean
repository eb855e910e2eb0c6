import PageReach.Proofs.Table
import PageReach.Reach.Walk

/-!
# The state of a walk

What each operation on the state of a walk (`Walk.enqueue`, `Walk.push`, `Walk.openBarrel`) does to
each of its parts. Later proofs use these lemmas and do not unfold the operations.
-/

namespace PageReach.Walk

/-! ## The queue: `enqueue` -/

theorem mem_enqueue {hop : Nat} {file : String} {queue : List (Nat × String)} {q : Nat × String} :
    q ∈ enqueue hop file queue ↔ q = (hop, file) ∨ q ∈ queue := by
  induction queue with
  | nil => simp [enqueue]
  | cons p rest ih =>
      obtain ⟨h, f⟩ := p
      rw [enqueue]
      split
      · rw [List.mem_cons, ih, List.mem_cons, or_left_comm]
      · exact List.mem_cons

theorem length_enqueue (hop : Nat) (file : String) (queue : List (Nat × String)) :
    (enqueue hop file queue).length = queue.length + 1 := by
  induction queue with
  | nil => rfl
  | cons p rest ih =>
      obtain ⟨h, f⟩ := p
      rw [enqueue]
      split
      · rw [List.length_cons, ih, List.length_cons]
      · rw [List.length_cons]

/-- No file of the `queue` stands before a nearer one. -/
def Ordered (queue : List (Nat × String)) : Prop := queue.Pairwise fun a b => a.1 ≤ b.1

theorem Ordered.enqueue {hop : Nat} {file : String} {queue : List (Nat × String)}
    (h : Ordered queue) : Ordered (enqueue hop file queue) := by
  induction queue with
  | nil => exact List.pairwise_singleton _ _
  | cons p rest ih =>
      obtain ⟨h', f⟩ := p
      obtain ⟨hhead, htail⟩ := List.pairwise_cons.mp h
      rw [Walk.enqueue]
      split
      next hle =>
        refine List.pairwise_cons.mpr ⟨?_, ih htail⟩
        intro q hq
        rcases mem_enqueue.mp hq with rfl | hq
        · exact hle
        · exact hhead q hq
      next hlt =>
        refine List.pairwise_cons.mpr ⟨?_, h⟩
        intro q hq
        rcases List.mem_cons.mp hq with rfl | hq
        · exact Nat.le_of_lt (Nat.lt_of_not_le hlt)
        · have := hhead q hq
          simp only at this hlt ⊢
          omega

theorem Ordered.head_le {q : Nat × String} {rest : List (Nat × String)} (h : Ordered (q :: rest))
    {p : Nat × String} (hp : p ∈ q :: rest) : q.1 ≤ p.1 := by
  rcases List.mem_cons.mp hp with rfl | hp
  · exact Nat.le_refl _
  · exact (List.pairwise_cons.mp h).1 p hp

/-! ## Pushing: `push` -/

variable {w : Walk} {file : String} {hop : Nat}

/-- The file `file` is neither visited nor known to be as near. -/
def Takes (w : Walk) (file : String) (hop : Nat) : Prop :=
  file ∉ w.visited ∧ ∀ h, w.hops.get? file = some h → hop < h

theorem push_of_takes (h : w.Takes file hop) (link : ParentLink) :
    w.push file hop (some link) =
      { w with
        hops := w.hops.insert file hop
        parents := w.parents.insert file link
        queue := enqueue hop file w.queue } := by
  obtain ⟨hv, hn⟩ := h
  rw [push, if_neg]
  rw [isNearer]
  cases hg : w.hops.get? file with
  | none => simp [hv]
  | some h => simp [hv, hn h hg]

theorem push_of_not_takes (h : ¬ w.Takes file hop) (link : Option ParentLink) :
    w.push file hop link = w := by
  unfold push
  rw [if_pos]
  by_cases hv : file ∈ w.visited
  · simp [hv]
  · rw [isNearer]
    cases hg : w.hops.get? file with
    | none => exact absurd ⟨hv, fun h' hh => by rw [hg] at hh; cases hh⟩ h
    | some h' =>
        have hle : h' ≤ hop := by
          refine Nat.le_of_not_lt fun hlt => h ⟨hv, fun h'' hh => ?_⟩
          rw [hg] at hh
          cases hh
          exact hlt
        simp [hv, hle]

section Fields

variable (w file hop) (link : Option ParentLink)

@[simp] theorem push_visited : (w.push file hop link).visited = w.visited := by
  unfold push; split <;> rfl

@[simp] theorem push_expanded : (w.push file hop link).expanded = w.expanded := by
  unfold push; split <;> rfl

@[simp] theorem push_opened : (w.push file hop link).opened = w.opened := by
  unfold push; split <;> rfl

@[simp] theorem push_best : (w.push file hop link).best = w.best := by
  unfold push; split <;> rfl

@[simp] theorem push_truncated : (w.push file hop link).truncated = w.truncated := by
  unfold push; split <;> rfl

end Fields

/-! ## Opening: `openBarrel` -/

section Fields

variable (w file)

@[simp] theorem openBarrel_visited : (w.openBarrel file).visited = w.visited := by
  unfold openBarrel; split <;> rfl

@[simp] theorem openBarrel_expanded : (w.openBarrel file).expanded = w.expanded := by
  unfold openBarrel; split <;> rfl

@[simp] theorem openBarrel_hops : (w.openBarrel file).hops = w.hops := by
  unfold openBarrel; split <;> rfl

@[simp] theorem openBarrel_parents : (w.openBarrel file).parents = w.parents := by
  unfold openBarrel; split <;> rfl

@[simp] theorem openBarrel_queue : (w.openBarrel file).queue = w.queue := by
  unfold openBarrel; split <;> rfl

@[simp] theorem openBarrel_truncated : (w.openBarrel file).truncated = w.truncated := by
  unfold openBarrel; split <;> rfl

@[simp] theorem openBarrel_best : (w.openBarrel file).best = w.best := by
  unfold openBarrel; split <;> rfl

end Fields

theorem mem_opened_openBarrel {b : String} :
    b ∈ (w.openBarrel file).opened ↔ b = file ∨ b ∈ w.opened := by
  rw [openBarrel]
  split
  next h =>
    rw [List.contains_iff_mem] at h
    exact ⟨Or.inr, fun hb => hb.elim (fun e => e ▸ h) id⟩
  next => exact List.mem_cons

end PageReach.Walk
