/-!
# Computations with a state

A computation may stop with a fault, and it leaves a state behind in any case (`on`). Often the
state only remembers things, and what can be told of it stays the same: then the computation has a
plain outcome, which depends on nothing else (`Tells`).

* **Steps** (`on_bind`, `ok_of_bind`): what a computation does is taken apart at `>>=`, and nothing
  is unfolded after that.
* **Invariants** (`Keeps`): these are kept whatever comes out.
* **Rows of steps** (`Tells.mapM`, `Tells.foldlM`, `Keeps.mapM`, `mapM_run`): by induction on the
  row.
-/

namespace ExceptT

variable {ε ε' σ α β : Type}

/-- The outcome of the computation `x` in the state `s`, and the state after it. -/
def on (x : ExceptT ε (StateM σ) α) (s : σ) : Except ε α × σ := x.run.run s

theorem on_bind (x : ExceptT ε (StateM σ) α) (f : α → ExceptT ε (StateM σ) β) (s : σ) :
    on (x >>= f) s = match on x s with
      | (.ok a, s') => on (f a) s'
      | (.error e, s') => (.error e, s') := by
  show on (x >>= f) s = match x.run.run s with
      | (.ok a, s') => on (f a) s'
      | (.error e, s') => (.error e, s')
  unfold on
  rw [run_bind, StateT.run_bind]
  rcases x.run.run s with ⟨_ | _, s'⟩ <;> rfl

theorem on_except (v : Except ε α) (s : σ) :
    on (mk (pure v) : ExceptT ε (StateM σ) α) s = (v, s) := rfl

theorem on_adapt (f : ε → ε') (x : ExceptT ε (StateM σ) α) (s : σ) :
    on (ExceptT.adapt f x) s = ((on x s).1.mapError f, (on x s).2) := rfl

theorem on_get (s : σ) : on (get : ExceptT ε (StateM σ) σ) s = (.ok s, s) := rfl

theorem on_modify (f : σ → σ) (s : σ) :
    on (modify f : ExceptT ε (StateM σ) PUnit) s = (.ok ⟨⟩, f s) := rfl

/-- What comes out of `x >>= f` comes out of `x` and then of `f`. -/
theorem ok_of_bind {x : ExceptT ε (StateM σ) α} {f : α → ExceptT ε (StateM σ) β} {s s' : σ}
    {b : β} (h : on (x >>= f) s = (.ok b, s')) :
    ∃ a s₁, on x s = (.ok a, s₁) ∧ on (f a) s₁ = (.ok b, s') := by
  rw [on_bind] at h
  split at h
  · rename_i a s₁ hx
    exact ⟨a, s₁, hx, h⟩
  · exact nomatch h

/-- A computation `x` of whose outcome something can be told has an outcome. -/
theorem exists_on {x : ExceptT ε (StateM σ) α} {s : σ} {f : α → β} {b : β}
    (h : (x.on s).1.toOption.map f = some b) : ∃ a s', x.on s = (.ok a, s') ∧ f a = b := by
  generalize x.on s = r at h ⊢
  obtain ⟨outcome, s'⟩ := r
  cases outcome with
  | error fault => exact nomatch h
  | ok a => exact ⟨a, s', rfl, Option.some.inj h⟩

end ExceptT

namespace PageReach

variable {ε ε' σ κ α β : Type} {view : σ → κ} {k : κ}

/-- In every state of which `view` tells `k`, a computation has the outcome `v` and leaves a state of
which the same is told. -/
def Tells (view : σ → κ) (k : κ) (x : ExceptT ε (StateM σ) α) (v : Except ε α) : Prop :=
  ∀ s, view s = k → ∃ s', x.on s = (v, s') ∧ view s' = k

theorem Tells.pure (a : α) : Tells view k (Pure.pure a : ExceptT ε (StateM σ) α) (.ok a) :=
  fun s h => ⟨s, rfl, h⟩

theorem Tells.lift (v : Except ε α) : Tells view k (liftM v) v :=
  fun s h => ⟨s, rfl, h⟩

theorem Tells.bind {x : ExceptT ε (StateM σ) α} {v : Except ε α}
    {f : α → ExceptT ε (StateM σ) β} {g : α → Except ε β} (hx : Tells view k x v)
    (hf : ∀ a, v = .ok a → Tells view k (f a) (g a)) : Tells view k (x >>= f) (v >>= g) := by
  intro s hs
  obtain ⟨s', hrun, hs'⟩ := hx s hs
  rw [ExceptT.on_bind, hrun]
  cases v with
  | error e => exact ⟨s', rfl, hs'⟩
  | ok a => exact hf a rfl s' hs'

theorem Tells.adapt {x : ExceptT ε (StateM σ) α} {v : Except ε α} (h : Tells view k x v)
    (f : ε → ε') : Tells view k (ExceptT.adapt f x) (v.mapError f) := by
  intro s hs
  obtain ⟨s', hrun, hs'⟩ := h s hs
  exact ⟨s', by rw [ExceptT.on_adapt, hrun], hs'⟩

theorem Tells.mapM {f : α → ExceptT ε (StateM σ) β} {g : α → Except ε β}
    (h : ∀ a, Tells view k (f a) (g a)) (l : List α) : Tells view k (l.mapM f) (l.mapM g) := by
  induction l with
  | nil => exact Tells.pure []
  | cons a l ih =>
      rw [List.mapM_cons, List.mapM_cons]
      exact Tells.bind (h a) fun b _ => Tells.bind ih fun bs _ => Tells.pure (b :: bs)

theorem Tells.foldlM {f : α → β → ExceptT ε (StateM σ) α} {g : α → β → Except ε α}
    (h : ∀ a b, Tells view k (f a b) (g a b)) (l : List β) (a : α) :
    Tells view k (l.foldlM f a) (l.foldlM g a) := by
  induction l generalizing a with
  | nil => exact Tells.pure a
  | cons b l ih =>
      rw [List.foldlM_cons, List.foldlM_cons]
      exact Tells.bind (h a b) fun a' _ => ih a'

/-! ## Invariants: `Keeps` -/

/-- A computation keeps the invariant `I`, whatever comes out, and what it returns has property
`P`. -/
def Keeps (I : σ → Prop) (x : ExceptT ε (StateM σ) α) (P : α → Prop) : Prop :=
  ∀ s, I s → I (x.on s).2 ∧ ∀ a, (x.on s).1 = .ok a → P a

namespace Keeps

variable {I : σ → Prop} {P : α → Prop} {Q : β → Prop}

theorem pure {a : α} (h : P a) : Keeps I (Pure.pure a : ExceptT ε (StateM σ) α) P := by
  refine fun s hs => ⟨hs, ?_⟩
  rintro a' ⟨⟩
  exact h

theorem except (v : Except ε α) : Keeps I (ExceptT.mk (Pure.pure v)) fun a => v = .ok a :=
  fun _ hs => ⟨hs, fun _ h => h⟩

theorem modified {f : σ → σ} (h : ∀ s, I s → I (f s)) :
    Keeps I (modify f : ExceptT ε (StateM σ) PUnit) fun _ => True :=
  fun s hs => ⟨h s hs, fun _ _ => trivial⟩

theorem bind {x : ExceptT ε (StateM σ) α} {f : α → ExceptT ε (StateM σ) β}
    (hx : Keeps I x P) (hf : ∀ a, P a → Keeps I (f a) Q) : Keeps I (x >>= f) Q := by
  intro s hs
  obtain ⟨hs', hP⟩ := hx s hs
  rw [ExceptT.on_bind]
  generalize x.on s = r at hs' hP
  obtain ⟨_ | a, s'⟩ := r
  · exact ⟨hs', nofun⟩
  · exact hf a (hP a rfl) s' hs'

theorem imp {x : ExceptT ε (StateM σ) α} {P' : α → Prop} (h : Keeps I x P)
    (himp : ∀ a, P a → P' a) : Keeps I x P' :=
  fun s hs => ⟨(h s hs).1, fun a ha => himp a ((h s hs).2 a ha)⟩

theorem mapM {f : α → ExceptT ε (StateM σ) β} {l : List α} (h : ∀ a ∈ l, Keeps I (f a) Q) :
    Keeps I (l.mapM f) fun bs => ∀ b ∈ bs, Q b := by
  induction l with
  | nil => exact Keeps.pure nofun
  | cons a l ih =>
      rw [List.mapM_cons]
      refine (h a List.mem_cons_self).bind fun b hb => ?_
      refine (ih fun a' ha' => h a' (List.mem_cons_of_mem _ ha')).bind fun bs hbs => ?_
      exact Keeps.pure (List.forall_mem_cons.mpr ⟨hb, hbs⟩)

end Keeps

/-- If every step keeps an invariant and gives, as far as `p` tells, what `g` says, then so do steps
one after the other. -/
theorem mapM_run {I : σ → Prop} {f : α → StateM σ β} {p : β → κ} {g : α → κ} {l : List α}
    (h : ∀ a ∈ l, ∀ s, I s → p ((f a).run s).1 = g a ∧ I ((f a).run s).2) {s : σ} (hs : I s) :
    ((l.mapM f).run s).1.map p = l.map g ∧ I ((l.mapM f).run s).2 := by
  induction l generalizing s with
  | nil => exact ⟨rfl, hs⟩
  | cons a l ih =>
      obtain ⟨ha, hs₁⟩ := h a List.mem_cons_self s hs
      obtain ⟨hl, hs₂⟩ := ih (fun a' ha' => h a' (List.mem_cons_of_mem _ ha')) hs₁
      rw [List.mapM_cons]
      refine ⟨?_, hs₂⟩
      show p ((f a).run s).1 :: ((l.mapM f).run ((f a).run s).2).1.map p = _
      rw [ha, hl, List.map_cons]

end PageReach
