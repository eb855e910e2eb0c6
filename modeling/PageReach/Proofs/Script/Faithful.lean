import PageReach.Proofs.Script.Order
import PageReach.Proofs.Script.Shape

/-!
# Faithful phrases

The trees that a phrase recogniser answers spell out what lies between the two cursors, character by
character; they are formed, and they stand in order (`Reads`). That is so for tokens, and it is kept
by all ways of putting recognisers together, so being `Faithful` is left to instance search: a rule
of the grammar is faithful because of how it is written.

* **Nodes** (`faithful_node`): only the few kinds of nodes that have a shape of their own need an
  argument; for the others `Holds k.isFree` is evaluated.
* **Repetition on the left** (`Extends`, `reads_of_or`): what goes on after trees that have been
  read.
-/

namespace PageReach.Script

open SyntaxTree

variable {c c₀ c₁ c₂ : Cursor} {ts us left : List SyntaxTree} {k : Kind}

/-! ## What lies between two cursors: `Reads` -/

/-- The trees `ts` spell out what lies between the cursors `c` and `c₁`, they are formed, and they
stand in order between the two places. -/
structure Reads (c : Cursor) (ts : List SyntaxTree) (c₁ : Cursor) : Prop where
  spells : c.ahead = charsOf ts ++ c₁.ahead
  formed : ∀ t ∈ ts, t.Formed
  inOrder : InOrder c.place.offset ts c₁.place.offset

namespace Reads

theorem nil (c : Cursor) : Reads c [] c := ⟨rfl, by simp, .nil (Nat.le_refl _)⟩

theorem append (h : Reads c ts c₁) (h₁ : Reads c₁ us c₂) : Reads c (ts ++ us) c₂ where
  spells := by simp [h.spells, h₁.spells]
  formed := List.forall_mem_append.mpr ⟨h.formed, h₁.formed⟩
  inOrder := h.inOrder.append h₁.inOrder

theorem cut (c : Cursor) (hk : k.isFree = true) (n : Nat) : Reads c [(c.cut k n).1] (c.cut k n).2 where
  spells := by simp [Cursor.cut]
  formed := List.forall_mem_singleton.mpr (.leaf hk)
  inOrder := .leaf (Nat.le_refl _) (Position.offset_le_advance _ _) (.nil (Nat.le_refl _))

/-- Other trees `us` read the same if they have the same row of leaves. -/
theorem congr (h : Reads c ts c₁) (hchars : charsOf us = charsOf ts) (hformed : ∀ t ∈ us, t.Formed)
    (hinOrder : InOrder c.place.offset us c₁.place.offset) : Reads c us c₁ where
  spells := by rw [h.spells, hchars]
  formed := hformed
  inOrder := hinOrder

theorem triviaWithin (fuel : Nat) (c : Cursor) :
    Reads c (c.triviaWithin fuel).1 (c.triviaWithin fuel).2 := by
  induction fuel generalizing c with
  | zero => exact nil c
  | succ fuel ih =>
      unfold Cursor.triviaWithin
      simp only
      split
      · exact (cut c rfl _).append (ih _)
      · split
        · exact (cut c rfl _).append (ih _)
        · exact nil c

theorem trivia (c : Cursor) : Reads c c.trivia.1 c.trivia.2 := triviaWithin _ c

end Reads

/-! ## Recognisers: `Faithful` and `Extends` -/

namespace Phrase

/-- What the recogniser `p` answers stands for what it has read. -/
class Faithful (p : Phrase) : Prop where
  reads : ∀ {c ts c₁}, p c = some (ts, c₁) → Reads c ts c₁

/-- What the recogniser `p` answers stands for `left` and what it has read after that. -/
class Extends (left : List SyntaxTree) (p : Phrase) : Prop where
  reads : ∀ {c₀ c ts c₁}, Reads c₀ left c → p c = some (ts, c₁) → Reads c₀ ts c₁

variable {p q : Phrase} {ps : List Phrase}

/-! ### Choice and sequence: `alt` and `seq` -/

instance : Faithful nothing where
  reads h := by
    cases h
    exact .nil _

instance : Faithful fail where
  reads h := by cases h

instance [Faithful p] [Faithful q] : Faithful (p.andThen q) where
  reads h := by
    obtain ⟨front, c', back, hp, hq, rfl⟩ := exists_of_andThen h
    exact (Faithful.reads hp).append (Faithful.reads hq)

instance : Faithful (seq []) := inferInstanceAs (Faithful nothing)

instance [h : Faithful p] : Faithful (seq [p]) := h

instance [Faithful p] [Faithful (seq (q :: ps))] : Faithful (seq (p :: q :: ps)) :=
  inferInstanceAs (Faithful (p.andThen (seq (q :: ps))))

instance : Faithful (alt []) := inferInstanceAs (Faithful fail)

instance [Faithful p] [Faithful (alt ps)] : Faithful (alt (p :: ps)) where
  reads h := by
    rcases Option.or_eq_some_iff.mp h with h | ⟨-, h⟩
    · exact Faithful.reads h
    · exact Faithful.reads h

instance [Faithful p] : Faithful (opt p) where
  reads h := by
    rcases Option.or_eq_some_iff.mp h with h | ⟨-, h⟩
    · exact Faithful.reads h
    · cases h
      exact .nil _

instance {b : Prop} [Decidable b] [Faithful p] [Faithful q] : Faithful (if b then p else q) := by
  split <;> infer_instance

instance {b : Bool} [Faithful p] : Faithful (when b p) :=
  inferInstanceAs (Faithful (if b then p else fail))

instance {test : Cursor → Bool} [Faithful p] : Faithful (guarded test p) where
  reads h := by
    unfold guarded at h
    split at h
    · exact Faithful.reads h
    · cases h

instance {test : Cursor → Bool} : Faithful (check test) :=
  inferInstanceAs (Faithful (guarded test nothing))

instance [Faithful p] (fuel : Nat) : Faithful (manyWithin p fuel) := by
  induction fuel with
  | zero => exact inferInstanceAs (Faithful nothing)
  | succ fuel ih =>
      constructor
      intro c ts c₁ h
      rcases exists_of_manyWithin h with ⟨rfl, rfl⟩ | ⟨front, c', back, hp, hrest, rfl⟩
      · exact .nil _
      · exact (Faithful.reads hp).append (Faithful.reads hrest)

instance [Faithful p] : Faithful (many p) where
  reads {c _ _} h := (inferInstance : Faithful (manyWithin p c.size)).reads h

instance [Faithful p] : Faithful (many1 p) := inferInstanceAs (Faithful (p.andThen (many p)))

instance [Faithful p] [Faithful q] : Faithful (sepBy1 q p) :=
  inferInstanceAs (Faithful (p.andThen (many (q.andThen p))))

/-! ### Nodes: `node` and `extend` -/

/-- A condition `b` that instance search evaluates. -/
class Holds (b : Bool) : Prop where
  holds : b = true

instance : Holds true := ⟨rfl⟩

theorem splitTrivia_fst_append_snd (ts : List SyntaxTree) :
    (splitTrivia ts).1 ++ (splitTrivia ts).2 = ts := by
  rw [splitTrivia, List.span_eq_takeWhile_dropWhile, List.takeWhile_append_dropWhile]

theorem charsOf_splitTrivia (ts : List SyntaxTree) :
    charsOf ts = charsOf (splitTrivia ts).1 ++ charsOf (splitTrivia ts).2 := by
  rw [← charsOf_append, splitTrivia_fst_append_snd]

theorem formed_splitTrivia (h : ∀ t ∈ ts, t.Formed) :
    (∀ t ∈ (splitTrivia ts).1, t.Formed) ∧ ∀ t ∈ (splitTrivia ts).2, t.Formed := by
  rw [← List.forall_mem_append, splitTrivia_fst_append_snd]
  exact h

theorem inOrder_splitTrivia {a b : Nat} (h : InOrder a ts b) :
    ∃ m, InOrder a (splitTrivia ts).1 m ∧ InOrder m (splitTrivia ts).2 b := by
  rw [← splitTrivia_fst_append_snd ts] at h
  exact h.split

/-- A node of a kind that is `Shaped`. -/
theorem faithful_node [Faithful p] (hshape : Answers (fun ts => Shaped k (splitTrivia ts).2) p) :
    Faithful (node k p) where
  reads {_ _ c₁} h := by
    obtain ⟨us, hp, rfl⟩ := exists_of_node h
    have hus := Faithful.reads hp
    obtain ⟨hlead, hinner⟩ := formed_splitTrivia hus.formed
    obtain ⟨m, hbefore, hwithin⟩ := inOrder_splitTrivia hus.inOrder
    have hnode := hwithin.node_of_start (k := k) (r := none) (.nil (Nat.le_refl c₁.place.offset))
    rw [List.append_nil] at hnode
    refine hus.congr (by simp [charsOf_splitTrivia us]) ?_ (hbefore.append hnode)
    exact List.forall_mem_append.mpr ⟨hlead, List.forall_mem_singleton.mpr (.node (hshape hp) hinner)⟩

instance [Holds k.isFree] [Faithful p] : Faithful (node k p) :=
  faithful_node fun _ _ _ _ => shaped_of_isFree Holds.holds _

instance {r : Role} [Faithful p] : Faithful (inRole r p) where
  reads h := by
    obtain ⟨⟨ts, c₁⟩, hp, h⟩ := Option.bind_eq_some_iff.mp h
    cases h
    have hts := Faithful.reads hp
    refine hts.congr (charsOf_map (fun t => ?_) ts) (fun t ht => ?_) (hts.inOrder.map fun t => ?_)
    · split <;> simp
    · obtain ⟨u, hu, rfl⟩ := List.mem_map.mp ht
      split
      · exact hts.formed u hu
      · exact (hts.formed u hu).withRole r
    · split
      · exact .inl rfl
      · exact .inr ⟨r, rfl⟩

theorem exists_of_extend {r : Option Role} (h : extend k r left p c = some (ts, c₁)) :
    ∃ us, ∃ label : SyntaxTree → SyntaxTree, p c = some (us, c₁) ∧
      (∀ t, label t = t ∨ ∃ role, label t = t.withRole role) ∧
      ts = (splitTrivia left).1 ++ [.node k none
        (((splitTrivia left).2.head?.map start).getD c.place) ((splitTrivia left).2.map label ++ us)] := by
  obtain ⟨⟨us, c₂⟩, hp, h⟩ := Option.bind_eq_some_iff.mp h
  cases h
  cases r with
  | none => exact ⟨us, id, hp, fun _ => .inl rfl, by rw [List.map_id]; rfl⟩
  | some role => exact ⟨us, (·.withRole role), hp, fun _ => .inr ⟨role, rfl⟩, rfl⟩

instance {r : Option Role} [Holds k.isFree] [Faithful p] : Extends left (extend k r left p) where
  reads {c₀ c _ c₁} hleft h := by
    obtain ⟨us, label, hp, hlabel, rfl⟩ := exists_of_extend h
    have hus := Faithful.reads hp
    obtain ⟨hlead, hinner⟩ := formed_splitTrivia hleft.formed
    -- a role is a label on the trees of `left`, and neither a character nor a place
    have hchars (t : SyntaxTree) : (label t).chars = t.chars := by
      rcases hlabel t with heq | ⟨role, heq⟩ <;> simp [heq]
    have hstart (t : SyntaxTree) : (label t).start = t.start := by
      rcases hlabel t with heq | ⟨role, heq⟩ <;> simp [heq]
    have hformed {t : SyntaxTree} (ht : t.Formed) : (label t).Formed := by
      rcases hlabel t with heq | ⟨role, heq⟩ <;> rw [heq]
      · exact ht
      · exact ht.withRole role
    refine (hleft.append hus).congr ?_ (List.forall_mem_append.mpr ⟨hlead, ?_⟩) ?_
    · simp [charsOf_splitTrivia left, charsOf_map hchars]
    · refine List.forall_mem_singleton.mpr (.node (shaped_of_isFree Holds.holds _) ?_)
      refine List.forall_mem_append.mpr ⟨fun t ht => ?_, hus.formed⟩
      obtain ⟨u, hu, rfl⟩ := List.mem_map.mp ht
      exact hformed (hinner u hu)
    · obtain ⟨m, hbefore, hwithin⟩ := inOrder_splitTrivia hleft.inOrder
      have hnode := (hwithin.map hlabel).node_of_start (k := k) (r := none) hus.inOrder
      simp only [List.head?_map, Option.map_map, Function.comp_def, hstart] at hnode
      exact hbefore.append hnode

instance : Extends left fail where
  reads _ h := by cases h

instance : Extends left (alt []) := inferInstanceAs (Extends left fail)

instance [Extends left p] [Extends left (alt ps)] : Extends left (alt (p :: ps)) where
  reads hleft h := by
    rcases Option.or_eq_some_iff.mp h with h | ⟨-, h⟩
    · exact Extends.reads hleft h
    · exact Extends.reads hleft h

instance {test : Cursor → Bool} [Extends left p] : Extends left (guarded test p) where
  reads hleft h := by
    unfold guarded at h
    split at h
    · exact Extends.reads hleft h
    · cases h

/-- What `p` does not extend stays. -/
theorem reads_of_or [Extends left p] (hleft : Reads c₀ left c)
    (h : (p c).or (some (left, c)) = some (ts, c₁)) : Reads c₀ ts c₁ := by
  rcases Option.or_eq_some_iff.mp h with h | ⟨-, h⟩
  · exact Extends.reads hleft h
  · cases h
    exact hleft

/-! ### Tokens: `lexeme`, `mark` and `word` -/

instance {lexeme? : List Char → Option Nat} [Holds k.isFree] : Faithful (lexeme k lexeme?) where
  reads {c _ _} h := by
    unfold lexeme at h
    simp only at h
    split at h
    · cases h
      exact (Reads.trivia c).append (.cut _ Holds.holds _)
    · cases h

instance {lexeme? : List Char → Option Nat} [Holds k.isFree] : Faithful (immediate k lexeme?) where
  reads h := by
    unfold immediate at h
    split at h
    · cases h
      exact .cut _ Holds.holds _
    · cases h

instance {s : String} : Faithful (mark s) := inferInstanceAs (Faithful (lexeme _ _))

instance {s : String} : Faithful (Phrase.chars s) := inferInstanceAs (Faithful (lexeme _ _))

instance {ok : String → Bool} [Holds k.isFree] : Faithful (wordWhere k ok) :=
  inferInstanceAs (Faithful (lexeme _ _))

instance {s : String} : Faithful (word s) := inferInstanceAs (Faithful (wordWhere _ _))

instance {ws : List String} : Faithful (wordOf ws) := inferInstanceAs (Faithful (wordWhere _ _))

/-! ### Brackets and lists -/

instance [Faithful p] : Faithful (braces p) := inferInstanceAs (Faithful (seq [_, _, _]))

instance [Faithful p] : Faithful (parens p) := inferInstanceAs (Faithful (seq [_, _, _]))

instance [Faithful p] : Faithful (brackets p) := inferInstanceAs (Faithful (seq [_, _, _]))

instance [Faithful p] : Faithful (commaList p) := by
  unfold commaList
  infer_instance

instance [Faithful p] : Faithful (commaListWithHoles p) := by
  unfold commaListWithHoles
  infer_instance

/-! ### The end of a statement: `semicolon` -/

/-- Blanks and a comment; where there are no blanks, there is no leaf for them. -/
theorem reads_note (c : Cursor) (blanks n : Nat) :
    Reads c (if blanks = 0 then [((c.cut .space blanks).2.cut .comment n).1]
      else [(c.cut .space blanks).1, ((c.cut .space blanks).2.cut .comment n).1])
      ((c.cut .space blanks).2.cut .comment n).2 := by
  split
  · rename_i hblanks
    subst hblanks
    exact .cut c rfl n
  · exact (Reads.cut c rfl blanks).append (.cut _ rfl n)

instance {afterOperand : Bool} (fuel : Nat) : Faithful (statementEndWithin afterOperand fuel) := by
  induction fuel with
  | zero => exact inferInstanceAs (Faithful fail)
  | succ fuel ih =>
      constructor
      intro c ts c₁ h
      unfold statementEndWithin at h
      split at h
      · cases h
        exact .nil _
      · dsimp only at h
        split at h
        · split at h
          · rename_i hrest
            cases h
            exact (reads_note c _ _).append (Faithful.reads hrest)
          · cases h
        · cases h

instance {afterOperand : Bool} : Faithful (semicolon afterOperand) where
  reads {c _ _} h := by
    have hend : Faithful (fun c => statementEndWithin afterOperand (c.size + 1) c) :=
      ⟨fun h => Faithful.reads (p := statementEndWithin afterOperand _) h⟩
    exact Faithful.reads (p := alt [mark ";", _]) h

end Phrase

end PageReach.Script
