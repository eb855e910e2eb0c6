import Mathlib.Data.List.Chain
import Mathlib.Data.List.TakeDrop
import Mathlib.Data.List.TakeWhile
import PageReach.Proofs.Script.Tree
import PageReach.Script.Grammar.Statements

/-!
# Shapes of nodes

The children of a node stand in an order that depends on its kind. For templates, their
substitutions and export statements this order is spelled out here (`TemplateRow`,
`SubstitutionRow`, `ExportRow`). A tree in which every node has the shape that belongs to its kind
is *formed* (`Formed`).

The rules of the grammar give rise to rows of the right shape: a rule that begins with a token or a
node reads blanks and comments, and then this one tree (`YieldsOne`).

* **Templates** (`templateRow_of_seq`, `substitutionRow_of_seq`): two pieces of text have a
  substitution between them.
* **Export statements** (`exportRow_of_seq`): a list of names stands alone.
-/

namespace PageReach.Script

open SyntaxTree

/-! ## Rows of trees: `Shaped` -/

/-- A token that is spelled `s`. -/
def IsToken (s : String) (t : SyntaxTree) : Prop := t.kind = .fixed ∧ t.text = s

theorem IsToken.chars_eq {s : String} {t : SyntaxTree} (h : IsToken s t) : t.chars = s.toList := by
  rw [← toList_text, h.2]

/-- The children of a template: literal text and substitutions between two marks. There is at most one
piece of text between two substitutions. -/
inductive TemplateRow : List SyntaxTree → Prop where
  | between {first last : SyntaxTree} {parts : List SyntaxTree} (hfirst : IsToken "\x60" first)
      (hlast : IsToken "\x60" last)
      (hparts : ∀ t ∈ parts, t.kind = .templateText ∨ t.kind = .templateSubstitution)
      (hapart : parts.IsChain fun t u => t.kind = .templateText → u.kind = .templateSubstitution) :
      TemplateRow (first :: parts ++ [last])

/-- The children of a substitution: it is opened by a dollar sign with a brace, and closed by a brace. -/
inductive SubstitutionRow : List SyntaxTree → Prop where
  | between {first last : SyntaxTree} {inner : List SyntaxTree} (hfirst : IsToken "$\x7b" first)
      (hlast : IsToken "\x7d" last) : SubstitutionRow (first :: inner ++ [last])

/-- A child of an export statement that lists no names: neither a list in braces, nor a star. -/
structure ListsNothing (t : SyntaxTree) : Prop where
  no_clause : t.kind ≠ .exportClause
  no_namespace : t.kind ≠ .namespaceExport
  no_star : ¬ IsToken "*" t

/-- The children of an export statement, with no list of names, with one list and no star beside it, or
with a value that is exported. -/
inductive ExportRow : List SyntaxTree → Prop where
  | unlisted {ts : List SyntaxTree} (h : ∀ t ∈ ts, t.kind ≠ .exportClause) : ExportRow ts
  | listed {front back : List SyntaxTree} {clause : SyntaxTree} (hclause : clause.kind = .exportClause)
      (hfront : ∀ t ∈ front, ListsNothing t) (hback : ∀ t ∈ back, ListsNothing t) :
      ExportRow (front ++ clause :: back)
  | valued {ts : List SyntaxTree} {t : SyntaxTree} (ht : t ∈ ts)
      (htoken : IsToken "default" t ∨ IsToken "=" t) : ExportRow ts

/-- The shape that the row of trees `ts` has as the children of a node of kind `k`. -/
def Shaped : Kind → List SyntaxTree → Prop
  | .template, ts => TemplateRow ts
  | .templateSubstitution, ts => SubstitutionRow ts
  | .exportStatement, ts => ExportRow ts
  | _, _ => True

/-- The kinds of leaves, and of nodes whose children may be anything. -/
@[reducible] def Kind.isFree : Kind → Bool
  | .template | .templateSubstitution | .exportStatement => false
  | _ => true

theorem shaped_of_isFree {k : Kind} (h : k.isFree = true) (ts : List SyntaxTree) : Shaped k ts := by
  unfold Shaped
  split
  · cases h
  · cases h
  · cases h
  · trivial

/-! ## `Formed` trees -/

namespace SyntaxTree

/-- Every node of the tree is `Shaped` as it belongs to its kind. -/
inductive Formed : SyntaxTree → Prop where
  | leaf {k : Kind} {r : Option Role} {p : Position} {s : String} (hfree : k.isFree = true) :
      Formed (.leaf k r p s)
  | node {k : Kind} {r : Option Role} {p : Position} {ts : List SyntaxTree} (hshape : Shaped k ts)
      (hchildren : ∀ t ∈ ts, Formed t) : Formed (.node k r p ts)

namespace Formed

variable {t u : SyntaxTree}

theorem withRole (h : t.Formed) (r : Role) : (t.withRole r).Formed := by
  cases h with
  | leaf hfree => exact .leaf hfree
  | node hshape hchildren => exact .node hshape hchildren

theorem of_mem_children (h : t.Formed) (hu : u ∈ t.children) : u.Formed := by
  cases h with
  | leaf hfree => cases hu
  | node hshape hchildren => exact hchildren u hu

theorem of_mem_preorder {enter : SyntaxTree → Bool} (h : t.Formed) (hu : u ∈ t.preorder enter) :
    u.Formed := by
  induction h with
  | leaf hfree =>
      cases List.mem_singleton.mp hu
      exact .leaf hfree
  | node hshape hchildren ih =>
      rw [preorder, List.mem_cons] at hu
      rcases hu with rfl | hu
      · exact .node hshape hchildren
      · split at hu
        · rw [preorderOf_eq_flatMap] at hu
          obtain ⟨t, ht, hu⟩ := List.mem_flatMap.mp hu
          exact ih t ht hu
        · cases hu

/-- A kind that has a shape is the kind of a node: not of a leaf, if it is not `isFree`. -/
theorem shaped {k : Kind} (h : t.Formed) (hkind : t.kind = k) (hk : k.isFree = false) :
    t.chars = charsOf t.children ∧ Shaped k t.children := by
  subst hkind
  cases h with
  | leaf hfree => cases hk.symm.trans hfree
  | node hshape hchildren => exact ⟨rfl, hshape⟩

end Formed

theorem hasToken_iff {t : SyntaxTree} {words : List String} :
    t.hasToken words = true ↔ ∃ u ∈ t.children, ∃ s ∈ words, IsToken s u := by
  simp only [hasToken, IsToken, List.any_eq_true, Bool.and_eq_true, decide_eq_true_eq,
    List.contains_iff_mem]
  constructor
  · rintro ⟨u, hu, hkind, hword⟩
    exact ⟨u, hu, u.text, hword, hkind, rfl⟩
  · rintro ⟨u, hu, s, hs, hkind, rfl⟩
    exact ⟨u, hu, hkind, hs⟩

end SyntaxTree

/-! ## One tree after blanks and comments: `YieldsOne` -/

namespace Phrase

variable {p q : Phrase} {ps : List Phrase} {c c₁ c₂ : Cursor} {ts : List SyntaxTree} {k : Kind}
  {P Q : SyntaxTree → Prop} {R : List SyntaxTree → Prop}

theorem exists_of_andThen (h : p.andThen q c = some (ts, c₂)) :
    ∃ front c₁ back, p c = some (front, c₁) ∧ q c₁ = some (back, c₂) ∧ ts = front ++ back := by
  obtain ⟨⟨front, c₁⟩, hp, h⟩ := Option.bind_eq_some_iff.mp h
  obtain ⟨⟨back, c₂⟩, hq, h⟩ := Option.bind_eq_some_iff.mp h
  cases h
  exact ⟨front, c₁, back, hp, hq, rfl⟩

theorem exists_of_seq (h : seq (p :: q :: ps) c = some (ts, c₂)) : ∃ front c₁ back,
    p c = some (front, c₁) ∧ seq (q :: ps) c₁ = some (back, c₂) ∧ ts = front ++ back :=
  exists_of_andThen h

theorem exists_of_alt (h : alt ps c = some (ts, c₁)) : ∃ p ∈ ps, p c = some (ts, c₁) := by
  induction ps with
  | nil => cases h
  | cons p ps ih =>
      rcases Option.or_eq_some_iff.mp h with h | ⟨-, h⟩
      · exact ⟨p, List.mem_cons_self, h⟩
      · obtain ⟨q, hq, h⟩ := ih h
        exact ⟨q, List.mem_cons_of_mem _ hq, h⟩

/-- Repetition comes to an end, or it goes on. What gets no further is dropped by `manyWithin`,
together with its trees. -/
theorem exists_of_manyWithin {fuel : Nat} (h : manyWithin p (fuel + 1) c = some (ts, c₂)) :
    ts = [] ∧ c₂ = c ∨ ∃ front c₁ back,
      p c = some (front, c₁) ∧ manyWithin p fuel c₁ = some (back, c₂) ∧ ts = front ++ back := by
  unfold manyWithin at h
  split at h
  · cases h
    exact .inl ⟨rfl, rfl⟩
  · rename_i front c₁ hp
    split at h
    · split at h
      · rename_i back c₂ hrest
        cases h
        exact .inr ⟨front, c₁, back, hp, hrest, rfl⟩
      · cases h
    · cases h
      exact .inl ⟨rfl, rfl⟩

/-- Every row of trees that the recogniser answers satisfies `R`. -/
def Answers (R : List SyntaxTree → Prop) (p : Phrase) : Prop := ∀ ⦃c ts c₁⦄, p c = some (ts, c₁) → R ts

/-- Every tree that the recogniser answers satisfies `P`. -/
def Yields (P : SyntaxTree → Prop) (p : Phrase) : Prop := Answers (fun ts => ∀ t ∈ ts, P t) p

/-- The recogniser answers blanks and comments, and then one tree that satisfies `P`. -/
def YieldsOne (P : SyntaxTree → Prop) (p : Phrase) : Prop :=
  Answers (fun ts => ∃ lead t, ts = lead ++ [t] ∧ (∀ u ∈ lead, u.kind.isTrivia = true) ∧ P t) p

theorem Yields.imp (h : Yields P p) (hPQ : ∀ t, P t → Q t) : Yields Q p :=
  fun _ _ _ hp t ht => hPQ t (h hp t ht)

theorem YieldsOne.imp (h : YieldsOne P p) (hPQ : ∀ t, P t → Q t) : YieldsOne Q p := by
  intro c ts c₁ hp
  obtain ⟨lead, t, hts, hlead, ht⟩ := h hp
  exact ⟨lead, t, hts, hlead, hPQ t ht⟩

theorem YieldsOne.yields (h : YieldsOne P p) (hPQ : ∀ t, P t → Q t)
    (htrivia : ∀ t : SyntaxTree, t.kind.isTrivia = true → Q t) : Yields Q p := by
  intro c ts c₁ hp t ht
  obtain ⟨lead, u, rfl, hlead, hu⟩ := h hp
  rcases List.mem_append.mp ht with ht | ht
  · exact htrivia t (hlead t ht)
  · rw [List.mem_singleton.mp ht]
    exact hPQ u hu

/-! ### Sequences and choices: `seq` and `alt` -/

theorem Yields.seq_cons (hp : Yields P p) (hps : Yields P (seq ps)) : Yields P (seq (p :: ps)) := by
  cases ps with
  | nil => exact hp
  | cons q ps =>
      intro c ts c₁ h
      obtain ⟨front, c', back, hfront, hback, rfl⟩ := exists_of_seq h
      exact List.forall_mem_append.mpr ⟨hp hfront, hps hback⟩

theorem Answers.alt (h : ∀ p ∈ ps, Answers R p) : Answers R (Phrase.alt ps) := by
  intro c ts c₁ halt
  obtain ⟨p, hp, hts⟩ := exists_of_alt halt
  exact h p hp hts

theorem Answers.alt_pair (hp : Answers R p) (hq : Answers R q) : Answers R (Phrase.alt [p, q]) :=
  .alt (by simp [hp, hq])

theorem Yields.opt (h : Yields P p) : Yields P (opt p) := by
  intro c ts c₁ hopt
  rcases Option.or_eq_some_iff.mp hopt with hp | ⟨-, hnone⟩
  · exact h hp
  · cases hnone
    simp

theorem Yields.manyWithin (h : Yields P p) (fuel : Nat) : Yields P (manyWithin p fuel) := by
  induction fuel with
  | zero =>
      intro c ts c₁ hmany
      cases hmany
      simp
  | succ fuel ih =>
      intro c ts c₁ hmany
      rcases exists_of_manyWithin hmany with ⟨rfl, -⟩ | ⟨front, c', back, hp, hrest, rfl⟩
      · simp
      · exact List.forall_mem_append.mpr ⟨h hp, ih hrest⟩

theorem Yields.many (h : Yields P p) : Yields P (many p) := fun c _ _ hmany => h.manyWithin c.size hmany

/-! ### Nodes and tokens -/

theorem exists_of_node (h : node k p c = some (ts, c₁)) : ∃ us, p c = some (us, c₁) ∧
    ts = (splitTrivia us).1 ++
      [.node k none (((splitTrivia us).2.head?.map start).getD c₁.place) (splitTrivia us).2] := by
  obtain ⟨⟨us, c₂⟩, hp, h⟩ := Option.bind_eq_some_iff.mp h
  cases h
  exact ⟨us, hp, rfl⟩

theorem isTrivia_of_mem_splitTrivia {t : SyntaxTree} (h : t ∈ (splitTrivia ts).1) :
    t.kind.isTrivia = true := by
  rw [splitTrivia, List.span_eq_takeWhile_dropWhile] at h
  exact List.mem_takeWhile_imp (p := fun t : SyntaxTree => t.kind.isTrivia) h

/-- Blanks and comments are split off by `splitTrivia` only in front of the first other tree. -/
theorem splitTrivia_append {t : SyntaxTree} (ht : t.kind.isTrivia = false)
    (front back : List SyntaxTree) :
    (splitTrivia (front ++ t :: back)).2 = front.dropWhile (·.kind.isTrivia) ++ t :: back := by
  rw [splitTrivia, List.span_eq_takeWhile_dropWhile, List.dropWhile_append]
  split
  · rename_i hempty
    rw [List.isEmpty_iff.mp hempty, List.nil_append, List.dropWhile_cons_of_neg (by simp [ht])]
  · rfl

theorem yieldsOne_node : YieldsOne (·.kind = k) (node k p) := by
  intro c ts c₁ h
  obtain ⟨us, -, rfl⟩ := exists_of_node h
  exact ⟨_, _, rfl, fun t ht => isTrivia_of_mem_splitTrivia ht, rfl⟩

theorem isTrivia_of_mem_triviaWithin {t : SyntaxTree} {fuel : Nat} (h : t ∈ (c.triviaWithin fuel).1) :
    t.kind.isTrivia = true := by
  induction fuel generalizing c with
  | zero => cases h
  | succ fuel ih =>
      unfold Cursor.triviaWithin at h
      simp only at h
      split at h
      · rcases List.mem_cons.mp h with rfl | h
        · rfl
        · exact ih h
      · split at h
        · rcases List.mem_cons.mp h with rfl | h
          · rfl
          · exact ih h
        · cases h

theorem exists_of_lexeme {lexeme? : List Char → Option Nat} (h : lexeme k lexeme? c = some (ts, c₁)) :
    ∃ n, lexeme? c.next.ahead = some n ∧ ts = c.trivia.1 ++
      [.leaf k none c.next.place (String.ofList (c.next.ahead.take n))] := by
  unfold lexeme at h
  simp only at h
  split at h
  · rename_i n hn
    cases h
    exact ⟨n, hn, rfl⟩
  · cases h

theorem exists_of_immediate {lexeme? : List Char → Option Nat}
    (h : immediate k lexeme? c = some (ts, c₁)) : ∃ n, lexeme? c.ahead = some n ∧
      ts = [.leaf k none c.place (String.ofList (c.ahead.take n))] ∧ c₁.ahead = c.ahead.drop n := by
  unfold immediate at h
  split at h
  · rename_i n hn
    cases h
    exact ⟨n, hn, rfl, rfl⟩
  · cases h

theorem yieldsOne_lexeme {lexeme? : List Char → Option Nat} :
    YieldsOne (·.kind = k) (lexeme k lexeme?) := by
  intro c ts c₁ h
  obtain ⟨n, -, rfl⟩ := exists_of_lexeme h
  exact ⟨_, _, rfl, fun t ht => isTrivia_of_mem_triviaWithin ht, rfl⟩

theorem isPrefix_of_punctuator? {cs m : List Char} (h : punctuator? cs = some m) : m <+: cs := by
  unfold punctuator? at h
  split at h
  · rename_i hfound
    have hmark : ['?', '.'] <+: cs := by simpa using List.find?_some hfound
    split at h
    · cases h
      exact (List.prefix_append ['?'] ['.']).trans hmark
    · cases h
      exact hmark
  · simpa using List.find?_some h

theorem yieldsOne_mark (s : String) : YieldsOne (IsToken s) (mark s) := by
  intro c ts c₁ h
  obtain ⟨n, hn, rfl⟩ := exists_of_lexeme h
  refine ⟨_, _, rfl, fun t ht => isTrivia_of_mem_triviaWithin ht, rfl, ?_⟩
  split at hn
  · rename_i hmark
    cases hn
    have hprefix : s.toList <+: c.next.ahead := isPrefix_of_punctuator? hmark
    rw [text, ← String.length_toList, ← List.prefix_iff_eq_take.mp hprefix, String.ofList_toList]
  · cases hn

theorem yieldsOne_chars (s : String) : YieldsOne (IsToken s) (Phrase.chars s) := by
  intro c ts c₁ h
  obtain ⟨n, hn, rfl⟩ := exists_of_lexeme h
  refine ⟨_, _, rfl, fun t ht => isTrivia_of_mem_triviaWithin ht, rfl, ?_⟩
  split at hn
  · rename_i hprefix
    cases hn
    rw [text, ← String.length_toList,
      ← List.prefix_iff_eq_take.mp (List.isPrefixOf_iff_prefix.mp hprefix), String.ofList_toList]
  · cases hn

theorem yieldsOne_word (s : String) : YieldsOne (IsToken s) (word s) := by
  intro c ts c₁ h
  rw [word, wordWhere] at h
  obtain ⟨n, hn, rfl⟩ := exists_of_lexeme h
  refine ⟨_, _, rfl, fun t ht => isTrivia_of_mem_triviaWithin ht, rfl, ?_⟩
  split at hn
  · split at hn
    · rename_i hword
      cases hn
      simpa [text] using hword
    · cases hn
  · cases hn

theorem Yields.inRole {r : Role} (h : Yields P p) (hrole : ∀ t, P t → P (t.withRole r)) :
    Yields P (inRole r p) := by
  intro c ts c₁ hp
  obtain ⟨⟨us, c₂⟩, hp, hus⟩ := Option.bind_eq_some_iff.mp hp
  cases hus
  intro t ht
  obtain ⟨u, hu, rfl⟩ := List.mem_map.mp ht
  split
  · exact h hp u hu
  · exact hrole u (h hp u hu)

theorem yields_statementEndWithin (afterOperand : Bool) (fuel : Nat) :
    Yields (·.kind.isTrivia = true) (statementEndWithin afterOperand fuel) := by
  induction fuel with
  | zero =>
      intro c ts c₁ h
      cases h
  | succ fuel ih =>
      intro c ts c₁ h
      unfold statementEndWithin at h
      split at h
      · cases h
        simp
      · dsimp only at h
        split at h
        · split at h
          · rename_i hrest
            cases h
            refine List.forall_mem_append.mpr ⟨?_, ih hrest⟩
            split <;> simp [Cursor.cut, kind, Kind.isTrivia]
          · cases h
        · cases h

end Phrase

/-! ## Templates: `TemplateRow` -/

namespace Grammar

open Phrase

variable {c c₁ : Cursor} {ts us : List SyntaxTree} {inner : Phrase}

/-- The literal text of a template is read by `templateRun?` up to where no more can be read. -/
theorem templateRun?_drop {skip m n : Nat} {cs : List Char} (h : templateRun? skip m cs = some n) :
    m ≤ n ∧ templateRun? 0 0 (cs.drop (n - m)) = some 0 := by
  have hstep {c : Char} {rest : List Char} {m : Nat}
      (ih : m + 1 ≤ n ∧ templateRun? 0 0 (rest.drop (n - (m + 1))) = some 0) :
      m ≤ n ∧ templateRun? 0 0 ((c :: rest).drop (n - m)) = some 0 := by
    obtain ⟨hle, hrest⟩ := ih
    refine ⟨by omega, ?_⟩
    rw [show n - m = n - (m + 1) + 1 by omega, List.drop_succ_cons]
    exact hrest
  fun_induction templateRun? skip m cs with
  | case1 skip m =>
      cases h
      simp [templateRun?]
  | case2 skip m c rest ih => exact hstep (ih h)
  | case3 m c rest hstop =>
      cases h
      simp [templateRun?, hstop]
  | case4 m rest hstop k hescape ih => exact hstep (ih h)
  | case5 => cases h
  | case6 m c rest hstop hescape ih => exact hstep (ih h)

/-- The literal text at the front of a template, if there is any. -/
def templateText : Phrase := immediate .templateText fun cs =>
  match templateRun? 0 0 cs with
  | some 0 | none => none
  | some n => some n

/-- A substitution that holds `inner`. -/
def substitution (inner : Phrase) : Phrase :=
  node .templateSubstitution (seq [
    immediate .fixed fun cs => if ['$', '{'].isPrefixOf cs then some 2 else none, inner, mark "\x7d"])

/-- The closing mark of a template. -/
def templateEnd : Phrase :=
  immediate .fixed fun cs => if cs.head? = some '\x60' then some 1 else none

theorem templateOf_eq (k : Kind) (inner : Phrase) : templateOf k inner =
    node k (seq [Phrase.chars "\x60", many (alt [templateText, substitution inner]), templateEnd]) := rfl

/-- No more literal text can be read at `c`. -/
def AtTextEnd (c : Cursor) : Prop := templateRun? 0 0 c.ahead = some 0

theorem exists_of_templateText (h : templateText c = some (ts, c₁)) :
    ∃ t : SyntaxTree, ts = [t] ∧ t.kind = .templateText ∧ ¬ AtTextEnd c ∧ AtTextEnd c₁ := by
  obtain ⟨n, hn, rfl, hahead⟩ := exists_of_immediate h
  refine ⟨_, rfl, rfl, ?_, ?_⟩
  · intro hend
    rw [hend] at hn
    cases hn
  · split at hn
    · cases hn
    · cases hn
    · rename_i n' _ hrun
      cases hn
      rw [AtTextEnd, hahead]
      exact (templateRun?_drop hrun).2

theorem substitutionRow_of_seq (h : seq [immediate .fixed fun cs =>
      if ['$', '{'].isPrefixOf cs then some 2 else none, inner, mark "\x7d"] c = some (ts, c₁)) :
    SubstitutionRow (splitTrivia ts).2 := by
  obtain ⟨front, c', back, hfront, hback, rfl⟩ := exists_of_seq h
  obtain ⟨mid, c'', closing, -, hclosing, rfl⟩ := exists_of_seq hback
  obtain ⟨n, hn, rfl, -⟩ := exists_of_immediate hfront
  obtain ⟨lead, last, rfl, -, hlast⟩ := yieldsOne_mark "\x7d" hclosing
  -- nothing stands in front of the opening
  rw [← List.append_assoc mid, ← List.append_assoc, List.singleton_append]
  refine .between ⟨rfl, ?_⟩ hlast
  split at hn
  · rename_i hprefix
    cases hn
    obtain ⟨rest, hrest⟩ := List.isPrefixOf_iff_prefix.mp hprefix
    rw [text, ← hrest]
    rfl
  · cases hn

theorem exists_of_substitution (h : substitution inner c = some (ts, c₁)) :
    ∃ t : SyntaxTree, ts = [t] ∧ t.kind = .templateSubstitution := by
  obtain ⟨us, hus, rfl⟩ := exists_of_node h
  obtain ⟨front, c', back, hfront, -, rfl⟩ := exists_of_seq hus
  obtain ⟨n, -, rfl, -⟩ := exists_of_immediate hfront
  exact ⟨_, rfl, rfl⟩

/-- Literal text is followed by a substitution, or by nothing: `templateText` reads as far as it
can. -/
theorem apart_of_manyWithin {fuel : Nat}
    (h : manyWithin (alt [templateText, substitution inner]) fuel c = some (ts, c₁)) :
    ts.IsChain (fun t u => t.kind = .templateText → u.kind = .templateSubstitution) ∧
      (AtTextEnd c → ∀ t ∈ ts.head?, t.kind = .templateSubstitution) := by
  induction fuel generalizing c ts with
  | zero =>
      cases h
      exact ⟨.nil, by simp⟩
  | succ fuel ih =>
      rcases exists_of_manyWithin h with ⟨rfl, -⟩ | ⟨front, c', back, hpiece, hrest, rfl⟩
      · exact ⟨.nil, by simp⟩
      · obtain ⟨hchain, hhead⟩ := ih hrest
        obtain ⟨p, hp, hpiece⟩ := exists_of_alt hpiece
        simp only [List.mem_cons, List.not_mem_nil, or_false] at hp
        rcases hp with rfl | rfl
        · obtain ⟨t, rfl, hkind, hstart, hend⟩ := exists_of_templateText hpiece
          refine ⟨List.isChain_cons.mpr ⟨fun u hu _ => hhead hend u hu, hchain⟩, ?_⟩
          exact fun hcontra => absurd hcontra hstart
        · obtain ⟨t, rfl, hkind⟩ := exists_of_substitution hpiece
          refine ⟨List.isChain_cons.mpr ⟨fun u _ htext => ?_, hchain⟩, fun _ u hu => ?_⟩
          · rw [hkind] at htext
            cases htext
          · cases hu
            exact hkind

theorem templateRow_of_seq (h : seq [Phrase.chars "\x60",
      many (alt [templateText, substitution inner]), templateEnd] c = some (ts, c₁)) :
    TemplateRow (splitTrivia ts).2 := by
  obtain ⟨front, c', back, hfront, hback, rfl⟩ := exists_of_seq h
  obtain ⟨parts, c'', closing, hparts, hclosing, rfl⟩ := exists_of_seq hback
  obtain ⟨lead, first, rfl, hlead, hfirst⟩ := yieldsOne_chars "\x60" hfront
  obtain ⟨n, hn, rfl, -⟩ := exists_of_immediate (show templateEnd c'' = _ from hclosing)
  have hmark : first.kind.isTrivia = false := by
    rw [hfirst.1]
    rfl
  have hnone : lead.dropWhile (·.kind.isTrivia) = [] := by simpa using hlead
  rw [List.append_assoc, List.singleton_append, splitTrivia_append hmark, hnone, List.nil_append,
    ← List.cons_append]
  refine .between hfirst ⟨rfl, ?_⟩ ?_ (apart_of_manyWithin hparts).1
  · split at hn
    · rename_i hhead
      cases hn
      obtain ⟨rest, hrest⟩ := List.head?_eq_some_iff.mp hhead
      rw [text, hrest]
      rfl
    · cases hn
  · refine Yields.many (Answers.alt_pair ?_ ?_) hparts
    · intro c₂ us c₃ hus t ht
      obtain ⟨u, rfl, hkind, -⟩ := exists_of_templateText hus
      exact .inl (by rwa [List.mem_singleton.mp ht])
    · intro c₂ us c₃ hus t ht
      obtain ⟨u, rfl, hkind⟩ := exists_of_substitution hus
      exact .inr (by rwa [List.mem_singleton.mp ht])

end Grammar

/-! ## Export statements: `ExportRow` -/

namespace ListsNothing

variable {t : SyntaxTree}

theorem of_kind {k : Kind} (h : t.kind = k) (hk : k ∉ [.exportClause, .namespaceExport, .fixed]) :
    ListsNothing t := by
  simp only [List.mem_cons, List.not_mem_nil, or_false, not_or] at hk
  obtain ⟨hclause, hnamespace, hfixed⟩ := hk
  exact ⟨h ▸ hclause, h ▸ hnamespace, fun hstar => hfixed (h.symm.trans hstar.1)⟩

theorem of_isTrivia (h : t.kind.isTrivia = true) : ListsNothing t := by
  refine of_kind rfl fun hmem => ?_
  simp only [List.mem_cons, List.not_mem_nil, or_false] at hmem
  rcases hmem with hkind | hkind | hkind <;> simp [hkind, Kind.isTrivia] at h

theorem of_isToken {s : String} (h : IsToken s t) (hs : s ≠ "*") : ListsNothing t where
  no_clause hkind := by cases h.1.symm.trans hkind
  no_namespace hkind := by cases h.1.symm.trans hkind
  no_star hstar := hs (h.2.symm.trans hstar.2)

theorem withRole {r : Role} (h : ListsNothing t) : ListsNothing (t.withRole r) := by
  cases t <;> exact ⟨h.no_clause, h.no_namespace, h.no_star⟩

end ListsNothing

namespace ExportRow

variable {front ts : List SyntaxTree}

theorem append (h : ExportRow ts) (hfront : ∀ t ∈ front, ListsNothing t) : ExportRow (front ++ ts) := by
  cases h with
  | unlisted h =>
      exact .unlisted (List.forall_mem_append.mpr ⟨fun t ht => (hfront t ht).no_clause, h⟩)
  | listed hclause hfront' hback =>
      rw [← List.append_assoc]
      exact .listed hclause (List.forall_mem_append.mpr ⟨hfront, hfront'⟩) hback
  | valued ht htoken => exact .valued (List.mem_append_right _ ht) htoken

end ExportRow

namespace Phrase

variable {p : Phrase} {k : Kind}

/-- The trees that the recogniser `p` answers list no names (`ListsNothing`). -/
abbrev Unlisting (p : Phrase) : Prop := Yields ListsNothing p

theorem unlisting_node (hk : k ∉ [.exportClause, .namespaceExport, .fixed]) : Unlisting (node k p) :=
  yieldsOne_node.yields (fun _ h => .of_kind h hk) fun _ h => .of_isTrivia h

theorem unlisting_lexeme {lexeme? : List Char → Option Nat}
    (hk : k ∉ [.exportClause, .namespaceExport, .fixed]) : Unlisting (lexeme k lexeme?) :=
  yieldsOne_lexeme.yields (fun _ h => .of_kind h hk) fun _ h => .of_isTrivia h

theorem unlisting_mark {s : String} (hs : s ≠ "*") : Unlisting (mark s) :=
  (yieldsOne_mark s).yields (fun _ h => .of_isToken h hs) fun _ h => .of_isTrivia h

theorem unlisting_word {s : String} (hs : s ≠ "*") : Unlisting (word s) :=
  (yieldsOne_word s).yields (fun _ h => .of_isToken h hs) fun _ h => .of_isTrivia h

theorem unlisting_semicolon (afterOperand : Bool) : Unlisting (semicolon afterOperand) :=
  Answers.alt_pair (unlisting_mark (by decide)) fun _ _ _ h t ht =>
    .of_isTrivia (yields_statementEndWithin _ _ h t ht)

end Phrase

namespace Grammar

open Phrase

variable {c c₁ : Cursor} {ts : List SyntaxTree}

theorem unlisting_fromClause : Unlisting fromClause :=
  .seq_cons (unlisting_word (by decide))
    (Yields.inRole (unlisting_lexeme (by decide)) fun _ h => h.withRole)

theorem unlisting_anyWord {k : Kind} (hk : k ∉ [.exportClause, .namespaceExport, .fixed]) :
    Unlisting (anyWord k) := by
  unfold anyWord wordWhere
  exact unlisting_lexeme hk

variable {self : Symbol → Phrase}

theorem unlisting_plainDeclaration : Unlisting (plainDeclaration self) := by
  have hpair {k l : Kind} {p q : Phrase} (hk : k ∉ [.exportClause, .namespaceExport, .fixed])
      (hl : l ∉ [.exportClause, .namespaceExport, .fixed]) : Unlisting (alt [node k p, node l q]) :=
    Answers.alt_pair (unlisting_node hk) (unlisting_node hl)
  intro c ts c₁ h
  unfold plainDeclaration at h
  split at h
  · split at h
    case h_1 | h_4 | h_5 => exact hpair (by decide) (by decide) h
    case h_14 => cases h
    all_goals exact unlisting_node (by decide) h
  · split at h
    · exact hpair (by decide) (by decide) h
    · cases h

theorem unlisting_anyDeclaration : Unlisting (anyDeclaration self) := by
  intro c ts c₁ h
  unfold anyDeclaration at h
  split at h
  · exact unlisting_node (by decide) h
  · exact unlisting_plainDeclaration h

/-- What is exported, after the keyword `export`. -/
def exported (self : Symbol → Phrase) : Phrase := alt [
    seq [mark "*", fromClause, semicolon false],
    seq [node .namespaceExport (seq [mark "*", word "as", exportName]), fromClause, semicolon false],
    seq [exportClause, fromClause, semicolon false],
    seq [exportClause, semicolon false],
    seq [word "type", exportClause, opt fromClause, semicolon false],
    seq [mark "=", self (.expression .free), semicolon true],
    seq [word "as", word "namespace", anyWord .identifier, semicolon false],
    defaultExport self,
    inRole .declaration (anyDeclaration self)]

theorem exportStatement_eq : exportStatement self =
    node .exportStatement (seq [many (decorator self), word "export", exported self]) := rfl

/-- With a list of names at the front, what follows is an `ExportRow` if it lists nothing more. -/
theorem exportRow_seq_clause {p : Phrase} {ps : List Phrase} (hps : Unlisting (seq (p :: ps))) :
    Answers ExportRow (seq (exportClause :: p :: ps)) := by
  intro c ts c₁ h
  obtain ⟨front, c', back, hfront, hback, rfl⟩ := exists_of_seq h
  obtain ⟨lead, clause, rfl, hlead, hclause⟩ := yieldsOne_node hfront
  rw [List.append_assoc]
  exact .listed hclause (fun t ht => .of_isTrivia (hlead t ht)) (hps hback)

/-- With a value at the front, whatever follows is an `ExportRow`. -/
theorem exportRow_seq_value {p q : Phrase} {ps : List Phrase}
    (hp : YieldsOne (fun t => IsToken "default" t ∨ IsToken "=" t) p) :
    Answers ExportRow (seq (p :: q :: ps)) := by
  intro c ts c₁ h
  obtain ⟨front, c', back, hfront, hback, rfl⟩ := exists_of_seq h
  obtain ⟨lead, t, rfl, -, ht⟩ := hp hfront
  exact .valued (by simp) ht

theorem exportRow_exported : Answers ExportRow (exported self) := by
  have hsource : Unlisting (seq [fromClause, semicolon false]) :=
    .seq_cons unlisting_fromClause (unlisting_semicolon false)
  have hunlisted {p : Phrase} (hp : Unlisting p) : Answers ExportRow p :=
    fun c ts c₁ h => .unlisted fun t ht => (hp h t ht).no_clause
  have hstar {p : Phrase} {k : Kind} (hp : YieldsOne (·.kind = k) p) (hk : k ≠ .exportClause) :
      Answers ExportRow (seq [p, fromClause, semicolon false]) := by
    have hfront : Yields (·.kind ≠ .exportClause) p :=
      hp.yields (fun t ht => ht ▸ hk) fun t ht => (ListsNothing.of_isTrivia ht).no_clause
    exact fun c ts c₁ h => .unlisted (hfront.seq_cons (hsource.imp fun t ht => ht.no_clause) h)
  have htype : Answers ExportRow (seq [word "type", exportClause, opt fromClause, semicolon false]) := by
    intro c ts c₁ h
    obtain ⟨front, c', back, hfront, hback, rfl⟩ := exists_of_seq h
    refine .append (exportRow_seq_clause ?_ hback) (unlisting_word (by decide) hfront)
    exact .seq_cons (.opt unlisting_fromClause) (unlisting_semicolon false)
  have hequals : YieldsOne (fun t => IsToken "default" t ∨ IsToken "=" t) (mark "=") :=
    (yieldsOne_mark "=").imp fun _ h => .inr h
  have hdefault : YieldsOne (fun t => IsToken "default" t ∨ IsToken "=" t) (word "default") :=
    (yieldsOne_word "default").imp fun _ h => .inl h
  have hglobal : Unlisting (seq [word "as", word "namespace", anyWord .identifier, semicolon false]) :=
    .seq_cons (unlisting_word (by decide)) (.seq_cons (unlisting_word (by decide))
      (.seq_cons (unlisting_anyWord (by decide)) (unlisting_semicolon false)))
  refine .alt ?_
  simp only [List.forall_mem_cons]
  exact ⟨hstar yieldsOne_lexeme (by decide), hstar yieldsOne_node (by decide),
    exportRow_seq_clause hsource, exportRow_seq_clause (unlisting_semicolon false), htype,
    exportRow_seq_value hequals, hunlisted hglobal, exportRow_seq_value hdefault,
    hunlisted (Yields.inRole unlisting_anyDeclaration fun _ h => h.withRole), by simp⟩

theorem exportRow_of_seq
    (h : seq [many (decorator self), word "export", exported self] c = some (ts, c₁)) :
    ExportRow (splitTrivia ts).2 := by
  obtain ⟨front, c', back, hfront, hback, rfl⟩ := exists_of_seq h
  obtain ⟨keyword, c'', row, hkeyword, hrow, rfl⟩ := exists_of_seq hback
  obtain ⟨lead, t, rfl, hlead, ht⟩ := yieldsOne_word "export" hkeyword
  have hword : t.kind.isTrivia = false := by
    rw [ht.1]
    rfl
  have hdecorators : ∀ u ∈ front, ListsNothing u := Yields.many (unlisting_node (by decide)) hfront
  rw [show front ++ (lead ++ [t] ++ row) = (front ++ lead) ++ t :: row by simp, splitTrivia_append hword,
    show ∀ us : List SyntaxTree, us ++ t :: row = (us ++ [t]) ++ row by simp]
  refine .append (exportRow_exported hrow) ?_
  intro u hu
  rcases List.mem_append.mp hu with hu | hu
  · rcases List.mem_append.mp (List.dropWhile_subset _ hu) with hu | hu
    · exact hdecorators u hu
    · exact .of_isTrivia (hlead u hu)
  · rw [List.mem_singleton.mp hu]
    exact .of_isToken ht (by decide)

end Grammar

end PageReach.Script
