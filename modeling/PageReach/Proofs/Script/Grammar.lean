import PageReach.Proofs.Script.Faithful
import PageReach.Script.Parse

/-!
# The grammar is faithful

Rule by rule, what the grammar reads is all there in the tree, and every node has the shape that
belongs to its kind: each rule has an instance of `Faithful`. So the text of a tree is the source
that it was read from (`chars_of_parse?`), every tree is formed (`formed_of_parse?`), and all trees
stand in order (`inOrder_of_parse?`).
-/

namespace PageReach.Script

open Phrase

variable {c c₀ c₁ : Cursor} {ts left : List SyntaxTree} {k : Kind} {p : Phrase}

namespace Grammar

/-! ## Repetition on the left: `grow` -/

theorem reads_growWithin {step : List SyntaxTree → Phrase} [∀ left, Extends left (step left)]
    {fuel : Nat} (hleft : Reads c₀ left c) (h : growWithin step fuel left c = some (ts, c₁)) :
    Reads c₀ ts c₁ := by
  induction fuel generalizing left c with
  | zero =>
      cases h
      exact hleft
  | succ fuel ih =>
      unfold growWithin at h
      split at h
      · rename_i hstep
        exact ih (Extends.reads hleft hstep) h
      · cases h
        exact hleft

instance {step : List SyntaxTree → Phrase} [Faithful p] [∀ left, Extends left (step left)] :
    Faithful (grow p step) where
  reads h := by
    obtain ⟨⟨ts, c₁⟩, hp, h⟩ := Option.bind_eq_some_iff.mp h
    exact reads_growWithin (Faithful.reads hp) h

instance {op : String} [Holds k.isFree] [Faithful p] : Faithful (operatorChain k op p) := by
  have hchain : Faithful (fun c => do
      let (ts, c₁) ← p c
      (extend k none ts (many1 (seq [mark op, p])) c₁).or (some (ts, c₁))) := by
    constructor
    intro c ts c₁ h
    obtain ⟨⟨ts, c₁⟩, hp, h⟩ := Option.bind_eq_some_iff.mp h
    exact reads_of_or (Faithful.reads hp) h
  unfold operatorChain
  infer_instance

/-! ## Words and literals -/

instance [Holds k.isFree] : Faithful (anyWord k) := inferInstanceAs (Faithful (wordWhere _ _))

instance {s : String} [Holds k.isFree] : Faithful (wordAs k s) :=
  inferInstanceAs (Faithful (wordWhere _ _))

instance : Faithful stringLiteral := inferInstanceAs (Faithful (lexeme _ _))

instance : Faithful numberLiteral := inferInstanceAs (Faithful (lexeme _ _))

instance : Faithful privateName := inferInstanceAs (Faithful (lexeme _ _))

instance : Faithful exportName := inferInstanceAs (Faithful (alt _))

instance : Faithful templateText := inferInstanceAs (Faithful (immediate _ _))

instance : Faithful templateEnd := inferInstanceAs (Faithful (immediate _ _))

instance [Faithful p] : Faithful (substitution p) := faithful_node fun _ _ _ h => substitutionRow_of_seq h

instance [Holds k.isFree] [Faithful p] : Faithful (templateOf k p) := by
  rw [templateOf_eq]
  infer_instance

variable (self : Symbol → Phrase) [∀ s, Faithful (self s)]

instance : Faithful (propertyName self) := inferInstanceAs (Faithful (alt _))

instance {ws : List String} : Faithful (modifier ws) := inferInstanceAs (Faithful (seq _))

/-! ## Types, parameters and patterns: `typeRule` and `patternRule` -/

instance : Faithful (spread self) := inferInstanceAs (Faithful (node _ _))

instance : Faithful (callArguments self) := inferInstanceAs (Faithful (node _ _))

instance : Faithful (typeArguments self) := inferInstanceAs (Faithful (node _ _))

instance : Faithful (decoratorTarget self) where
  reads h := by
    obtain ⟨⟨ts, c₁⟩, hp, h⟩ := Option.bind_eq_some_iff.mp h
    exact reads_of_or (Faithful.reads hp) h

instance : Faithful (decorator self) := inferInstanceAs (Faithful (node _ _))

instance : Faithful (typeClause self) := inferInstanceAs (Faithful (node _ _))

instance : Faithful (typeParameter self) := inferInstanceAs (Faithful (node _ _))

instance : Faithful (typeParameters self) := inferInstanceAs (Faithful (node _ _))

instance : Faithful (initializer self) := inferInstanceAs (Faithful (seq _))

instance : Faithful (parameter self) := inferInstanceAs (Faithful (node _ _))

instance : Faithful (formalParameters self) := inferInstanceAs (Faithful (node _ _))

instance : Faithful (resultType self) := inferInstanceAs (Faithful (alt _))

instance : Faithful (resultClause self) := inferInstanceAs (Faithful (node _ _))

instance : Faithful (signature self) := inferInstanceAs (Faithful (seq _))

instance : Faithful (assignmentTarget self) := inferInstanceAs (Faithful (grow _ _))

instance {assigning : Bool} : Faithful (patternWithDefault self assigning) where
  reads h := by
    obtain ⟨⟨ts, c₁⟩, hp, h⟩ := Option.bind_eq_some_iff.mp h
    exact reads_of_or (Faithful.reads hp) h

instance {assigning : Bool} : Faithful (restPattern self assigning) :=
  inferInstanceAs (Faithful (node _ _))

instance {assigning : Bool} : Faithful (patternRule self assigning) where
  reads h := by
    unfold patternRule at h
    split at h
    · exact Faithful.reads h
    · exact Faithful.reads h
    · split at h <;> exact Faithful.reads h

instance : Faithful (indexSignature self) := inferInstanceAs (Faithful (node _ _))

instance : Faithful (typeMember self) := inferInstanceAs (Faithful (alt _))

instance : Faithful (objectType self) := inferInstanceAs (Faithful (node _ _))

instance : Faithful (tupleMember self) := inferInstanceAs (Faithful (alt _))

instance : Faithful (importedMember self) := inferInstanceAs (Faithful (grow _ _))

instance : Faithful (typeReference self) where
  reads h := by
    obtain ⟨⟨ts, c₁⟩, hp, h⟩ := Option.bind_eq_some_iff.mp h
    exact reads_of_or (Faithful.reads hp) h

instance : Faithful (typeQuery self) := inferInstanceAs (Faithful (node _ _))

instance {w : String} : Faithful (wordType self w) := by
  unfold wordType
  infer_instance

instance : Faithful (primaryType self) where
  reads h := by
    unfold primaryType at h
    split at h
    · exact Faithful.reads h
    · split at h
      case h_8 => cases h
      all_goals exact Faithful.reads h

instance : Faithful (suffixedType self) where
  reads h := by
    unfold suffixedType at h
    split at h <;> exact Faithful.reads h

instance : Faithful (typeOperandRule self) where
  reads h := by
    unfold typeOperandRule at h
    split at h <;> exact Faithful.reads h

instance : Faithful (functionType self) := inferInstanceAs (Faithful (node _ _))

instance : Faithful (constructorType self) := inferInstanceAs (Faithful (node _ _))

instance : Faithful (unionType self) := inferInstanceAs (Faithful (operatorChain _ _ _))

instance : Faithful (plainType self) where
  reads h := by
    unfold plainType at h
    split at h
    · exact Faithful.reads h
    · split at h <;> exact Faithful.reads h

instance : Faithful (typeRule self) where
  reads h := by
    obtain ⟨⟨ts, c₁⟩, hp, h⟩ := Option.bind_eq_some_iff.mp h
    exact reads_of_or (Faithful.reads hp) h

/-! ## Expressions: `expressionRule` -/

instance : Faithful variableName := inferInstanceAs (Faithful (wordWhere _ _))

instance : Faithful (template self) := by
  rw [template, templateOf_eq]
  exact faithful_node fun _ _ _ h => templateRow_of_seq h

instance : Faithful (method self) := inferInstanceAs (Faithful (node _ _))

instance : Faithful (objectMember self) := inferInstanceAs (Faithful (alt _))

instance : Faithful (objectLiteral self) := inferInstanceAs (Faithful (node _ _))

instance : Faithful (arrayLiteral self) := inferInstanceAs (Faithful (node _ _))

instance : Faithful (parenthesized self) := inferInstanceAs (Faithful (node _ _))

instance : Faithful (functionExpression self) := inferInstanceAs (Faithful (node _ _))

instance {context : Context} : Faithful (arrowBody self context) where
  reads h := by
    unfold arrowBody at h
    split at h <;> exact Faithful.reads h

instance {context : Context} : Faithful (arrowFunction self context) :=
  inferInstanceAs (Faithful (node _ _))

instance {context : Context} : Faithful (singleArrow self context) :=
  inferInstanceAs (Faithful (node _ _))

instance : Faithful memberName := inferInstanceAs (Faithful (inRole _ _))

instance : Extends left (memberStep self left) where
  reads hleft h := by
    unfold memberStep at h
    split at h
    case h_4 =>
      split at h
      · exact Extends.reads hleft h
      · cases h
    all_goals exact Extends.reads hleft h

instance : Extends left (operandStep self left) where
  reads hleft h := by
    unfold operandStep at h
    split at h <;> exact Extends.reads hleft h

instance : Faithful (newExpression self) := inferInstanceAs (Faithful (alt _))

instance : Faithful importOperand := inferInstanceAs (Faithful (alt _))

instance {w : String} [Faithful p] : Faithful (wordOperand self p w) := by
  unfold wordOperand
  split <;> infer_instance

instance {dialect : Dialect} [Faithful p] : Faithful (primary dialect self p) where
  reads h := by
    unfold primary at h
    split at h
    · exact Faithful.reads h
    · split at h
      case h_12 => cases h
      all_goals exact Faithful.reads h

instance {dialect : Dialect} {context : Context} [Faithful p] :
    Faithful (operandHead dialect self context p) where
  reads h := by
    unfold operandHead at h
    dsimp only at h
    split at h
    · exact Faithful.reads h
    · split at h
      · split at h <;> exact Faithful.reads h
      · exact Faithful.reads h
    · split at h <;> exact Faithful.reads h

instance {context : Context} {n : Nat} : Faithful (rightOperand self context n) := by
  unfold rightOperand
  infer_instance

instance {context : Context} {level : Nat} : Extends left (binaryStep self context level left) where
  reads hleft h := by
    unfold binaryStep at h
    split at h
    · -- operators that are words
      split at h
      · split at h
        · exact Extends.reads hleft h
        · split at h
          · split at h
            · exact Extends.reads hleft h
            · split at h
              · exact Extends.reads hleft h
              · cases h
          · cases h
      · cases h
    · split at h
      · split at h
        · split at h
          · exact Extends.reads hleft h
          · cases h
        · cases h
      · cases h

instance {context : Context} {level : Nat} : Faithful (binaryRule self context level) :=
  inferInstanceAs (Faithful (grow _ _))

instance {context : Context} : Extends left (assignmentStep self context left) where
  reads hleft h := by
    unfold assignmentStep at h
    split at h
    · split at h
      · exact Extends.reads hleft h
      · split at h
        · exact Extends.reads hleft h
        · cases h
      · cases h
    · cases h

instance {context : Context} : Faithful (destructured self context) :=
  inferInstanceAs (Faithful (node _ _))

instance {context : Context} : Faithful (updated self context) where
  reads h := by
    obtain ⟨⟨ts, c₁⟩, hp, h⟩ := Option.bind_eq_some_iff.mp h
    rcases Option.or_eq_some_iff.mp h with h | ⟨-, h⟩
    · exact Extends.reads (Faithful.reads hp) h
    · exact reads_of_or (Faithful.reads hp) h

instance {dialect : Dialect} {context : Context} : Faithful (unaryRule dialect self context) where
  reads h := by
    unfold unaryRule at h
    dsimp only at h
    repeat' split at h
    all_goals exact Faithful.reads h

instance {context : Context} : Faithful (conditional self context) where
  reads h := by
    obtain ⟨⟨ts, c₁⟩, hp, h⟩ := Option.bind_eq_some_iff.mp h
    rcases Option.or_eq_some_iff.mp h with h | ⟨-, h⟩
    · exact Extends.reads (Faithful.reads hp) h
    · exact reads_of_or (Faithful.reads hp) h

instance {context : Context} : Faithful (yieldExpression self context) :=
  inferInstanceAs (Faithful (alt _))

instance {context : Context} : Faithful (assignmentRule self context) where
  reads h := by
    unfold assignmentRule at h
    split at h <;> exact Faithful.reads h

instance {context : Context} : Faithful (expressionRule self context) where
  reads h := by
    obtain ⟨⟨ts, c₁⟩, hp, h⟩ := Option.bind_eq_some_iff.mp h
    exact reads_of_or (Faithful.reads hp) h

/-! ## Classes: `classDeclaration` -/

/-- How a phrase has to end may depend on the trees before: `q` gets those that `p` answers. -/
theorem faithful_thenEnd [Faithful p] (q : List SyntaxTree → Phrase) [∀ ts, Faithful (q ts)] :
    Faithful fun c => (p c).bind fun x => (q x.1 x.2).bind fun y => some (x.1 ++ y.1, y.2) where
  reads h := by
    obtain ⟨⟨ts, c₁⟩, hp, h⟩ := Option.bind_eq_some_iff.mp h
    obtain ⟨⟨us, c₂⟩, hend, h⟩ := Option.bind_eq_some_iff.mp h
    cases h
    exact (Faithful.reads hp).append (Faithful.reads hend)

instance [Faithful p] : Faithful (terminated p) :=
  faithful_thenEnd fun ts => alt [mark ",", semicolon (endsWithValue ts)]

instance : Faithful (field self) := inferInstanceAs (Faithful (node _ _))

instance : Faithful (methodHead self) := inferInstanceAs (Faithful (seq _))

instance : Faithful (classMember self) := inferInstanceAs (Faithful (alt _))

instance : Faithful (classBody self) := inferInstanceAs (Faithful (node _ _))

instance : Faithful (heritage self) := inferInstanceAs (Faithful (node _ _))

instance : Faithful (classTail self) := inferInstanceAs (Faithful (seq _))

instance : Faithful className := inferInstanceAs (Faithful (inRole _ _))

instance : Faithful (classDeclaration self) := inferInstanceAs (Faithful (node _ _))

instance : Faithful (abstractClassDeclaration self) := inferInstanceAs (Faithful (node _ _))

instance : Faithful (classExpression self) := inferInstanceAs (Faithful (node _ _))

instance : Faithful (interfaceDeclaration self) := inferInstanceAs (Faithful (node _ _))

instance : Faithful (enumDeclaration self) := inferInstanceAs (Faithful (node _ _))

/-! ## Markup: `elementRule` -/

instance : Faithful elementName := inferInstanceAs (Faithful (node _ _))

instance : Faithful (embedded self) := inferInstanceAs (Faithful (node _ _))

instance : Faithful (elementAttribute self) := inferInstanceAs (Faithful (alt _))

instance : Faithful (tagContent self) := inferInstanceAs (Faithful (seq _))

instance : Faithful tagOpen := inferInstanceAs (Faithful (lexeme _ _))

instance : Faithful elementText := inferInstanceAs (Faithful (immediate _ _))

instance : Faithful (elementChild self) := inferInstanceAs (Faithful (alt _))

instance : Faithful (elementRule self) := inferInstanceAs (Faithful (node _ _))

/-! ## Statements: `statementRule` -/

instance {context : Context} : Faithful (declarator self context) :=
  inferInstanceAs (Faithful (node _ _))

instance {ws : List String} {context : Context} : Faithful (declarators self ws context) :=
  inferInstanceAs (Faithful (seq _))

instance {ws : List String} [Holds k.isFree] : Faithful (declaration self k ws) :=
  have := faithful_thenEnd (p := declarators self ws .free) fun ts => semicolon (endsWithValue ts)
  inferInstanceAs (Faithful (node k _))

instance : Faithful (functionDeclaration self) := inferInstanceAs (Faithful (node _ _))

instance : Faithful (functionSignature self) := inferInstanceAs (Faithful (node _ _))

instance : Faithful (typeAlias self) := inferInstanceAs (Faithful (node _ _))

instance : Faithful qualifiedName := inferInstanceAs (Faithful (grow _ _))

instance : Faithful (namespaceDeclaration self) := inferInstanceAs (Faithful (node _ _))

instance : Faithful (moduleDeclaration self) := inferInstanceAs (Faithful (node _ _))

instance : Faithful importAlias := inferInstanceAs (Faithful (node _ _))

instance : Faithful (plainDeclaration self) where
  reads h := by
    unfold plainDeclaration at h
    split at h
    · split at h
      case h_14 => cases h
      all_goals exact Faithful.reads h
    · split at h
      · exact Faithful.reads h
      · cases h

instance : Faithful (ambientDeclaration self) := inferInstanceAs (Faithful (node _ _))

instance : Faithful (anyDeclaration self) where
  reads h := by
    unfold anyDeclaration at h
    split at h <;> exact Faithful.reads h

instance : Faithful specifierEnd := inferInstanceAs (Faithful (check _))

instance {name renamed : Phrase} [Holds k.isFree] [Faithful name] [Faithful renamed] :
    Faithful (specifier k name renamed) :=
  inferInstanceAs (Faithful (node _ _))

instance : Faithful importClause := inferInstanceAs (Faithful (node _ _))

instance : Faithful fromClause := inferInstanceAs (Faithful (seq _))

instance : Faithful (importAttribute self) := inferInstanceAs (Faithful (node _ _))

instance : Faithful (importStatement self) := inferInstanceAs (Faithful (node _ _))

instance : Faithful exportClause := inferInstanceAs (Faithful (node _ _))

instance : Faithful (defaultExport self) := inferInstanceAs (Faithful (seq _))

instance : Faithful (exported self) := inferInstanceAs (Faithful (alt _))

instance : Faithful (exportStatement self) := by
  rw [exportStatement_eq]
  exact faithful_node fun _ _ _ h => exportRow_of_seq h

instance : Faithful (condition self) := inferInstanceAs (Faithful (node _ _))

instance : Faithful (blockRule self) := inferInstanceAs (Faithful (node _ _))

instance : Faithful (expressionStatement self) := inferInstanceAs (Faithful (node _ _))

instance : Faithful (ifStatement self) := inferInstanceAs (Faithful (node _ _))

instance : Faithful (forInStatement self) := inferInstanceAs (Faithful (node _ _))

instance : Faithful (forStatement self) := inferInstanceAs (Faithful (node _ _))

instance : Faithful (switchCase self) := inferInstanceAs (Faithful (node _ _))

instance : Faithful (tryStatement self) := inferInstanceAs (Faithful (node _ _))

instance {w : String} [Holds k.isFree] : Faithful (jump k w) := inferInstanceAs (Faithful (node _ _))

instance : Faithful (returnStatement self) := inferInstanceAs (Faithful (node _ _))

instance : Faithful (labeledStatement self) := inferInstanceAs (Faithful (node _ _))

instance {w : String} : Faithful (wordStatement self w) := by
  unfold wordStatement
  split <;> infer_instance

instance : Faithful (statementRule self) where
  reads h := by
    unfold statementRule at h
    repeat' split at h
    all_goals exact Faithful.reads h

end Grammar

/-! ## Sources: `parse?` -/

open Grammar SyntaxTree

instance {dialect : Dialect} (self : Symbol → Phrase) [∀ s, Faithful (self s)] (s : Symbol) :
    Faithful (rule dialect self s) := by
  cases s <;> unfold rule <;> infer_instance

instance {dialect : Dialect} (depth : Nat) (s : Symbol) : Faithful (recognize dialect depth s) := by
  induction depth generalizing s with
  | zero => exact inferInstanceAs (Faithful fail)
  | succ depth ih =>
      -- the rules are faithful as soon as the symbols they are made of are
      exact inferInstanceAs (Faithful (rule dialect (recognize dialect depth) s))

instance {dialect : Dialect} : Faithful (program dialect) where
  reads h := by
    unfold program at h
    exact Faithful.reads (p := seq _) h

variable {dialect : Dialect} {source : String} {t : SyntaxTree}

theorem reads_of_parse? (h : parse? dialect source = some t) : ∃ ts c,
    t = .node .program none .origin ts ∧ Reads (Cursor.ofSource source) ts c ∧ c.ahead = [] := by
  unfold parse? at h
  split at h
  · rename_i ts c hprogram
    dsimp only at h
    split at h
    · rename_i hend
      cases h
      exact ⟨_, _, rfl, (Faithful.reads hprogram).append (Reads.trivia c), List.isEmpty_iff.mp hend⟩
    · cases h
  · cases h

/-- **A tree spells out its source**: its `chars` are those of the source. -/
theorem chars_of_parse? (h : parse? dialect source = some t) : t.chars = source.toList := by
  obtain ⟨ts, c, rfl, hreads, hend⟩ := reads_of_parse? h
  have hspells := hreads.spells
  rw [hend] at hspells
  simpa [Cursor.ofSource] using hspells.symm

/-- **A tree is `Formed`.** -/
theorem formed_of_parse? (h : parse? dialect source = some t) : t.Formed := by
  obtain ⟨ts, c, rfl, hreads, -⟩ := reads_of_parse? h
  exact .node trivial hreads.formed

/-- **A tree and all that is below it stand `InOrder`.** -/
theorem inOrder_of_parse? (h : parse? dialect source = some t) : ∃ ending, InOrder 0 [t] ending := by
  obtain ⟨ts, c, rfl, hreads, -⟩ := reads_of_parse? h
  exact ⟨_, .node (Nat.le_refl _) hreads.inOrder (.nil (Nat.le_refl _))⟩

theorem kind_of_parse? (h : parse? dialect source = some t) : t.kind = .program := by
  obtain ⟨ts, c, rfl, -⟩ := reads_of_parse? h
  rfl

end PageReach.Script
