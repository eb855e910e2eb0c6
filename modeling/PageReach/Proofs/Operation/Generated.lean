import PageReach.Operation.Generated
import PageReach.Proofs.Fault
import PageReach.Proofs.Operation.Signs
import PageReach.Proofs.Table

/-!
# Generated documents and the kinds written in them

A constant is the document of an operation if its value is written out as the syntax tree of a
document (`BeginsWith`, `Declares`). Then everything about the operation is there, except that its
kind may be any value at all: a value that holds something and is no text cannot be understood.
Nothing else stops the reading of a generated file (`generatedDocument?_stops_iff`,
`generatedDocuments_stops_iff`).

Such a constant spells out the words `Document` and `definitions`, so that a source without them
need not be read (`generatedDocument?_of_no_words`).
-/

namespace PageReach

open Script Text

/-! ## What literals are spelled with: `chars` -/

namespace Script.SyntaxTree

variable {t : SyntaxTree} {key : String}

theorem infix_of_stringValue? {s : String} (h : t.stringValue? = some s) : s.toList <:+: t.chars := by
  unfold stringValue? at h
  split at h
  · split at h
    · rename_i q rest htext
      split at h
      · cases h
        rw [← toList_text, htext, String.toList_ofList]
        exact (List.dropLast_prefix rest).isInfix.trans (List.suffix_cons q rest).isInfix
      · cases h
    · cases h
  · cases h

theorem infix_of_pairKey? (h : t.pairKey? = some key) : key.toList <:+: t.chars := by
  obtain ⟨u, hu, hkey⟩ := Option.bind_eq_some_iff.mp h
  refine List.IsInfix.trans ?_ (infix_of_child? hu)
  rcases Option.or_eq_some_iff.mp hkey with hstring | ⟨-, hname⟩
  · exact infix_of_stringValue? hstring
  · split at hname
    · cases hname
      simp
    · cases hname

theorem exists_pair_of_mem_literalFields {ts : List SyntaxTree} {field : String × Value}
    (h : field ∈ literalFields ts) : ∃ t ∈ ts, t.pairKey? = some field.1 := by
  induction ts with
  | nil => cases h
  | cons t ts ih =>
      have hlater (h : field ∈ literalFields ts) : ∃ u ∈ t :: ts, u.pairKey? = some field.1 := by
        obtain ⟨u, hu, hkey⟩ := ih h
        exact ⟨u, List.mem_cons_of_mem t hu, hkey⟩
      unfold literalFields at h
      split at h
      · rename_i heq
        cases heq
      · rename_i heq
        cases heq
        split at h
        · rename_i key hkey
          rcases List.mem_cons.mp h with rfl | h
          · exact ⟨_, List.mem_cons_self, hkey⟩
          · exact hlater h
        · exact hlater h
      · rename_i heq
        cases heq
        exact hlater h

/-- The keys of an object are spelled out in its `chars`. -/
theorem infix_of_literal_get? (hkind : t.kind = .object) {v : Value}
    (h : t.literal.get? key = some v) : key.toList <:+: t.chars := by
  cases t with
  | leaf k r p s =>
      cases hkind
      cases h
  | node k r p ts =>
      cases hkind
      have hmem := Table.mem_entries_of_get? (t := Table.ofList (literalFields ts)) h
      rcases Table.mem_entries_insertAll hmem with hmem | hmem
      · obtain ⟨pair, hpair, hkey⟩ := exists_pair_of_mem_literalFields hmem
        exact (infix_of_pairKey? hkey).trans (infix_of_mem hpair)
      · simp [Table.empty] at hmem

end Script.SyntaxTree

/-! ## Kinds: `OperationKind.ofValue` -/

theorem OperationKind.ofValue_stops_iff {v : Value} :
    Stops (OperationKind.ofValue v) ↔ v.text? = none ∧ v.holds = true := by
  unfold OperationKind.ofValue
  split
  · simp [Value.text?]
  · rename_i hnot
    have htext : v.text? = none := by
      cases v <;> first | rfl | exact absurd rfl (hnot _)
    split <;> simp_all

namespace Operation

/-! ## Documents as values: `BeginsWith` -/

/-- The value is the syntax tree of a document whose first definition is a named operation, and `kind` is
what stands there for its kind. -/
def BeginsWith (document : Value) (operation : String) (kind : Value) : Prop :=
  ∃ definition rest, (document.get? "definitions").bind Value.items? = some (definition :: rest) ∧
    (definition.get? "kind").bind Value.text? = some "OperationDefinition" ∧
    ((definition.get? "name").bind (·.get? "value")).bind Value.text? = some operation ∧
    operation ≠ "" ∧ (definition.get? "operation").getD .null = kind

variable {document kind : Value} {operation : String} {t name root : SyntaxTree}

theorem firstOperation?_of_beginsWith (h : BeginsWith document operation kind) :
    firstOperation? document = do return some (operation, ← OperationKind.ofValue kind) := by
  obtain ⟨definition, rest, hdefinitions, hkind, hname, hne, rfl⟩ := h
  simp [firstOperation?, hdefinitions, hkind, hname]

theorem beginsWith_or_none (document : Value) :
    firstOperation? document = .ok none ∨ ∃ operation kind, BeginsWith document operation kind := by
  unfold firstOperation?
  split
  · rename_i definition rest hdefinitions
    split
    · exact .inl rfl
    · rename_i hkind
      split
      · exact .inl rfl
      · exact .inl rfl
      · rename_i operation hne hname
        exact .inr ⟨operation, _, definition, rest, hdefinitions, by simpa using hkind, hname,
          by simpa using hne, rfl⟩
  · exact .inl rfl

/-! ## Constants that are documents: `Declares` -/

/-- The declarator makes a constant the document of an operation, and `kind` is what stands there for the
kind of the operation. -/
def Declares (t name : SyntaxTree) (operation : String) (kind : Value) : Prop :=
  ∃ value, t.child? .name = some name ∧ name.kind = .identifier ∧
    endsWith name.text "Document" = true ∧ (t.child? .value).map SyntaxTree.unwrap = some value ∧
    value.kind = .object ∧ (value.literal.get? "kind").bind Value.text? = some "Document" ∧
    BeginsWith value.literal operation kind

theorem generatedDocument?_of_declares (h : Declares t name operation kind) :
    generatedDocument? t = do
      return some ⟨name.text, operation, ← OperationKind.ofValue kind, name.start.line⟩ := by
  obtain ⟨value, hname, hidentifier, hending, hvalue, hobject, hdocument, hbegins⟩ := h
  simp only [generatedDocument?, hname, hvalue, hidentifier, hending, hobject, hdocument,
    firstOperation?_of_beginsWith hbegins]
  cases OperationKind.ofValue kind <;> rfl

theorem declares_or_none (t : SyntaxTree) :
    generatedDocument? t = .ok none ∨ ∃ name operation kind, Declares t name operation kind := by
  unfold generatedDocument?
  split
  · rename_i name value hname hvalue
    split
    · exact .inl rfl
    · rename_i hconstant
      dsimp only
      split
      · exact .inl rfl
      · rename_i hdocument
        rcases beginsWith_or_none value.literal with hnone | ⟨operation, kind, hbegins⟩
        · rw [hnone]
          exact .inl rfl
        · simp only [Bool.or_eq_true, decide_eq_true_eq, Bool.not_eq_true', not_or, ne_eq,
            Decidable.not_not, Bool.not_eq_false] at hconstant hdocument
          exact .inr ⟨name, operation, kind, value, hname, hconstant.1.1, hconstant.1.2, hvalue,
            hconstant.2, hdocument, hbegins⟩
  · exact .inl rfl

/-- **Only a kind that cannot be understood stops `generatedDocument?`.** -/
theorem generatedDocument?_stops_iff : Stops (generatedDocument? t) ↔
    ∃ name operation kind, Declares t name operation kind ∧ kind.text? = none ∧ kind.holds = true := by
  constructor
  · intro h
    rcases declares_or_none t with hnone | ⟨name, operation, kind, hdeclares⟩
    · rw [hnone] at h
      exact absurd h (not_stops_ok _)
    · rw [generatedDocument?_of_declares hdeclares, stops_bind] at h
      rcases h with h | ⟨_, _, h⟩
      · exact ⟨name, operation, kind, hdeclares, OperationKind.ofValue_stops_iff.mp h⟩
      · exact absurd h (not_stops_pure _)
  · rintro ⟨name, operation, kind, hdeclares, hkind⟩
    rw [generatedDocument?_of_declares hdeclares, stops_bind]
    exact .inl (OperationKind.ofValue_stops_iff.mpr hkind)

/-- The constants that `root` exports. -/
def constants (root : SyntaxTree) : List SyntaxTree := root.named.flatMap exportedConstants

theorem generatedDocuments_stops_iff :
    Stops (generatedDocuments root) ↔ ∃ t ∈ constants root, Stops (generatedDocument? t) := by
  rw [generatedDocuments, stops_return, stops_mapM]
  rfl

/-- The documents of a source are those of its `constants`, in the order of their declarations. -/
theorem generatedDocuments_ok {found : List GeneratedDocument} (h : generatedDocuments root = .ok found) :
    found = (constants root).filterMap fun t => (generatedDocument? t).toOption.join := by
  obtain ⟨each, heach, hfound⟩ := exists_ok_of_bind h
  cases hfound
  clear h
  rw [constants]
  generalize root.named.flatMap exportedConstants = ts at heach
  induction ts generalizing each with
  | nil =>
      cases heach
      rfl
  | cons t ts ih =>
      rw [List.mapM_cons] at heach
      obtain ⟨g, hg, heach⟩ := exists_ok_of_bind heach
      obtain ⟨gs, hgs, heach⟩ := exists_ok_of_bind heach
      cases heach
      rw [List.filterMap_cons, List.filterMap_cons, hg, ih gs hgs]
      rfl

/-! ## Words in generated sources -/

theorem infix_of_declares (h : Declares t name operation kind) :
    "Document".toList <:+: t.chars ∧ "definitions".toList <:+: t.chars := by
  obtain ⟨value, hname, -, hending, hvalue, hobject, -, definition, rest, hdefinitions, -⟩ := h
  obtain ⟨u, hu, rfl⟩ := Option.map_eq_some_iff.mp hvalue
  obtain ⟨v, hv, -⟩ := Option.bind_eq_some_iff.mp hdefinitions
  constructor
  · rw [endsWith, List.isSuffixOf_iff_suffix, SyntaxTree.toList_text] at hending
    exact hending.isInfix.trans (SyntaxTree.infix_of_child? hname)
  · have hwithin := SyntaxTree.infix_of_literal_get? hobject hv
    exact hwithin.trans ((SyntaxTree.infix_of_unwrap u).trans (SyntaxTree.infix_of_child? hu))

theorem infix_of_mem_constants (h : t ∈ constants root) : t.chars <:+: root.chars := by
  obtain ⟨statement, hstatement, ht⟩ := List.mem_flatMap.mp h
  refine List.IsInfix.trans ?_ (SyntaxTree.infix_of_mem_named hstatement)
  unfold exportedConstants at ht
  split at ht
  · cases ht
  · split at ht
    · cases ht
    · rename_i declaration hdeclaration
      split at ht
      · have hnamed := (List.mem_filter.mp ht).1
        exact (SyntaxTree.infix_of_mem_named hnamed).trans (SyntaxTree.infix_of_child? hdeclaration)
      · cases ht

/-- A source without the words exports no document. -/
theorem generatedDocument?_of_no_words {file source : String}
    (hroot : parseFile? file source = some root)
    (hwords : (Text.contains source "Document" && Text.contains source "definitions") = false) :
    ∀ t ∈ constants root, generatedDocument? t = .ok none := by
  intro t ht
  refine (declares_or_none t).resolve_right ?_
  rintro ⟨name, operation, kind, hdeclares⟩
  have hwithin : t.chars <:+: source.toList := by
    rw [← chars_of_parse? hroot]
    exact infix_of_mem_constants ht
  obtain ⟨hdocument, hdefinitions⟩ := infix_of_declares hdeclares
  rw [contains_iff.mpr (hdocument.trans hwithin), contains_iff.mpr (hdefinitions.trans hwithin)] at hwords
  cases hwords

end Operation

end PageReach
