import PageReach.Dependency.Edge
import PageReach.Proofs.Script.Tree
import PageReach.Proofs.Table

/-!
# Dependencies and their edges

A *dependency* is a statement that names a module: an import, or an export with a source. It makes at
most one edge, and nothing below it makes another.

* **Trees** (`ofTree_eq`, `ofTree_of_isDependency`): the edges of a tree in preorder, and the one edge of
  a dependency.
* **Requests** (`of?_of_isDependency`, `request_of_import`, `request_of_export`): what an edge takes
  depends on the specifiers that are `listed` in braces, and on which of them are marked as types.
* **Calls** (`of?_call_eq_some_iff`): a call of `require` or of the import function that `Loads` a module
  makes an edge, and no other call does.
-/

namespace PageReach.Edge

open Script SyntaxTree

variable {t : SyntaxTree}

/-! ## Edges of a tree: `ofTree` -/

theorem ofTree_eq (root : SyntaxTree) : ofTree root = (root.preorder enters).filterMap of? := by
  rw [ofTree, visit_eq_flatMap, List.flatMap_singleton]

/-- A statement that names a module: `t` is an import, or an export with a source. -/
def IsDependency (t : SyntaxTree) : Prop :=
  t.kind = .importStatement ∨ t.kind = .exportStatement ∧ (t.child? .source).isSome

instance : DecidablePred IsDependency := fun _ => inferInstanceAs (Decidable (_ ∨ _))

theorem enters_of_isDependency (h : IsDependency t) : enters t = false := by
  unfold enters
  rcases h with hkind | ⟨hkind, hsource⟩
  · simp [hkind]
  · simp [hkind, ← Option.not_isSome, hsource]

theorem ofTree_of_isDependency (h : IsDependency t) : ofTree t = (of? t).toList := by
  rw [ofTree_eq, preorder_eq, enters_of_isDependency h]
  cases hof : of? t <;> simp [hof]

/-! ## Specifiers in braces: `listed` -/

/-- The words that mark the statement `t`, or a specifier in it, as being about types. -/
def typeWords (t : SyntaxTree) : List String :=
  if t.kind = .importStatement then ["type", "typeof"] else ["type"]

/-- The specifiers that the dependency `t` lists in braces. -/
def listed (t : SyntaxTree) : List SyntaxTree :=
  if t.kind = .importStatement then
    ((t.named? .importClause).toList.flatMap fun clause =>
      clause.named.filter (·.kind = .namedImports)).flatMap (specifiers .importSpecifier)
  else (t.named? .exportClause).toList.flatMap (specifiers .exportSpecifier)

/-- The names that a dependency takes by specifiers which are not marked by `typeWords`. -/
def taken (t : SyntaxTree) : List String :=
  ((listed t).filter (!·.hasToken (typeWords t))).filterMap fun s => (s.child? .name).map nameText

/-- Whether a dependency binds something besides the names in braces: a default, a namespace, or the
module as a whole. -/
def bindsBeside (t : SyntaxTree) : Bool :=
  if t.kind = .importStatement then
    (t.named? .importRequireClause).isSome || (t.named? .importClause).any fun clause =>
      clause.named.any fun u => u.kind = .identifier || u.kind = .namespaceImport
  else t.hasToken ["*"] || (t.named? .namespaceExport).isSome

theorem mem_taken {name : String} : name ∈ taken t ↔ ∃ s ∈ listed t,
    s.hasToken (typeWords t) = false ∧ (s.child? .name).map nameText = some name := by
  simp [taken, and_assoc]

theorem taken_eq_nil (h : ∀ s ∈ listed t, s.hasToken (typeWords t) = true) : taken t = [] := by
  refine List.eq_nil_iff_forall_not_mem.mpr fun name hname => ?_
  obtain ⟨s, hs, hmarked, -⟩ := mem_taken.mp hname
  simp [h s hs] at hmarked

/-! ## What is taken: `request` -/

/-- The module that a dependency names. -/
def target? (t : SyntaxTree) : Option String :=
  if t.kind = .importStatement then
    match t.named? .importRequireClause with
    | some clause => firstString? clause
    | none => (t.child? .source).bind stringValue?
  else (t.child? .source).bind stringValue?

/-- What a dependency without one of the `typeWords` in front takes from its module. -/
def request (t : SyntaxTree) : Request :=
  if t.kind = .importStatement then
    if (t.named? .importRequireClause).isSome then .anything else importRequest t
  else reexportRequest t

theorem of?_of_isDependency (h : IsDependency t) :
    of? t = if t.hasToken (typeWords t) then none else to? t (target? t) (request t) := by
  rcases h with hkind | ⟨hkind, hsource⟩
  · simp only [of?, hkind, ofImport?, typeWords, target?, request, if_true]
    cases t.named? .importRequireClause <;> rfl
  · obtain ⟨source, hsource⟩ := Option.isSome_iff_exists.mp hsource
    simp [of?, hkind, ofReexport?, typeWords, target?, request, hsource]

theorem flatMap_takenNames (k : Kind) (isType : SyntaxTree → Bool) (clauses : List SyntaxTree) :
    clauses.flatMap (takenNames k isType) =
      ((clauses.flatMap (specifiers k)).filter (!isType ·)).filterMap
        fun s => (s.child? .name).map nameText := by
  simp only [List.filter_flatMap, List.filterMap_flatMap]
  rfl

theorem request_of_import (hkind : t.kind = .importStatement) : request t =
    if bindsBeside t then .anything
    else if taken t ≠ [] then .names (taken t)
    else if (listed t).any (·.hasToken (typeWords t)) then .erased
    else .anything := by
  have htaken : taken t = ((t.named? .importClause).toList.flatMap fun clause =>
      clause.named.filter (·.kind = .namedImports)).flatMap
        (takenNames .importSpecifier isTypeSpecifier) := by
    rw [flatMap_takenNames, taken, listed, typeWords, if_pos hkind, if_pos hkind]
    rfl
  rw [htaken]
  simp only [request, hkind, if_true, bindsBeside, listed, typeWords]
  cases hrequire : (t.named? .importRequireClause).isSome with
  | true => simp
  | false =>
      cases hclause : t.named? .importClause with
      | none => simp [importRequest, hclause]
      | some clause =>
          simp only [importRequest, hclause, Option.any_some, Option.toList_some, Bool.false_or,
            Bool.false_eq_true, if_false, List.flatMap_singleton, List.any_flatMap]
          split
          · rfl
          · split
            · rename_i hnil
              simp only [hnil, ne_eq, not_true_eq_false, if_false]
              rfl
            · rename_i hcons
              rw [if_pos hcons]

theorem request_of_export (hkind : t.kind ≠ .importStatement) : request t =
    if taken t ≠ [] then .names (taken t) else .anything := by
  have htaken : taken t = (t.named? .exportClause).toList.flatMap
      (takenNames .exportSpecifier (·.hasToken ["type"])) := by
    rw [flatMap_takenNames, taken, listed, typeWords, if_neg hkind, if_neg hkind]
  rw [htaken, request, if_neg hkind, reexportRequest]
  cases hclause : t.named? .exportClause with
  | none => simp
  | some clause =>
      simp only [Option.toList_some, List.flatMap_singleton]
      split
      · rename_i hnil
        simp [hnil]
      · rename_i hcons
        rw [if_pos hcons]

theorem eq_taken_of_request {ns : List String} (h : request t = .names ns) : ns = taken t := by
  by_cases hkind : t.kind = .importStatement
  · rw [request_of_import hkind] at h
    split at h
    · cases h
    · split at h
      · cases h
        rfl
      · split at h <;> cases h
  · rw [request_of_export hkind] at h
    split at h <;> cases h
    rfl

/-! ## From statements to edges: `to?` -/

theorem to?_eq_some_iff {specifier? : Option String} {r : Request} {e : Edge} :
    to? t specifier? r = some e ↔ ∃ s, specifier? = some s ∧ s ≠ "" ∧
      (r = .anything ∧ e = ⟨s, none, t.start⟩ ∨
        ∃ ns, r = .names ns ∧ e = ⟨s, some (sortedSet ns), t.start⟩) := by
  unfold to?
  split
  · simp
  · simp
  · simp
  · rename_i s hs
    simp_all [eq_comm]
  · rename_i s ns hs
    simp_all [eq_comm]

theorem to?_erased (t : SyntaxTree) (specifier? : Option String) : to? t specifier? .erased = none := by
  refine Option.eq_none_iff_forall_ne_some.mpr fun e he => ?_
  simpa using to?_eq_some_iff.mp he

/-! ## From calls to edges: `Loads` -/

/-- `t` is a call of `require` or of the import function, and the first argument is a string that names a
module. -/
structure Loads (t : SyntaxTree) (specifier : String) : Prop where
  isCall : t.kind = .callExpression
  callee : ∃ callee, t.child? .callee = some callee ∧
    (callee.kind = .identifier ∧ callee.text = "require" ∨ callee.kind = .importReference)
  argument : ∃ arguments first rest, t.child? .arguments = some arguments ∧
    arguments.operands = first :: rest ∧ first.stringValue? = some specifier
  named : specifier ≠ ""

/-- **A call makes an edge exactly if it `Loads` a module.** It may take anything from the module. -/
theorem of?_call_eq_some_iff {e : Edge} (hkind : t.kind = .callExpression) :
    of? t = some e ↔ ∃ specifier, Loads t specifier ∧ e = ⟨specifier, none, t.start⟩ := by
  have hcall : of? t = ofCall? t := by simp [of?, hkind]
  rw [hcall]
  constructor
  · intro h
    unfold ofCall? at h
    split at h
    · rename_i callee arguments hcallee harguments
      split at h
      · rename_i hloads
        split at h
        · rename_i first rest hoperands
          obtain ⟨s, hs, hne, ⟨-, rfl⟩ | ⟨ns, hns, -⟩⟩ := to?_eq_some_iff.mp h
          · exact ⟨s, ⟨hkind, ⟨callee, hcallee, by simpa using hloads⟩,
              ⟨arguments, first, rest, harguments, hoperands, hs⟩, hne⟩, rfl⟩
          · cases hns
        · cases h
      · cases h
    · cases h
  · rintro ⟨specifier, ⟨-, ⟨callee, hcallee, hloads⟩, ⟨arguments, first, rest, harguments, hoperands, hs⟩,
      hne⟩, rfl⟩
    simp only [ofCall?, hcallee, harguments, hoperands]
    rw [if_pos (by simpa using hloads)]
    exact to?_eq_some_iff.mpr ⟨specifier, hs, hne, .inl ⟨rfl, rfl⟩⟩

end PageReach.Edge
