import PageReach.Operation.Reference
import PageReach.Proofs.Operation.Name
import PageReach.Proofs.Script.Tree
import PageReach.Proofs.Table

/-!
# Variables with embedded documents

A variable that is declared once, with an embedded document, should stand for the operation of that
document. But the table of variables holds names of operations and names of other variables alike.
So a name that was read off a document is looked at once more: if there is a variable of that name,
it is followed, and if it has an ending of documents, the ending is taken off.

* **Variables** (`binding?`, `get?_bindings`): a variable stands for what its last declaration
  tells.
* **Fuel** (`unfollowed_lt`, `resolveFrom_succ`): a search never runs out of fuel, as no variable is
  followed twice.
* **Arguments** (`argument?_of_identifier`): a name behind wrappers stands for what the name stands
  for.
* **Embedded documents** (`embedded_variable_argument`): what becomes of the operation of a
  document, and in which cases it is lost.
-/

namespace PageReach.Operation

open Script Text

/-! ## Names in documents: `embeddedName?` -/

variable {t u d : SyntaxTree} {name : String}

theorem ne_empty_of_nameAfterBlank? {cs : List Char} (h : nameAfterBlank? cs = some name) :
    name ≠ "" := by
  simp only [nameAfterBlank?, Option.ite_none_right_eq_some, Bool.and_eq_true,
    Bool.not_eq_true', Option.some.injEq] at h
  obtain ⟨⟨-, hname⟩, rfl⟩ := h
  intro hempty
  rw [String.ofList_eq_empty_iff] at hempty
  simp [hempty] at hname

theorem ne_empty_of_nameInText? {s : String} (h : nameInText? s = some name) : name ≠ "" := by
  have hwithin (cs : List Char) (h : nameWithin? cs = some name) : name ≠ "" := by
    induction cs with
    | nil => simp [nameWithin?] at h
    | cons c cs ih =>
        rcases Option.or_eq_some_iff.mp h with h | ⟨-, h⟩
        · obtain ⟨w, -, hw⟩ := List.exists_of_findSome?_eq_some h
          obtain ⟨rest, -, hrest⟩ := Option.bind_eq_some_iff.mp hw
          exact ne_empty_of_nameAfterBlank? hrest
        · exact ih h
  exact hwithin _ h

theorem ne_empty_of_embeddedName? (h : embeddedName? t = some name) : name ≠ "" := by
  unfold embeddedName? at h
  simp only at h
  split at h
  · split at h <;> exact ne_empty_of_nameInText? h
  · split at h
    · simp at h
    · split at h
      · split at h
        · exact ne_empty_of_nameInText? h
        · simp at h
      · simp at h

@[simp] theorem embeddedName?_unwrap (t : SyntaxTree) : embeddedName? t.unwrap = embeddedName? t := by
  simp [embeddedName?, SyntaxTree.unwrap_unwrap]

theorem kind_of_embeddedName? (h : embeddedName? t = some name) :
    t.unwrap.kind = .callExpression := by
  by_contra hkind
  simp [embeddedName?, embedded?, SyntaxTree.unwrap_unwrap, hkind] at h

namespace Scope

variable {s : Scope} {v n : String}

/-! ## Declarations: `binding?` -/

/-- Whether the tree `t` declares the variable `v`. -/
def declares (v : String) (t : SyntaxTree) : Bool :=
  t.kind = .variableDeclarator &&
    (t.child? .name).any fun name => name.kind = .identifier && name.text = v

/-- What the initial value of the declaration `t` stands for: an embedded document for its
operation, and the name of another document for itself. -/
def standsFor? (t : SyntaxTree) : Option String :=
  ((t.child? .value).map SyntaxTree.unwrap).bind fun value =>
    if value.kind = .identifier then if isDocumentName value.text then some value.text else none
    else embeddedName? value

/-- The variable that `t` declares, with what it `standsFor?`. -/
def binding? (t : SyntaxTree) : Option (String × String) :=
  if t.kind = .variableDeclarator then
    ((t.child? .name).filter (·.kind = .identifier)).bind fun name =>
      (standsFor? t).map (name.text, ·)
  else none

theorem binding?_of_declares (h : declares v t = true) : binding? t = (standsFor? t).map (v, ·) := by
  simp only [declares, Bool.and_eq_true, decide_eq_true_eq, Option.any_eq_true] at h
  obtain ⟨hkind, name, hname, hidentifier, rfl⟩ := h
  simp [binding?, hkind, hname, hidentifier, Option.filter_some]

theorem declares_of_binding? (h : binding? t = some (v, n)) : declares v t = true := by
  simp only [binding?, Option.ite_none_right_eq_some, Option.bind_eq_some_iff,
    Option.filter_eq_some_iff, Option.map_eq_some_iff, Prod.mk.injEq, decide_eq_true_eq] at h
  obtain ⟨hkind, name, ⟨hname, hidentifier⟩, op, -, rfl, rfl⟩ := h
  simp [declares, hkind, hname, hidentifier]

theorem standsFor?_of_embedded (h : (t.child? .value).bind embeddedName? = some n) :
    standsFor? t = some n := by
  obtain ⟨value, hvalue, hn⟩ := Option.bind_eq_some_iff.mp h
  have hkind := kind_of_embeddedName? hn
  simp [standsFor?, hvalue, hkind, hn]

/-! ## The table of variables: `bindings` -/

@[simp] theorem addProperty_bindings (s : Scope) (owner property : SyntaxTree)
    (value? : Option SyntaxTree) : (s.addProperty owner property value?).bindings = s.bindings := by
  unfold addProperty
  split <;> rfl

@[simp] theorem addImport_bindings (s : Scope) (t : SyntaxTree) :
    (s.addImport t).bindings = s.bindings := by
  unfold addImport
  split <;> rfl

@[simp] theorem addAssignment_bindings (s : Scope) (t : SyntaxTree) :
    (s.addAssignment t).bindings = s.bindings := by
  unfold addAssignment
  repeat' split
  all_goals simp

@[simp] theorem addField_bindings (s : Scope) (name field : SyntaxTree) :
    (addField name s field).bindings = s.bindings := by
  unfold addField
  repeat' split
  all_goals simp

@[simp] theorem addClass_bindings (s : Scope) (t : SyntaxTree) :
    (s.addClass t).bindings = s.bindings := by
  unfold addClass
  split
  · rename_i body _ _
    induction body.named generalizing s with
    | nil => rfl
    | cons field fields ih => simp [ih]
  · rfl

theorem addVariable_bindings (s : Scope) (h : t.kind = .variableDeclarator) :
    (s.addVariable t).bindings =
      (binding? t).elim s.bindings fun b => s.bindings.insert b.1 b.2 := by
  cases hname : t.child? .name with
  | none => simp [addVariable, binding?, h, hname]
  | some name =>
      cases hvalue : t.child? .value with
      | none => simp [addVariable, binding?, standsFor?, h, hname, hvalue]
      | some value =>
          by_cases hidentifier : name.kind = .identifier
          · by_cases hkind : value.unwrap.kind = .identifier
            · by_cases hdocument : isDocumentName value.unwrap.text <;>
                simp [addVariable, binding?, standsFor?, Option.filter_some, *]
            · cases hop : embeddedName? value <;>
                simp [addVariable, binding?, standsFor?, Option.filter_some, *]
          · simp [addVariable, binding?, Option.filter_some, *]

theorem add_bindings (s : Scope) (t : SyntaxTree) :
    (s.add t).bindings = (binding? t).elim s.bindings fun b => s.bindings.insert b.1 b.2 := by
  by_cases h : t.kind = .variableDeclarator
  · rw [add, h]
    exact addVariable_bindings s h
  · unfold add
    split <;> simp_all [binding?]

/-- The trees of `root` that are looked at for names. -/
def lookedAt (root : SyntaxTree) : List SyntaxTree :=
  SyntaxTree.visit (·.kind ≠ .importStatement) [root]

theorem foldl_add_bindings (s : Scope) (ts : List SyntaxTree) :
    (ts.foldl add s).bindings = s.bindings.insertAll (ts.filterMap binding?) := by
  induction ts generalizing s with
  | nil => rfl
  | cons t ts ih =>
      rw [List.foldl_cons, ih, add_bindings]
      cases h : binding? t <;> simp [h, Table.insertAll]

theorem ofTree_bindings (root : SyntaxTree) (generated : Table String) :
    (ofTree root generated).bindings = .ofList ((lookedAt root).filterMap binding?) :=
  foldl_add_bindings _ _

/-- The declarations of the variable `v`. -/
def declarations (root : SyntaxTree) (v : String) : List SyntaxTree :=
  (lookedAt root).filter (declares v)

theorem filter_binding? (ts : List SyntaxTree) (v : String) :
    (ts.filterMap binding?).filter (·.1 = v) =
      ((ts.filter (declares v)).filterMap standsFor?).map (v, ·) := by
  induction ts with
  | nil => rfl
  | cons t ts ih =>
      by_cases hv : declares v t
      · cases h : standsFor? t <;> simp [binding?_of_declares hv, hv, h, ih]
      · cases h : binding? t with
        | none => simp [h, hv, ih]
        | some b =>
            -- only a declaration of `v` binds `v`
            have hne : b.1 ≠ v := by
              rintro rfl
              exact hv (declares_of_binding? h)
            simp [h, hv, hne, ih]

/-- A variable stands for what the last of its `declarations` tells. -/
theorem get?_bindings (root : SyntaxTree) (generated : Table String) (v : String) :
    (ofTree root generated).bindings.get? v =
      ((declarations root v).filterMap standsFor?).getLast? := by
  rw [ofTree_bindings, Table.get?_ofList, filter_binding?, List.getLast?_map, Option.map_map]
  exact Option.map_id'

/-- Some declaration of the variable `v` tells what it `standsFor?`. -/
def Bound (root : SyntaxTree) (v : String) : Prop :=
  ∃ d ∈ declarations root v, (standsFor? d).isSome

theorem contains_bindings_iff {root : SyntaxTree} {generated : Table String} :
    (ofTree root generated).bindings.contains v = true ↔ Bound root v := by
  rw [Table.contains, get?_bindings, List.getLast?_isSome, ne_eq, List.filterMap_eq_nil_iff, Bound]
  push Not
  simp [Option.isSome_iff_ne_none]

/-! ## Following variables: `resolve` -/

/-- The variables that have not been followed yet: those that are not in `seen`. -/
def unfollowed (s : Scope) (seen : List String) : List String :=
  s.bindings.keys.filter fun v => !seen.contains v

theorem mem_keys_of_lookup? (h : lookup? s.bindings v = some n) : v ∈ s.bindings.keys := by
  obtain ⟨op, hop, -⟩ := Option.bind_eq_some_iff.mp h
  exact List.mem_map_of_mem (Table.mem_entries_of_get? hop)

theorem unfollowed_lt {seen : List String} (h : lookup? s.bindings v = some n) (hv : v ∉ seen) :
    (s.unfollowed (v :: seen)).length < (s.unfollowed seen).length := by
  have hmem : v ∈ s.unfollowed seen := by simp [unfollowed, mem_keys_of_lookup? h, hv]
  have hsplit : s.unfollowed (v :: seen) = (s.unfollowed seen).filter (· ≠ v) := by
    simp [unfollowed, List.filter_filter]
  rw [hsplit]
  exact List.length_filter_lt_length_iff_exists.mpr ⟨v, hmem, by simp⟩

/-- Fuel is never what ends the search. -/
theorem resolveFrom_succ {fuel : Nat} {seen : List String} {name : String}
    (h : (s.unfollowed seen).length < fuel) :
    s.resolveFrom (fuel + 1) seen name = s.resolveFrom fuel seen name := by
  induction fuel generalizing seen name with
  | zero => omega
  | succ fuel ih =>
      unfold resolveFrom
      split
      · rfl
      · -- a step that goes on follows one more variable, so fewer are left than there is fuel
        rename_i hseen
        cases hname : lookup? s.bindings name with
        | none => rfl
        | some target =>
            have hlt := unfollowed_lt hname (by simpa using hseen)
            simp only
            rw [ih (by omega)]

theorem length_unfollowed_le (s : Scope) (seen : List String) :
    (s.unfollowed seen).length ≤ s.bindings.size := by
  calc (s.unfollowed seen).length ≤ s.bindings.keys.length := List.length_filter_le _ _
    _ = s.bindings.size := List.length_map _

/-- A variable that stands for the name `n` is the same as that name, once the variable has been
followed. -/
theorem resolve_of_lookup? (h : lookup? s.bindings v = some n) :
    s.resolve v =
      if s.bindings.contains n then s.resolveUnseen [v] n
      else if isDocumentName n then (s.documentOperation? n).or (cleanName? n)
      else some n := by
  have hle := length_unfollowed_le s [v]
  have hfollowed : s.resolveUnseen [v] n = s.resolveFrom (s.bindings.size + 1) [v] n :=
    resolveFrom_succ (by omega)
  rw [hfollowed, resolve, resolveUnseen, resolveFrom]
  simp [h]

theorem resolveUnseen_of_mem {seen : List String} {name : String} (h : name ∈ seen) :
    s.resolveUnseen seen name = none := by
  unfold resolveUnseen resolveFrom
  simp [h]

/-! ## Arguments: `argument?` -/

theorem argumentFirst?_eq (s : Scope) (ts : List SyntaxTree) :
    argumentFirst? s ts = (ts.filter SyntaxTree.isOperand).head?.bind (argument? s) := by
  induction ts with
  | nil => rfl
  | cons t ts ih => by_cases h : t.isOperand <;> simp [argumentFirst?, h, ih]

theorem argumentLast?_eq (s : Scope) (ts : List SyntaxTree) :
    argumentLast? s ts = (ts.filter SyntaxTree.isOperand).getLast?.map (argument? s) := by
  induction ts with
  | nil => rfl
  | cons t ts ih => by_cases h : t.isOperand <;> simp [argumentLast?, h, ih, List.getLast?_cons]

theorem argument?_of_inner? (h : t.inner? = some u) : argument? s t = argument? s u := by
  cases t with
  | leaf k r p text => simpa [SyntaxTree.children] using SyntaxTree.mem_of_inner? h
  | node k r p ts =>
      unfold SyntaxTree.inner? at h
      split at h
      · rename_i hwrapper
        have hfirst : argument? s (.node k r p ts) = argumentFirst? s ts := by
          simp only [SyntaxTree.kind, Kind.isWrapper] at hwrapper
          split at hwrapper <;> simp_all [argument?]
        rw [hfirst, argumentFirst?_eq]
        exact congrArg (·.bind (argument? s)) h
      · split at h
        · rename_i hassertion
          obtain rfl : k = .typeAssertion := hassertion
          have hlast : (ts.filter SyntaxTree.isOperand).getLast? = some u := h
          simp [argument?, argumentLast?_eq, hlast]
        · simp at h

/-- An argument that is a name behind wrappers stands for what `resolve` gives for the name. -/
theorem argument?_of_identifier (h : t.unwrap.kind = .identifier) :
    argument? s t = s.resolve t.unwrap.text := by
  induction t using SyntaxTree.unwrap_induct with
  | bare t hbare =>
      rw [SyntaxTree.unwrap_of_no_inner hbare] at h ⊢
      cases t <;> simp_all [argument?, plainArgument?, SyntaxTree.kind]
  | wrapped t u hinner ih =>
      rw [SyntaxTree.unwrap_of_inner? hinner] at h ⊢
      rw [argument?_of_inner? hinner, ih h]

/-! ## Variables with embedded documents -/

/-- The name of a document stands for itself only if a table says so. -/
theorem documentOperation?_or_cleanName? (h : isDocumentName n = true) :
    (s.documentOperation? n).or (cleanName? n) = some n ↔ s.documentOperation? n = some n := by
  have hclean : cleanName? n ≠ some n := by
    simp [cleanName?, cleanName_ne_of_isDocumentName h]
  simp [Option.or_eq_some_iff, hclean]

theorem lookup?_of_embedded {root : SyntaxTree} (generated : Table String)
    (hd : declarations root v = [d]) (hn : (d.child? .value).bind embeddedName? = some n) :
    lookup? (ofTree root generated).bindings v = some n := by
  obtain ⟨value, -, hvalue⟩ := Option.bind_eq_some_iff.mp hn
  have hget : (ofTree root generated).bindings.get? v = some n := by
    simp [get?_bindings, hd, standsFor?_of_embedded hn]
  simp [lookup?, hget, ne_empty_of_embeddedName? hvalue]

/-- **The operation of an embedded document is looked at as if it were a name of the source.** Let a
variable be declared once, with an embedded document. An argument that is the variable stands for the
operation of the document if that is neither bound in the source nor named like a document. If it is
bound, it is followed like a variable, and is lost if it is the variable itself. If it is named like a
document, then the tables of documents are asked, and last its ending is taken off. So the operation
comes out as it is exactly if it is bound and leads back to itself, or if it is not bound, and not
named like a document or stands for itself in these tables. -/
theorem embedded_variable_argument (root : SyntaxTree) (generated : Table String) (v n : String)
    (d t : SyntaxTree) (hd : declarations root v = [d])
    (hn : (d.child? .value).bind embeddedName? = some n)
    (hkind : t.unwrap.kind = .identifier) (htext : t.unwrap.text = v) :
    let s := ofTree root generated
    (¬ Bound root n → isDocumentName n = false → argument? s t = some n) ∧
    (¬ Bound root n → isDocumentName n = true →
      argument? s t = (s.documentOperation? n).or (cleanName? n)) ∧
    (Bound root n → argument? s t = s.resolveUnseen [v] n) ∧
    (n = v → argument? s t = none) ∧
    (argument? s t = some n ↔
      Bound root n ∧ s.resolveUnseen [v] n = some n ∨
      ¬ Bound root n ∧ (isDocumentName n = false ∨ s.documentOperation? n = some n)) := by
  intro s
  have hlookup : lookup? s.bindings v = some n := lookup?_of_embedded generated hd hn
  have hresolve := resolve_of_lookup? hlookup
  rw [← htext, ← argument?_of_identifier hkind, htext] at hresolve
  -- the variable itself is bound, by its own document
  have hself : n = v → Bound root n := by
    rintro rfl
    exact ⟨d, by simp [hd], by simp [standsFor?_of_embedded hn]⟩
  by_cases hbound : Bound root n
  · have hargument : argument? s t = s.resolveUnseen [v] n := by
      rw [hresolve, if_pos (contains_bindings_iff.mpr hbound)]
    refine ⟨fun h => absurd hbound h, fun h => absurd hbound h, fun _ => hargument, ?_, ?_⟩
    · rintro rfl
      rw [hargument, resolveUnseen_of_mem (by simp)]
    · simp [hargument, hbound]
  · have hfree : s.bindings.contains n = false := by
      rw [Bool.eq_false_iff, ne_eq, contains_bindings_iff]
      exact hbound
    refine ⟨?_, ?_, fun h => absurd h hbound, fun h => absurd (hself h) hbound, ?_⟩
    · intro _ hdocument
      simp [hresolve, hfree, hdocument]
    · intro _ hdocument
      simp [hresolve, hfree, hdocument]
    · cases hdocument : isDocumentName n with
      | false => simp [hresolve, hfree, hdocument, hbound]
      | true =>
          have hargument : argument? s t = (s.documentOperation? n).or (cleanName? n) := by
            simp [hresolve, hfree, hdocument]
          rw [hargument, documentOperation?_or_cleanName? hdocument]
          simp [hbound]

/-- A source with a document in a variable, which it uses, and a second variable. -/
def documentInVariable : String :=
  "const User = gql`query GetUser \x7b id \x7d`;\nconst other = UserDocument;\nuseQuery(User);\n"

/-- The argument is the variable of `documentInVariable` in parentheses. -/
theorem embedded_variable_argument_of_user :
    ∃ root d, parseFile? "src/file.tsx" documentInVariable = some root ∧
      declarations root "User" = [d] ∧ (d.child? .value).bind embeddedName? = some "GetUser" ∧
      argument? (ofTree root .empty)
        (.node .parenthesizedExpression none .origin [.leaf .identifier none .origin "User"]) =
          some "GetUser" := by
  have heval : (parseFile? "src/file.tsx" documentInVariable).map (fun root =>
      ((declarations root "User").map fun d => (d.child? .value).bind embeddedName?,
        (declarations root "GetUser").length)) = some ([some "GetUser"], 0) := by
    decide +kernel
  obtain ⟨root, hroot, heval⟩ := Option.map_eq_some_iff.mp heval
  simp only [Prod.mk.injEq, List.map_eq_singleton_iff, List.length_eq_zero_iff] at heval
  obtain ⟨⟨d, hd, hn⟩, hnone⟩ := heval
  refine ⟨root, d, hroot, hd, hn, ?_⟩
  apply (embedded_variable_argument root .empty "User" "GetUser" d _ hd hn rfl rfl).1
  · simp [Bound, hnone]
  · decide

/-- A variable that has the name of its operation. -/
def documentOfSameName : String :=
  "const GetUser = gql`query GetUser \x7b id \x7d`;\nuseQuery(GetUser);\n"

/-- The operation of `documentOfSameName` is lost. -/
theorem embedded_variable_lost :
    (∃ root d, parseFile? "src/file.tsx" documentOfSameName = some root ∧
      declarations root "GetUser" = [d] ∧
      (d.child? .value).bind embeddedName? = some "GetUser" ∧
      argument? (ofTree root .empty) (.leaf .identifier none .origin "GetUser") = none) ∧
    factsOfSource documentOfSameName "src/file.tsx" .empty = [] := by
  constructor
  · have heval : (parseFile? "src/file.tsx" documentOfSameName).map (fun root =>
        ((declarations root "GetUser").map fun d => (d.child? .value).bind embeddedName?,
          argument? (ofTree root .empty) (.leaf .identifier none .origin "GetUser"))) =
        some ([some "GetUser"], none) := by
      decide +kernel
    obtain ⟨root, hroot, heval⟩ := Option.map_eq_some_iff.mp heval
    simp only [Prod.mk.injEq, List.map_eq_singleton_iff] at heval
    obtain ⟨⟨d, hd, hn⟩, hargument⟩ := heval
    exact ⟨root, d, hroot, hd, hn, hargument⟩
  · decide +kernel

end Scope

end PageReach.Operation
