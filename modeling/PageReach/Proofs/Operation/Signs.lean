import PageReach.Proofs.Script.Grammar
import PageReach.Proofs.Session.Snapshot

/-!
# Sources without a sign of operations

A source without a sign is not read (`hasSign`). This would lose nothing if every call that carries
out an operation held a sign. The hooks do, because their names are signs or end in one
(`hasSign_of_isHook`); only `useFragment` does not. And the methods of a client are called by names
that are no signs at all. Such *unsigned* calls (`Unsigned`) are all that can be lost
(`unsigned_or_hasSign`, `unsigned_calls_lost`).
-/

namespace PageReach

/-! ## Texts within texts: `contains` -/

namespace Text

theorem occursIn_iff {needle cs : List Char} : occursIn needle cs = true ↔ needle <:+: cs := by
  induction cs with
  | nil => simp [occursIn]
  | cons c cs ih => simp [occursIn, List.infix_cons_iff, ih]

theorem contains_iff {s needle : String} :
    contains s needle = true ↔ needle.toList <:+: s.toList :=
  occursIn_iff

end Text

namespace Operation

open Script Text

variable {name source file : String} {t call callee root : SyntaxTree} {kind : OperationKind}

/-! ## Signs in names: `hasSign` -/

theorem hasSign_iff : hasSign source = true ↔ ∃ sign ∈ signs, sign.toList <:+: source.toList := by
  simp [hasSign, contains_iff]

theorem hasSign_mono (h : name.toList <:+: source.toList) (hname : hasSign name = true) :
    hasSign source = true := by
  obtain ⟨sign, hsign, hoccurs⟩ := hasSign_iff.mp hname
  exact hasSign_iff.mpr ⟨sign, hsign, hoccurs.trans h⟩

theorem splitLineEnd_infix_left (name : String) :
    (splitLineEnd name).1.toList <:+: name.toList := by
  unfold splitLineEnd beforeSuffix?
  split
  · rename_i hbody
    split at hbody
    · cases hbody
      simp [dropBack, (List.take_prefix _ _).isInfix]
    · cases hbody
  · exact List.infix_refl _

theorem infix_of_afterPrefix? {front body : String} (h : afterPrefix? name front = some body) :
    body.toList <:+: name.toList := by
  simp only [afterPrefix?, Option.ite_none_right_eq_some, Option.some.injEq] at h
  obtain ⟨-, rfl⟩ := h
  simp [dropFront, (List.drop_suffix _ _).isInfix]

/-- The `ending` of a hook of a project's own stands in its name. -/
theorem infix_of_isOwnHook {ending : String} (h : isOwnHook ending name = true) :
    ending.toList <:+: name.toList := by
  unfold isOwnHook at h
  dsimp only at h
  split at h
  · cases h
  · rename_i rest hrest
    split at h
    · rename_i c cs hcs
      simp only [Bool.and_eq_true, endsWith, String.toList_ofList, List.isSuffixOf_iff_suffix] at h
      -- the ending is asked for after the first letter of the body, which stands within the name
      have hbody := (infix_of_afterPrefix? hrest).trans (splitLineEnd_infix_left name)
      rw [hcs] at hbody
      exact h.1.2.isInfix.trans ((List.suffix_cons c cs).isInfix.trans hbody)
    · cases h

theorem hasSign_of_isOwnHook {ending : String} (hending : ending ∈ signs)
    (h : isOwnHook ending name = true) : hasSign name = true :=
  hasSign_iff.mpr ⟨ending, hending, infix_of_isOwnHook h⟩

/-- Every hook but `useFragment` has a sign in its name. -/
theorem hasSign_of_isHook (h : isHook name = true) (hne : name ≠ "useFragment") :
    hasSign name = true := by
  have hlisted : ∀ n ∈ ["useSubscription", "useApolloClient", "useQuery", "useLazyQuery",
      "useSuspenseQuery", "useBackgroundQuery", "useReadQuery", "useMutation"],
      hasSign n = true := by
    decide +kernel
  simp only [isHook, isQueryHook, isMutationHook, Bool.or_eq_true, List.contains_iff_mem,
    List.mem_cons, List.not_mem_nil, or_false, decide_eq_true_eq] at h
  rcases h with ((rfl | rfl | rfl) | h | h) | rfl | h
  · exact hlisted _ (by simp)
  · exact absurd rfl hne
  · exact hlisted _ (by simp)
  · exact hlisted _ (by grind)
  · exact hasSign_of_isOwnHook (by decide) h
  · exact hlisted _ (by simp)
  · exact hasSign_of_isOwnHook (by decide) h

/-! ## Calls that are `Unsigned` -/

/-- The call need not hold a sign: it calls `useFragment`, or a method of a client with an
object. -/
def Unsigned (call : SyntaxTree) : Prop :=
  ∃ callee name, call.child? .callee = some callee ∧ calleeName? callee = some name ∧
    (name = "useFragment" ∨ callee.kind = .memberExpression ∧ (methodKind? name).isSome ∧
      (firstArgument? call).any (·.kind = .object) = true)

theorem infix_of_calleeName? (h : calleeName? callee = some name) :
    name.toList <:+: callee.chars := by
  unfold calleeName? at h
  split at h
  · cases h
    simp
  · obtain ⟨property, hproperty, rfl⟩ := Option.map_eq_some_iff.mp h
    simpa using SyntaxTree.infix_of_child? hproperty
  · cases h

/-- A call that carries out an operation is `Unsigned`, or there is a sign in what it is written
as. -/
theorem unsigned_or_hasSign (h : callKind? call = some kind) :
    Unsigned call ∨ hasSign call.text = true := by
  unfold callKind? at h
  split at h
  · cases h
  · split at h
    · cases h
    · rename_i callee hcallee
      split at h
      · cases h
      · cases h
      · rename_i name _ hname
        split at h
        · rename_i hhook
          by_cases hfragment : name = "useFragment"
          · exact .inl ⟨callee, name, hcallee, hname, .inl hfragment⟩
          · right
            -- a sign in the name is a sign in the call, since the trees lose nothing of the name
            have hwithin : name.toList <:+: call.text.toList := by
              simpa using (infix_of_calleeName? hname).trans (SyntaxTree.infix_of_child? hcallee)
            exact hasSign_mono hwithin (hasSign_of_isHook hhook hfragment)
        · split at h
          · rename_i hmethod
            simp only [Bool.and_eq_true, decide_eq_true_eq] at hmethod
            exact .inl ⟨callee, name, hcallee, hname, .inr ⟨hmethod.1.1, hmethod.1.2, hmethod.2⟩⟩
          · cases h

theorem unsigned_of_mem_calls (hroot : parseFile? file source = some root)
    (hsign : hasSign source = false) {x : SyntaxTree × OperationKind} (hx : x ∈ calls root) :
    Unsigned x.1 := by
  obtain ⟨call, hcall, hx⟩ := List.mem_filterMap.mp hx
  obtain ⟨kind, hkind, rfl⟩ := Option.map_eq_some_iff.mp hx
  refine (unsigned_or_hasSign hkind).resolve_right fun hcallee => ?_
  have hwithin : call.text.toList <:+: source.toList := by
    rw [← chars_of_parse? hroot]
    simpa using SyntaxTree.infix_of_mem_visit hcall
  simp [hasSign_mono hwithin hcallee] at hsign

/-! ## Facts: `factsOfSource` -/

theorem addFact_ne_nil (facts : List Fact) (f : Fact) : addFact facts f ≠ [] := by
  unfold addFact
  split
  · rintro rfl
    simp_all
  · simp

theorem foldl_addFact_eq_nil_iff {found : List Fact} : found.foldl addFact [] = [] ↔ found = [] := by
  constructor
  · intro h
    rcases List.eq_nil_or_concat found with rfl | ⟨init, f, rfl⟩
    · rfl
    · simp [addFact_ne_nil] at h
  · rintro rfl
    rfl

theorem factsOfTree_eq_nil_iff {generated : Table String} :
    factsOfTree root file generated = [] ↔
      ∀ x ∈ calls root, operation? (.ofTree root generated) x.1 = none := by
  simp [factsOfTree, foldl_addFact_eq_nil_iff, List.filterMap_eq_nil_iff]

/-- **Only unsigned calls can be lost.** Let a source be free of syntax errors. If it has a sign, then
all operations of its tree are found. If it has none, then none are found, and all calls that carry out
operations are unsigned. So nothing is lost exactly if there is a sign, or if no unsigned call refers to
an operation. A repository in which a file has this source gives the same facts. -/
theorem unsigned_calls_lost (source file : String) (generated : Table String) (root : SyntaxTree)
    (hroot : parseFile? file source = some root) :
    (hasSign source = true →
      factsOfSource source file generated = factsOfTree root file generated) ∧
    (hasSign source = false →
      factsOfSource source file generated = [] ∧ ∀ x ∈ calls root, Unsigned x.1) ∧
    (factsOfSource source file generated = factsOfTree root file generated ↔
      hasSign source = true ∨
        ∀ x ∈ calls root, Unsigned x.1 → operation? (.ofTree root generated) x.1 = none) ∧
    ∀ (r : Repository) (s : Session), s.Coherent generated →
      r.toldText s file = .ok (some source) →
      ∃ s', (r.facts generated file).on s = (.ok (factsOfSource source file generated), s') := by
  have hunsigned := fun hsign x => unsigned_of_mem_calls (x := x) hroot hsign
  refine ⟨?_, ?_, ?_, ?_⟩
  · intro hsign
    simp [factsOfSource, hsign, hroot]
  · intro hsign
    exact ⟨by simp [factsOfSource, hsign], hunsigned hsign⟩
  · cases hsign : hasSign source with
    | true => simp [factsOfSource, hsign, hroot]
    | false =>
        have hnone : factsOfSource source file generated = [] := by simp [factsOfSource, hsign]
        rw [hnone, eq_comm, factsOfTree_eq_nil_iff]
        constructor
        · intro h
          exact .inr fun x hx _ => h x hx
        · -- without a sign, every call is unsigned
          intro h x hx
          exact h.resolve_left (by simp) x hx (hunsigned hsign x hx)
  · intro r s hs htold
    obtain ⟨s', hrun, -⟩ := learns_facts generated r file s hs
    rw [htold] at hrun
    exact ⟨s', hrun⟩

/-- A call of a client with an object that holds no document. -/
def clientWithoutDocument : String := "client.query(\x7b policy \x7d);\n"

/-- The call in `clientWithoutDocument` is unsigned, but refers to no operation. -/
theorem unsigned_calls_lost_without_document :
    ∃ root, parseFile? "src/file.tsx" clientWithoutDocument = some root ∧
      hasSign clientWithoutDocument = false ∧ (calls root).length = 1 ∧
      (∀ x ∈ calls root, Unsigned x.1) ∧
      factsOfSource clientWithoutDocument "src/file.tsx" .empty =
        factsOfTree root "src/file.tsx" .empty := by
  have heval : (parseFile? "src/file.tsx" clientWithoutDocument).map (fun root =>
      ((calls root).map fun x => operation? (.ofTree root .empty) x.1)) = some [none] := by
    decide +kernel
  obtain ⟨root, hroot, hcalls⟩ := Option.map_eq_some_iff.mp heval
  obtain ⟨x, hx, hnone⟩ := List.map_eq_singleton_iff.mp hcalls
  have hsign : hasSign clientWithoutDocument = false := by decide +kernel
  obtain ⟨-, hunsigned, hlost, -⟩ :=
    unsigned_calls_lost clientWithoutDocument "src/file.tsx" .empty root hroot
  refine ⟨root, hroot, hsign, by simp [hx], (hunsigned hsign).2, hlost.mpr (.inr ?_)⟩
  intro y hy _
  rw [hx, List.mem_singleton] at hy
  rw [hy, hnone]

/-- A call of a client with a document. -/
def clientWithDocument : String := "client.query(\x7b query: UserList \x7d);\n"

/-- The operation of `clientWithDocument` is in the tree, but is not found. -/
theorem client_call_lost :
    (∃ root, parseFile? "src/file.tsx" clientWithDocument = some root ∧
      factsOfTree root "src/file.tsx" .empty = [⟨"UserList", .query, "src/file.tsx"⟩]) ∧
    factsOfSource clientWithDocument "src/file.tsx" .empty = [] := by
  have heval : (parseFile? "src/file.tsx" clientWithDocument).map
      (factsOfTree · "src/file.tsx" .empty) = some [⟨"UserList", .query, "src/file.tsx"⟩] := by
    decide +kernel
  exact ⟨Option.map_eq_some_iff.mp heval, by decide +kernel⟩

end Operation

end PageReach
