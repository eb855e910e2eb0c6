import Mathlib.Data.List.Infix
import PageReach.Catalog.Definition
import PageReach.Proofs.Script.Grammar
import PageReach.Proofs.Text.Split

/-!
# Templates without their substitutions

The text of an embedded document is what a template holds besides its substitutions.
`dropSubstitutions` finds it by looking at characters only: what stands between an opening and the
next closing brace is dropped.

* **Flat rows** (`Flat`, `dropSubstitutions_eq_nil_iff`): a substitution goes as a whole if it is
  *flat*, that is, a row of such blocks.
* **Literal text** (`ClosesLater`, `length_dropSubstitutions_lt`): an opening in the literal text,
  where it is escaped, counts as well if a closing brace follows somewhere.
* **Parts** (`Parts.dropSubstitutions_eq_iff_flat`, `Parts.dropSubstitutions_eq_iff_unclosed`): if
  one of the two goes right, the text is right exactly if the other one does.
* **Templates** (`exists_parts`, `bodyText_eq_literalText_iff`): the same for every template of a
  source.
-/

namespace PageReach.Operation

open Script SyntaxTree Text

variable {c : Char} {cs u v : List Char}

/-! ## Openings and closing braces: `OpensBlock` -/

theorem dropSubstitutions_skip (n : Nat) (cs : List Char) :
    dropSubstitutions n cs = dropSubstitutions 0 (cs.drop n) := by
  induction n generalizing cs with
  | zero => rfl
  | succ n ih =>
      cases cs with
      | nil => simp [dropSubstitutions]
      | cons c cs => rw [dropSubstitutions, ih, List.drop_succ_cons]

/-- Whether an opening stands at the front of `c :: cs`, and is closed later. -/
def OpensBlock (c : Char) (cs : List Char) : Prop := c = '$' ∧ ∃ rest, cs = '{' :: rest ∧ '}' ∈ rest

theorem dropSubstitutions_block (hu : '}' ∉ u) (v : List Char) :
    dropSubstitutions 0 ('$' :: '{' :: (u ++ '}' :: v)) = dropSubstitutions 0 v := by
  have hskip : ('{' :: (u ++ '}' :: v)).drop (u.length + 2) = v := by
    have hnone : u.drop (u.length + 1) = [] := List.drop_eq_nil_of_le (by omega)
    simp [List.drop_append, hnone]
  rw [dropSubstitutions, cutAt?_append_cons hu]
  simp only
  rw [dropSubstitutions_skip, hskip]

theorem dropSubstitutions_cons (h : ¬ OpensBlock c cs) :
    dropSubstitutions 0 (c :: cs) = c :: dropSubstitutions 0 cs := by
  by_cases hopening : c = '$' ∧ ∃ rest, cs = '{' :: rest
  · obtain ⟨rfl, rest, rfl⟩ := hopening
    have hunclosed : '}' ∉ rest := fun hmem => h ⟨rfl, rest, rfl, hmem⟩
    rw [dropSubstitutions, cutAt?_of_not_mem hunclosed]
  · rw [dropSubstitutions]
    intro rest hc hcs
    exact hopening ⟨hc, rest, hcs⟩

/-- The induction that `dropSubstitutions` gives: a row of characters is empty, or starts with a
block that is dropped, or with a character that stays. -/
theorem dropSubstitutions_induct {motive : List Char → Prop} (nil : motive [])
    (block : ∀ u v, '}' ∉ u → motive v → motive ('$' :: '{' :: (u ++ '}' :: v)))
    (cons : ∀ c cs, ¬ OpensBlock c cs → motive cs → motive (c :: cs)) (cs : List Char) : motive cs := by
  induction hn : cs.length using Nat.strongRecOn generalizing cs with
  | _ n ih =>
      cases cs with
      | nil => exact nil
      | cons c cs =>
          subst hn
          by_cases hopens : OpensBlock c cs
          · obtain ⟨rfl, rest, rfl, hmem⟩ := hopens
            obtain ⟨u, v, rfl, hu⟩ := List.eq_append_cons_of_mem hmem
            exact block u v hu (ih v.length (by simp; omega) v rfl)
          · exact cons c cs hopens (ih cs.length (by simp) cs rfl)

/-! ## `Flat` rows -/

/-- A row of blocks, each of them an opening with the text up to the next closing brace. -/
inductive Flat : List Char → Prop where
  | nil : Flat []
  | block {u v : List Char} (hu : '}' ∉ u) (hv : Flat v) : Flat ('$' :: '{' :: (u ++ '}' :: v))

theorem Flat.dropSubstitutions_append (h : Flat u) (v : List Char) :
    dropSubstitutions 0 (u ++ v) = dropSubstitutions 0 v := by
  induction h with
  | nil => rfl
  | @block u w hu hw ih =>
      have hassoc : '$' :: '{' :: (u ++ '}' :: w) ++ v = '$' :: '{' :: (u ++ '}' :: (w ++ v)) := by simp
      rw [hassoc, dropSubstitutions_block hu, ih]

/-- `Flat` rows are those of which nothing is left. -/
theorem dropSubstitutions_eq_nil_iff : dropSubstitutions 0 cs = [] ↔ Flat cs := by
  constructor
  · intro h
    induction cs using dropSubstitutions_induct with
    | nil => exact .nil
    | block u v hu ih =>
        rw [dropSubstitutions_block hu] at h
        exact .block hu (ih h)
    | cons c cs hopens ih =>
        rw [dropSubstitutions_cons hopens] at h
        cases h
  · intro h
    simpa [dropSubstitutions] using h.dropSubstitutions_append []

instance : DecidablePred Flat := fun _ => decidable_of_iff _ dropSubstitutions_eq_nil_iff

/-- What ends in a closing brace is dealt with before `v`, which follows. -/
theorem dropSubstitutions_append_of_closed (hu : ∀ c ∈ u.getLast?, c = '}') (v : List Char) :
    dropSubstitutions 0 (u ++ v) = dropSubstitutions 0 u ++ dropSubstitutions 0 v := by
  induction u using dropSubstitutions_induct with
  | nil => simp [dropSubstitutions]
  | block u w hclosed ih =>
      have hassoc : '$' :: '{' :: (u ++ '}' :: w) ++ v = '$' :: '{' :: (u ++ '}' :: (w ++ v)) := by simp
      rw [hassoc, dropSubstitutions_block hclosed, dropSubstitutions_block hclosed]
      refine ih fun c hc => hu c ?_
      rw [show '$' :: '{' :: (u ++ '}' :: w) = ('$' :: '{' :: u ++ ['}']) ++ w by simp]
      exact List.mem_getLast?_append_of_mem_getLast? hc
  | cons c cs hopens ih =>
      have hopens' : ¬ OpensBlock c (cs ++ v) := by
        rintro ⟨rfl, rest, hrest, -⟩
        have hlast : '}' ∈ '$' :: cs := by
          have hne : '$' :: cs ≠ [] := List.cons_ne_nil _ _
          rw [← hu _ (List.getLast?_eq_some_getLast hne ▸ Option.mem_some_self _)]
          exact List.getLast_mem hne
        cases cs with
        | nil => simp at hlast
        | cons d cs =>
            obtain ⟨rfl, -⟩ := List.cons.inj hrest
            exact hopens ⟨rfl, cs, rfl, by simpa using hlast⟩
      have hcs : ∀ d ∈ cs.getLast?, d = '}' := fun d hd =>
        hu d (show d ∈ ([c] ++ cs).getLast? from List.mem_getLast?_append_of_mem_getLast? hd)
      rw [List.cons_append, dropSubstitutions_cons hopens', dropSubstitutions_cons hopens, ih hcs,
        List.cons_append]

/-! ## Openings in literal text: `ClosesLater` -/

/-- An opening in `u` that is closed in `u` or in what follows it. -/
def ClosesLater (u v : List Char) : Prop := ∃ a b, u = a ++ '$' :: '{' :: b ∧ '}' ∈ b ++ v

theorem ClosesLater.cons (h : ClosesLater u v) (c : Char) : ClosesLater (c :: u) v := by
  obtain ⟨a, b, rfl, hmem⟩ := h
  exact ⟨c :: a, b, rfl, hmem⟩

theorem closesLater_iff :
    ClosesLater u v ↔ ∃ s ∈ u.tails, ['$', '{'] <+: s ∧ '}' ∈ s.drop 2 ++ v := by
  simp only [List.mem_tails]
  constructor
  · rintro ⟨a, b, rfl, hmem⟩
    exact ⟨_, List.suffix_append a _, ⟨b, rfl⟩, hmem⟩
  · rintro ⟨s, ⟨a, rfl⟩, ⟨b, rfl⟩, hmem⟩
    exact ⟨a, b, rfl, hmem⟩

instance : Decidable (ClosesLater u v) := decidable_of_iff _ closesLater_iff.symm

/-- An opening does not reach from literal text `u` into `v`, which follows it. -/
theorem opensBlock_append_iff (hv : v.head? ≠ some '{') :
    OpensBlock c (u ++ v) ↔ c = '$' ∧ ∃ b, u = '{' :: b ∧ '}' ∈ b ++ v := by
  constructor
  · rintro ⟨rfl, rest, hrest, hmem⟩
    cases u with
    | nil => simp_all
    | cons d u =>
        obtain ⟨rfl, rfl⟩ := List.cons.inj hrest
        exact ⟨rfl, u, rfl, hmem⟩
  · rintro ⟨rfl, b, rfl, hmem⟩
    exact ⟨rfl, b ++ v, rfl, hmem⟩

theorem dropSubstitutions_append_of_unclosed (hv : v.head? ≠ some '{') (hu : ¬ ClosesLater u v) :
    dropSubstitutions 0 (u ++ v) = u ++ dropSubstitutions 0 v := by
  induction u with
  | nil => rfl
  | cons c u ih =>
      have hopens : ¬ OpensBlock c (u ++ v) := by
        intro hopens
        obtain ⟨rfl, b, rfl, hmem⟩ := (opensBlock_append_iff hv).mp hopens
        exact hu ⟨[], b, rfl, hmem⟩
      rw [List.cons_append, dropSubstitutions_cons hopens, ih fun h => hu (h.cons c), List.cons_append]

/-- `dropSubstitutions` may as well begin after the next closing brace of `v`. -/
def Resumes (v : List Char) : Prop := '}' ∈ v → ∃ a b, v = a ++ '}' :: b ∧ '}' ∉ a ∧
  dropSubstitutions 0 b = dropSubstitutions 0 v

/-- A block that begins in `b` ends there, or takes the rest of `b` with it. -/
theorem length_dropSubstitutions_block_le {b : List Char} (hresumes : Resumes v) (hmem : '}' ∈ b ++ v)
    (hrest : ∀ w, w.length < b.length →
      (dropSubstitutions 0 (w ++ v)).length ≤ w.length + (dropSubstitutions 0 v).length) :
    (dropSubstitutions 0 ('$' :: '{' :: (b ++ v))).length ≤ b.length + (dropSubstitutions 0 v).length := by
  by_cases hb : '}' ∈ b
  · obtain ⟨u, w, rfl, hu⟩ := List.eq_append_cons_of_mem hb
    have hlength : (u ++ '}' :: w).length = u.length + w.length + 1 := by simp; omega
    have hle := hrest w (by omega)
    rw [List.append_assoc, List.cons_append, dropSubstitutions_block hu]
    omega
  · obtain ⟨a, w, rfl, ha, hw⟩ := hresumes ((List.mem_append.mp hmem).resolve_left hb)
    have hunclosed : '}' ∉ b ++ a := by simp [hb, ha]
    rw [← List.append_assoc, dropSubstitutions_block hunclosed, hw]
    omega

theorem length_dropSubstitutions_lt (hv : v.head? ≠ some '{') (hresumes : Resumes v)
    (hu : ClosesLater u v) :
    (dropSubstitutions 0 (u ++ v)).length < u.length + (dropSubstitutions 0 v).length := by
  induction hn : u.length using Nat.strongRecOn generalizing u with
  | _ n ih =>
      subst hn
      have hle (w : List Char) (hw : w.length < u.length) :
          (dropSubstitutions 0 (w ++ v)).length ≤ w.length + (dropSubstitutions 0 v).length := by
        by_cases hcloses : ClosesLater w v
        · exact (ih w.length hw hcloses rfl).le
        · rw [dropSubstitutions_append_of_unclosed hv hcloses, List.length_append]
      cases u with
      | nil =>
          obtain ⟨a, b, hab, -⟩ := hu
          simp at hab
      | cons c u =>
          by_cases hopens : OpensBlock c (u ++ v)
          · obtain ⟨rfl, b, rfl, hmem⟩ := (opensBlock_append_iff hv).mp hopens
            have hblock :=
              length_dropSubstitutions_block_le hresumes hmem fun w hw => hle w (by simp; omega)
            simp only [List.cons_append, List.length_cons]
            omega
          · have hu' : ClosesLater u v := by
              obtain ⟨a, b, hab, hmem⟩ := hu
              cases a with
              | nil =>
                  obtain ⟨rfl, rfl⟩ := List.cons.inj hab
                  exact absurd ⟨rfl, b ++ v, rfl, hmem⟩ hopens
              | cons d a => exact ⟨a, b, (List.cons.inj hab).2, hmem⟩
            have hlt := ih u.length (by simp) hu' rfl
            rw [List.cons_append, dropSubstitutions_cons hopens, List.length_cons, List.length_cons]
            omega

/-! ## The `Parts` of a template -/

/-- Literal text and substitutions, where two pieces of text have a substitution between them. -/
inductive Parts : List SyntaxTree → Prop where
  | nil : Parts []
  | substitution {t : SyntaxTree} {ts : List SyntaxTree} {inner : List Char}
      (hkind : t.kind = .templateSubstitution) (hchars : t.chars = '$' :: '{' :: (inner ++ ['}']))
      (hts : Parts ts) : Parts (t :: ts)
  | text {t : SyntaxTree} {ts : List SyntaxTree} (hkind : t.kind = .templateText) (hts : Parts ts)
      (hnext : ∀ u ∈ ts.head?, u.kind = .templateSubstitution) : Parts (t :: ts)

/-- The characters of the row `ts`, substitutions left out. -/
def literalChars (ts : List SyntaxTree) : List Char := charsOf (ts.filter (·.kind ≠ .templateSubstitution))

/-- No opening in the literal text of a row `ClosesLater`. -/
def LiteralsUnclosed : List SyntaxTree → Prop
  | [] => True
  | t :: ts => (t.kind = .templateText → ¬ ClosesLater t.chars (charsOf ts)) ∧ LiteralsUnclosed ts

/-- Every substitution of the row `ts` is `Flat`. -/
def SubstitutionsFlat (ts : List SyntaxTree) : Prop :=
  ∀ u ∈ ts, u.kind = .templateSubstitution → Flat u.chars

instance instDecidableLiteralsUnclosed : (ts : List SyntaxTree) → Decidable (LiteralsUnclosed ts)
  | [] => .isTrue trivial
  | _ :: ts =>
    have := instDecidableLiteralsUnclosed ts
    inferInstanceAs (Decidable (_ ∧ _))

instance (ts : List SyntaxTree) : Decidable (SubstitutionsFlat ts) :=
  inferInstanceAs (Decidable (∀ u ∈ ts, _))

variable {t : SyntaxTree} {ts : List SyntaxTree}

theorem literalChars_substitution (hkind : t.kind = .templateSubstitution) (ts : List SyntaxTree) :
    literalChars (t :: ts) = literalChars ts := by
  simp [literalChars, hkind]

theorem literalChars_text (hkind : t.kind ≠ .templateSubstitution) (ts : List SyntaxTree) :
    literalChars (t :: ts) = t.chars ++ literalChars ts := by
  simp [literalChars, hkind]

/-- After a piece of text there is a substitution, or nothing. -/
theorem Parts.head?_charsOf (h : Parts ts) (hnext : ∀ u ∈ ts.head?, u.kind = .templateSubstitution) :
    (charsOf ts).head? ≠ some '{' := by
  cases h with
  | nil => simp
  | substitution hkind hchars hts => simp [hchars]
  | @text u ts hkind hts hnext' => simp [hkind] at hnext

/-- If the literal text stays (`LiteralsUnclosed`), what stays of a substitution is what differs. -/
theorem Parts.dropSubstitutions_eq_iff_flat (h : Parts ts) (hliteral : LiteralsUnclosed ts) :
    (literalChars ts).length ≤ (dropSubstitutions 0 (charsOf ts)).length ∧
      (dropSubstitutions 0 (charsOf ts) = literalChars ts ↔ SubstitutionsFlat ts) := by
  induction h with
  | nil => simp [literalChars, dropSubstitutions, SubstitutionsFlat]
  | @substitution t ts inner hkind hchars hts ih =>
      obtain ⟨hle, hiff⟩ := ih hliteral.2
      have hclosed : ∀ c ∈ t.chars.getLast?, c = '}' := by
        rw [hchars, show '$' :: '{' :: (inner ++ ['}']) = ('$' :: '{' :: inner) ++ ['}'] by simp,
          List.getLast?_concat]
        simp [eq_comm]
      rw [charsOf_cons, dropSubstitutions_append_of_closed hclosed, literalChars_substitution hkind,
        SubstitutionsFlat, List.forall_mem_cons, ← SubstitutionsFlat, ← hiff,
        ← dropSubstitutions_eq_nil_iff]
      refine ⟨by rw [List.length_append]; omega, fun heq => ?_, fun ⟨hnone, heq⟩ => ?_⟩
      · have hlength := congrArg List.length heq
        rw [List.length_append] at hlength
        have hnone : dropSubstitutions 0 t.chars = [] := List.length_eq_zero_iff.mp (by omega)
        exact ⟨fun _ => hnone, by simpa [hnone] using heq⟩
      · rw [hnone hkind, List.nil_append, heq]
  | @text t ts hkind hts hnext ih =>
      obtain ⟨hle, hiff⟩ := ih hliteral.2
      have hsub : t.kind ≠ .templateSubstitution := by simp [hkind]
      rw [charsOf_cons, dropSubstitutions_append_of_unclosed (hts.head?_charsOf hnext) (hliteral.1 hkind),
        literalChars_text hsub, SubstitutionsFlat, List.forall_mem_cons, ← SubstitutionsFlat, ← hiff]
      simp [hle, hsub]

theorem Flat.resumes_append (h : Flat u) (hne : u ≠ []) (v : List Char) : Resumes (u ++ v) := by
  intro _
  cases h with
  | nil => exact absurd rfl hne
  | @block a w ha hw =>
      refine ⟨'$' :: '{' :: a, w ++ v, by simp, by simp [ha], ?_⟩
      rw [hw.dropSubstitutions_append, (Flat.block ha hw).dropSubstitutions_append]

theorem Parts.resumes (h : Parts ts) (hnext : ∀ u ∈ ts.head?, u.kind = .templateSubstitution)
    (hflat : SubstitutionsFlat ts) : Resumes (charsOf ts) := by
  cases h with
  | nil => simp [Resumes]
  | @substitution t ts inner hkind hchars hts =>
      rw [charsOf_cons]
      exact (hflat t List.mem_cons_self hkind).resumes_append (by simp [hchars]) _
  | text hkind hts hnext' => simp [hkind] at hnext

/-- If all substitutions are flat (`SubstitutionsFlat`), what is dropped of the literal text is what
differs. -/
theorem Parts.dropSubstitutions_eq_iff_unclosed (h : Parts ts) (hflat : SubstitutionsFlat ts) :
    (dropSubstitutions 0 (charsOf ts)).length ≤ (literalChars ts).length ∧
      (dropSubstitutions 0 (charsOf ts) = literalChars ts ↔ LiteralsUnclosed ts) := by
  induction h with
  | nil => simp [literalChars, dropSubstitutions, LiteralsUnclosed]
  | @substitution t ts inner hkind hchars hts ih =>
      have hrest := ih fun u hu => hflat u (List.mem_cons_of_mem _ hu)
      rw [charsOf_cons, (hflat t List.mem_cons_self hkind).dropSubstitutions_append,
        literalChars_substitution hkind]
      simpa [LiteralsUnclosed, hkind] using hrest
  | @text t ts hkind hts hnext ih =>
      have hts_flat : SubstitutionsFlat ts := fun u hu => hflat u (List.mem_cons_of_mem _ hu)
      obtain ⟨hle, hiff⟩ := ih hts_flat
      rw [charsOf_cons, literalChars_text (by simp [hkind])]
      by_cases hcloses : ClosesLater t.chars (charsOf ts)
      · have hresumes := hts.resumes hnext hts_flat
        have hlt := length_dropSubstitutions_lt (hts.head?_charsOf hnext) hresumes hcloses
        refine ⟨by rw [List.length_append]; omega, fun heq => ?_, fun hunclosed => ?_⟩
        · rw [heq, List.length_append] at hlt
          omega
        · exact absurd hcloses (hunclosed.1 hkind)
      · rw [dropSubstitutions_append_of_unclosed (hts.head?_charsOf hnext) hcloses]
        simp [LiteralsUnclosed, hkind, hcloses, hle, hiff]

/-! ## Templates: `bodyText` -/

theorem exists_chars_of_substitution (h : t.Formed) (hkind : t.kind = .templateSubstitution) :
    ∃ inner, t.chars = '$' :: '{' :: (inner ++ ['}']) := by
  obtain ⟨hchars, hrow⟩ := h.shaped hkind rfl
  rw [hchars]
  generalize t.children = row at hrow
  cases hrow with
  | @between first last inner hfirst hlast =>
      refine ⟨charsOf inner, ?_⟩
      simp [hfirst.chars_eq, hlast.chars_eq]

theorem parts_of_formed (hformed : ∀ t ∈ ts, t.Formed)
    (hkinds : ∀ t ∈ ts, t.kind = .templateText ∨ t.kind = .templateSubstitution)
    (hapart : ts.IsChain fun t u => t.kind = .templateText → u.kind = .templateSubstitution) :
    Parts ts := by
  induction ts with
  | nil => exact .nil
  | cons t ts ih =>
      obtain ⟨hnext, hchain⟩ := List.isChain_cons.mp hapart
      obtain ⟨ht, hts⟩ := List.forall_mem_cons.mp hformed
      obtain ⟨hkind, hkinds⟩ := List.forall_mem_cons.mp hkinds
      have hparts := ih hts hkinds hchain
      rcases hkind with hkind | hkind
      · exact .text hkind hparts fun u hu => hnext u hu hkind
      · obtain ⟨inner, hchars⟩ := exists_chars_of_substitution ht hkind
        exact .substitution hkind hchars hparts

/-- The text between the marks of the template `t`, substitutions left out. -/
def literalText (t : SyntaxTree) : String := String.ofList ((literalChars t.children).drop 1).dropLast

/-- What stands between the marks of a template are `Parts`. -/
theorem exists_parts (h : t.Formed) (hkind : t.kind = .template) : ∃ first parts last,
    t.children = first :: parts ++ [last] ∧ IsToken "\x60" first ∧ IsToken "\x60" last ∧ Parts parts ∧
      bodyText t = String.ofList (dropSubstitutions 0 (charsOf parts)) ∧
      literalText t = String.ofList (literalChars parts) := by
  obtain ⟨hchars, hrow⟩ := h.shaped hkind rfl
  have hchildren : ∀ u ∈ t.children, u.Formed := fun u hu => h.of_mem_children hu
  rw [bodyText, literalText, toList_text, hchars]
  generalize t.children = row at hrow hchildren
  cases hrow with
  | @between first last parts hfirst hlast hparts hapart =>
      refine ⟨first, parts, last, rfl, hfirst, hlast, ?_, ?_, ?_⟩
      · exact parts_of_formed (fun u hu => hchildren u (by simp [hu])) hparts hapart
      · simp [hfirst.chars_eq, hlast.chars_eq]
      · simp [literalChars, hfirst.1, hlast.1, hfirst.chars_eq, hlast.chars_eq]

theorem literalsUnclosed_append {last : SyntaxTree} (hlast : IsToken "\x60" last) (ts : List SyntaxTree) :
    LiteralsUnclosed (ts ++ [last]) ↔ LiteralsUnclosed ts := by
  induction ts with
  | nil => simp [LiteralsUnclosed, hlast.1]
  | cons t ts ih =>
      rw [List.cons_append, LiteralsUnclosed, LiteralsUnclosed, ih]
      simp [ClosesLater, hlast.chars_eq]

/-- **The text of an embedded document is the literal text of its template** as long as all substitutions
are flat and no opening in the literal text is closed; it is another one if either fails alone. -/
theorem bodyText_eq_literalText_iff {dialect : Dialect} {source : String} {root t : SyntaxTree}
    (h : parse? dialect source = some root) (ht : t ∈ root.preorder fun _ => true)
    (hkind : t.kind = .template) :
    Catalog.Draft.embeddedText t = bodyText t ∧
    (LiteralsUnclosed t.children → (bodyText t = literalText t ↔ SubstitutionsFlat t.children)) ∧
    (SubstitutionsFlat t.children → (bodyText t = literalText t ↔ LiteralsUnclosed t.children)) := by
  obtain ⟨first, parts, last, hchildren, hfirst, hlast, hparts, hbody, hliteral⟩ :=
    exists_parts ((formed_of_parse? h).of_mem_preorder ht) hkind
  have hunclosed : LiteralsUnclosed t.children ↔ LiteralsUnclosed parts := by
    rw [hchildren, List.cons_append, LiteralsUnclosed, literalsUnclosed_append hlast]
    simp [hfirst.1]
  have hflat : SubstitutionsFlat t.children ↔ SubstitutionsFlat parts := by
    simp [hchildren, SubstitutionsFlat, or_imp, forall_and, hfirst.1, hlast.1]
  refine ⟨by simp [Catalog.Draft.embeddedText, hkind], ?_⟩
  rw [hunclosed, hflat, hbody, hliteral, String.ofList_inj]
  exact ⟨fun hrow => (hparts.dropSubstitutions_eq_iff_flat hrow).2,
    fun hrow => (hparts.dropSubstitutions_eq_iff_unclosed hrow).2⟩

/-- A document with two substitutions, a name and a string that holds a closing brace and an opening. -/
def withString : String :=
  "const A = gql\x60query A \x7ba\x7d $\x7bF\x7d $\x7b'\x7d$\x7b'\x7d\x60;\n"

theorem bodyText_eq_literalText_iff_of_string : ∃ root, parse? .plain withString = some root ∧
    ∃ t ∈ root.preorder fun _ => true, t.kind = .template ∧ LiteralsUnclosed t.children ∧
      SubstitutionsFlat t.children ∧ literalText t = "query A \x7ba\x7d  " ∧
      bodyText t = literalText t := by
  have heval : (parse? .plain withString).map (fun root => (root.preorder fun _ => true).any fun t =>
      decide (t.kind = .template ∧ LiteralsUnclosed t.children ∧ SubstitutionsFlat t.children ∧
        literalText t = "query A \x7ba\x7d  ")) = some true := by
    decide +kernel
  obtain ⟨root, hparse, hany⟩ := Option.map_eq_some_iff.mp heval
  obtain ⟨t, ht, htemplate⟩ := List.any_eq_true.mp hany
  obtain ⟨hkind, hunclosed, hflat, htext⟩ := of_decide_eq_true htemplate
  have hiff := (bodyText_eq_literalText_iff hparse ht hkind).2.1 hunclosed
  exact ⟨root, hparse, t, ht, hkind, hunclosed, hflat, htext, hiff.mpr hflat⟩

/-- A document with a call as a substitution, which has braces of its own. -/
def withCall : String := "const A = gql\x60query A \x7ba\x7d $\x7bf(\x7bb:1\x7d)\x7d\x60;\n"

/-- The end of the call in `withCall` stays. -/
theorem call_stays_in_body : ∃ root, parse? .plain withCall = some root ∧
    ∃ t ∈ root.preorder fun _ => true, t.kind = .template ∧
      literalText t = "query A \x7ba\x7d " ∧ bodyText t = "query A \x7ba\x7d )\x7d" := by
  have heval : (parse? .plain withCall).map (fun root => (root.preorder fun _ => true).any fun t =>
      decide (t.kind = .template ∧ literalText t = "query A \x7ba\x7d " ∧
        bodyText t = "query A \x7ba\x7d )\x7d")) = some true := by
    decide +kernel
  obtain ⟨root, hparse, hany⟩ := Option.map_eq_some_iff.mp heval
  obtain ⟨t, ht, htemplate⟩ := List.any_eq_true.mp hany
  exact ⟨root, hparse, t, ht, of_decide_eq_true htemplate⟩

end PageReach.Operation
