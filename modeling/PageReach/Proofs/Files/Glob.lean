import Mathlib.Data.List.Forall2
import PageReach.Files.Glob
import PageReach.Proofs.Text.Split

/-!
# What a pattern covers

A pattern is a row of parts, read from the left. It covers a path of one line if the path falls into
pieces, one after the other, each of which is matched by a part:

    covers ps cs = true ↔ ∃ pieces, List.Forall₂ Part.Matches ps pieces ∧ pieces.flatten = cs

The matcher keeps a list of what may be left after each part, so that every way to cut the path is
tried. `Reads` tells how parts are written, and every pattern can be read in exactly one way.
-/

namespace PageReach.Glob

open Text

/-! ## Reading a pattern: `Reads` -/

/-- The parts that a pattern is made of: `Reads cs ps` says that `ps` are those of `cs`. -/
inductive Reads : List Char → List Part → Prop where
  | nil : Reads [] []
  | directories {cs ps} (h : Reads cs ps) : Reads ('*' :: '*' :: '/' :: cs) (.directories :: ps)
  | anything {cs ps} (hslash : cs.head? ≠ some '/') (h : Reads cs ps) :
      Reads ('*' :: '*' :: cs) (.anything :: ps)
  | star {cs ps} (hstar : cs.head? ≠ some '*') (h : Reads cs ps) : Reads ('*' :: cs) (.star :: ps)
  | one {cs ps} (h : Reads cs ps) : Reads ('?' :: cs) (.one :: ps)
  | oneOf {cs ps texts} (hne : texts ≠ []) (hcomma : ∀ t ∈ texts, ',' ∉ t)
      (hclosing : ∀ t ∈ texts, '}' ∉ t) (h : Reads cs ps) :
      Reads ('{' :: ([','].intercalate texts ++ '}' :: cs)) (.oneOf texts :: ps)
  | brace {cs ps} (hopen : '}' ∉ cs) (h : Reads cs ps) : Reads ('{' :: cs) (.char '{' :: ps)
  | char {c cs ps} (hstar : c ≠ '*') (hone : c ≠ '?') (hbrace : c ≠ '{') (h : Reads cs ps) :
      Reads (c :: cs) (.char c :: ps)

/-- The pieces of a path that a part stands for. -/
inductive Part.Matches : Part → List Char → Prop where
  | nowhere : Matches .directories []
  | directories (cs : List Char) : Matches .directories (cs ++ ['/'])
  | anything (cs : List Char) : Matches .anything cs
  | star {cs} (h : '/' ∉ cs) : Matches .star cs
  | one {c} (h : c ≠ '/') : Matches .one [c]
  | oneOf {t texts} (h : t ∈ texts) : Matches (.oneOf texts) t
  | char (c : Char) : Matches (.char c) [c]

variable {cs rest inner : List Char} {ps : List Part} {c : Char}

theorem partsFrom_skip (n : Nat) (cs : List Char) : partsFrom n cs = partsFrom 0 (cs.drop n) := by
  induction n generalizing cs with
  | zero => rfl
  | succ n ih =>
      cases cs with
      | nil => rfl
      | cons c cs => exact ih cs

theorem partsFrom_directories (cs : List Char) :
    partsFrom 0 ('*' :: '*' :: '/' :: cs) = .directories :: partsFrom 0 cs := rfl

theorem partsFrom_anything (h : cs.head? ≠ some '/') :
    partsFrom 0 ('*' :: '*' :: cs) = .anything :: partsFrom 0 cs := by
  rw [partsFrom, partsFrom_skip, List.drop_one, List.tail_cons]
  rintro rest heq
  simp [heq] at h

theorem partsFrom_star (h : cs.head? ≠ some '*') :
    partsFrom 0 ('*' :: cs) = .star :: partsFrom 0 cs := by
  rw [partsFrom]
  · rintro rest rfl
    simp at h
  · rintro rest rfl
    simp at h

theorem partsFrom_one (cs : List Char) : partsFrom 0 ('?' :: cs) = .one :: partsFrom 0 cs := rfl

theorem partsFrom_open (cs : List Char) :
    partsFrom 0 ('{' :: cs) =
      match cutAt? ['}'] cs with
      | some (inner, _) => .oneOf (splitChars ',' inner) :: partsFrom (inner.length + 1) cs
      | none => .char '{' :: partsFrom 0 cs := rfl

theorem partsFrom_oneOf (h : '}' ∉ inner) (cs : List Char) :
    partsFrom 0 ('{' :: (inner ++ '}' :: cs)) =
      .oneOf (splitChars ',' inner) :: partsFrom 0 cs := by
  have hdrop : (inner ++ '}' :: cs).drop (inner.length + 1) = cs := by simp [List.drop_append]
  rw [partsFrom_open, cutAt?_append_cons h]
  dsimp only
  rw [partsFrom_skip, hdrop]

theorem partsFrom_brace (h : '}' ∉ cs) : partsFrom 0 ('{' :: cs) = .char '{' :: partsFrom 0 cs := by
  rw [partsFrom_open, cutAt?_of_not_mem h]

theorem partsFrom_char (hstar : c ≠ '*') (hone : c ≠ '?') (hbrace : c ≠ '{') (cs : List Char) :
    partsFrom 0 (c :: cs) = .char c :: partsFrom 0 cs := by
  rw [partsFrom]
  · exact hstar
  · exact hone
  · exact hbrace
  · exact fun _ hc _ => hstar hc
  · exact fun _ hc _ => hstar hc

theorem Reads.partsFrom_eq (h : Reads cs ps) : partsFrom 0 cs = ps := by
  induction h with
  | nil => rfl
  | directories _ ih => rw [partsFrom_directories, ih]
  | anything hslash _ ih => rw [partsFrom_anything hslash, ih]
  | star hstar _ ih => rw [partsFrom_star hstar, ih]
  | one _ ih => rw [partsFrom_one, ih]
  | @oneOf cs ps texts hne hcomma hclosing _ ih =>
      have hinner : '}' ∉ [','].intercalate texts := by
        intro hmem
        rcases mem_of_mem_intercalate hmem with heq | ⟨t, ht, hin⟩
        · exact absurd heq (by decide)
        · exact hclosing t ht hin
      rw [partsFrom_oneOf hinner, splitChars_intercalate hne hcomma, ih]
  | brace hopen _ ih => rw [partsFrom_brace hopen, ih]
  | char hstar hone hbrace _ ih => rw [partsFrom_char hstar hone hbrace, ih]

theorem Reads.brackets (hinner : '}' ∉ inner) (h : Reads cs ps) :
    Reads ('{' :: (inner ++ '}' :: cs)) (.oneOf (splitChars ',' inner) :: ps) := by
  have hreads : Reads ('{' :: ([','].intercalate (splitChars ',' inner) ++ '}' :: cs))
      (.oneOf (splitChars ',' inner) :: ps) := by
    refine .oneOf (splitChars_ne_nil ',' inner) (fun t ht => not_mem_of_mem_splitChars ht) ?_ h
    exact fun t ht hmem => hinner (mem_of_mem_splitChars ht hmem)
  rwa [intercalate_splitChars] at hreads

/-- Every pattern can be read, in the sense of `Reads`. -/
theorem exists_reads (cs : List Char) : ∃ ps, Reads cs ps := by
  -- A part may take several characters, so the induction is on the length.
  induction hn : cs.length using Nat.strongRecOn generalizing cs with
  | _ n ih =>
      have hrest (rest : List Char) (hlt : rest.length < n) : ∃ ps, Reads rest ps :=
        ih rest.length hlt rest rfl
      cases cs with
      | nil => exact ⟨[], .nil⟩
      | cons c cs =>
          subst hn
          by_cases hstar : c = '*'
          · subst hstar
            by_cases htwo : cs.head? = some '*'
            · obtain ⟨more, rfl⟩ := List.head?_eq_some_iff.mp htwo
              by_cases hslash : more.head? = some '/'
              · obtain ⟨rest, rfl⟩ := List.head?_eq_some_iff.mp hslash
                obtain ⟨ps, hps⟩ := hrest rest (by grind)
                exact ⟨_, .directories hps⟩
              · obtain ⟨ps, hps⟩ := hrest more (by grind)
                exact ⟨_, .anything hslash hps⟩
            · obtain ⟨ps, hps⟩ := hrest cs (by simp)
              exact ⟨_, .star htwo hps⟩
          · by_cases hbrace : c = '{'
            · subst hbrace
              by_cases hclosed : '}' ∈ cs
              · obtain ⟨inner, rest, rfl, hinner⟩ := List.eq_append_cons_of_mem hclosed
                obtain ⟨ps, hps⟩ := hrest rest (by grind)
                exact ⟨_, hps.brackets hinner⟩
              · obtain ⟨ps, hps⟩ := hrest cs (by simp)
                exact ⟨_, .brace hclosed hps⟩
            · obtain ⟨ps, hps⟩ := hrest cs (by simp)
              by_cases hone : c = '?'
              · subst hone
                exact ⟨_, .one hps⟩
              · exact ⟨_, .char hstar hone hbrace hps⟩

/-- **A pattern is read in one way**, namely as its `parts`. -/
theorem reads_iff (pattern : String) : Reads pattern.toList ps ↔ ps = parts pattern := by
  constructor
  · exact fun h => h.partsFrom_eq.symm
  · rintro rfl
    obtain ⟨ps, hps⟩ := exists_reads pattern.toList
    rwa [parts, hps.partsFrom_eq]

/-! ## Matching a path: `covers` -/

theorem mem_rests {p : Char → Bool} :
    rest ∈ rests p cs ↔ ∃ piece, piece ++ rest = cs ∧ ∀ c ∈ piece, p c = true := by
  induction cs with
  | nil => simp [rests]
  | cons c cs ih =>
      rw [rests, List.mem_cons]
      constructor
      · rintro (rfl | hmem)
        · exact ⟨[], rfl, by simp⟩
        · split at hmem
          · rename_i hc
            obtain ⟨piece, rfl, hpiece⟩ := ih.mp hmem
            exact ⟨c :: piece, rfl, List.forall_mem_cons.mpr ⟨hc, hpiece⟩⟩
          · cases hmem
      · rintro ⟨piece, hsplit, hpiece⟩
        cases piece with
        | nil => exact .inl hsplit
        | cons d piece =>
            cases hsplit
            obtain ⟨hc, hpiece⟩ := List.forall_mem_cons.mp hpiece
            rw [if_pos hc]
            exact .inr (ih.mpr ⟨piece, rfl, hpiece⟩)

theorem mem_restsAfterSlash (hline : '\n' ∉ cs) :
    rest ∈ restsAfterSlash cs ↔ ∃ piece, piece ++ '/' :: rest = cs := by
  induction cs with
  | nil => simp [restsAfterSlash]
  | cons c cs ih =>
      rw [List.mem_cons, not_or] at hline
      have hlater : (∃ piece, piece ++ '/' :: rest = c :: cs) ↔
          (c = '/' ∧ rest = cs) ∨ ∃ piece, piece ++ '/' :: rest = cs := by
        constructor
        · rintro ⟨piece, hsplit⟩
          cases piece with
          | nil =>
              cases hsplit
              exact .inl ⟨rfl, rfl⟩
          | cons d piece =>
              cases hsplit
              exact .inr ⟨piece, rfl⟩
        · rintro (⟨rfl, rfl⟩ | ⟨piece, rfl⟩)
          · exact ⟨[], rfl⟩
          · exact ⟨c :: piece, rfl⟩
      rw [hlater, ← ih hline.2, restsAfterSlash, if_neg (Ne.symm hline.1)]
      by_cases hslash : c = '/'
      · simp [hslash]
      · simp [hslash]

/-- What is in the `rests` of a part is what stands behind a piece that the part `Matches`. -/
theorem Part.mem_rests (p : Part) (hline : '\n' ∉ cs) :
    rest ∈ p.rests cs ↔ ∃ piece, p.Matches piece ∧ piece ++ rest = cs := by
  cases p with
  | directories =>
      rw [Part.rests, List.mem_cons, mem_restsAfterSlash hline]
      constructor
      · rintro (rfl | ⟨front, hsplit⟩)
        · exact ⟨[], .nowhere, rfl⟩
        · exact ⟨front ++ ['/'], .directories front, by simpa using hsplit⟩
      · rintro ⟨piece, hpiece, hsplit⟩
        cases hpiece with
        | nowhere => exact .inl hsplit
        | directories front => exact .inr ⟨front, by simpa using hsplit⟩
  | anything =>
      rw [Part.rests, Glob.mem_rests]
      constructor
      · rintro ⟨piece, hsplit, -⟩
        exact ⟨piece, .anything piece, hsplit⟩
      · rintro ⟨piece, -, rfl⟩
        refine ⟨piece, rfl, fun c hc => decide_eq_true ?_⟩
        rintro rfl
        exact hline (List.mem_append_left _ hc)
  | star =>
      rw [Part.rests, Glob.mem_rests]
      constructor
      · rintro ⟨piece, hsplit, hpiece⟩
        exact ⟨piece, .star fun hmem => of_decide_eq_true (hpiece '/' hmem) rfl, hsplit⟩
      · rintro ⟨piece, hpiece, hsplit⟩
        cases hpiece with
        | star hslash =>
            refine ⟨piece, hsplit, fun c hc => decide_eq_true ?_⟩
            rintro rfl
            exact hslash hc
  | one =>
      constructor
      · intro hmem
        cases cs with
        | nil => cases hmem
        | cons c cs =>
            rw [Part.rests] at hmem
            split at hmem
            · cases hmem
            · rename_i hc
              rw [List.mem_singleton.mp hmem]
              exact ⟨[c], .one hc, rfl⟩
      · rintro ⟨piece, hpiece, rfl⟩
        cases hpiece with
        | one hc => simp [Part.rests, hc]
  | oneOf texts =>
      simp only [Part.rests, List.mem_filterMap, Option.ite_none_right_eq_some,
        List.isPrefixOf_iff_prefix, Option.some.injEq]
      constructor
      · rintro ⟨t, ht, ⟨after, rfl⟩, rfl⟩
        exact ⟨t, .oneOf ht, by simp⟩
      · rintro ⟨piece, hpiece, rfl⟩
        cases hpiece with
        | oneOf ht => exact ⟨piece, ht, List.prefix_append _ _, by simp⟩
  | char d =>
      constructor
      · intro hmem
        cases cs with
        | nil => cases hmem
        | cons c cs =>
            rw [Part.rests] at hmem
            split at hmem
            · rename_i hc
              rw [List.mem_singleton.mp hmem, hc]
              exact ⟨[d], .char d, rfl⟩
            · cases hmem
      · rintro ⟨piece, hpiece, rfl⟩
        cases hpiece with
        | char => simp [Part.rests]

/-- **Parts cover what falls into pieces that they match one after the other.** By induction over
`ps`. -/
theorem covers_iff (hline : '\n' ∉ cs) :
    covers ps cs = true ↔ ∃ pieces, List.Forall₂ Part.Matches ps pieces ∧ pieces.flatten = cs := by
  induction ps generalizing cs with
  | nil =>
      have hend : cs ≠ ['\n'] := by
        rintro rfl
        simp at hline
      simp [covers, hend, eq_comm]
  | cons p ps ih =>
      rw [covers, List.any_eq_true]
      constructor
      · rintro ⟨rest, hrest, hcovers⟩
        obtain ⟨piece, hpiece, rfl⟩ := (p.mem_rests hline).mp hrest
        have hlater : '\n' ∉ rest := fun hmem => hline (List.mem_append_right _ hmem)
        obtain ⟨pieces, hpieces, rfl⟩ := (ih hlater).mp hcovers
        exact ⟨piece :: pieces, .cons hpiece hpieces, List.flatten_cons⟩
      · rintro ⟨pieces, hpieces, rfl⟩
        cases hpieces with
        | @cons _ piece _ pieces hpiece hpieces =>
            rw [List.flatten_cons] at hline ⊢
            have hlater : '\n' ∉ pieces.flatten := fun hmem => hline (List.mem_append_right _ hmem)
            exact ⟨pieces.flatten, (p.mem_rests hline).mpr ⟨piece, hpiece, rfl⟩,
              (ih hlater).mpr ⟨pieces, hpieces, rfl⟩⟩

/-- **A pattern with a slash covers a path of one line iff the path falls into pieces** that the parts
of the pattern match one after the other. The pattern can be read in one way only. -/
theorem covered_by_pieces (pattern path : String) (hslash : '/' ∈ pattern.toList)
    (hline : '\n' ∉ path.toList) :
    ∃ ps, (∀ qs, Reads pattern.toList qs ↔ qs = ps) ∧
      (covered pattern path = true ↔
        ∃ pieces, List.Forall₂ Part.Matches ps pieces ∧ pieces.flatten = path.toList) := by
  refine ⟨parts pattern, fun qs => reads_iff pattern, ?_⟩
  have hcontains : pattern.toList.contains '/' = true := List.contains_iff_mem.mpr hslash
  rw [covered, hcontains, Bool.not_true, Bool.false_and, Bool.false_or, covers_iff hline]

theorem covered_by_pieces_of_braces :
    '/' ∈ "**/*.\x7bts,tsx\x7d".toList ∧ '\n' ∉ "src/a.tsx".toList ∧
      covered "**/*.\x7bts,tsx\x7d" "src/a.tsx" = true := by
  have hslash : '/' ∈ "**/*.\x7bts,tsx\x7d".toList := by decide
  have hline : '\n' ∉ "src/a.tsx".toList := by decide
  have hbraces : Reads ('{' :: ([','].intercalate [['t', 's'], ['t', 's', 'x']] ++ ['}']))
      [.oneOf [['t', 's'], ['t', 's', 'x']]] := .oneOf (by decide) (by decide) (by decide) .nil
  have hpattern := Reads.directories (.star (by decide)
    (.char (show '.' ≠ '*' by decide) (by decide) (by decide) hbraces))
  obtain ⟨ps, hreads, hcovered⟩ := covered_by_pieces _ _ hslash hline
  obtain rfl := (hreads _).mp hpattern
  refine ⟨hslash, hline, hcovered.mpr ⟨["src/".toList, ['a'], ['.'], ['t', 's', 'x']], ?_, rfl⟩⟩
  exact .cons (.directories ['s', 'r', 'c']) (.cons (.star (by decide)) (.cons (.char '.')
    (.cons (.oneOf (by decide)) .nil)))

end PageReach.Glob
