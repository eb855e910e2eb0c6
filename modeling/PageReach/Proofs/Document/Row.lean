import PageReach.Document.Grammar

/-!
# Rows of operations

A `row` of short queries is a document, and its operations are the queries, one for each name
(`operations?_row`). So there are documents with any number of operations. The argument goes by
tokens (`tokensFrom?_row`) and then by definitions (`definitions?_row`), each an induction over the
names.
-/

namespace PageReach.Document

/-! ## Tokens: `tokensFrom?` -/

/-- What can be the name of an operation: `beginsName` holds of the first character, and `inName` of
all. -/
structure IsName (s : String) : Prop where
  begins : ∃ c cs, s.toList = c :: cs ∧ beginsName c = true
  inside : ∀ c ∈ s.toList, inName c = true

section Tokens

variable {name : String} {c : Char}

/-- A character with which `beginsName` holds begins nothing but a name. -/
theorem plain_of_beginsName (h : beginsName c = true) :
    c ≠ '.' ∧ c ≠ '\x22' ∧ c ≠ '#' ∧ marks.contains c = false ∧ isBlank c = false ∧
      (c.isDigit || c = '-') = false := by
  have hother (d : Char) (hd : beginsName d = false) : c ≠ d := by
    rintro rfl
    rw [h] at hd
    cases hd
  have hmarks : ∀ d ∈ marks, beginsName d = false := by simp [marks, beginsName]
  have hblanks : ∀ d ∈ [' ', '\t', ',', '\ufeff', '\n', '\r'], beginsName d = false := by
    simp [beginsName]
  refine ⟨hother _ (by decide), hother _ (by decide), hother _ (by decide), ?_, ?_, ?_⟩
  · rw [← Bool.not_eq_true, List.contains_iff_mem]
    exact fun hmem => hother c (hmarks c hmem) rfl
  · rw [isBlank, ← Bool.not_eq_true, List.contains_iff_mem]
    exact fun hmem => hother c (hblanks c hmem) rfl
  · have hdigit : c.isDigit = false := by
      by_cases hline : c = '_'
      · subst hline
        decide
      · rw [beginsName] at h
        delta Char.isAlpha Char.isUpper Char.isLower at h
        grind [Char.isDigit]
    simp [hdigit, hother '-' (by decide)]

theorem token?_name (hname : IsName name) (hc : inName c = false) (rest : List Char) :
    token? (name.toList ++ c :: rest) = some (.name name, c :: rest) := by
  have htake : (name.toList ++ c :: rest).takeWhile inName = name.toList := by
    rw [List.takeWhile_append_of_pos hname.inside, List.takeWhile_cons, hc]
    simp
  have hdrop : (name.toList ++ c :: rest).dropWhile inName = c :: rest := by
    rw [List.dropWhile_append_of_pos hname.inside, List.dropWhile_cons, hc]
    simp
  have hspelled : String.ofList name.toList = name := String.ofList_toList
  obtain ⟨d, ds, hd, hbegins⟩ := hname.begins
  obtain ⟨hpoint, hquote, -, hmark, -, hdigit⟩ := plain_of_beginsName hbegins
  rw [hd] at htake hdrop hspelled ⊢
  rw [List.cons_append] at htake hdrop ⊢
  unfold token?
  split
  · rename_i heq
    exact absurd (List.cons.inj heq).1 hpoint
  · rename_i heq
    exact absurd (List.cons.inj heq).1 hquote
  · rename_i heq
    exact absurd (List.cons.inj heq).1 hquote
  · rename_i heq
    cases heq
    rw [hmark, hdigit, hbegins, htake, hdrop, hspelled]
    rfl
  · rename_i heq
    cases heq

theorem tokensFrom?_name (hname : IsName name) (hc : inName c = false) (fuel : Nat)
    (rest : List Char) : tokensFrom? (fuel + 1) (name.toList ++ c :: rest) =
      (tokensFrom? fuel (c :: rest)).map (.name name :: ·) := by
  have htoken := token?_name hname hc rest
  obtain ⟨d, ds, hd, hbegins⟩ := hname.begins
  obtain ⟨-, -, hcomment, -, hblank, -⟩ := plain_of_beginsName hbegins
  rw [hd, List.cons_append] at htoken ⊢
  rw [tokensFrom?, if_neg (by simp [hblank]), if_neg hcomment, htoken]

theorem tokensFrom?_mark (hc : c = '\x7b' ∨ c = '\x7d') (fuel : Nat) (rest : List Char) :
    tokensFrom? (fuel + 1) (c :: rest) = (tokensFrom? fuel rest).map (.mark c :: ·) := by
  rcases hc with rfl | rfl <;> rfl

theorem tokensFrom?_blank (fuel : Nat) (rest : List Char) :
    tokensFrom? (fuel + 1) (' ' :: rest) = tokensFrom? fuel rest := rfl

end Tokens

/-! ## One query: `definition?` -/

/-- A query of the given `name` for one field. -/
def queryChars (name : String) : List Char :=
  ['q', 'u', 'e', 'r', 'y'] ++ ' ' :: (name.toList ++ '\x7b' :: (['a'] ++ ['\x7d']))

/-- The tokens of `queryChars`. -/
def queryTokens (name : String) : List Token :=
  [.name "query", .name name, .mark '\x7b', .name "a", .mark '\x7d']

theorem tokensFrom?_query {name : String} (hname : IsName name) (fuel : Nat) (rest : List Char) :
    tokensFrom? (fuel + 6) (queryChars name ++ rest) =
      (tokensFrom? fuel rest).map (queryTokens name ++ ·) := by
  have hquery : IsName "query" := ⟨⟨'q', _, rfl, by decide⟩, List.all_eq_true.mp (by decide)⟩
  have hfield : IsName "a" := ⟨⟨'a', _, rfl, by decide⟩, List.all_eq_true.mp (by decide)⟩
  have hword : ['q', 'u', 'e', 'r', 'y'] = "query".toList := by decide
  have hletter : ['a'] = "a".toList := by decide
  rw [queryChars, hword, hletter, List.append_assoc, List.cons_append, List.append_assoc, List.cons_append,
    List.append_assoc, List.cons_append, List.nil_append]
  rw [tokensFrom?_name hquery (by decide), tokensFrom?_blank, tokensFrom?_name hname (by decide),
    tokensFrom?_mark (.inl rfl), tokensFrom?_name hfield (by decide), tokensFrom?_mark (.inr rfl)]
  simp [queryTokens, Function.comp_def]

theorem seq_nil (ts : List Token) : seq [] ts = some ts := rfl

theorem seq_cons (rule : Rule) (rules : List Rule) (ts : List Token) :
    seq (rule :: rules) ts = (rule ts).bind (seq rules) := rfl

theorem many_of_none {rule : Rule} {ts : List Token} (h : rule ts = none) : many rule ts = some ts := by
  rw [many, h]

theorem directives_mark {c : Char} (hc : c ≠ '@') (constant : Bool) (fuel : Nat) (ts : List Token) :
    directives constant fuel (.mark c :: ts) = some (.mark c :: ts) := by
  refine many_of_none ?_
  simp [seq_cons, mark, expect, hc]

theorem optionalBlock_mark {c first last : Char} (hc : c ≠ first) (item : Rule) (ts : List Token) :
    optionalBlock first last item (.mark c :: ts) = some (.mark c :: ts) := by
  simp [optionalBlock, ifNext, hc]

theorem ifNext_mark {c : Char} {t : Token} (hc : .mark c ≠ t) (rule : Rule) (ts : List Token) :
    ifNext t rule (.mark c :: ts) = some (.mark c :: ts) := by
  simp [ifNext, hc]

theorem mark_self (c : Char) (ts : List Token) : mark c (.mark c :: ts) = some ts := by
  simp [mark, expect]

theorem selections_field (depth : Nat) (rest : List Token) :
    selections (depth + 1) (.mark '\x7b' :: .name "a" :: .mark '\x7d' :: rest) = some rest := by
  -- behind the field stands the brace, so that the field has no parts and there is no other one
  have hparts : seq [ifNext (.mark ':') (seq [mark ':', name]), arguments false depth,
      directives false depth, ifNext (.mark '\x7b') (selections depth)] (.mark '\x7d' :: rest) =
      some (.mark '\x7d' :: rest) := by
    rw [seq_cons, ifNext_mark (by decide), Option.bind_some, seq_cons, arguments,
      optionalBlock_mark (by decide), Option.bind_some, seq_cons, directives_mark (by decide),
      Option.bind_some, seq_cons, ifNext_mark (by decide), Option.bind_some, seq_nil]
  have hname : name (.name "a" :: .mark '\x7d' :: rest) = some (.mark '\x7d' :: rest) := rfl
  unfold selections
  rw [block, seq_cons, mark_self, Option.bind_some, seq_cons]
  dsimp only
  rw [seq_cons, hname, Option.bind_some, hparts, Option.bind_some, seq_cons, many_of_none rfl,
    Option.bind_some, seq_cons, mark_self, Option.bind_some, seq_nil]

theorem definition?_query (name : String) (depth : Nat) (rest : List Token) :
    definition? (depth + 1) (queryTokens name ++ rest) = some (some ⟨name, .query⟩, rest) := by
  have hbody :
      operationBody (depth + 1) (.mark '\x7b' :: .name "a" :: .mark '\x7d' :: rest) = some rest := by
    rw [operationBody, seq_cons, optionalBlock_mark (by decide), Option.bind_some, seq_cons,
      directives_mark (by decide), Option.bind_some, seq_cons, selections_field, Option.bind_some,
      seq_nil]
  show (operationBody (depth + 1) (.mark '\x7b' :: .name "a" :: .mark '\x7d' :: rest)).map
    (some (NamedOperation.mk name .query), ·) = _
  rw [hbody, Option.map_some]

/-! ## Many queries: `row` -/

/-- A row of queries, one for each of the `names`. -/
def row (names : List String) : String := String.ofList (names.flatMap queryChars)

variable {names : List String}

theorem tokensFrom?_row (hnames : ∀ n ∈ names, IsName n) {fuel : Nat}
    (hfuel : 6 * names.length ≤ fuel) :
    tokensFrom? fuel (names.flatMap queryChars) = some (names.flatMap queryTokens) := by
  induction names generalizing fuel with
  | nil => cases fuel <;> rfl
  | cons name names ih =>
      rw [List.forall_mem_cons] at hnames
      rw [List.length_cons] at hfuel
      obtain ⟨fuel, rfl⟩ := Nat.exists_eq_add_of_le' (show 6 ≤ fuel by omega)
      rw [List.flatMap_cons, tokensFrom?_query hnames.1, ih hnames.2 (by omega)]
      rfl

theorem definitions?_row (hne : names ≠ []) (depth : Nat) {fuel : Nat}
    (hfuel : names.length ≤ fuel) :
    definitions? (depth + 1) fuel (names.flatMap queryTokens) =
      some (names.map fun n => ⟨n, .query⟩) := by
  induction names generalizing fuel with
  | nil => exact absurd rfl hne
  | cons name names ih =>
      rw [List.length_cons] at hfuel
      obtain ⟨fuel, rfl⟩ := Nat.exists_eq_add_of_le' (show 1 ≤ fuel by omega)
      rw [definitions?, List.flatMap_cons, definition?_query]
      cases names with
      | nil => rfl
      | cons next names =>
          have hrest := ih (by simp) (Nat.le_of_succ_le_succ hfuel)
          rw [List.flatMap_cons] at hrest ⊢
          dsimp only [queryTokens, List.cons_append] at hrest ⊢
          rw [hrest]
          rfl

theorem mul_length_le {α : Type} {f : String → List α} {k : Nat} (h : ∀ n, k ≤ (f n).length)
    (names : List String) : k * names.length ≤ (names.flatMap f).length := by
  induction names with
  | nil => simp
  | cons name names ih =>
      have hname := h name
      rw [List.flatMap_cons, List.length_append, List.length_cons, Nat.mul_succ]
      omega

/-- **The operations of a `row` are its queries.** -/
theorem operations?_row (hne : names ≠ []) (hnames : ∀ n ∈ names, IsName n) :
    operations? (row names) = some (names.map fun n => ⟨n, .query⟩) := by
  have hchars := mul_length_le (f := queryChars) (k := 6) (fun n => by simp [queryChars]) names
  have hqueries := mul_length_le (f := queryTokens) (k := 1) (fun n => by simp [queryTokens]) names
  have htokens : tokens? (row names) = some (names.flatMap queryTokens) := by
    rw [tokens?, row, String.toList_ofList]
    exact tokensFrom?_row hnames (Nat.le_succ_of_le hchars)
  rw [operations?, htokens, Option.bind_some, definitions?_row hne _ (by omega)]

theorem return_not_mem_row (hnames : ∀ n ∈ names, IsName n) : '\r' ∉ (row names).toList := by
  rw [row, String.toList_ofList, List.mem_flatMap]
  rintro ⟨name, hname, hmem⟩
  have hnot : '\r' ∉ name.toList := fun hmem => by
    have hinside := (hnames name hname).inside '\r' hmem
    revert hinside
    decide
  simp [queryChars, hnot] at hmem

end PageReach.Document
