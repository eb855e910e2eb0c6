import Mathlib.Data.List.Sort
import PageReach.Proofs.Engine.Replies

/-!
# The order of the pages does not matter

The second pass of a run looks at counts that are complete: they say for each file how many of the
pages reach it. The counts do not tell in which order the pages came up, and neither do the
thresholds, which are read off the sorted counts. So what is added to a page depends on the page and
on the set of all pages.

* **Thresholds** (`common_perm`, `thresholds_congr`): they depend on the numbers only.
* **Counts** (`get?_visitCounts`): a file is counted once for each page from which it is visited.
* **Runs** (`Comes.perm`, `Comes.reach`, `enrich_any_order`): what a run comes to in one order, it
  comes to in any other.
-/

namespace PageReach

/-! ## `thresholds` -/

namespace Threshold

variable {counts counts' : List Int}

theorem mergeSort_perm (h : counts'.Perm counts) :
    counts'.mergeSort (· ≤ ·) = counts.mergeSort (· ≤ ·) := by
  refine List.Perm.eq_of_pairwise (fun a b _ _ hab hba => Int.le_antisymm hab hba)
    (List.pairwise_mergeSort' (· ≤ ·) counts') (List.pairwise_mergeSort' (· ≤ ·) counts) ?_
  exact (List.mergeSort_perm _ _).trans (h.trans (List.mergeSort_perm _ _).symm)

theorem ninthDecile_perm (h : counts'.Perm counts) : ninthDecile counts' = ninthDecile counts := by
  have hempty : counts'.isEmpty = counts.isEmpty := by
    rw [Bool.eq_iff_iff, List.isEmpty_iff, List.isEmpty_iff]
    exact ⟨fun hnil => (hnil ▸ h).nil_eq.symm, fun hnil => (hnil ▸ h).eq_nil⟩
  rw [ninthDecile, ninthDecile, hempty, h.length_eq, mergeSort_perm h]

theorem common_perm (h : counts'.Perm counts) : common counts' = common counts := by
  rw [common, common, ninthDecile_perm (h.filter _)]

end Threshold

namespace Engine

variable {e : Engine} {n : Nat}

/-! ## Counts: `visitCounts` -/

section Counts

variable {counts counts' : Table Nat}

theorem get?_countFiles (files : List String) (counts : Table Nat) (f : String) :
    (files.foldl countFile counts).get? f =
      if f ∈ files then some ((counts.get? f).getD 0 + files.count f) else counts.get? f := by
  induction files generalizing counts with
  | nil => rw [List.foldl_nil, if_neg List.not_mem_nil]
  | cons x files ih =>
      rw [List.foldl_cons, ih, countFile, Table.get?_insert, List.count_cons]
      by_cases hx : f = x
      · subst hx
        by_cases hf : f ∈ files
        · simp only [hf, if_true, Option.getD_some, List.mem_cons_self, beq_self_eq_true]
          congr 1
          omega
        · simp only [hf, if_false, if_true, List.mem_cons_self, beq_self_eq_true,
            List.count_eq_zero_of_not_mem hf, Nat.zero_add]
      · have hne : (x == f) = false := beq_eq_false_iff_ne.mpr fun heq => hx heq.symm
        simp only [hx, hne, if_false, List.mem_cons, false_or, Bool.false_eq_true, Nat.add_zero]

theorem nodup_keys_countFiles (files : List String) (h : counts.keys.Nodup) :
    (files.foldl countFile counts).keys.Nodup := by
  induction files generalizing counts with
  | nil => exact h
  | cons x files ih => exact ih (Table.nodup_keys_insert h _ _)

theorem thresholds_congr (h : counts.keys.Nodup) (h' : counts'.keys.Nodup)
    (hget : ∀ f, counts'.get? f = counts.get? f) (pages : Nat) :
    thresholds counts' pages = thresholds counts pages := by
  have hvalues : (counts'.values.map Int.ofNat).Perm (counts.values.map Int.ofNat) :=
    ((Table.entries_perm h h' hget).map _).map _
  rw [thresholds, thresholds, Threshold.common_perm hvalues]

end Counts

section Visits

variable {sources : List OperationSource} {facts : Table (List Fact)} {pages : Vector Page n}
  {order order' : List (Fin n)} {walked : Fin n → Option (String × Walk)} {t : Thresholds}
  {added : Fin n → List Attribution}

theorem nodup_visitedOn {page : Page} {walked : Option (String × Walk)}
    (h : e.tourOf facts page = .ok walked) : (visitedOn walked).Nodup := by
  obtain ⟨htoured, -⟩ := tourOf_eq_ok.mp h
  rcases walked with _ | ⟨entry, w⟩
  · exact List.nodup_nil
  · exact htoured.ended.nodup

theorem count_visits (h : ∀ i ∈ order, (visitedOn (walked i)).Nodup) (f : String) :
    (order.flatMap fun i => visitedOn (walked i)).count f =
      order.countP fun i => f ∈ visitedOn (walked i) := by
  induction order with
  | nil => rfl
  | cons i order ih =>
      have hrest := ih fun k hk => h k (List.mem_cons_of_mem _ hk)
      rw [List.flatMap_cons, List.count_append, hrest, List.countP_cons, Nat.add_comm]
      congr 1
      by_cases hf : f ∈ visitedOn (walked i)
      · rw [List.count_eq_one_of_mem (h i List.mem_cons_self) hf, if_pos (decide_eq_true hf)]
      · rw [List.count_eq_zero_of_not_mem hf, if_neg (by simpa using hf)]

/-- For each file that is visited at all, `visitCounts` has the number of pages from which it is. -/
theorem get?_visitCounts (h : ∀ i ∈ order, (visitedOn (walked i)).Nodup) (f : String) :
    (visitCounts order walked).get? f =
      if order.countP (fun i => f ∈ visitedOn (walked i)) = 0 then none
      else some (order.countP fun i => f ∈ visitedOn (walked i)) := by
  rw [visitCounts, get?_countFiles, count_visits h, Table.get?_empty, Option.getD_none,
    Nat.zero_add, ← count_visits h]
  by_cases hf : f ∈ order.flatMap fun i => visitedOn (walked i)
  · rw [if_pos hf, if_neg fun hzero => List.count_eq_zero.mp hzero hf]
  · rw [if_neg hf, if_pos (List.count_eq_zero_of_not_mem hf)]

theorem get?_visitCounts_perm (h : ∀ i ∈ order, (visitedOn (walked i)).Nodup)
    (hperm : order'.Perm order) (f : String) :
    (visitCounts order' walked).get? f = (visitCounts order walked).get? f := by
  rw [get?_visitCounts h, get?_visitCounts fun i hi => h i (hperm.mem_iff.mp hi),
    hperm.countP_eq]

/-- A run `Comes` to the same in whatever order the pages come up. -/
theorem Comes.perm (h : e.Comes sources pages order walked t added) (hperm : order'.Perm order) :
    e.Comes sources pages order' walked t added := by
  -- only the counts could tell the order, and they hold the same numbers
  have hget := get?_visitCounts_perm (fun i hi => nodup_visitedOn (h.tours i hi)) hperm
  have hwalked : walkedPages (toursOf order' walked) = walkedPages (toursOf order walked) :=
    ((hperm.map _).filter _).length_eq
  refine ⟨fun i hi => h.tours i (hperm.mem_iff.mp hi), ?_, fun i hi => ?_⟩
  · have hnodup (order : List (Fin n)) : (visitCounts order walked).keys.Nodup :=
      nodup_keys_countFiles _ (show (Table.empty : Table Nat).keys.Nodup from List.nodup_nil)
    rw [thresholds_congr (hnodup order) (hnodup order') hget, hwalked]
    exact h.thresholds
  · rw [additionsOf_congr hget]
    exact h.additions i (hperm.mem_iff.mp hi)

end Visits

/-! ## Runs: `Comes` -/

/-- The files that a new engine visits from the entry of `page`. -/
def visitedFrom (e : Engine) (facts : Table (List Fact)) (page : Page) : List String :=
  let visited? : Option (List String) := do
    let file ← (← page.fileText?.toOption)
    let entry ← e.index.locate file
    let w ← ((e.walk entry facts).on {}).1.toOption
    return w.visited
  visited?.getD []

/-- The number of pages in `order` from which the file `f` is visited. -/
def reachingPages (e : Engine) (facts : Table (List Fact)) (pages : Vector Page n)
    (order : List (Fin n)) (f : String) : Nat :=
  order.countP fun i => f ∈ e.visitedFrom facts (pages.get i)

section Reaching

variable {sources : List OperationSource} {facts : Table (List Fact)} {pages : Vector Page n}
  {order : List (Fin n)} {walked : Fin n → Option (String × Walk)} {t : Thresholds}
  {added : Fin n → List Attribution}

theorem visitedFrom_of_tourOf {page : Page} {walked : Option (String × Walk)}
    (h : e.tourOf facts page = .ok walked) : e.visitedFrom facts page = visitedOn walked := by
  obtain ⟨htoured, -⟩ := tourOf_eq_ok.mp h
  rcases walked with _ | ⟨entry, w⟩
  · obtain ⟨file?, hfile, hentry⟩ := htoured
    rw [visitedFrom, hfile]
    cases file? with
    | none => rfl
    | some file =>
        have hlocate : e.index.locate file = none := hentry
        simp [Except.toOption, hlocate, visitedOn]
  · obtain ⟨s', hrun, -⟩ := htoured.walk (faithful_new e)
    obtain ⟨file?, hfile, hentry, -⟩ := htoured
    obtain ⟨file, rfl, hlocate⟩ := Option.bind_eq_some_iff.mp hentry
    rw [visitedFrom, hfile]
    simp [Except.toOption, hlocate, hrun, visitedOn]

theorem Comes.get?_visitCounts (h : e.Comes sources pages order walked t added) (f : String) :
    (visitCounts order walked).get? f =
      if e.reachingPages (e.factsByFile sources) pages order f = 0 then none
      else some (e.reachingPages (e.factsByFile sources) pages order f) := by
  have hcount : order.countP (fun i => f ∈ visitedOn (walked i)) =
      e.reachingPages (e.factsByFile sources) pages order f := by
    refine List.countP_congr fun i hi => ?_
    rw [visitedFrom_of_tourOf (h.tours i hi)]
  rw [Engine.get?_visitCounts fun i hi => nodup_visitedOn (h.tours i hi), hcount]

/-- An attribution tells how many pages reach its file (`reachingPages`), and its own page is one of
them. -/
theorem Comes.reach (h : e.Comes sources pages order walked t added) {i : Fin n} (hi : i ∈ order)
    {a : Attribution} (ha : a ∈ added i) :
    a.reach = e.reachingPages (e.factsByFile sources) pages order a.file ∧ 1 ≤ a.reach := by
  obtain ⟨entry, w, hwalked, x, hx, source, rfl⟩ := mem_additionsOf (h.additions i hi) ha
  have htour := h.tours i hi
  obtain ⟨htoured, -⟩ := tourOf_eq_ok.mp htour
  rw [hwalked] at htour htoured
  have hvisited : x.1.file ∈ w.visited := htoured.mem_visited hx
  have hpos : 0 < e.reachingPages (e.factsByFile sources) pages order x.1.file := by
    refine List.countP_pos_iff.mpr ⟨i, hi, ?_⟩
    rw [visitedFrom_of_tourOf htour]
    exact decide_eq_true hvisited
  have hcount : ((visitCounts order walked).get? x.1.file).getD 0 =
      e.reachingPages (e.factsByFile sources) pages order x.1.file := by
    rw [h.get?_visitCounts, if_neg (Nat.ne_of_gt hpos), Option.getD_some]
  rw [attributionOf_reach, attributionOf_file, hcount]
  exact ⟨rfl, Int.ofNat_le.mpr hpos⟩

end Reaching

/-- **The order of the pages does not matter.** If a run over distinct pages comes back, it does so in
any order of the pages and whatever the engine was asked for before. Each page gets the same
attributions, the thresholds and the counts are the same. The counts, and those in the attributions,
are numbers of pages from which a file is visited. -/
theorem enrich_any_order (e : Engine) {n : Nat} (pages pages' : Vector Page n)
    (order order' : List (Fin n)) (sources : List OperationSource) (earlier earlier' : List Call)
    (report : Report) (st' : State) (hdistinct : order.Nodup) (hperm : order'.Perm order)
    (hrun : (e.enrich pages order sources).run (e.after earlier) = ((pages', .ok report), st')) :
    (∃ report' st'', (e.enrich pages order' sources).run (e.after earlier') =
        ((pages', .ok report'), st'') ∧
      report'.thresholds = report.thresholds ∧
      report'.attributionsAdded = report.attributionsAdded ∧
      ∀ f, report'.reachability.get? f = report.reachability.get? f) ∧
    (∀ f, report.reachability.get? f =
      if e.reachingPages (e.factsByFile sources) pages order f = 0 then none
      else some (e.reachingPages (e.factsByFile sources) pages order f)) ∧
    ∃ added : Fin n → List Attribution,
      (∀ i, pages'.get i = { pages.get i with
        entries := (pages.get i).entries ++ (added i).map .attribution }) ∧
      ∀ i, ∀ a ∈ added i,
        a.reach = e.reachingPages (e.factsByFile sources) pages order a.file ∧ 1 ≤ a.reach := by
  have hs := faithful_after e earlier
  obtain ⟨walked, added, hcomes⟩ := comes_of_enrich hdistinct hs hrun
  obtain ⟨report₁, st₁, hrun₁, -, hcounts, htotal⟩ := hcomes.enrich hdistinct hs
  cases hrun.symm.trans hrun₁
  have hget := hcomes.get?_visitCounts
  refine ⟨?_, ?_, fun i => if i ∈ order then added i else [], ?_, ?_⟩
  · have hdistinct' : order'.Nodup := hperm.nodup_iff.mpr hdistinct
    obtain ⟨report', st'', hrun', hthresholds, hcounts', htotal'⟩ :=
      (hcomes.perm hperm).enrich hdistinct' (faithful_after e earlier')
    have hpages : extendAll pages order' added = extendAll pages order added := by
      simp only [extendAll, hperm.mem_iff]
    refine ⟨report', st'', ?_, hthresholds, ?_, ?_⟩
    · rw [hrun', hpages]
    · rw [htotal', htotal, (hperm.map _).sum_eq]
    · intro f
      rw [hcounts', hcounts]
      exact get?_visitCounts_perm (fun i hi => nodup_visitedOn (hcomes.tours i hi)) hperm f
  · rw [hcounts]
    exact hget
  · intro i
    show _ = extend (pages.get i) (if i ∈ order then added i else [])
    rw [get_extendAll]
    by_cases hi : i ∈ order
    · rw [if_pos hi, if_pos hi]
    · rw [if_neg hi, if_neg hi, extend_nil]
  · intro i a ha
    dsimp only at ha
    by_cases hi : i ∈ order
    · rw [if_pos hi] at ha
      exact hcomes.reach hi ha
    · rw [if_neg hi] at ha
      exact absurd ha List.not_mem_nil

/-- Two files, `a.ts` and `b.ts`, that import each other. -/
def filesAround : List (String × String) :=
  [("a.ts", "import './c';\n"), ("c.ts", "import './a';\n")]

/-- A page for each of the files in `filesAround`. -/
def pagesAround : Vector Page 2 :=
  #v[⟨.text "/a", .text "a.ts", []⟩, ⟨.text "/c", .text "c.ts", []⟩]

/-- An operation with a fact in each of the files in `filesAround`. -/
def operationAround : OperationSource := ⟨"GetC", .query, some "c.ts", ["a.ts"]⟩

/-- The pages in the other order, on an engine that has made a run over the second one. -/
theorem enrich_any_order_around :
    [(0 : Fin 2), 1].Nodup ∧ [(1 : Fin 2), 0].Perm [0, 1] ∧
    ∃ pages' report report' st' st'',
      ((ofTexts filesAround).enrich pagesAround [0, 1] [operationAround]).run
        ((ofTexts filesAround).after []) = ((pages', .ok report), st') ∧
      ((ofTexts filesAround).enrich pagesAround [1, 0] [operationAround]).run
        ((ofTexts filesAround).after [.enrich pagesAround [1] [operationAround]]) =
          ((pages', .ok report'), st'') ∧
      report'.thresholds = report.thresholds ∧ report'.attributionsAdded = 2 ∧
      report'.reachability.get? "c.ts" = some 2 := by
  have hdistinct : [(0 : Fin 2), 1].Nodup := by decide
  have hperm : [(1 : Fin 2), 0].Perm [0, 1] := .swap 0 1 []
  have heval : ((((ofTexts filesAround).enrich pagesAround [0, 1]
      [operationAround]).run ((ofTexts filesAround).after [])).1.2.toOption.map
        fun report => (report.attributionsAdded, report.reachability.get? "c.ts")) =
          some (2, some 2) := by
    decide +kernel
  generalize hrun : ((ofTexts filesAround).enrich pagesAround [0, 1]
    [operationAround]).run ((ofTexts filesAround).after []) = r at heval
  obtain ⟨⟨pages', outcome⟩, st'⟩ := r
  cases outcome with
  | error fault => exact nomatch heval
  | ok report =>
      obtain ⟨hadded, hcount⟩ := Prod.mk.inj (Option.some.inj heval)
      obtain ⟨⟨report', st'', hrun', hthresholds, hadded', hget⟩, -, -⟩ :=
        enrich_any_order _ _ _ _ _ _ _ [.enrich pagesAround [1] [operationAround]] _ _
          hdistinct hperm hrun
      exact ⟨hdistinct, hperm, pages', report, report', st', st'', rfl, hrun', hthresholds,
        hadded'.trans hadded, (hget _).trans hcount⟩

end Engine

end PageReach
