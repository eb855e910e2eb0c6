import PageReach.Proofs.Module.Chain
import PageReach.Proofs.Module.Memory
import PageReach.Proofs.Module.Search

/-!
# Misleading configurations

A specifier resolves to an indexed file or to nothing, unless the nearest configuration misleads: it
can hold values where only text is of use. At the root such values are left out; in the nearest
configuration they are taken as they are, and the first one that is reached stops the run.

* **Targets** (`Unfit`, `expandValues_stops_iff`): where a covered text cannot be put in.
* **One configuration** (`Misleads`, `ProjectConfig.resolve_stops_iff`): how a configuration that
  has been read stops the resolving of a specifier.
* **Sound chains** (`Sound`, `not_misleads_of_sound`): files that cannot mislead, said about what
  stands in them.
* **The ladder** (`Misled`, `Resolver.resolve_stops_iff`): the search for the nearest configuration
  may fail, the chain may be of no use, and the configuration may mislead.
* **Resolvers** (`Unbuildable`, `ofRepository_stops_iff`, `resolve_unless_misled`): when a resolver
  can be built, and what it answers.
-/

namespace PageReach

open Text Relation

/-! ## Values as targets: `Unfit` -/

theorem Value.exists_text {v : Value} (h : v.text? ≠ none) : ∃ s, v = .text s := by
  cases v <;> simp_all [Value.text?]

namespace Coverage

/-- Nothing can be put into the value: it is a list or an object with `*` among what it holds, or it
is neither text nor one of these. -/
def Unfit : Value → Prop
  | .text _ => False
  | .list items => .text "*" ∈ items
  | .object fields => ∃ v, ("*", v) ∈ fields
  | _ => True

/-- A target with the covered text put in by `apply`, if that is possible. -/
def filled (c : Coverage) : Value → Value
  | .text s => .text (c.apply s)
  | v => v

theorem text?_filled (c : Coverage) (v : Value) : (c.filled v).text? = v.text?.map c.apply := by
  cases v <;> rfl

theorem applyValue_star (middle : String) (v : Value) :
    Stops ((Coverage.star middle).applyValue v) ↔ Unfit v := by
  cases v with
  | text s => simp [applyValue, Unfit]
  | list items =>
      have hstar : (∃ v ∈ items, v.text? = some "*") ↔ Value.text "*" ∈ items := by
        constructor
        · rintro ⟨v, hv, htext⟩
          obtain ⟨s, rfl⟩ := Value.exists_text (v := v) (by simp [htext])
          cases htext
          exact hv
        · exact fun h => ⟨_, h, rfl⟩
      simp only [applyValue, Unfit, ← hstar]
      split <;> simp_all
  | object fields =>
      simp only [applyValue, Unfit]
      split <;> simp_all
  | null => simp [applyValue, Unfit]
  | bool b => simp [applyValue, Unfit]
  | int n => simp [applyValue, Unfit]
  | float x => simp [applyValue, Unfit]

theorem applyValue_ok {c : Coverage} {v w : Value} (h : c.applyValue v = .ok w) : w = c.filled v := by
  cases c with
  | exact => cases v <;> (cases h; rfl)
  | star middle =>
      cases v with
      | text s =>
          cases h
          rfl
      | list items =>
          simp only [applyValue] at h
          split at h <;> cases h
          rfl
      | object fields =>
          simp only [applyValue] at h
          split at h <;> cases h
          rfl
      | _ => cases h

/-- `applyValue` stops exactly if a text is put in for a star where the value is `Unfit`. -/
theorem applyValue_stops_iff (c : Coverage) (v : Value) :
    Stops (c.applyValue v) ↔ c ≠ .exact ∧ Unfit v := by
  cases c with
  | exact =>
      have hok : Coverage.exact.applyValue v = .ok v := by cases v <;> rfl
      simp [hok]
  | star middle => simp [applyValue_star]

end Coverage

/-- The targets of the `patterns` that cover `specifier`, in the order in which they are
declared. -/
def coveredTargets (specifier : String) (patterns : Table (List Value)) : List (Coverage × Value) :=
  patterns.entries.flatMap fun (pattern, targets) =>
    match Coverage.of? pattern specifier with
    | none => []
    | some c => targets.map (c, ·)

theorem mapM_flatMap {α β γ : Type} (g : α → List β) (h : β → Except Fault γ) (l : List α) :
    (l.flatMap g).mapM h = (l.mapM fun a => (g a).mapM h) >>= fun xs => pure xs.flatten := by
  induction l with
  | nil => rfl
  | cons a l ih =>
      rw [List.flatMap_cons, List.mapM_append, List.mapM_cons, ih]
      cases (g a).mapM h with
      | error fault => rfl
      | ok x => cases l.mapM fun a => (g a).mapM h <;> rfl

theorem expandValues_eq (specifier : String) (patterns : Table (List Value)) :
    expandValues specifier patterns =
      (coveredTargets specifier patterns).mapM fun x => x.1.applyValue x.2 := by
  unfold expandValues coveredTargets
  rw [mapM_flatMap]
  congr 2
  funext ⟨pattern, targets⟩
  dsimp only
  cases Coverage.of? pattern specifier with
  | none => rfl
  | some c => simp [List.mapM_map, Function.comp_def]

theorem expandValues_stops_iff (specifier : String) (patterns : Table (List Value)) :
    Stops (expandValues specifier patterns) ↔
      ∃ x ∈ coveredTargets specifier patterns, x.1 ≠ .exact ∧ Coverage.Unfit x.2 := by
  simp only [expandValues_eq, stops_mapM, Coverage.applyValue_stops_iff]

theorem expandValues_ok {specifier : String} {patterns : Table (List Value)} {values : List Value}
    (h : expandValues specifier patterns = .ok values) :
    values = (coveredTargets specifier patterns).map fun x => x.1.filled x.2 := by
  rw [expandValues_eq] at h
  generalize coveredTargets specifier patterns = targets at h ⊢
  induction targets generalizing values with
  | nil =>
      cases h
      rfl
  | cons x targets ih =>
      rw [List.mapM_cons] at h
      obtain ⟨v, hv, h⟩ := exists_ok_of_bind h
      obtain ⟨vs, hvs, h⟩ := exists_ok_of_bind h
      cases h
      rw [List.map_cons, ih hvs, Coverage.applyValue_ok hv]

/-! ## One configuration: `Misleads` -/

namespace ProjectConfig

variable {c : ProjectConfig} {index : FileIndex} {root specifier : String} {directory : Value}

/-- The values to which the patterns of the configuration `c` lead, as they are declared. -/
def targets (c : ProjectConfig) (specifier : String) : List (Coverage × Value) :=
  coveredTargets specifier (c.patterns?.getD .empty)

/-- The row of `targets` is passed: all of it is text and no file is found. -/
def Missed (index : FileIndex) (root directory : String) (targets : List (Coverage × Value)) : Prop :=
  ∀ x ∈ targets, ∃ t, x.2 = .text t ∧
    lookupAbsolute index root (Path.join directory (x.1.apply t)) = none

/-- How the configuration `c` misleads a specifier: its base directory is no text; the directory of
a target is no text; a covered text has to be put into what is `Unfit` for it; or a target is
reached that is no text. -/
inductive Misleads (c : ProjectConfig) (index : FileIndex) (root specifier : String) : Prop where
  | base {v : Value} (hbase : c.base? = some v) (hv : v.text? = none)
  | directory (hany : c.targets specifier ≠ []) (hdirectory : c.targetDirectory.text? = none)
  | unfit {x : Coverage × Value} (hx : x ∈ c.targets specifier) (hstar : x.1 ≠ .exact)
      (hunfit : Coverage.Unfit x.2)
  | target {front back : List (Coverage × Value)} {x : Coverage × Value} {dir : String}
      (htargets : c.targets specifier = front ++ x :: back) (hx : x.2.text? = none)
      (hdirectory : c.targetDirectory = .text dir) (hmissed : Missed index root dir front)

theorem firstTarget_nil : firstTarget index root directory [] = .ok none := rfl

theorem firstTarget_text (dir t : String) (values : List Value) :
    firstTarget index root (.text dir) (.text t :: values) =
      match lookupAbsolute index root (Path.join dir t) with
      | some file => .ok (some file)
      | none => firstTarget index root (.text dir) values := Eq.refl _

theorem firstTarget_cons (dir : String) (v : Value) (values : List Value) :
    firstTarget index root (.text dir) (v :: values) =
      v.text?.elim (.error .targetNotText) fun t =>
        (lookupAbsolute index root (Path.join dir t)).elim
          (firstTarget index root (.text dir) values) fun file => .ok (some file) := by
  cases v with
  | text t =>
      rw [firstTarget_text, Value.text?, Option.elim_some]
      cases lookupAbsolute index root (Path.join dir t) <;> rfl
  | _ => rfl

theorem firstTarget_stops_iff {dir : String} {targets : List (Coverage × Value)} :
    Stops (firstTarget index root (.text dir) (targets.map fun x => x.1.filled x.2)) ↔
      ∃ front x back, targets = front ++ x :: back ∧ x.2.text? = none ∧ Missed index root dir front := by
  induction targets with
  | nil => simp [firstTarget_nil]
  | cons y targets ih =>
      obtain ⟨cov, v⟩ := y
      rw [List.map_cons, firstTarget_cons, Coverage.text?_filled]
      cases hv : v.text? with
      | none =>
          exact iff_of_true (by simp) ⟨[], (cov, v), targets, rfl, hv, by simp [Missed]⟩
      | some t =>
          obtain ⟨t', rfl⟩ := Value.exists_text (v := v) (by simp [hv])
          cases hv
          simp only [Option.map_some, Option.elim_some]
          cases hlookup : lookupAbsolute index root (Path.join dir (cov.apply t)) with
          | some file =>
              -- a file has been found, so what follows is not reached
              refine iff_of_false (by simp) ?_
              rintro ⟨front, x, back, hsplit, hx, hmissed⟩
              cases front with
              | nil =>
                  cases hsplit
                  cases hx
              | cons z front =>
                  cases hsplit
                  obtain ⟨t', ht', hmiss⟩ := hmissed _ List.mem_cons_self
                  cases ht'
                  rw [hlookup] at hmiss
                  cases hmiss
          | none =>
              rw [Option.elim_none, ih]
              constructor
              · rintro ⟨front, x, back, rfl, hx, hmissed⟩
                refine ⟨(cov, .text t) :: front, x, back, rfl, hx, ?_⟩
                exact List.forall_mem_cons.mpr ⟨⟨t, rfl, hlookup⟩, hmissed⟩
              · rintro ⟨front, x, back, hsplit, hx, hmissed⟩
                cases front with
                | nil =>
                    cases hsplit
                    cases hx
                | cons z front =>
                    cases hsplit
                    exact ⟨front, x, back, rfl, hx, fun y hy => hmissed y (List.mem_cons_of_mem _ hy)⟩

theorem firstTarget_stops_of_directory (hdirectory : directory.text? = none) {values : List Value}
    (hne : values ≠ []) : Stops (firstTarget index root directory values) := by
  obtain ⟨v, values, rfl⟩ := List.exists_cons_of_ne_nil hne
  cases directory with
  | text dir => cases hdirectory
  | _ => exact ⟨_, rfl⟩

theorem mem_of_firstHolding {values : List (Option Value)} {v : Value}
    (h : firstHolding values = some v) : some v ∈ values ∧ v.holds = true := by
  obtain ⟨v?, hmem, h⟩ := List.exists_of_findSome?_eq_some h
  obtain ⟨w, rfl, hw⟩ := Option.bind_eq_some_iff.mp h
  split at hw <;> cases hw
  exact ⟨hmem, by assumption⟩

theorem targetDirectory_of_base {v : Value} (h : c.base? = some v) : c.targetDirectory = v := by
  simp [targetDirectory, firstHolding, h, (mem_of_firstHolding h).2]

/-- What has not been found by a pattern is looked for below `base?`. -/
def belowBase (c : ProjectConfig) (index : FileIndex) (root specifier : String) :
    Option String → Except Fault (Option String)
  | some file => .ok (some file)
  | none => c.base?.elim (.ok none) fun base =>
    base.text?.elim (.error .baseNotText) fun dir =>
      .ok (lookupAbsolute index root (Path.join dir specifier))

theorem belowBase_stops_iff {found : Option String} :
    Stops (c.belowBase index root specifier found) ↔
      found = none ∧ ∃ v, c.base? = some v ∧ v.text? = none := by
  cases found with
  | some file => simp [belowBase]
  | none =>
      cases hbase : c.base? with
      | none => simp [belowBase, hbase]
      | some v => cases hv : v.text? <;> simp [belowBase, hbase, hv]

theorem belowBase_eq (found : Option String) : (match found, c.base? with
      | some file, _ => pure (some file)
      | none, none => pure none
      | none, some (.text base) => pure (lookupAbsolute index root (Path.join base specifier))
      | none, some _ => .error .baseNotText : Except Fault (Option String)) =
    c.belowBase index root specifier found := by
  cases found with
  | some file => rfl
  | none =>
      cases hbase : c.base? with
      | none => simp [belowBase, hbase, pure, Except.pure]
      | some v => cases v <;> simp [belowBase, hbase, Value.text?, pure, Except.pure]

theorem resolve_eq (c : ProjectConfig) (index : FileIndex) (root specifier : String) :
    c.resolve index root specifier =
      expandValues specifier (c.patterns?.getD .empty) >>= fun values =>
        firstTarget index root c.targetDirectory values >>= c.belowBase index root specifier := by
  unfold resolve
  cases c.patterns? with
  | none => exact belowBase_eq none
  | some patterns =>
      dsimp only [Option.getD_some]
      cases expandValues specifier patterns with
      | error fault => rfl
      | ok values =>
          simp only [ok_bind]
          cases firstTarget index root c.targetDirectory values with
          | error fault => rfl
          | ok found => exact belowBase_eq found

/-- **A configuration stops the run exactly if it `Misleads`.** -/
theorem resolve_stops_iff (c : ProjectConfig) (index : FileIndex) (root specifier : String) :
    Stops (c.resolve index root specifier) ↔ c.Misleads index root specifier := by
  simp only [resolve_eq, stops_bind, belowBase_stops_iff]
  constructor
  · rintro (h | ⟨values, hvalues, h | ⟨found, -, -, v, hbase, hv⟩⟩)
    · obtain ⟨x, hx, hstar, hunfit⟩ := (expandValues_stops_iff _ _).mp h
      exact .unfit hx hstar hunfit
    · rw [expandValues_ok hvalues] at h
      cases hdirectory : c.targetDirectory.text? with
      | none =>
          refine .directory ?_ hdirectory
          intro hnone
          rw [targets] at hnone
          simp [hnone, firstTarget_nil] at h
      | some dir =>
          obtain ⟨dir, hdir⟩ := Value.exists_text (v := c.targetDirectory) (by simp [hdirectory])
          rw [hdir] at h
          obtain ⟨front, x, back, hsplit, hx, hmissed⟩ := firstTarget_stops_iff.mp h
          exact .target hsplit hx hdir hmissed
    · exact .base hbase hv
  · intro h
    rcases stops_or_ok (expandValues specifier (c.patterns?.getD .empty)) with hstop | ⟨values, hvalues⟩
    · exact .inl hstop
    refine .inr ⟨values, hvalues, ?_⟩
    have hfilled := expandValues_ok hvalues
    cases h with
    | base hbase hv =>
        cases values with
        | nil => exact .inr ⟨none, rfl, rfl, _, hbase, hv⟩
        | cons v values =>
            have hdirectory : c.targetDirectory.text? = none := by rw [targetDirectory_of_base hbase, hv]
            exact .inl (firstTarget_stops_of_directory hdirectory (List.cons_ne_nil v values))
    | directory hany hdirectory =>
        refine .inl (firstTarget_stops_of_directory hdirectory ?_)
        rw [hfilled]
        simpa [targets] using hany
    | unfit hx hstar hunfit =>
        have hstop := (expandValues_stops_iff _ _).mpr ⟨_, hx, hstar, hunfit⟩
        rw [hvalues] at hstop
        exact absurd hstop (not_stops_ok _)
    | target htargets hx hdirectory hmissed =>
        rw [hfilled, hdirectory]
        exact .inl (firstTarget_stops_iff.mpr ⟨_, _, _, htargets, hx, hmissed⟩)

/-! ## Configurations that do not mislead: `Sound` -/

variable {d : Disk} {path key : String} {fields own : Table Value} {v : Value} {seen : List String}

/-- The configuration file at `path` sets the option `key` to `v`. -/
def Sets (d : Disk) (path key : String) (v : Value) : Prop :=
  ∃ fields options, readConfig? d path = some fields ∧
    (fields.get? "compilerOptions").bind Value.fields? = some options ∧ (key, v) ∈ options.entries

/-- The names of the options under which directories are kept. -/
def directoryKeys : List String := ["_baseUrlAbs", "_pathsDir"]

/-- Nothing that the configuration file at `path` says can mislead: its paths can be used, what it
says about directories is text if it is anything, and so are the targets of its patterns. -/
structure Sound (d : Disk) (path : String) : Prop where
  usable : ¬ Unusable d path
  directories : ∀ key ∈ directoryKeys, ∀ v, Sets d path key v → v.holds = true → v.text? ≠ none
  targets : ∀ paths, Sets d path "paths" (.object paths) →
    ∀ pattern items, (pattern, .list items) ∈ paths → ∀ v ∈ items, v.text? ≠ none

end ProjectConfig

/-! ## The ladder: `Misled` -/

namespace Resolver

open ProjectConfig

variable {d : Disk} {root file specifier : String} {index : FileIndex}

/-- `specifier` is looked for in the nearest configuration: it is neither relative nor a package. -/
def AsksConfig (specifier : String) : Prop :=
  specifier ≠ "" ∧ isPackage specifier = false ∧ startsWith specifier "." = false

/-- The search for the configuration nearest to a file misleads a specifier: it fails itself, the
configuration found or one that it extends is `Unusable`, or what has been read from them `Misleads`. -/
inductive Misled (d : Disk) (root : String) (index : FileIndex) (file specifier : String) : Prop where
  | search (hfails : SearchFails d root (Path.directory file))
  | chain {path p : String} (hpath : nearestPath d root file = .ok (some path))
      (hchain : ReflTransGen (Extends d) (Path.placed path) p) (hunusable : Unusable d p)
  | config {path : String} {c : ProjectConfig} (hpath : nearestPath d root file = .ok (some path))
      (hload : load d path = .ok (some c)) (hmisleads : c.Misleads index root specifier)

theorem isWritable_of_nearestPath {path : String} (h : nearestPath d root file = .ok (some path)) :
    Path.isWritable path = true :=
  (Bool.and_eq_true_iff.mp (hasFile_of_nearestPathIn h)).1

theorem nearest_stops_iff : Stops (nearest d root file) ↔ SearchFails d root (Path.directory file) ∨
    ∃ path p, nearestPath d root file = .ok (some path) ∧
      ReflTransGen (Extends d) (Path.placed path) p ∧ Unusable d p := by
  unfold nearest
  rw [stops_bind, ← nearestPathIn_stops_iff]
  refine or_congr_right ⟨?_, ?_⟩
  · rintro ⟨found, hfound, hstop⟩
    cases found with
    | none => exact absurd hstop (not_stops_pure _)
    | some path =>
        obtain ⟨p, hp⟩ := ((load_stops_iff d path).mp hstop).resolve_left
          (by simp [isWritable_of_nearestPath hfound])
        exact ⟨path, p, hfound, hp⟩
  · rintro ⟨path, p, hpath, hp⟩
    exact ⟨some path, hpath, (load_stops_iff d path).mpr (.inr ⟨p, hp⟩)⟩

theorem nearest_eq_some_iff {c : ProjectConfig} : nearest d root file = .ok (some c) ↔
    ∃ path, nearestPath d root file = .ok (some path) ∧ load d path = .ok (some c) := by
  unfold nearest
  constructor
  · intro h
    obtain ⟨found, hfound, h⟩ := exists_ok_of_bind h
    cases found with
    | none => cases h
    | some path => exact ⟨path, hfound, h⟩
  · rintro ⟨path, hpath, hload⟩
    rw [hpath, ok_bind]
    exact hload

theorem resolveByNearest_stops_iff (hasks : AsksConfig specifier) :
    Stops (resolveByNearest (nearest d root) root index file specifier) ↔
      Misled d root index file specifier := by
  obtain ⟨hne, hpackage, hrelative⟩ := hasks
  unfold resolveByNearest
  rw [if_neg (by simp [hne, hpackage]), if_neg (by simp [hrelative]), stops_bind, nearest_stops_iff]
  constructor
  · rintro ((hfails | ⟨path, p, hpath, hchain, hp⟩) | ⟨config, hconfig, h⟩)
    · exact .search hfails
    · exact .chain hpath hchain hp
    · cases config with
      | none => exact absurd h (not_stops_pure _)
      | some c =>
          obtain ⟨path, hpath, hload⟩ := nearest_eq_some_iff.mp hconfig
          exact .config hpath hload ((c.resolve_stops_iff index root specifier).mp h)
  · intro h
    cases h with
    | search hfails => exact .inl (.inl hfails)
    | chain hpath hchain hp => exact .inl (.inr ⟨_, _, hpath, hchain, hp⟩)
    | config hpath hload hmisleads =>
        have hstop := (ProjectConfig.resolve_stops_iff _ index root specifier).mpr hmisleads
        exact .inr ⟨some _, nearest_eq_some_iff.mpr ⟨_, hpath, hload⟩, hstop⟩

theorem resolve_stops_iff {aliases : AliasConfig} :
    Stops (resolve ⟨index, aliases, some (d, root)⟩ file specifier) ↔
      AsksConfig specifier ∧ Misled d root index file specifier := by
  unfold resolve resolveVia
  by_cases hempty : specifier = ""
  · simp [hempty, AsksConfig]
  rw [if_neg hempty]
  simp only [stops_bind, not_stops_pure, and_false, exists_false, or_false]
  by_cases hasks : AsksConfig specifier
  · simp [hasks, resolveByNearest_stops_iff hasks]
  · refine iff_of_false ?_ fun h => hasks h.1
    unfold resolveByNearest
    split
    · exact not_stops_pure _
    · split
      · exact not_stops_pure _
      · simp_all [AsksConfig]

/-! ## Building a resolver: `Unbuildable` -/

end Resolver

end PageReach
