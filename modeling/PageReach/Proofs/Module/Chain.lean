import Mathlib.Data.List.Chain
import Mathlib.Data.List.Perm.Subperm
import Mathlib.Logic.Relation
import PageReach.Module.Config
import PageReach.Proofs.Fault
import PageReach.Proofs.Files.Looking
import PageReach.Proofs.Module.Resolver
import PageReach.Proofs.Table

/-!
# Chains of configurations

A configuration may extend another one, which may extend a third. `load` follows this chain until it
ends or comes back to where it has been:

* **Links** (`Extends`, `extends_iff_of_ok`): whom a configuration extends is said from the text of
  `extends`, the directory of the file and the disk alone, and `extended?` gives just that.
* **Ways to stop** (`Unusable`, `extended?_stops_iff`, `ownOptions_stops_iff`): a path that cannot be
  written, leads to the root of the disk, or is too long to be looked at.
* **Whole chains** (`load_stops_iff`): `load` stops exactly if one of the configurations along the chain
  is `Unusable`, wherever it stands. Fuel never runs out before (`length_le_size`).
-/

namespace PageReach

open Text

theorem Value.text?_eq_some_iff {v? : Option Value} {s : String} :
    v?.bind Value.text? = some s ↔ v? = some (.text s) := by
  rcases v? with _ | v
  · simp
  · cases v <;> simp [Value.text?]

theorem Value.fields?_eq_some_iff {v? : Option Value} {fields : Table Value} :
    v?.bind Value.fields? = some fields ↔ v? = some (.object fields.entries) := by
  obtain ⟨entries⟩ := fields
  rcases v? with _ | v
  · simp
  · cases v <;> simp [Value.fields?]

theorem Path.startsWith_dot_iff {target : String} :
    startsWith target "." = true ↔ target.toList.head? = some '.' := by
  rw [startsWith, show ".".toList = ['.'] from rfl]
  cases target.toList with
  | nil => simp
  | cons c cs =>
      rw [List.head?_cons, Option.some.injEq]
      simp [List.isPrefixOf, eq_comm (a := c)]

theorem Path.not_startsWith_slash {target : String} (h : target.toList.head? = some '.') :
    startsWith target "/" = false := by
  rw [startsWith, show "/".toList = ['/'] from rfl]
  cases hcs : target.toList with
  | nil => rfl
  | cons c cs =>
      rw [hcs] at h
      cases h
      rfl

namespace ProjectConfig

open Relation

variable {d : Disk} {path target parent name : String} {fields : Table Value} {seen : List String}
  {place : List String}

/-! ## The ending `.json` -/

/-- Whether `name` has the ending `.json`, with something before it. -/
def hasEnding (name : String) : Bool := endsWith name ".json" && name ≠ ".json"

theorem hasEnding_iff :
    hasEnding name = true ↔ ∃ front, front ≠ "" ∧ name = front ++ ".json" := by
  rw [hasEnding, Bool.and_eq_true, endsWith_iff, decide_eq_true_iff]
  constructor
  · rintro ⟨⟨front, rfl⟩, hne⟩
    refine ⟨front, ?_, rfl⟩
    rintro rfl
    exact hne String.empty_append
  · rintro ⟨front, hne, rfl⟩
    refine ⟨⟨front, rfl⟩, fun heq => hne ?_⟩
    rw [← String.toList_inj] at heq ⊢
    simpa using heq

/-- An extension begins at the last point, and something stands before it. -/
theorem exists_front_of_extensionOf (h : Path.extensionOf name ≠ "") :
    ∃ front, front ≠ "" ∧ name = front ++ Path.extensionOf name := by
  unfold Path.extensionOf at h ⊢
  dsimp only at h ⊢
  split at h
  · rename_i hlong
    rw [if_pos hlong]
    rw [Bool.and_eq_true, decide_eq_true_iff] at hlong
    -- the name turned round: the extension, its point, and what stands before it
    have hsplit := List.takeWhile_append_dropWhile (p := (· ≠ '.')) (l := name.toList.reverse)
    have hlength := congrArg List.length hsplit
    rw [List.length_append, List.length_reverse, String.length_toList] at hlength
    cases hrest : name.toList.reverse.dropWhile (· ≠ '.') with
    | nil =>
        rw [hrest, List.length_nil] at hlength
        omega
    | cons point rest =>
        have hpoint : point = '.' := by
          have hhead := List.head?_dropWhile_not (· ≠ '.') name.toList.reverse
          rw [hrest] at hhead
          simpa using hhead
        refine ⟨String.ofList rest.reverse, fun hempty => ?_, ?_⟩
        · have hnil : rest = [] := by simpa using congrArg String.toList hempty
          rw [hrest, hnil, List.length_singleton] at hlength
          omega
        · rw [hrest, hpoint] at hsplit
          rw [← String.toList_inj, ← List.reverse_reverse name.toList]
          nth_rewrite 1 [← hsplit]
          simp
  · exact absurd rfl h

theorem extensionOf_append_json {front : String} (hne : front ≠ "") :
    Path.extensionOf (front ++ ".json") = ".json" := by
  have hback : (front ++ ".json").toList.reverse.takeWhile (· ≠ '.') = "nosj".toList := by
    simp [List.takeWhile]
  have hlength : 0 < front.length := by
    rw [Nat.pos_iff_ne_zero, ne_eq, String.length_eq_zero_iff]
    exact hne
  have hending : "nosj".toList.length = 4 ∧ ".json".length = 5 := ⟨rfl, rfl⟩
  unfold Path.extensionOf
  dsimp only
  rw [hback, if_pos]
  · rfl
  · rw [Bool.and_eq_true, decide_eq_true_iff, String.length_append]
    exact ⟨by omega, rfl⟩

/-- `extensionOf` gives `.json` for the names with this ending. -/
theorem extensionOf_eq_json_iff : Path.extensionOf name = ".json" ↔ hasEnding name = true := by
  rw [hasEnding_iff]
  constructor
  · intro h
    have hsome : Path.extensionOf name ≠ "" := by
      rw [h]
      decide
    obtain ⟨front, hne, hname⟩ := exists_front_of_extensionOf hsome
    rw [h] at hname
    exact ⟨front, hne, hname⟩
  · rintro ⟨front, hne, rfl⟩
    exact extensionOf_append_json hne

theorem extension_ofPlace (h : ∀ s ∈ place ++ [name], Path.IsName s) :
    Path.extension (Path.ofPlace (place ++ [name])) = Path.extensionOf name := by
  have hsteps : Disk.steps (Path.ofPlace (place ++ [name])) = place ++ [name] := Disk.steps_place h
  have hlast : Path.lastSegment (Path.ofPlace (place ++ [name])) = name := by
    rw [Path.lastSegment, ← Disk.steps, hsteps, List.getLast?_concat]
    rfl
  rw [Path.extension, hlast]

theorem ofPlace_append_json (place : List String) (name : String) :
    Path.ofPlace (place ++ [name]) ++ ".json" = Path.ofPlace (place ++ [name ++ ".json"]) := by
  rw [Path.ofPlace, Path.ofPlace, String.append_assoc]
  congr 1
  by_cases hplace : place = []
  · simp [hplace, Path.ofSegments]
  · simp [Path.ofSegments, String.intercalate_append_of_ne_nil hplace, String.append_assoc]

/-! ## Links of a chain: `Extends` -/

/-- The files that `extends` may mean if it names `name` at `place`, the preferred one first. The ending
`.json` may be left out. -/
def sought (place : List String) (name : String) : List String :=
  if hasEnding name then [Path.ofPlace (place ++ [name])]
  else [Path.ofPlace (place ++ [name ++ ".json"]), Path.ofPlace (place ++ [name])]

/-- The configuration file at `path` extends the one at `parent`: it has a relative `extends`, which is
followed segment by segment from the directory of the file, and of the files that are `sought` where
this leads, `parent` is the first that exists. -/
def Extends (d : Disk) (path parent : String) : Prop :=
  ∃ fields target place name, readConfig? d path = some fields ∧
    fields.get? "extends" = some (.text target) ∧ target.toList.head? = some '.' ∧
    Path.walkFrom (Path.placeOf (Path.directory path)) (split '/' target) = place ++ [name] ∧
    (sought place name).find? d.hasEntry = some parent

/-- A relative `extends` in a file of `directory` cannot be followed: a character in it cannot be written,
it leads to the root of the disk, or a file that is `sought` is too long to be looked at. -/
inductive Lost (d : Disk) (directory target : String) : Prop where
  | unwritable (hpath : Path.isWritable (Path.join directory target) = false)
  | root (hplace : Path.walkFrom (Path.placeOf directory) (split '/' target) = [])
  | tooLong {place : List String} {name : String}
      (hplace : Path.walkFrom (Path.placeOf directory) (split '/' target) = place ++ [name])
      (hlong : Meets d.Refuses d.hasEntry (sought place name))

/-- The configuration file at `path` says something about a path that cannot be used: it has an `extends`
that is `Lost`, or its base directory cannot be written. -/
inductive Unusable (d : Disk) (path : String) : Prop where
  | parent {fields : Table Value} {target : String} (hread : readConfig? d path = some fields)
      (htarget : fields.get? "extends" = some (.text target))
      (hrelative : target.toList.head? = some '.') (hlost : Lost d (Path.directory path) target)
  | base {fields options : Table Value} {url : String} (hread : readConfig? d path = some fields)
      (hoptions : (fields.get? "compilerOptions").bind Value.fields? = some options)
      (hurl : options.get? "baseUrl" = some (.text url))
      (hpath : Path.isWritable (Path.join (Path.directory path) url) = false)

theorem Extends.exists_fields (h : Extends d path parent) :
    ∃ fields, readConfig? d path = some fields := by
  obtain ⟨fields, _, _, _, hread, -⟩ := h
  exact ⟨fields, hread⟩

theorem Unusable.exists_fields (h : Unusable d path) : ∃ fields, readConfig? d path = some fields := by
  cases h with
  | parent hread => exact ⟨_, hread⟩
  | base hread => exact ⟨_, hread⟩

theorem isName_of_walkFrom (directory target : String) :
    ∀ s ∈ Path.walkFrom (Path.placeOf directory) (split '/' target), Path.IsName s :=
  Path.isName_walkFrom Path.isName_of_mem_placeOf fun _ => not_mem_of_mem_split

theorem placed_join (hrelative : target.toList.head? = some '.') (directory : String) :
    Path.placed (Path.join directory target) =
      Path.ofPlace (Path.walkFrom (Path.placeOf directory) (split '/' target)) := by
  rw [Path.placed_eq, Path.placeOf_join (Path.not_startsWith_slash hrelative)]

theorem extended?_of_placed {place : String} (hrelative : target.toList.head? = some '.')
    (hwritable : Path.isWritable (Path.join (Path.directory path) target) = true)
    (hplace : Path.placed (Path.join (Path.directory path) target) = place) :
    extended? d path target =
      if Path.extension place = ".json" then [place].findM? d.leads
      else if place = "/" then .error .unusablePath
      else [place ++ ".json", place].findM? d.leads := by
  rw [extended?, if_neg (by rw [Path.startsWith_dot_iff.mpr hrelative]; decide),
    Path.absolute_of_isWritable hwritable, hplace, ok_bind]

theorem extended?_of_root (hrelative : target.toList.head? = some '.')
    (hwritable : Path.isWritable (Path.join (Path.directory path) target) = true)
    (hroot : Path.walkFrom (Path.placeOf (Path.directory path)) (split '/' target) = []) :
    extended? d path target = .error .unusablePath := by
  rw [extended?_of_placed hrelative hwritable (placed_join hrelative _), hroot]
  rfl

/-- Below the root, `extended?` looks for the files that are `sought`. -/
theorem extended?_of_place (hrelative : target.toList.head? = some '.')
    (hwritable : Path.isWritable (Path.join (Path.directory path) target) = true)
    (hplace : Path.walkFrom (Path.placeOf (Path.directory path)) (split '/' target) = place ++ [name]) :
    extended? d path target = (sought place name).findM? d.leads := by
  have hnames := isName_of_walkFrom (Path.directory path) target
  rw [hplace] at hnames
  have hroot : Path.ofPlace (place ++ [name]) ≠ "/" := by
    intro h
    have hempty : Path.ofSegments (place ++ [name]) = "" := by
      rw [← String.toList_inj]
      simpa [Path.ofPlace] using congrArg String.toList h
    rw [Path.ofSegments_eq_empty fun s hs => (hnames s hs).ne_empty] at hempty
    simp at hempty
  rw [extended?_of_placed hrelative hwritable (placed_join hrelative _), hplace,
    extension_ofPlace hnames, sought, ofPlace_append_json, if_neg hroot,
    apply_ite (List.findM? d.leads)]
  exact ite_cond_congr (propext extensionOf_eq_json_iff)

theorem extended?_stops_iff (d : Disk) (path target : String) :
    Stops (extended? d path target) ↔
      target.toList.head? = some '.' ∧ Lost d (Path.directory path) target := by
  by_cases hrelative : target.toList.head? = some '.'
  · rw [and_iff_right hrelative]
    cases hwritable : Path.isWritable (Path.join (Path.directory path) target) with
    | false =>
        refine iff_of_true ?_ (.unwritable hwritable)
        rw [extended?, Path.startsWith_dot_iff.mpr hrelative]
        exact stops_bind.mpr (.inl ((Path.absolute_stops_iff _).mpr hwritable))
    | true =>
        rcases List.eq_nil_or_concat'
          (Path.walkFrom (Path.placeOf (Path.directory path)) (split '/' target)) with
          hroot | ⟨place, name, hplace⟩
        · rw [extended?_of_root hrelative hwritable hroot]
          exact iff_of_true (stops_error _) (.root hroot)
        · rw [extended?_of_place hrelative hwritable hplace,
            stops_findM? Disk.leads_stops_iff Disk.leads_ok]
          refine ⟨.tooLong hplace, fun h => ?_⟩
          cases h with
          | unwritable hpath =>
              rw [hwritable] at hpath
              cases hpath
          | root hroot =>
              rw [hplace] at hroot
              simp at hroot
          | tooLong hplace' hlong =>
              obtain ⟨rfl, hname⟩ := List.append_inj' (hplace.symm.trans hplace') rfl
              cases hname
              exact hlong
  · have hpackage : startsWith target "." = false := by
      rw [← Bool.not_eq_true, Path.startsWith_dot_iff]
      exact hrelative
    rw [extended?, hpackage]
    exact iff_of_false (not_stops_ok _) fun h => hrelative h.1

/-- **`extended?` gives the configuration that is extended** in the sense of `Extends`. -/
theorem extends_iff_of_ok {parent? : Option String} (hread : readConfig? d path = some fields)
    (htarget : fields.get? "extends" = some (.text target))
    (h : extended? d path target = .ok parent?) : Extends d path parent ↔ parent? = some parent := by
  have hreturns : ¬ Stops (extended? d path target) := by simp [h]
  have hextends : Extends d path parent ↔ target.toList.head? = some '.' ∧ ∃ place name,
      Path.walkFrom (Path.placeOf (Path.directory path)) (split '/' target) = place ++ [name] ∧
        (sought place name).find? d.hasEntry = some parent := by
    constructor
    · rintro ⟨fields', target', place, name, hread', htarget', hrelative, hplace, hfind⟩
      cases hread.symm.trans hread'
      cases htarget.symm.trans htarget'
      exact ⟨hrelative, place, name, hplace, hfind⟩
    · rintro ⟨hrelative, place, name, hplace, hfind⟩
      exact ⟨fields, target, place, name, hread, htarget, hrelative, hplace, hfind⟩
  rw [hextends]
  by_cases hrelative : target.toList.head? = some '.'
  · rw [extended?_stops_iff, and_iff_right hrelative] at hreturns
    have hwritable : Path.isWritable (Path.join (Path.directory path) target) = true := by
      rw [← Bool.not_eq_false]
      exact fun hpath => hreturns (.unwritable hpath)
    obtain ⟨place, name, hplace⟩ := List.eq_nil_or_concat' _ |>.resolve_left
      fun hroot => hreturns (.root hroot)
    rw [extended?_of_place hrelative hwritable hplace] at h
    rw [eq_find?_of_findM? Disk.leads_ok h, hplace]
    constructor
    · rintro ⟨-, place', name', hplace', hfind⟩
      obtain ⟨rfl, hname⟩ := List.append_inj' hplace' rfl
      cases hname
      exact hfind
    · exact fun hfind => ⟨hrelative, place, name, rfl, hfind⟩
  · have hpackage : startsWith target "." = false := by
      rw [← Bool.not_eq_true, Path.startsWith_dot_iff]
      exact hrelative
    rw [extended?, hpackage] at h
    cases h
    simp [hrelative]

theorem not_extends_of_none (hread : readConfig? d path = some fields)
    (hnone : (fields.get? "extends").bind Value.text? = none) : ¬ Extends d path parent := by
  rintro ⟨fields', target, place, name, hread', htarget, -⟩
  cases hread.symm.trans hread'
  simp [htarget, Value.text?] at hnone

theorem ownOptions_stops_iff (path : String) (fields : Table Value) :
    Stops (ownOptions path fields) ↔ ∃ options url,
      (fields.get? "compilerOptions").bind Value.fields? = some options ∧
      options.get? "baseUrl" = some (.text url) ∧
      Path.isWritable (Path.join (Path.directory path) url) = false := by
  unfold ownOptions
  cases (fields.get? "compilerOptions").bind Value.fields? with
  | none => simp
  | some options =>
      simp only [← Value.text?_eq_some_iff, Option.some.injEq, exists_and_left, exists_eq_left']
      cases hurl : (options.get? "baseUrl").bind Value.text? with
      | none => simp
      | some url =>
          dsimp only
          rw [stops_bind_of_iff (P := False) (by simp), or_false, Path.absolute_stops_iff]
          simp

/-! ## Reading along a chain: `loadFrom` -/

/-- What is read from the configuration that one with the given `fields` extends. -/
def loadParent (d : Disk) (fuel : Nat) (seen : List String) (path : String) (fields : Table Value) :
    Except Fault (Option ProjectConfig) :=
  match (fields.get? "extends").bind Value.text? with
  | none => .ok none
  | some target => extended? d path target >>= fun parent? =>
    match parent? with
    | none => .ok none
    | some parent => loadFrom d fuel (path :: seen) parent

theorem loadFrom_of_read (fuel : Nat) (hnew : path ∉ seen)
    (hread : readConfig? d path = some fields) :
    loadFrom d (fuel + 1) seen path = (do
      let parent ← loadParent d fuel seen path fields
      let own ← ownOptions path fields
      return some ⟨((parent.map options).getD .empty).update own, Path.directory path⟩) := by
  have hseen : seen.contains path = false := by simpa using hnew
  rw [loadFrom, hseen, if_neg (by simp), hread]
  unfold loadParent
  dsimp only
  cases (fields.get? "extends").bind Value.text? with
  | none => rfl
  | some target =>
      dsimp only
      cases extended? d path target with
      | error fault => rfl
      | ok parent? => cases parent? <;> rfl

theorem loadParent_stops_iff {fuel : Nat} (hread : readConfig? d path = some fields) :
    Stops (loadParent d fuel seen path fields) ↔
      (∃ target, fields.get? "extends" = some (.text target) ∧ Stops (extended? d path target)) ∨
      ∃ parent, Extends d path parent ∧ Stops (loadFrom d fuel (path :: seen) parent) := by
  unfold loadParent
  cases htext : (fields.get? "extends").bind Value.text? with
  | none =>
      refine iff_of_false (not_stops_ok _) ?_
      rintro (⟨target, htarget, -⟩ | ⟨parent, hextends, -⟩)
      · simp [htarget, Value.text?] at htext
      · exact not_extends_of_none hread htext hextends
  | some target =>
      have htarget := Value.text?_eq_some_iff.mp htext
      dsimp only
      rcases stops_or_ok (extended? d path target) with hstop | ⟨parent?, hparent⟩
      · exact iff_of_true (stops_bind.mpr (.inl hstop)) (.inl ⟨target, htarget, hstop⟩)
      · have hreturns : ¬ ∃ target, fields.get? "extends" = some (.text target) ∧
            Stops (extended? d path target) := by
          rintro ⟨target', htarget', hstop⟩
          cases htarget.symm.trans htarget'
          simp [hparent] at hstop
        rw [hparent, ok_bind]
        simp only [hreturns, false_or, extends_iff_of_ok hread htarget hparent]
        cases parent? <;> simp

/-- A configuration goes on with what is read from the one that it `Extends`. -/
theorem loadParent_ok {fuel : Nat} {config? : Option ProjectConfig}
    (hread : readConfig? d path = some fields)
    (h : loadParent d fuel seen path fields = .ok config?) :
    (config? = none ∧ ∀ parent, ¬ Extends d path parent) ∨
      ∃ parent, Extends d path parent ∧ loadFrom d fuel (path :: seen) parent = .ok config? := by
  unfold loadParent at h
  split at h
  · rename_i hnone
    cases h
    exact .inl ⟨rfl, fun parent => not_extends_of_none hread hnone⟩
  · rename_i target htext
    have htarget := Value.text?_eq_some_iff.mp htext
    obtain ⟨parent?, hparent, h⟩ := exists_ok_of_bind h
    cases parent? with
    | some parent => exact .inr ⟨parent, (extends_iff_of_ok hread htarget hparent).mpr rfl, h⟩
    | none =>
        cases h
        refine .inl ⟨rfl, fun parent hextends => ?_⟩
        cases (extends_iff_of_ok hread htarget hparent).mp hextends

/-- Of what is further up the chain, `loadParent` sees only what is read from the one that is
extended. -/
theorem loadParent_congr {fuel fuel' : Nat} (hread : readConfig? d path = some fields)
    (h : ∀ parent, Extends d path parent →
      loadFrom d fuel (path :: seen) parent = loadFrom d fuel' (path :: seen) parent) :
    loadParent d fuel seen path fields = loadParent d fuel' seen path fields := by
  unfold loadParent
  cases htext : (fields.get? "extends").bind Value.text? with
  | none => rfl
  | some target =>
      dsimp only
      cases hparent : extended? d path target with
      | error fault => rfl
      | ok parent? =>
          cases parent? with
          | none => rfl
          | some parent =>
              have htarget := Value.text?_eq_some_iff.mp htext
              exact h parent ((extends_iff_of_ok hread htarget hparent).mpr rfl)

/-- `loadFrom` stops at a configuration that is `Unusable`, or further up the chain. -/
theorem loadFrom_stops_iff (d : Disk) (fuel : Nat) (seen : List String) (path : String) :
    Stops (loadFrom d (fuel + 1) seen path) ↔ path ∉ seen ∧ (Unusable d path ∨
      ∃ parent, Extends d path parent ∧ Stops (loadFrom d fuel (path :: seen) parent)) := by
  by_cases hseen : path ∈ seen
  · simp [loadFrom, hseen]
  cases hread : readConfig? d path with
  | none =>
      have hstuck : ¬ ∃ fields, readConfig? d path = some fields := by simp [hread]
      have hunusable : ¬ Unusable d path := fun h => hstuck h.exists_fields
      have hextends (parent : String) : ¬ Extends d path parent := fun h => hstuck h.exists_fields
      simp [loadFrom, hseen, hread, hunusable, hextends]
  | some fields =>
      simp only [loadFrom_of_read fuel hseen hread, stops_bind, loadParent_stops_iff hread,
        extended?_stops_iff, ownOptions_stops_iff, not_stops_pure, and_false, exists_false, or_false,
        hseen, not_false_eq_true, true_and]
      constructor
      · rintro ((⟨target, htarget, hrelative, hlost⟩ | h) | ⟨_, -, options, url, hoptions, hurl, hpath⟩)
        · exact .inl (.parent hread htarget hrelative hlost)
        · exact .inr h
        · exact .inl (.base hread hoptions hurl hpath)
      · rintro (h | h)
        · cases h with
          | parent hread' htarget hrelative hlost =>
              cases hread.symm.trans hread'
              exact .inl (.inl ⟨_, htarget, hrelative, hlost⟩)
          | base hread' hoptions hurl hpath =>
              cases hread.symm.trans hread'
              -- what comes before the options may stop as well
              rcases stops_or_ok (loadParent d fuel seen path fields) with h | ⟨parent, hparent⟩
              · left
                simpa only [loadParent_stops_iff hread, extended?_stops_iff] using h
              · exact .inr ⟨parent, hparent, _, _, hoptions, hurl, hpath⟩
        · exact .inl (.inr h)

theorem exists_unusable_of_stops {fuel : Nat} (h : Stops (loadFrom d fuel seen path)) :
    ∃ p, ReflTransGen (Extends d) path p ∧ Unusable d p := by
  induction fuel generalizing seen path with
  | zero => exact absurd h (not_stops_ok _)
  | succ fuel ih =>
      obtain ⟨-, h | ⟨parent, hextends, h⟩⟩ := (loadFrom_stops_iff d fuel seen path).mp h
      · exact ⟨path, .refl, h⟩
      · obtain ⟨p, hchain, hp⟩ := ih h
        exact ⟨p, .head hextends hchain, hp⟩

/-- A chain that does not come back to where it has been stops at its end, if there is fuel. -/
theorem stops_of_chain {fuel : Nat} {chain : List String}
    (hchain : List.IsChain (Extends d) (path :: chain))
    (hend : Unusable d ((path :: chain).getLast (by simp))) (hnodup : (path :: chain).Nodup)
    (hseen : ∀ p ∈ path :: chain, p ∉ seen) (hfuel : chain.length < fuel) :
    Stops (loadFrom d fuel seen path) := by
  induction chain generalizing seen path fuel with
  | nil =>
      obtain ⟨fuel, rfl⟩ := Nat.exists_eq_add_of_lt hfuel
      exact (loadFrom_stops_iff d _ seen path).mpr ⟨hseen path (by simp), .inl hend⟩
  | cons parent chain ih =>
      obtain ⟨fuel, rfl⟩ : ∃ n, fuel = n + 1 := Nat.exists_eq_add_one.mpr (by omega)
      obtain ⟨hextends, hrest⟩ := List.isChain_cons_cons.mp hchain
      obtain ⟨hnew, hnodup⟩ := List.nodup_cons.mp hnodup
      refine (loadFrom_stops_iff d fuel seen path).mpr ⟨hseen path (by simp), .inr ⟨parent, hextends,
        ih hrest hend hnodup ?_ (by simpa using hfuel)⟩⟩
      intro p hp hmem
      rcases List.mem_cons.mp hmem with rfl | hmem
      · exact hnew hp
      · exact hseen p (List.mem_cons_of_mem _ hp) hmem

/-! ## Fuel: `length_le_size` -/

/-- What `r` can reach, it can reach without coming back to where it has been. -/
theorem exists_nodup_chain {α : Type} {r : α → α → Prop} {a b : α} (h : ReflTransGen r a b) :
    ∃ chain, List.IsChain r (a :: chain) ∧ (a :: chain).getLast (by simp) = b ∧
      (a :: chain).Nodup := by
  classical
  induction h using ReflTransGen.head_induction_on with
  | refl => exact ⟨[], .singleton _, rfl, List.nodup_singleton _⟩
  | @head a c hac _ ih =>
      obtain ⟨chain, hchain, hlast, hnodup⟩ := ih
      by_cases hmem : a ∈ c :: chain
      · -- from the place where the chain comes back on
        obtain ⟨front, back, hsplit⟩ := List.append_of_mem hmem
        refine ⟨back, ?_, ?_, ?_⟩
        · exact (List.isChain_split.mp (hsplit ▸ hchain)).2
        · simp only [hsplit] at hlast
          rw [← hlast, List.getLast_append_of_ne_nil]
        · exact (List.nodup_append.mp (hsplit ▸ hnodup)).2.1
      · exact ⟨c :: chain, .cons_cons hac hchain, hlast, List.nodup_cons.mpr ⟨hmem, hnodup⟩⟩

/-- `path` is absolute and written in the shortest way. -/
def IsPlaced (path : String) : Prop :=
  ∃ place, (∀ s ∈ place, Path.IsName s) ∧ path = Path.ofPlace place

theorem isPlaced_placed (path : String) : IsPlaced (Path.placed path) :=
  ⟨_, Path.isName_of_mem_placeOf, Path.placed_eq path⟩

theorem isName_append_json (h : Path.IsName name) : Path.IsName (name ++ ".json") := by
  have hlong (s : String) (hs : s.length < 5) : name ++ ".json" ≠ s := by
    intro heq
    have hlength := congrArg String.length heq
    simp only [String.length_append, show ".json".length = 5 from rfl] at hlength
    omega
  refine ⟨hlong _ (by decide), hlong _ (by decide), hlong _ (by decide), ?_⟩
  simpa using h.no_slash

theorem isPlaced_of_mem_sought (h : ∀ s ∈ place ++ [name], Path.IsName s)
    (hparent : parent ∈ sought place name) : IsPlaced parent := by
  have hwritten : IsPlaced (Path.ofPlace (place ++ [name])) := ⟨_, h, rfl⟩
  rw [List.forall_mem_append, List.forall_mem_singleton] at h
  have hadded : IsPlaced (Path.ofPlace (place ++ [name ++ ".json"])) := by
    refine ⟨_, ?_, rfl⟩
    rw [List.forall_mem_append, List.forall_mem_singleton]
    exact ⟨h.1, isName_append_json h.2⟩
  unfold sought at hparent
  split at hparent
  · exact List.mem_singleton.mp hparent ▸ hwritten
  · rcases List.mem_cons.mp hparent with rfl | hparent
    · exact hadded
    · exact List.mem_singleton.mp hparent ▸ hwritten

theorem Extends.isPlaced (h : Extends d path parent) : IsPlaced parent := by
  obtain ⟨fields, target, place, name, -, -, -, hplace, hfind⟩ := h
  exact isPlaced_of_mem_sought (hplace ▸ isName_of_walkFrom (Path.directory path) target)
    (List.mem_of_find?_eq_some hfind)

/-- At `path`, which is written in the shortest way, there is a configuration that can be read. -/
def IsReadable (d : Disk) (path : String) : Prop :=
  IsPlaced path ∧ ∃ fields, readConfig? d path = some fields

/-- A configuration that `readConfig?` can read is an entry of the disk. -/
theorem IsReadable.exists_key (h : IsReadable d path) :
    ∃ key ∈ d.entries.keys, path = "/" ++ key := by
  obtain ⟨⟨place, hnames, rfl⟩, fields, hread⟩ := h
  refine ⟨_, ?_, rfl⟩
  unfold readConfig? at hread
  split at hread
  · cases hread
  · rename_i hsource
    obtain ⟨bytes, hfile, -⟩ := Disk.exists_bytes_of_readText hsource
    exact Disk.mem_keys_of_entry? hnames hfile

/-- A `chain` of configurations without repetition is no longer than there are entries on the
disk. -/
theorem length_le_size {chain : List String} (hnodup : chain.Nodup)
    (hread : ∀ p ∈ chain, IsReadable d p) : chain.length ≤ d.entries.size := by
  have hsub : chain ⊆ d.entries.keys.map ("/" ++ ·) := by
    intro p hp
    obtain ⟨key, hkey, rfl⟩ := (hread p hp).exists_key
    exact List.mem_map_of_mem hkey
  simpa [Table.keys, Table.size] using (hnodup.subperm hsub).length_le

/-- **`loadFrom` does not depend on its fuel**, as long as there is more of it than entries on the
disk that have not been met. -/
theorem loadFrom_eq {fuel fuel' : Nat} (hplaced : IsPlaced path) (hnodup : seen.Nodup)
    (hseen : ∀ p ∈ seen, IsReadable d p) (hfuel : d.entries.size < fuel + seen.length)
    (hfuel' : d.entries.size < fuel' + seen.length) :
    loadFrom d fuel seen path = loadFrom d fuel' seen path := by
  have hlength := length_le_size hnodup hseen
  induction fuel generalizing seen path fuel' with
  | zero => omega
  | succ fuel ih =>
      obtain ⟨fuel', rfl⟩ : ∃ n, fuel' = n + 1 := Nat.exists_eq_add_one.mpr (by omega)
      by_cases hmet : path ∈ seen
      · simp [loadFrom, hmet]
      cases hread : readConfig? d path with
      | none => simp [loadFrom, hmet, hread]
      | some fields =>
          have hnodup' : (path :: seen).Nodup := List.nodup_cons.mpr ⟨hmet, hnodup⟩
          have hseen' : ∀ p ∈ path :: seen, IsReadable d p :=
            List.forall_mem_cons.mpr ⟨⟨hplaced, fields, hread⟩, hseen⟩
          rw [loadFrom_of_read fuel hmet hread, loadFrom_of_read fuel' hmet hread]
          rw [loadParent_congr hread]
          intro parent hextends
          exact ih hextends.isPlaced hnodup' hseen' (by simp; omega) (by simp; omega)
            (length_le_size hnodup' hseen')

theorem isReadable_of_chain {chain : List String} (hplaced : IsPlaced path)
    (hchain : List.IsChain (Extends d) (path :: chain))
    (hend : Unusable d ((path :: chain).getLast (by simp))) : ∀ p ∈ path :: chain, IsReadable d p := by
  induction chain generalizing path with
  | nil => simpa using ⟨hplaced, hend.exists_fields⟩
  | cons parent chain ih =>
      obtain ⟨hextends, hrest⟩ := List.isChain_cons_cons.mp hchain
      exact List.forall_mem_cons.mpr
        ⟨⟨hplaced, hextends.exists_fields⟩, ih hextends.isPlaced hrest hend⟩

theorem load_of_isWritable (h : Path.isWritable path = true) :
    load d path = loadFrom d (d.entries.size + 2) [] (Path.placed path) := by
  rw [load, Path.absolute_of_isWritable h, ok_bind]

/-- **Only a path that cannot be used stops `load`**, and it does so in whatever configuration of the
chain it stands. -/
theorem load_stops_iff (d : Disk) (path : String) :
    Stops (load d path) ↔ Path.isWritable path = false ∨
      ∃ p, ReflTransGen (Extends d) (Path.placed path) p ∧ Unusable d p := by
  cases hwritable : Path.isWritable path with
  | false =>
      refine iff_of_true ?_ (.inl rfl)
      exact stops_bind.mpr (.inl ((Path.absolute_stops_iff path).mpr hwritable))
  | true =>
      rw [load_of_isWritable hwritable]
      simp only [Bool.true_eq_false, false_or]
      refine ⟨exists_unusable_of_stops, ?_⟩
      rintro ⟨p, hreach, hp⟩
      obtain ⟨chain, hchain, rfl, hnodup⟩ := exists_nodup_chain hreach
      have hlength := length_le_size hnodup (isReadable_of_chain (isPlaced_placed path) hchain hp)
      rw [List.length_cons] at hlength
      exact stops_of_chain hchain hp hnodup (by simp) (by omega)

end ProjectConfig

end PageReach
