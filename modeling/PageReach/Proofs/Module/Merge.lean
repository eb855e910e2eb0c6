import PageReach.Proofs.Data.Json5
import PageReach.Proofs.Module.Chain

/-!
# Options along a chain

A configuration takes over the options that it does not set itself. So of all configurations along a
chain, the nearest one that sets an option decides.

* **Files** (`Link`, `get?_ownOptions`): what one configuration file puts under a key.
* **Chains** (`Follows`, `Chain`, `Follows.toChain`): the files that are followed, each of which
  `Extends` the next one, up to the first one that has been met or cannot be read.
* **Reading** (`Read`, `loadFrom_reads`): `loadFrom` reads along such a chain, and its fuel never
  runs out.
* **Directories** (`Supplies`, `Supplies.findSome?`, `load_merges_chain`): the directories that are
  kept beside the options are those of the file that decides about the base directory or about the
  patterns, unless an option takes the name of the directory (`takenName`).
-/

namespace PageReach.ProjectConfig

open Text

/-! ## Configuration files: `Link` -/

/-- A configuration file that can be read: where it is, and what it says. -/
structure Link where
  path : String
  fields : Table Value

namespace Link

/-- The directory in which the configuration file `c` is. -/
def directory (c : Link) : String := Path.directory c.path

/-- The options that the configuration file `c` sets. -/
def options (c : Link) : Table Value :=
  ((c.fields.get? "compilerOptions").bind Value.fields?).getD .empty

/-- The place of the `baseUrl` that the configuration file `c` sets. -/
def base? (c : Link) : Option String :=
  ((c.options.get? "baseUrl").bind Value.text?).map fun url => Path.placed (Path.join c.directory url)

/-- The `paths` that the configuration file `c` sets. -/
def patterns? (c : Link) : Option (Table Value) := (c.options.get? "paths").bind Value.fields?

/-- The directories that are meant by the options of `c`, under the names `_baseUrlAbs` and
`_pathsDir`. -/
def directories (c : Link) : Table Value :=
  .ofList ((c.base?.map fun base => ("_baseUrlAbs", .text base)).toList ++
    (c.patterns?.map fun _ => ("_pathsDir", .text c.directory)).toList)

/-- What the configuration file `c` puts under `key`: an option, or else a directory that is
meant. -/
def get? (c : Link) (key : String) : Option Value := (c.options.get? key).or (c.directories.get? key)

theorem get?_of_option {key : String} (c : Link) (hbase : key ≠ "_baseUrlAbs")
    (hpaths : key ≠ "_pathsDir") : c.get? key = c.options.get? key := by
  have hother : c.directories.get? key = none := by
    rw [directories, Table.get?_ofList]
    cases c.base? <;> cases c.patterns? <;> simp [hbase.symm, hpaths.symm]
  rw [get?, hother, Option.or_none]

theorem get?_base (c : Link) :
    c.get? "_baseUrlAbs" = (c.options.get? "_baseUrlAbs").or (c.base?.map .text) := by
  rw [get?, directories, Table.get?_ofList]
  cases c.base? <;> cases c.patterns? <;> simp

theorem get?_patterns (c : Link) :
    c.get? "_pathsDir" =
      (c.options.get? "_pathsDir").or (c.patterns?.map fun _ => .text c.directory) := by
  rw [get?, directories, Table.get?_ofList]
  cases c.base? <;> cases c.patterns? <;> simp

end Link

variable {d : Disk} {path parent : String} {fields own : Table Value} {seen : List String}
  {chain : List Link}

/-- Each option stands once in a configuration file, by `Json5.distinct_of_parse?`. -/
theorem nodup_options (hread : readConfig? d path = some fields) :
    (Link.options ⟨path, fields⟩).keys.Nodup := by
  have hnone : (Table.empty : Table Value).keys.Nodup := List.nodup_nil
  unfold readConfig? at hread
  split at hread
  · cases hread
  · obtain ⟨v, hv, hfields⟩ := Option.bind_eq_some_iff.mp hread
    have hdistinct := Json5.distinct_of_parse? hv
    cases hdistinct with
    | object hnames hvalues =>
        cases hfields
        unfold Link.options
        dsimp only
        cases hoptions : Table.get? ⟨_⟩ "compilerOptions" with
        | none => exact hnone
        | some w =>
            have hw := hvalues _ (Table.mem_entries_of_get? hoptions)
            cases hw with
            | object hnames _ => exact hnames
            | _ => exact hnone
    | _ => cases hfields

/-- The options of a configuration file are put over the `directories` that are meant by them. -/
theorem eq_of_ownOptions (h : ownOptions path fields = .ok own) :
    own = (Link.directories ⟨path, fields⟩).update (Link.options ⟨path, fields⟩) := by
  unfold ownOptions at h
  unfold Link.directories Link.base? Link.patterns? Link.options
  cases hoptions : (fields.get? "compilerOptions").bind Value.fields? with
  | none =>
      rw [hoptions] at h
      cases h
      rfl
  | some options =>
      simp only [hoptions, Option.getD_some] at h ⊢
      cases hurl : (options.get? "baseUrl").bind Value.text? with
      | none =>
          rw [hurl] at h
          cases h
          cases (options.get? "paths").bind Value.fields? <;> rfl
      | some url =>
          rw [hurl] at h
          obtain ⟨base, hbase, h⟩ := exists_ok_of_bind h
          cases Path.eq_placed_of_absolute hbase
          cases h
          cases (options.get? "paths").bind Value.fields? <;> rfl

theorem get?_ownOptions (hread : readConfig? d path = some fields)
    (h : ownOptions path fields = .ok own) (key : String) :
    own.get? key = Link.get? ⟨path, fields⟩ key := by
  rw [eq_of_ownOptions h, Table.get?_update _ (nodup_options hread), Link.get?]

theorem nodup_ownOptions (h : ownOptions path fields = .ok own) : own.keys.Nodup := by
  rw [eq_of_ownOptions h]
  exact Table.nodup_keys_insertAll (Table.nodup_keys_ofList _) _

/-! ## Following a chain: `Chain` -/

theorem Extends.unique {parent' : String} (h : Extends d path parent) (h' : Extends d path parent') :
    parent' = parent := by
  obtain ⟨fields, target, place, name, hread, htarget, -, hplace, hfind⟩ := h
  obtain ⟨fields', target', place', name', hread', htarget', -, hplace', hfind'⟩ := h'
  cases hread.symm.trans hread'
  cases htarget.symm.trans htarget'
  obtain ⟨rfl, hname⟩ := List.append_inj' (hplace.symm.trans hplace') rfl
  cases hname
  exact Option.some.inj (hfind'.symm.trans hfind)

/-- The configuration files that are followed from `path` on, if those in `seen` have been met before. -/
inductive Follows (d : Disk) : (seen : List String) → (path : String) → List Link → Prop where
  /-- The file has been met, or there is none that can be read. -/
  | stop {seen : List String} {path : String} (h : path ∈ seen ∨ readConfig? d path = none) :
      Follows d seen path []
  /-- The file extends nothing, or nothing that exists. -/
  | last {seen : List String} {path : String} {fields : Table Value} (hnew : path ∉ seen)
      (hread : readConfig? d path = some fields) (hlast : ∀ parent, ¬ Extends d path parent) :
      Follows d seen path [⟨path, fields⟩]
  | next {seen : List String} {path parent : String} {fields : Table Value} {chain : List Link}
      (hnew : path ∉ seen) (hread : readConfig? d path = some fields)
      (hextends : Extends d path parent) (hrest : Follows d (path :: seen) parent chain) :
      Follows d seen path (⟨path, fields⟩ :: chain)

/-- The chain of configuration files that begins at `path`: each one can be read and extends the next
one, none comes twice, and the last one extends nothing that can be read and is not in the chain. -/
structure Chain (d : Disk) (path : String) (chain : List Link) : Prop where
  first : chain.head?.map Link.path = (readConfig? d path).map fun _ => path
  read : ∀ c ∈ chain, readConfig? d c.path = some c.fields
  linked : chain.IsChain fun c next => Extends d c.path next.path
  nodup : (chain.map Link.path).Nodup
  last : ∀ c ∈ chain.getLast?, ∀ next, Extends d c.path next →
    readConfig? d next = none ∨ next ∈ chain.map Link.path

namespace Follows

theorem path_of_head (h : Follows d seen path chain) : ∀ c ∈ chain.head?, c.path = path := by
  cases h with
  | stop h => simp
  | last hnew hread hlast => simp
  | next hnew hread hextends hrest => simp

theorem read (h : Follows d seen path chain) : ∀ c ∈ chain, readConfig? d c.path = some c.fields := by
  induction h with
  | stop h => simp
  | last hnew hread hlast => simpa using hread
  | next hnew hread hextends hrest ih => exact List.forall_mem_cons.mpr ⟨hread, ih⟩

theorem linked (h : Follows d seen path chain) :
    chain.IsChain fun c next => Extends d c.path next.path := by
  induction h with
  | stop h => exact .nil
  | last hnew hread hlast => exact .singleton _
  | @next seen path parent fields chain hnew hread hextends hrest ih =>
      refine List.isChain_cons.mpr ⟨fun c hc => ?_, ih⟩
      rw [hrest.path_of_head c hc]
      exact hextends

theorem fresh (h : Follows d seen path chain) : ∀ c ∈ chain, c.path ∉ seen := by
  induction h with
  | stop h => simp
  | last hnew hread hlast => simpa using hnew
  | next hnew hread hextends hrest ih =>
      refine List.forall_mem_cons.mpr ⟨hnew, fun c hc hmem => ?_⟩
      exact ih c hc (List.mem_cons_of_mem _ hmem)

theorem nodup (h : Follows d seen path chain) : (chain.map Link.path).Nodup := by
  induction h with
  | stop h => exact List.nodup_nil
  | last hnew hread hlast => exact List.nodup_singleton _
  | next hnew hread hextends hrest ih =>
      refine List.nodup_cons.mpr ⟨fun hmem => ?_, ih⟩
      obtain ⟨c, hc, hpath⟩ := List.mem_map.mp hmem
      exact hrest.fresh c hc (hpath ▸ List.mem_cons_self)

theorem stopped (h : Follows d seen path []) : path ∈ seen ∨ readConfig? d path = none := by
  cases h with
  | stop h => exact h

theorem ends (h : Follows d seen path chain) : ∀ c ∈ chain.getLast?, ∀ next, Extends d c.path next →
    readConfig? d next = none ∨ next ∈ seen ∨ next ∈ chain.map Link.path := by
  induction h with
  | stop h => simp
  | last hnew hread hlast =>
      intro c hc next hextends
      cases hc
      exact absurd hextends (hlast next)
  | @next seen path parent fields chain hnew hread hextends hrest ih =>
      intro c hc next hnext
      cases chain with
      | nil =>
          -- the chain stops right behind this file, because of its parent
          cases hc
          have hparent : next = parent := hextends.unique hnext
          rcases hrest.stopped with hmet | hnone
          · rcases List.mem_cons.mp hmet with hself | hmet
            · exact .inr (.inr (by simp [hparent, hself]))
            · exact .inr (.inl (hparent ▸ hmet))
          · exact .inl (hparent ▸ hnone)
      | cons c' chain =>
          rw [List.getLast?_cons_cons] at hc
          rcases ih c hc next hnext with hnone | hmet | hlater
          · exact .inl hnone
          · rcases List.mem_cons.mp hmet with hself | hmet
            · exact .inr (.inr (by simp [hself]))
            · exact .inr (.inl hmet)
          · exact .inr (.inr (List.mem_cons_of_mem _ hlater))

theorem toChain (h : Follows d [] path chain) : Chain d path chain where
  first := by
    cases h with
    | stop h => simp_all
    | last hnew hread hlast => simp [hread]
    | next hnew hread hextends hrest => simp [hread]
  read := h.read
  linked := h.linked
  nodup := h.nodup
  last := by simpa using h.ends

end Follows

/-! ## Reading a chain: `loadFrom` -/

/-- What is read from `chain`: nothing from the empty one, and otherwise a configuration with the
options of the nearest files that set them. -/
structure Read (path : String) (chain : List Link) (config? : Option ProjectConfig) : Prop where
  isSome : config?.isSome = !chain.isEmpty
  directory : ∀ c ∈ config?, c.directory = Path.directory path
  options : ∀ key, ((config?.map options).getD .empty).get? key = chain.findSome? (·.get? key)
  usable : ∀ c ∈ chain, ∃ own, ownOptions c.path c.fields = .ok own

theorem read_nil (path : String) : Read path [] none where
  isSome := rfl
  directory := by simp
  options := by simp
  usable := by simp

theorem Read.cons {config? : Option ProjectConfig} (h : Read parent chain config?)
    (hread : readConfig? d path = some fields) (hown : ownOptions path fields = .ok own) :
    Read path (⟨path, fields⟩ :: chain)
      (some ⟨((config?.map ProjectConfig.options).getD .empty).update own, Path.directory path⟩) where
  isSome := rfl
  directory := by simp
  options key := by
    show (Table.update _ own).get? key = _
    rw [Table.get?_update _ (nodup_ownOptions hown), get?_ownOptions hread hown, h.options key,
      List.findSome?_cons]
    cases Link.get? ⟨path, fields⟩ key <;> rfl
  usable := List.forall_mem_cons.mpr ⟨⟨own, hown⟩, h.usable⟩

/-- The base directories that are set along the chain are at paths that can be written. -/
theorem Read.absolute_eq {config? : Option ProjectConfig} (h : Read path chain config?) {c : Link}
    (hc : c ∈ chain) {url : String} (hurl : c.options.get? "baseUrl" = some (.text url)) :
    Path.absolute (Path.join c.directory url) = .ok (Path.placed (Path.join c.directory url)) := by
  refine Path.absolute_of_isWritable ?_
  rw [← Bool.not_eq_false]
  intro hpath
  obtain ⟨own, hown⟩ := h.usable c hc
  have hstops : Stops (ownOptions c.path c.fields) := by
    rw [ownOptions_stops_iff]
    unfold Link.options at hurl
    cases hoptions : (c.fields.get? "compilerOptions").bind Value.fields? with
    | none => simp [hoptions] at hurl
    | some options =>
        rw [hoptions, Option.getD_some] at hurl
        exact ⟨options, url, rfl, hurl, hpath⟩
  simp [hown] at hstops

/-- **`loadFrom` reads a chain.** Fuel never runs out: what has been met in `seen` are different
files that can be read, of which there are no more than entries on the disk (`length_le_size`). -/
theorem loadFrom_reads {fuel : Nat} {config? : Option ProjectConfig} (hplaced : IsPlaced path)
    (hnodup : seen.Nodup) (hseen : ∀ p ∈ seen, IsReadable d p)
    (hfuel : d.entries.size < fuel + seen.length) (h : loadFrom d fuel seen path = .ok config?) :
    ∃ chain, Follows d seen path chain ∧ Read path chain config? := by
  induction fuel generalizing seen path config? with
  | zero =>
      have hlength := length_le_size hnodup hseen
      omega
  | succ fuel ih =>
      by_cases hmet : path ∈ seen
      · rw [loadFrom, if_pos (by simpa using hmet)] at h
        cases h
        exact ⟨[], .stop (.inl hmet), read_nil path⟩
      cases hread : readConfig? d path with
      | none =>
          rw [loadFrom, if_neg (by simpa using hmet), hread] at h
          cases h
          exact ⟨[], .stop (.inr hread), read_nil path⟩
      | some fields =>
          rw [loadFrom_of_read fuel hmet hread] at h
          obtain ⟨parent?, hparent, h⟩ := exists_ok_of_bind h
          obtain ⟨own, hown, h⟩ := exists_ok_of_bind h
          cases h
          rcases loadParent_ok hread hparent with ⟨rfl, hlast⟩ | ⟨parent, hextends, hload⟩
          · exact ⟨_, .last hmet hread hlast, (read_nil path).cons hread hown⟩
          · obtain ⟨chain, hfollows, hchain⟩ := ih hextends.isPlaced
              (List.nodup_cons.mpr ⟨hmet, hnodup⟩)
              (List.forall_mem_cons.mpr ⟨⟨hplaced, fields, hread⟩, hseen⟩)
              (by rw [List.length_cons]; omega) hload
            exact ⟨_, .next hmet hread hextends hfollows, hchain.cons hread hown⟩

/-! ## The configuration that decides: `Supplies` -/

/-- Of all files of a chain that set the option `key`, `supplier` is the nearest one, behind `before`; it
sets the option to `v`. -/
structure Supplies (chain before : List Link) (supplier : Link) (key : String) (v : Value) : Prop where
  begins : before ++ [supplier] <+: chain
  unset : ∀ c ∈ before, c.options.get? key = none
  sets : supplier.options.get? key = some v

theorem exists_supplies {key : String} {v : Value}
    (h : chain.findSome? (·.options.get? key) = some v) :
    ∃ before supplier, Supplies chain before supplier key v := by
  obtain ⟨before, supplier, after, hsplit, hsets, hunset⟩ := List.findSome?_eq_some_iff.mp h
  exact ⟨before, supplier, ⟨after, by simp [hsplit]⟩, hunset, hsets⟩

/-- What the `supplier` of an option says about a directory counts, unless the option that stands
for the directory is itself set by a file that is no farther away. -/
theorem Supplies.findSome? {before : List Link} {supplier : Link} {key directoryKey : String}
    {v directory : Value} {meant : Link → Option Value} (h : Supplies chain before supplier key v)
    (hget : ∀ c : Link, c.get? directoryKey = (c.options.get? directoryKey).or (meant c))
    (hunset : ∀ c : Link, c.options.get? key = none → meant c = none)
    (hmeant : meant supplier = some directory) :
    chain.findSome? (·.get? directoryKey) =
      ((before ++ [supplier]).findSome? (·.options.get? directoryKey)).or (some directory) := by
  obtain ⟨⟨after, hafter⟩, hbefore, -⟩ := h
  have hfront : before.findSome? (·.get? directoryKey) =
      before.findSome? (·.options.get? directoryKey) := by
    clear hafter
    induction before with
    | nil => rfl
    | cons c before ih =>
        obtain ⟨hc, hrest⟩ := List.forall_mem_cons.mp hbefore
        rw [List.findSome?_cons, List.findSome?_cons, ih hrest, hget, hunset c hc, Option.or_none]
  rw [← hafter]
  simp only [List.findSome?_append, List.findSome?_singleton, hfront, hget supplier, hmeant,
    Option.or_assoc, Option.some_or]

/-- The texts to which the options `keys` are set. -/
def texts (c : ProjectConfig) (keys : List String) : List (Option String) :=
  keys.map fun key => (c.options.get? key).bind Value.text?

/-- **`load` merges the chain that a configuration begins.** Where it returns, more fuel would not have
changed anything. Each option has the value that the nearest file of the `Chain` gives it. If the base
directory is text, then the directory kept for it is that text seen from the file that supplies it, and if
the patterns are an object, then the directory kept for them is that of the file that supplies them. This
is so unless a file that is no farther away than the supplier sets an option of the name under which the
directory is kept: then this option takes the place of the directory. -/
theorem load_merges_chain {d : Disk} {path : String} {config? : Option ProjectConfig}
    (h : load d path = .ok config?) :
    (∀ fuel, d.entries.size + 2 ≤ fuel → loadFrom d fuel [] (Path.placed path) = .ok config?) ∧
    ∃ chain, Chain d (Path.placed path) chain ∧
      config?.isSome = !chain.isEmpty ∧ ∀ c ∈ config?,
        c.directory = Path.directory (Path.placed path) ∧
        (∀ key, key ≠ "_baseUrlAbs" → key ≠ "_pathsDir" →
          c.options.get? key = chain.findSome? (·.options.get? key)) ∧
        (∀ url, c.options.get? "baseUrl" = some (.text url) → ∃ before supplier base,
          Supplies chain before supplier "baseUrl" (.text url) ∧
          Path.absolute (Path.join supplier.directory url) = .ok base ∧
          c.options.get? "_baseUrlAbs" =
            ((before ++ [supplier]).findSome? (·.options.get? "_baseUrlAbs")).or (some (.text base))) ∧
        ∀ patterns, c.options.get? "paths" = some (.object patterns) → ∃ before supplier,
          Supplies chain before supplier "paths" (.object patterns) ∧
          c.options.get? "_pathsDir" = ((before ++ [supplier]).findSome?
            (·.options.get? "_pathsDir")).or (some (.text supplier.directory)) := by
  have hfrom : loadFrom d (d.entries.size + 2) [] (Path.placed path) = .ok config? := by
    obtain ⟨place, hplace, h⟩ := exists_ok_of_bind h
    rwa [Path.eq_placed_of_absolute hplace] at h
  obtain ⟨chain, hfollows, hread⟩ := loadFrom_reads (isPlaced_placed path) List.nodup_nil (by simp)
    (by simp) hfrom
  refine ⟨fun fuel hfuel => ?_, chain, hfollows.toChain, hread.isSome, ?_⟩
  · rw [← hfrom]
    exact loadFrom_eq (isPlaced_placed path) List.nodup_nil (by simp) (by simp; omega) (by simp)
  intro c hc
  have hget (key : String) : c.options.get? key = chain.findSome? (·.get? key) := by
    rw [← hread.options key, Option.mem_def.mp hc]
    rfl
  have hoption (key : String) (hbase : key ≠ "_baseUrlAbs") (hpaths : key ≠ "_pathsDir") :
      c.options.get? key = chain.findSome? (·.options.get? key) := by
    rw [hget]
    simp only [Link.get?_of_option _ hbase hpaths]
  refine ⟨hread.directory c hc, hoption, ?_, ?_⟩
  · intro url hurl
    rw [hoption _ (by decide) (by decide)] at hurl
    obtain ⟨before, supplier, hsupplies⟩ := exists_supplies hurl
    have hmem : supplier ∈ chain := hsupplies.begins.subset (by simp)
    refine ⟨before, supplier, _, hsupplies, hread.absolute_eq hmem hsupplies.sets, ?_⟩
    rw [hget]
    refine hsupplies.findSome? Link.get?_base (fun l hl => ?_) ?_
    · simp [Link.base?, hl]
    · simp [Link.base?, hsupplies.sets, Value.text?]
  · intro patterns hpatterns
    rw [hoption _ (by decide) (by decide)] at hpatterns
    obtain ⟨before, supplier, hsupplies⟩ := exists_supplies hpatterns
    refine ⟨before, supplier, hsupplies, ?_⟩
    rw [hget]
    refine hsupplies.findSome? Link.get?_patterns (fun l hl => ?_) ?_
    · simp [Link.patterns?, hl]
    · simp [Link.patterns?, hsupplies.sets, Value.fields?]

/-- A disk with two configurations: `/p/a.json` sets patterns and extends `/b.json`, which sets the base
directory. -/
def childAndParent : Disk :=
  (Disk.empty.write "/p/a.json"
    "\x7b\"extends\":\"../b\",\"compilerOptions\":\x7b\"paths\":\x7b\x7d\x7d\x7d".toUTF8).write
    "/b.json" "\x7b\"compilerOptions\":\x7b\"baseUrl\":\"s\"\x7d\x7d".toUTF8

/-- The base directory of `childAndParent` is seen from the parent, the patterns are the child's own. -/
theorem load_merges_childAndParent : ∃ c chain patterns,
    load childAndParent "/p/a.json" = .ok (some c) ∧ Chain childAndParent "/p/a.json" chain ∧
    (∃ before supplier, Supplies chain before supplier "baseUrl" (.text "s")) ∧
    c.options.get? "_baseUrlAbs" = some (.text "/s") ∧
    (∃ before supplier, Supplies chain before supplier "paths" (.object patterns)) ∧
    c.options.get? "_pathsDir" = some (.text "/p") := by
  have hrun : (load childAndParent "/p/a.json").map (Option.map fun c =>
      (c.texts ["baseUrl", "_baseUrlAbs", "_pathsDir"],
        ((c.options.get? "paths").bind Value.fields?).map Table.keys)) =
      .ok (some ([some "s", some "/s", some "/p"], some [])) := by decide +kernel
  obtain ⟨c, hload, hc⟩ := exists_ok_some_of_map hrun
  obtain ⟨htexts, hkeys⟩ := Prod.mk.inj hc
  simp only [texts, List.map_cons, List.map_nil, List.cons.injEq, Value.text?_eq_some_iff] at htexts
  obtain ⟨hurl, hbase, hdirectory, -⟩ := htexts
  obtain ⟨patterns, hfields, -⟩ := Option.map_eq_some_iff.mp hkeys
  obtain ⟨-, chain, hchain, -, hmerged⟩ := load_merges_chain hload
  obtain ⟨-, -, hurls, hpatterns⟩ := hmerged c rfl
  obtain ⟨before, supplier, base, hsupplies, -⟩ := hurls "s" hurl
  obtain ⟨before', supplier', hsupplies', -⟩ := hpatterns _ (Value.fields?_eq_some_iff.mp hfields)
  exact ⟨c, chain, patterns.entries, hload, hchain, ⟨before, supplier, hsupplies⟩, hbase,
    ⟨before', supplier', hsupplies'⟩, hdirectory⟩

/-- A disk with a configuration that sets the base directory and, as an option, the name under which its
place is kept. -/
def takenName : Disk :=
  .write .empty "/a.json"
    "\x7b\"compilerOptions\":\x7b\"baseUrl\":\"s\",\"_baseUrlAbs\":\"/x\"\x7d\x7d".toUTF8

/-- The option `_baseUrlAbs` of `takenName` takes the place of the directory, which is `/s`. -/
theorem option_displaces_directory : ∃ c, load takenName "/a.json" = .ok (some c) ∧
    c.options.get? "baseUrl" = some (.text "s") ∧ Path.absolute (Path.join c.directory "s") = .ok "/s" ∧
    c.options.get? "_baseUrlAbs" = some (.text "/x") := by
  have hrun : (load takenName "/a.json").map (Option.map fun c =>
      (c.texts ["baseUrl", "_baseUrlAbs"], Path.absolute (Path.join c.directory "s"))) =
      .ok (some ([some "s", some "/x"], .ok "/s")) := by decide +kernel
  obtain ⟨c, hload, hc⟩ := exists_ok_some_of_map hrun
  obtain ⟨htexts, hdirectory⟩ := Prod.mk.inj hc
  simp only [texts, List.map_cons, List.map_nil, List.cons.injEq, Value.text?_eq_some_iff] at htexts
  obtain ⟨hurl, hbase, -⟩ := htexts
  exact ⟨c, hload, hurl, hdirectory, hbase⟩

end PageReach.ProjectConfig
