import PageReach.Proofs.Data.Json
import PageReach.Proofs.Fault
import PageReach.Proofs.Files.Place
import PageReach.Settings

/-!
# Settings in layers

The settings of a repository have fixed keys. Each value is worked out for itself: the one in the
settings file counts if it is of the type of the built-in one (`fileLayer`), and the one in the
environment counts if its text can be read as such a value (`environmentLayer`). So whatever is
given, every key keeps its type.

* **Layers** (`entries_addFile`, `entries_addEnvironment`): all settings are treated alike, key by
  key.
* **The settings file** (`Spoiled`, `readFile_of_not_spoiled`): what is wrong with it is passed
  over, with two exceptions: bytes that are no text, and a number with more digits than can be read.
* **Loading** (`load_eq`, `stops_load_iff`, `load_unless_spoiled`): only these two stop the run.
-/

namespace PageReach

/-! ## Types of values: `ValueType` -/

/-- The types of values. -/
inductive ValueType where
  | null
  | bool
  | int
  | float
  | text
  | list
  | object
deriving DecidableEq, Repr

/-- The type of a value. -/
def Value.type : Value → ValueType
  | .null => .null
  | .bool _ => .bool
  | .int _ => .int
  | .float _ => .float
  | .text _ => .text
  | .list _ => .list
  | .object _ => .object

namespace Settings

open Text

variable {d : Disk} {root : String} {env : Table String}

/-! ## Layers: `layer` -/

/-- The settings `s` by group and key. -/
def entries (s : Settings) : List (String × String × Value) :=
  [("analysis", "include", .list s.includes), ("analysis", "exclude", .list s.excludes),
    ("analysis", "graphql_include", .list s.documents), ("limits", "max_file_size", .int s.sizeLimit),
    ("logging", "file_logging", .bool s.fileLogging), ("logging", "file_level", .text s.fileLevel)]

/-- A given value, if it is of the type of `known`. -/
def givenOr (known : Value) : Option Value → Value
  | some given => if given.type = known.type then given else known
  | none => known

/-- What `file` makes of a setting. -/
def fileLayer (file : Value) (group key : String) (known : Value) : Value :=
  givenOr known ((file.get? group).bind (·.get? key))

/-- What `text` stands for where a value of the type of `known` is expected. -/
def readAs? : (known : Value) → (text : String) → Option Value
  | .bool _, text => some (.bool (isYes text))
  | .int _, text => (Numeral.int? text).map .int
  | .list _, text => some (.list (listItems text))
  | _, text => some (.text text)

/-- A given text, if it can be read as a value of the type of `known`. -/
def readOr (known : Value) (text? : Option String) : Value :=
  (text?.bind (readAs? known)).getD known

/-- The name of the environment variable for a setting. -/
def variableName (group key : String) : String :=
  String.ofList (("PAGEGRAPH_" ++ group ++ "_" ++ key).toList.map Char.toUpper)

/-- What the environment `env` makes of a setting. -/
def environmentLayer (env : Table String) (group key : String) (known : Value) : Value :=
  readOr known (env.get? (variableName group key))

/-- Every value of `entries` changed by `f`, under its group and key. -/
def layer (f : String → String → Value → Value) (entries : List (String × String × Value)) :
    List (String × String × Value) :=
  entries.map fun e => (e.1, e.2.1, f e.1 e.2.1 e.2.2)

theorem givenOr_eq (given? : Option Value) :
    (∀ items, givenOr (.list items) given? = .list ((given?.bind Value.items?).getD items)) ∧
    (∀ n, givenOr (.int n) given? = .int (match given? with
      | some (.int m) => m
      | _ => n)) ∧
    (∀ b, givenOr (.bool b) given? = .bool (match given? with
      | some (.bool c) => c
      | _ => b)) ∧
    (∀ s, givenOr (.text s) given? = .text (match given? with
      | some (.text t) => t
      | _ => s)) := by
  cases given? with
  | none => exact ⟨fun _ => rfl, fun _ => rfl, fun _ => rfl, fun _ => rfl⟩
  | some given =>
      cases given <;> exact ⟨fun _ => rfl, fun _ => rfl, fun _ => rfl, fun _ => rfl⟩

theorem entries_addFile (s : Settings) (file : Value) :
    (s.addFile file).entries = layer (fileLayer file) s.entries := by
  simp only [entries, layer, List.map_cons, List.map_nil, fileLayer, (givenOr_eq _).1,
    (givenOr_eq _).2.1, (givenOr_eq _).2.2.1, (givenOr_eq _).2.2.2]
  rfl

theorem readOr_eq (text? : Option String) :
    (∀ items, readOr (.list items) text? = .list ((text?.map listItems).getD items)) ∧
    (∀ n, readOr (.int n) text? = .int ((text?.bind Numeral.int?).getD n)) ∧
    (∀ b, readOr (.bool b) text? = .bool ((text?.map isYes).getD b)) ∧
    (∀ s, readOr (.text s) text? = .text (text?.getD s)) := by
  cases text? with
  | none => exact ⟨fun _ => rfl, fun _ => rfl, fun _ => rfl, fun _ => rfl⟩
  | some text =>
      refine ⟨fun _ => rfl, fun n => ?_, fun _ => rfl, fun _ => rfl⟩
      simp only [readOr, Option.bind_some, readAs?]
      cases Numeral.int? text <;> rfl

theorem variableNames :
    ({} : Settings).entries.map (fun e => variableName e.1 e.2.1) =
      ["PAGEGRAPH_" ++ "ANALYSIS_INCLUDE", "PAGEGRAPH_" ++ "ANALYSIS_EXCLUDE",
        "PAGEGRAPH_" ++ "ANALYSIS_GRAPHQL_INCLUDE", "PAGEGRAPH_" ++ "LIMITS_MAX_FILE_SIZE",
        "PAGEGRAPH_" ++ "LOGGING_FILE_LOGGING", "PAGEGRAPH_" ++ "LOGGING_FILE_LEVEL"] := by
  decide

theorem entries_addEnvironment (s : Settings) (env : Table String) :
    (s.addEnvironment env).entries = layer (environmentLayer env) s.entries := by
  have hnames := variableNames
  simp only [entries, List.map_cons, List.map_nil, List.cons.injEq, and_true] at hnames
  simp only [entries, layer, List.map_cons, List.map_nil, environmentLayer, hnames, (readOr_eq _).1,
    (readOr_eq _).2.1, (readOr_eq _).2.2.1, (readOr_eq _).2.2.2]
  rfl

/-- What the settings are called and of which type they are. -/
def signature (entries : List (String × String × Value)) : List (String × String × ValueType) :=
  entries.map fun e => (e.1, e.2.1, e.2.2.type)

theorem layer_eq_self {f : String → String → Value → Value} {es : List (String × String × Value)}
    (hf : ∀ e ∈ es, f e.1 e.2.1 e.2.2 = e.2.2) : layer f es = es := by
  conv => rhs; rw [← List.map_id es]
  refine List.map_congr_left fun e he => ?_
  rw [hf e he, id_eq]

theorem eq_of_entries_eq {s t : Settings} (h : s.entries = t.entries) : s = t := by
  cases s
  cases t
  simpa [entries] using h

/-! ## The settings file: `readFile` -/

/-- The value that the settings file of a repository holds, or else nothing. -/
def fileValue (d : Disk) (root : String) : Value :=
  match d.readText (Path.join root path) with
  | .error _ => .null
  | .ok source =>
    match Json.parse source with
    | .error _ => .null
    | .ok value => value

/-- There is a settings file that stops `load` instead of being passed over. -/
inductive Spoiled (d : Disk) (root : String) : Prop where
  | undecodable {bytes : ByteArray} (hpath : '\x00' ∉ (Path.join root path).toList)
      (hfile : d.entry? (Path.join root path) = some (.file bytes)) (hbytes : ¬ bytes.IsValidUTF8)
  | oversized {source : String} (hread : d.readText (Path.join root path) = .ok source)
      (hparse : Json.parse source = .error .oversizedNumber)

/-- Whether there is a file at all shows when `readText` reads it. -/
theorem readFile_eq (d : Disk) (root : String) : readFile d root =
    match d.readText (Path.join root path) with
    | .error .notText => .error .undecodableSettings
    | .error _ => .ok .null
    | .ok source =>
      match Json.parse source with
      | .ok v => .ok v
      | .error .malformed => .ok .null
      | .error .oversizedNumber => .error .oversizedNumber := by
  rw [readFile]
  split
  · rfl
  · next hfile =>
      rcases Disk.readText_of_not_isFile (Bool.eq_false_iff.mpr hfile) with hread | hread <;> rw [hread]

theorem stops_readFile (h : Spoiled d root) : Stops (readFile d root) := by
  rw [readFile_eq]
  cases h with
  | undecodable hpath hfile hbytes =>
      rw [Disk.readText_eq_notText_iff.mpr ⟨hpath, _, hfile, hbytes⟩]
      exact stops_error _
  | oversized hread hparse =>
      rw [hread]
      simp only [hparse, stops_error]

theorem readFile_of_not_spoiled (h : ¬ Spoiled d root) : readFile d root = .ok (fileValue d root) := by
  rw [readFile_eq, fileValue]
  cases hread : d.readText (Path.join root path) with
  | error e =>
      cases e with
      | notText =>
          obtain ⟨hpath, bytes, hfile, hbytes⟩ := Disk.readText_eq_notText_iff.mp hread
          exact absurd (.undecodable hpath hfile hbytes) h
      | noFile => rfl
      | unusablePath => rfl
  | ok source =>
      cases hparse : Json.parse source with
      | error e =>
          cases e with
          | malformed => simp only [hparse]
          | oversizedNumber => exact absurd (.oversized hread hparse) h
      | ok value => simp only [hparse]

theorem Spoiled.cause (h : Spoiled d root) : ∃ bytes,
    d.entry? (Path.join root path) = some (.file bytes) ∧ (¬ bytes.IsValidUTF8 ∨
      ∃ source, Disk.decode? bytes = some source ∧ Json.HasLongNumber source.toList) := by
  cases h with
  | undecodable hpath hfile hbytes => exact ⟨_, hfile, .inl hbytes⟩
  | oversized hread hparse =>
      obtain ⟨bytes, hfile, hdecode⟩ := Disk.exists_bytes_of_readText hread
      exact ⟨bytes, hfile, .inr ⟨_, hdecode, Json.hasLongNumber_of_parse hparse⟩⟩

theorem not_spoiled_of_not_isFile (h : d.isFile (Path.join root path) = false) :
    ¬ Spoiled d root := by
  intro hspoiled
  obtain ⟨bytes, hfile, -⟩ := hspoiled.cause
  simp [Disk.isFile, hfile] at h

theorem fileValue_of_not_isFile (h : d.isFile (Path.join root path) = false) :
    fileValue d root = .null := by
  rw [fileValue]
  rcases Disk.readText_of_not_isFile h with hread | hread <;> rw [hread]

/-! ## Loading: `load` -/

theorem fileLayer_null (group key : String) (known : Value) :
    fileLayer .null group key known = known := rfl

theorem environmentLayer_of_unset {group key : String} (h : env.get? (variableName group key) = none)
    (known : Value) : environmentLayer env group key known = known := by
  rw [environmentLayer, h]
  rfl

theorem load_eq (h : ¬ Spoiled d root) :
    load d root env = .ok ((({} : Settings).addFile (fileValue d root)).addEnvironment env) := by
  rw [load, readFile_of_not_spoiled h]
  rfl

theorem stops_load_iff : Stops (load d root env) ↔ Spoiled d root := by
  constructor
  · intro hstops
    apply Classical.byContradiction
    intro h
    rw [load_eq h] at hstops
    exact not_stops_ok _ hstops
  · intro h
    rw [load, stops_return]
    exact stops_readFile h

/-- **Only a `Spoiled` settings file stops `load`**, which takes bytes that are no text or a number with
too many digits. The loaded settings have the keys and types of the built-in ones, and each of them is
worked out for itself, from the built-in one by way of `fileLayer` and then `environmentLayer`. With
neither a file nor variables, they are the built-in ones.

The built-in settings are the value `({} : Settings)` in each of these statements. `addFile` and
`addEnvironment` make new settings out of those that they are given, and nothing that is shared can be
written to. So no `load` changes the built-in settings: one that comes after any number of others is the
same function of the disk, the root and the environment. -/
theorem load_unless_spoiled (d : Disk) (root : String) (env : Table String) :
    (Stops (load d root env) ↔ Spoiled d root) ∧
    (Spoiled d root → ∃ bytes, d.entry? (Path.join root path) = some (.file bytes) ∧
      (¬ bytes.IsValidUTF8 ∨
        ∃ source, Disk.decode? bytes = some source ∧ Json.HasLongNumber source.toList)) ∧
    (¬ Spoiled d root → ∃ s, load d root env = .ok s ∧
      s.entries = layer (environmentLayer env)
        (layer (fileLayer (fileValue d root)) ({} : Settings).entries) ∧
      signature s.entries = signature ({} : Settings).entries) ∧
    (d.isFile (Path.join root path) = false →
      (∀ e ∈ ({} : Settings).entries, env.get? (variableName e.1 e.2.1) = none) →
      load d root env = .ok {}) := by
  refine ⟨stops_load_iff, Spoiled.cause, fun h => ⟨_, load_eq h, ?_, rfl⟩, fun hfile henv => ?_⟩
  · rw [entries_addEnvironment, entries_addFile]
  · rw [load_eq (not_spoiled_of_not_isFile hfile), fileValue_of_not_isFile hfile]
    refine congrArg Except.ok (eq_of_entries_eq ?_)
    rw [entries_addEnvironment, entries_addFile,
      layer_eq_self fun e _ => fileLayer_null e.1 e.2.1 e.2.2,
      layer_eq_self fun e he => environmentLayer_of_unset (henv e he) e.2.2]

/-- A disk with a settings file that holds `bytes`, for the repository at its root. -/
def withSettings (bytes : ByteArray) : Disk := Disk.empty.write "/.pagegraph/config.json" bytes

theorem entry?_withSettings (bytes : ByteArray) :
    Disk.entry? (withSettings bytes) (Path.join "/" path) = some (.file bytes) := by
  rw [show Path.join "/" path = "/.pagegraph/config.json" by decide]
  rfl

/-- `load` stops at a byte that begins no character and at a number of too many digits. -/
theorem unreadable_settings_stop :
    Stops (load (withSettings ⟨#[0xff]⟩) "/" .empty) ∧
    Stops (load (withSettings (String.ofList (List.replicate 4301 '1')).toUTF8) "/" .empty) := by
  rw [stops_load_iff, stops_load_iff]
  constructor
  · have hbytes : ¬ (⟨#[0xff]⟩ : ByteArray).IsValidUTF8 := by
      rw [← Disk.decode?_eq_none_iff]
      decide
    exact .undecodable (by decide) (entry?_withSettings _) hbytes
  · have hones : ∀ c ∈ List.replicate 4301 '1', c = '1' := fun c hc => (List.mem_replicate.mp hc).2
    have hreturn : '\r' ∉ (String.ofList (List.replicate 4301 '1')).toList := by
      rw [String.toList_ofList]
      exact fun h => absurd (hones _ h) (by decide)
    have hread := Disk.readText_of_file (by decide) (entry?_withSettings _) hreturn
    refine .oversized hread (Json.parse_of_digits ?_ (by simp) ?_)
    · intro c hc
      rw [hones c hc]
      decide
    · rw [List.length_replicate]
      decide

end Settings

end PageReach
