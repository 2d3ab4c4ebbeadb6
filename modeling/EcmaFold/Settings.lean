import EcmaFold.Yaml.Document
import EcmaFold.Yaml.Viewing

/-!
Settings of the program and their file, a mapping whose keys are the names of the settings.
-/

namespace EcmaFold

/-- What a user can set. -/
structure Settings where
  /-- The indentation of a printed tree. -/
  indent : Int := 0
  logLevel : Bytes := utf8 "warn"
  /-- Whether performed instructions are shown. -/
  trace : Bool := false
  /-- Asks for a new source in a dialogue. -/
  prompt : Bytes := utf8 "kunjs> "
  /-- Where the history of a dialogue is kept, if not at the usual place. -/
  historyFile : Option Bytes := none

namespace Settings

/-- How a value changes the settings. One that stands for nothing leaves them as they are. -/
abbrev Change := Settings → Yaml.Viewing.Sight → Yaml.Viewing Settings

/-- How far a mapping is taken over. -/
structure Progress where
  settings : Settings
  /-- While merging, the keys that are not taken over any more. -/
  taken : Option (List Bytes)
  /-- The settings that this mapping has set. -/
  done : List Bytes := []

/-- Takes over an entry, unless its key was taken over before. No setting may be set twice; unknown keys are
passed over. -/
def takeOverEntry (changes : List (Bytes × Change)) (mentioned : Bool) (progress : Progress)
    (entry : Yaml × Yaml) : Yaml.Viewing Progress := do
  if entry.1.isMerge then return progress
  else
    match ← Yaml.Viewing.text? { value := entry.1, mentioned } with
    | none => return progress
    | some name =>
      if (progress.taken.getD []).contains name then return progress
      else
        let taken := progress.taken.map (name :: ·)
        match changes.lookup name with
        | none => return { progress with taken }
        | some change =>
          guard (!progress.done.contains name)
          let settings ← change progress.settings { value := entry.2, mentioned }
          return { settings, taken, done := name :: progress.done }

/-- Takes over the entries of a mapping, in which no key may be written twice. Then the mappings that it
merges add what it does not have. Gives the settings and, while merging, the keys taken over. -/
def takeOver (changes : List (Bytes × Change)) : (fuel : Nat) → (taken : Option (List Bytes)) →
    (mentioned : Bool) → Settings → List (Yaml × Yaml) → Yaml.Viewing (Settings × Option (List Bytes))
  | 0, _, _, _, _ => failure
  | fuel + 1, taken, mentioned, settings, entries => do
    guard (Yaml.unlike (entries.map (·.1)))
    let own ← entries.foldlM (takeOverEntry changes mentioned) { settings, taken }
    match entries.find? (·.1.isMerge) with
    | none => return (own.settings, own.taken)
    | some (_, merged) =>
      let keys ← match own.taken with
        | some keys => pure keys
        | none => entries.filterMapM fun (key, _) => Yaml.Viewing.text? { value := key, mentioned }
      let sources ← Yaml.Viewing.mergeSources merged
      let (settings, keys) ← sources.foldlM (fun (settings, keys) source => do
        let sight ← Yaml.Viewing.look { value := source, mentioned }
        match sight.value with
        | .mapping entries => takeOver changes fuel keys sight.mentioned settings entries
        | _ => failure) (own.settings, some keys)
      return (settings, taken.bind fun _ => keys)

/-- Merges are nested no deeper. -/
def deepestMerge : Nat := 10000

/-- Settings that stand together in a mapping, which may be missing. -/
def group (changes : List (Bytes × Change)) : Change := fun settings sight => do
  let seen ← Yaml.Viewing.look sight
  match seen.value with
  | .mapping entries => return (← takeOver changes deepestMerge none seen.mentioned settings entries).1
  | .scalar tag plain text =>
    match ← Yaml.Meaning.ofScalar? tag plain text with
    | (_, .null) => return settings
    | _ => failure
  | _ => failure

/-- The settings of a dialogue. -/
def dialogueChanges : List (Bytes × Change) :=
  [(utf8 "prompt", fun settings sight => do
      return { settings with prompt := (← Yaml.Viewing.text? sight).getD settings.prompt }),
    (utf8 "history_file", fun settings sight => do
      return { settings with historyFile := (← Yaml.Viewing.text? sight).or settings.historyFile })]

/-- All settings. -/
def changes : List (Bytes × Change) :=
  [(utf8 "indent", fun settings sight => do
      return { settings with indent := (← Yaml.Viewing.integer? sight).getD settings.indent }),
    (utf8 "log_level", fun settings sight => do
      return { settings with logLevel := (← Yaml.Viewing.text? sight).getD settings.logLevel }),
    (utf8 "trace", fun settings sight => do
      return { settings with trace := (← Yaml.Viewing.bool? sight).getD settings.trace }),
    (utf8 "repl", group dialogueChanges)]

/-- Reads a settings file. -/
def parse? (content : Bytes) : Option Settings := do
  let document ← Yaml.Document.parse? content
  let all : Yaml.Viewing Settings := do
    Yaml.Viewing.count false
    group changes {} { value := document.root }
  all.run document |>.run' {}

end Settings

end EcmaFold
