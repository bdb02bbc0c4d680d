import StyleFlip.Document.Json
import StyleFlip.Document.Toml.Parser
import StyleFlip.Options.Basic

/-!
Options from JSON and TOML texts. A record is a table of its fields or an array of them in their order of declaration.
In a table unknown keys are skipped and no field may be given twice, not even in both of its spellings; fields that are
not given keep their defaults. The two notations differ in how much of a text is looked at: JSON skips the values of
unknown keys unread but refuses items beyond the last field, TOML reads the former and leaves the latter alone.
-/
namespace StyleFlip

/-- The two notations for options. -/
inductive Format where
  | json
  | toml
deriving DecidableEq, Repr

namespace Format

def parse? : Format → Text → Option Document
  | .json => Document.Json.parse?
  | .toml => Document.Toml.parse?

/-- The values that stand for nothing: `null`, or in TOML, which has none, an empty table or array. -/
def isNothing : Format → Document → Bool
  | .json, .null => true
  | .toml, .table [] => true
  | .toml, .array [] => true
  | _, _ => false

/-- Whether a value under an unknown key can be skipped. JSON does not look at it; in TOML its numbers have to be ones
that can be read. -/
def skips : Format → Document → Bool
  | .json, _ => true
  | .toml, document => document.everyLeaf (Document.fitsBits 128)

/-- Whether a value can be held before its type is known, which in JSON takes some `room` for nesting. -/
def holds (room : Nat) : Format → Document → Bool
  | .json, document => document.depth < room && document.everyLeaf (Document.fitsBits 64)
  | .toml, document => document.everyLeaf (Document.fitsBits 64)

/-- Whether a record may be given by as many items as there are, if it has the given number of fields. -/
def admits (fields items : Nat) : Format → Bool
  | .json => items ≤ fields
  | .toml => true

end Format

/-- Why options could not be had. -/
inductive OptionsError where
  /-- The text is malformed or does not describe options. -/
  | malformed (format : Format)
  | invalid (fault : MapFault)
deriving DecidableEq, Repr

namespace Options.Decode

/-- The known fields of a table with their values. -/
def knownMembers {φ : Type} (format : Format) (fieldOf? : Text → Option φ) :
    List (Option Text × Document) → Option (List (φ × Document))
  | [] => some []
  | (none, _) :: _ => none
  | (some key, value) :: rest =>
    match fieldOf? key, knownMembers format fieldOf? rest with
    | none, found => if format.skips value then found else none
    | some field, found => found.map ((field, value) :: ·)

/-- Whether no field is given twice. -/
def distinct {φ : Type} [DecidableEq φ] : List (φ × Document) → Bool
  | [] => true
  | (field, _) :: rest => rest.all (fun (other, _) => other != field) && distinct rest

/-- The fields that a document gives to a record, by name or by position. -/
def fields {φ : Type} [DecidableEq φ] (format : Format) (fieldOf? : Text → Option φ) (order : List φ)
    (document : Document) : Option (List (φ × Document)) :=
  match document with
  | .array items => if format.admits order.length items.length then some (order.zip items) else none
  | _ =>
    match document.members?.bind (knownMembers format fieldOf?) with
    | some found => if distinct found then some found else none
    | none => none

def bool? : Document → Option Bool
  | .bool value => some value
  | _ => none

def string? : Document → Option Text
  | .string content => content
  | _ => none

/-- A table of values that `value?` reads; the last member of a name counts. -/
def table? {α : Type} (value? : Document → Option α) (document : Document) : Option (Table α) :=
  match document.members? with
  | some members =>
    members.foldlM (fun table (key, document) =>
      match key, value? document with
      | some key, some value => some (table.put key value)
      | _, _ => none) []
  | none => none

/-- A list of values that `value?` reads. -/
def list? {α : Type} (value? : Document → Option α) : Document → Option (List α)
  | .array items => items.mapM value?
  | _ => none

/-- A boolean, or a table with an optional boolean `atrule`. The value has to be one that can be held. -/
def urlScope? (format : Format) (document : Document) : Option UrlScope :=
  if format.holds 127 document then
    match document with
    | .bool enabled => some (.all enabled)
    | .array _ => none
    | _ =>
      match fields format (fun key => if key = "atrule".toList then some () else none) [()] document with
      | some [] => some (.scoped false)
      | some ((_, value) :: _) => (bool? value).map .scoped
      | none => none
  else none

/-- One string or a list of strings. The value has to be one that can be held. -/
def tokens? (format : Format) (document : Document) : Option (List Text) :=
  if format.holds 125 document then
    match document with
    | .string content => content.map fun token => [token]
    | .array items => items.mapM string?
    | _ => none
  else none

/-- An integer of 32 bits. -/
def priority? : Document → Option Int
  | .integer value => if -2147483648 ≤ value ∧ value ≤ 2147483647 then some value else none
  | _ => none

def scopeNamed? (name : Text) : Option Scope :=
  if name = "*".toList then some .all
  else if name = "url".toList then some .url
  else if name = "selector".toList then some .selector
  else none

/-- The name of a scope, or a table with that name over nothing. -/
def scope? (format : Format) : Document → Option Scope
  | .string (some name) => scopeNamed? name
  | .table [(some name, value)] => if format.isNothing value then scopeNamed? name else none
  | _ => none

def optionalBool? : Document → Option (Option Bool)
  | .null => some none
  | document => (bool? document).map some

inductive EntryField where
  | name
  | priority
  | search
  | replace
  | scope
  | ignoreCase
  | greedy
  | exclusive
deriving DecidableEq, Repr

/-- The fields of an entry in their order of declaration. -/
def EntryField.order : List EntryField :=
  [.name, .priority, .search, .replace, .scope, .ignoreCase, .greedy, .exclusive]

def EntryField.ofKey? (key : Text) : Option EntryField :=
  if key = "name".toList then some .name
  else if key = "priority".toList then some .priority
  else if key = "search".toList then some .search
  else if key = "replace".toList then some .replace
  else if key = "scope".toList then some .scope
  else if key = "ignore_case".toList ∨ key = "ignoreCase".toList then some .ignoreCase
  else if key = "greedy".toList then some .greedy
  else if key = "exclusive".toList then some .exclusive
  else none

/-- An entry whose required fields may still be missing. -/
structure Draft where
  name : Option Text := none
  search : Option (List Text) := none
  replace : Option (List Text) := none
  /-- The entry with all other fields. -/
  entry : MapEntry := { name := [], search := [], replace := [] }

def Draft.set (format : Format) (draft : Draft) : EntryField × Document → Option Draft
  | (.name, value) => (string? value).map fun name => { draft with name := some name }
  | (.priority, value) => (priority? value).map fun n => { draft with entry.priority := n }
  | (.search, value) => (tokens? format value).map fun tokens => { draft with search := some tokens }
  | (.replace, value) => (tokens? format value).map fun tokens => { draft with replace := some tokens }
  | (.scope, value) => (scope? format value).map fun scope => { draft with entry.scope := scope }
  | (.ignoreCase, value) => (bool? value).map fun b => { draft with entry.ignoreCase := b }
  | (.greedy, value) => (optionalBool? value).map fun b => { draft with entry.greedy := b }
  | (.exclusive, value) => (bool? value).map fun b => { draft with entry.exclusive := b }

/-- The entry of a draft that has its required fields. -/
def Draft.finish? (draft : Draft) : Option MapEntry :=
  match draft.name, draft.search, draft.replace with
  | some name, some search, some replace => some { draft.entry with name, search, replace }
  | _, _, _ => none

def entryOf? (format : Format) (document : Document) : Option MapEntry :=
  match fields format EntryField.ofKey? EntryField.order document with
  | none => none
  | some given => (given.foldlM (Draft.set format) {}).bind Draft.finish?

def entries? (format : Format) : Document → Option (List MapEntry) := list? (entryOf? format)

inductive Field where
  | clean
  | processUrls
  | autoRename
  | autoRenameStrict
  | processEnv
  | greedy
  | aliases
  | blacklist
  | stringMap
deriving DecidableEq, Repr

/-- The fields of options in their order of declaration. -/
def Field.order : List Field :=
  [.clean, .processUrls, .autoRename, .autoRenameStrict, .processEnv, .greedy, .aliases, .blacklist, .stringMap]

/-- The field with the given key, in either spelling. -/
def Field.ofKey? (key : Text) : Option Field :=
  if key = "clean".toList then some .clean
  else if key = "process_urls".toList ∨ key = "processUrls".toList then some .processUrls
  else if key = "auto_rename".toList ∨ key = "autoRename".toList then some .autoRename
  else if key = "auto_rename_strict".toList ∨ key = "autoRenameStrict".toList then some .autoRenameStrict
  else if key = "process_env".toList ∨ key = "processEnv".toList then some .processEnv
  else if key = "greedy".toList then some .greedy
  else if key = "aliases".toList then some .aliases
  else if key = "blacklist".toList then some .blacklist
  else if key = "string_map".toList ∨ key = "stringMap".toList then some .stringMap
  else none

def set (format : Format) (options : Options) : Field × Document → Option Options
  | (.clean, value) => (bool? value).map fun b => { options with clean := b }
  | (.processUrls, value) => (urlScope? format value).map fun scope => { options with processUrls := scope }
  | (.autoRename, value) => (bool? value).map fun b => { options with autoRename := b }
  | (.autoRenameStrict, value) => (bool? value).map fun b => { options with autoRenameStrict := b }
  | (.processEnv, value) => (bool? value).map fun b => { options with processEnv := b }
  | (.greedy, value) => (bool? value).map fun b => { options with greedy := b }
  | (.aliases, value) => (table? string? value).map fun table => { options with aliases := table }
  | (.blacklist, value) => (table? (table? bool?) value).map fun table => { options with blacklist := table }
  | (.stringMap, value) => (entries? format value).map fun entries => { options with stringMap := entries }

/-- The options that a document describes, valid or not. -/
def options? (format : Format) (document : Document) : Option Options :=
  match fields format Field.ofKey? Field.order document with
  | none => none
  | some given => given.foldlM (set format) {}

end Options.Decode

/-- The valid options that a text describes. -/
def Options.ofText (format : Format) (text : Text) : Except OptionsError Options :=
  match (format.parse? text).bind (Decode.options? format) with
  | none => .error (.malformed format)
  | some options =>
    match options.fault? with
    | some fault => .error (.invalid fault)
    | none => .ok options

end StyleFlip
