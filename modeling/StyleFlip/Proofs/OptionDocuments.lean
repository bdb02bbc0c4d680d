import StyleFlip.Proofs.EntryDocuments
import StyleFlip.Proofs.JsonTexts

/-!
Options from JSON texts. Which options a text describes depends on the fields that it gives and on nothing else of its spelling:
not on their order, on which of its names each field has, on members under other keys, on blanks and escapes, nor on whether the
fields are named or stand in their order (`ofText_of_fields`). A field that is given twice is refused, whatever its names.
-/
namespace StyleFlip

/-! ## Entries that are refused -/

namespace MapEntry

/-- An entry is at fault if it has nothing to look for, does not pair its tokens, or has an empty token. -/
def Faulty (entry : MapEntry) : Prop :=
  entry.search = [] ∨ entry.search.length ≠ entry.replace.length ∨ [] ∈ entry.search ++ entry.replace

/-- The message about an entry that is at fault, by the first thing that is wrong with it. -/
inductive Refused (entry : MapEntry) : String → Prop
  | noSearch (nothing : entry.search = []) :
      Refused entry ("Configuration error: " ++ ("string_map entry \"" ++ String.ofList entry.name ++ "\" has no search tokens"))
  | unequal (something : entry.search ≠ []) (unpaired : entry.search.length ≠ entry.replace.length) :
      Refused entry ("Configuration error: " ++ ("string_map entry \"" ++ String.ofList entry.name ++ "\" has " ++
        toString entry.search.length ++ " search tokens but " ++ toString entry.replace.length ++ " replace tokens"))
  | emptyToken (something : entry.search ≠ []) (paired : entry.search.length = entry.replace.length)
      (empty : [] ∈ entry.search ++ entry.replace) :
      Refused entry ("Configuration error: " ++ ("string_map entry \"" ++ String.ofList entry.name ++ "\" contains an empty token"))

theorem fault?_eq_none_iff {entry : MapEntry} : entry.fault? = none ↔ ¬ entry.Faulty := by
  unfold fault? Faulty
  simp only [List.isEmpty_iff, List.any_eq_true, exists_eq_right]
  split_ifs with nothing unpaired empty
  · simp [nothing]
  · simp [unpaired]
  · simp [empty]
  · simp only [nothing, unpaired, empty, or_self, not_false_eq_true]

theorem refused_of_fault? {entry : MapEntry} {fault : MapFault} (found : entry.fault? = some fault) :
    entry.Refused fault.message := by
  unfold fault? at found
  simp only [List.isEmpty_iff, List.any_eq_true, exists_eq_right] at found
  split_ifs at found with nothing unpaired empty <;> cases found
  · exact .noSearch nothing
  · exact .unequal nothing unpaired
  · exact .emptyToken nothing (not_not.mp unpaired) empty

end MapEntry

namespace Options

/-- Options are refused if and only if an entry is at fault. -/
theorem exists_fault?_iff {options : Options} :
    (∃ fault, options.fault? = some fault) ↔ ∃ entry ∈ options.stringMap, entry.Faulty := by
  rw [← Option.isSome_iff_exists, fault?, List.findSome?_isSome_iff]
  refine exists_congr fun entry => and_congr_right fun _ => ?_
  rw [← not_iff_not, ← MapEntry.fault?_eq_none_iff, Option.not_isSome_iff_eq_none]

/-- The first entry that is at fault is the one that is told of. -/
theorem refused_of_fault? {options : Options} {fault : MapFault} (found : options.fault? = some fault) :
    ∃ before entry behind, options.stringMap = before ++ entry :: behind ∧ (∀ other ∈ before, ¬ other.Faulty) ∧
      entry.Refused fault.message := by
  obtain ⟨before, entry, behind, split, own, others⟩ := List.findSome?_eq_some_iff.mp found
  exact ⟨before, entry, behind, split, fun other member => MapEntry.fault?_eq_none_iff.mp (others other member),
    MapEntry.refused_of_fault? own⟩

namespace Decode

/-! ## Fields of options -/

/-- A document says a scope for URL-like text: a boolean, or a table that can be held with an optional boolean `atrule`. -/
inductive UrlScopeSaid : Document → UrlScope → Prop
  | all (enabled : Bool) : UrlScopeSaid (.bool enabled) (.all enabled)
  | unscoped {document : Document} {members : List (Option Text × Document)} (isTable : document.members? = some members)
      (held : Format.json.holds 127 document = true) (listed : Lists (fun () key => key = "atrule".toList) [] members) :
      UrlScopeSaid document (.scoped false)
  | atRule {document : Document} {members : List (Option Text × Document)} {value : Bool}
      (isTable : document.members? = some members) (held : Format.json.holds 127 document = true)
      (listed : Lists (fun () key => key = "atrule".toList) [((), .bool value)] members) : UrlScopeSaid document (.scoped value)

theorem atRule_eq_some_iff {key : Text} {field : Unit} :
    (if key = "atrule".toList then some () else none) = some field ↔ key = "atrule".toList := by
  rw [Option.ite_none_right_eq_some]
  exact and_iff_left rfl

theorem urlScope?_eq_some_iff {document : Document} {scope : UrlScope} :
    urlScope? .json document = some scope ↔ UrlScopeSaid document scope := by
  constructor
  · intro read
    unfold urlScope? at read
    split at read
    · rename_i held
      split at read
      · cases read
        exact .all _
      · cases read
      · rename_i noArray
        have table : ∀ {given}, fields .json (fun key => if key = "atrule".toList then some () else none) [()] document = some given →
            ∃ members, document.members? = some members ∧ Lists (fun () key => key = "atrule".toList) given members ∧
              (given.map Prod.fst).Nodup := by
          intro given found
          cases (fields_eq_some_iff atRule_eq_some_iff).mp found with
          | table isTable listed once => exact ⟨_, isTable, listed, once⟩
          | array => exact absurd rfl (noArray _)
        split at read
        · rename_i found
          cases read
          obtain ⟨members, isTable, listed, -⟩ := table found
          exact .unscoped isTable held listed
        · rename_i rest found
          obtain ⟨members, isTable, listed, once⟩ := table found
          obtain ⟨value, own, rfl⟩ := Option.map_eq_some_iff.mp read
          obtain rfl := bool?_eq_some_iff.mp own
          cases rest with
          | nil => exact .atRule isTable held listed
          | cons second rest => exact absurd (List.mem_cons_self ..) (List.nodup_cons.mp once).1
        · cases read
    · cases read
  · intro said
    unfold urlScope?
    cases said with
    | all enabled => rfl
    | unscoped isTable held listed =>
      rw [if_pos held]
      split
      · cases isTable
      · cases isTable
      · rw [(fields_eq_some_iff atRule_eq_some_iff).mpr (.table isTable listed List.nodup_nil)]
    | atRule isTable held listed =>
      rw [if_pos held]
      split
      · cases isTable
      · cases isTable
      · rw [(fields_eq_some_iff atRule_eq_some_iff).mpr (.table isTable listed (List.nodup_singleton _))]
        rfl

/-- A document says entries: an array that says one in each item. -/
def EntriesSaid (document : Document) (entries : List MapEntry) : Prop :=
  ∃ items, document = .array items ∧ List.Forall₂ EntrySaid items entries

theorem entries?_eq_some_iff {document : Document} {entries : List MapEntry} :
    entries? .json document = some entries ↔ EntriesSaid document entries := by
  unfold entries? EntriesSaid
  cases document with
  | array items =>
    rw [list?, mapM_eq_some_iff]
    simp only [entryOf?_eq_some_iff, Document.array.injEq, exists_eq_left']
  | _ => simp [list?]

namespace Field

def key : Field → Text
  | .clean => "clean".toList
  | .processUrls => "process_urls".toList
  | .autoRename => "auto_rename".toList
  | .autoRenameStrict => "auto_rename_strict".toList
  | .processEnv => "process_env".toList
  | .greedy => "greedy".toList
  | .aliases => "aliases".toList
  | .blacklist => "blacklist".toList
  | .stringMap => "string_map".toList

/-- A key names a field in snake_case or in camelCase. -/
def Names (field : Field) (key : Text) : Prop := key = field.key ∨ key = camelCase field.key

theorem ofKey?_eq_some_iff {key : Text} {field : Field} : ofKey? key = some field ↔ field.Names key := by
  constructor
  · intro named
    unfold ofKey? at named
    -- A field whose two names are the same is tested for one of them only.
    repeat
      rcases of_ite_eq_some named with ⟨own, rfl⟩ | named
      · first | exact own | exact .inl own
    cases named
  · rintro (rfl | rfl) <;> cases field <;> decide

def Value : Field → Type
  | .clean => Bool
  | .processUrls => UrlScope
  | .autoRename => Bool
  | .autoRenameStrict => Bool
  | .processEnv => Bool
  | .greedy => Bool
  | .aliases => Table Text
  | .blacklist => Table (Table Bool)
  | .stringMap => List MapEntry

def get : (field : Field) → Options → field.Value
  | .clean, options => options.clean
  | .processUrls, options => options.processUrls
  | .autoRename, options => options.autoRename
  | .autoRenameStrict, options => options.autoRenameStrict
  | .processEnv, options => options.processEnv
  | .greedy, options => options.greedy
  | .aliases, options => options.aliases
  | .blacklist, options => options.blacklist
  | .stringMap, options => options.stringMap

def put : (field : Field) → field.Value → Options → Options
  | .clean, value, options => { options with clean := value }
  | .processUrls, value, options => { options with processUrls := value }
  | .autoRename, value, options => { options with autoRename := value }
  | .autoRenameStrict, value, options => { options with autoRenameStrict := value }
  | .processEnv, value, options => { options with processEnv := value }
  | .greedy, value, options => { options with greedy := value }
  | .aliases, value, options => { options with aliases := value }
  | .blacklist, value, options => { options with blacklist := value }
  | .stringMap, value, options => { options with stringMap := value }

/-- A document says what a field holds. -/
def Said : (field : Field) → Document → field.Value → Prop
  | .clean, document, value => document = .bool value
  | .processUrls, document, value => UrlScopeSaid document value
  | .autoRename, document, value => document = .bool value
  | .autoRenameStrict, document, value => document = .bool value
  | .processEnv, document, value => document = .bool value
  | .greedy, document, value => document = .bool value
  | .aliases, document, value => TableSays (fun document value => document = .string (some value)) document value
  | .blacklist, document, value => TableSays (TableSays fun document value => document = .bool value) document value
  | .stringMap, document, value => EntriesSaid document value

/-- The value of a field that is read from a document. -/
def value? : (field : Field) → Document → Option field.Value
  | .clean => bool?
  | .processUrls => urlScope? .json
  | .autoRename => bool?
  | .autoRenameStrict => bool?
  | .processEnv => bool?
  | .greedy => bool?
  | .aliases => table? string?
  | .blacklist => table? (table? bool?)
  | .stringMap => entries? .json

theorem value?_eq_some_iff {field : Field} {document : Document} {value : field.Value} :
    field.value? document = some value ↔ field.Said document value := by
  cases field with
  | clean => exact bool?_eq_some_iff
  | processUrls => exact urlScope?_eq_some_iff
  | autoRename => exact bool?_eq_some_iff
  | autoRenameStrict => exact bool?_eq_some_iff
  | processEnv => exact bool?_eq_some_iff
  | greedy => exact bool?_eq_some_iff
  | aliases => exact table?_eq_some_iff @string?_eq_some_iff
  | blacklist => exact table?_eq_some_iff (@table?_eq_some_iff _ _ _ @bool?_eq_some_iff)
  | stringMap => exact entries?_eq_some_iff

def view : FieldView (set .json) where
  Value := Value
  value? := value?
  get? field options := some (field.get options)
  put := put
  set_eq _ field _ := by cases field <;> rfl
  get?_put field _ _ := by cases field <;> rfl
  get?_put_of_ne {field other} _ _ different := by
    cases field <;> cases other <;> first | rfl | exact absurd rfl different

theorem eq_of_get {options other : Options} (same : ∀ field : Field, field.get options = field.get other) : options = other := by
  obtain ⟨clean, processUrls, autoRename, autoRenameStrict, processEnv, greedy, aliases, blacklist, stringMap⟩ := options
  obtain rfl : clean = other.clean := same .clean
  obtain rfl : processUrls = other.processUrls := same .processUrls
  obtain rfl : autoRename = other.autoRename := same .autoRename
  obtain rfl : autoRenameStrict = other.autoRenameStrict := same .autoRenameStrict
  obtain rfl : processEnv = other.processEnv := same .processEnv
  obtain rfl : greedy = other.greedy := same .greedy
  obtain rfl : aliases = other.aliases := same .aliases
  obtain rfl : blacklist = other.blacklist := same .blacklist
  obtain rfl : stringMap = other.stringMap := same .stringMap
  rfl

end Field

/-! ## Options -/

/-- The options that fields describe: those that are given hold what is said of them, and all others their defaults. -/
def Describes (given : List (Field × Document)) (options : Options) : Prop :=
  (∀ pair ∈ given, pair.1.Said pair.2 (pair.1.get options)) ∧ ∀ field ∉ given.map Prod.fst, field.get options = field.get {}

theorem Describes.unique {given : List (Field × Document)} {options other : Options} (described : Describes given options)
    (also : Describes given other) : options = other := by
  refine Field.eq_of_get fun field => ?_
  by_cases listed : field ∈ given.map Prod.fst
  · obtain ⟨pair, member, rfl⟩ := List.mem_map.mp listed
    have read := Field.value?_eq_some_iff.mpr (described.1 pair member)
    exact Option.some.inj (read.symm.trans (Field.value?_eq_some_iff.mpr (also.1 pair member)))
  · exact (described.2 field listed).trans (also.2 field listed).symm

/-- What fields describe does not depend on their order. -/
theorem Describes.perm {given listed : List (Field × Document)} {options : Options} (same : listed.Perm given)
    (described : Describes given options) : Describes listed options :=
  ⟨fun pair member => described.1 pair (same.mem_iff.mp member),
    fun field other => described.2 field fun member => other ((same.map Prod.fst).mem_iff.mpr member)⟩

theorem foldlM_set_eq_some_iff {given : List (Field × Document)} (distinct : (given.map Prod.fst).Nodup) {options : Options} :
    given.foldlM (set .json) {} = some options ↔ Describes given options := by
  have seen : given.foldlM (set .json) {} = some options ↔
      ∃ result, given.foldlM (set .json) {} = some result ∧ ∀ field, Field.view.get? field result = some (field.get options) := by
    refine ⟨fun filled => ⟨options, filled, fun _ => rfl⟩, ?_⟩
    rintro ⟨result, filled, same⟩
    rw [filled, Field.eq_of_get fun field => Option.some.inj (same field)]
  refine seen.trans ((Field.view.exists_foldlM_iff distinct).trans (and_congr ?_ ?_))
  · exact forall₂_congr fun _ _ => Field.value?_eq_some_iff
  · exact forall₂_congr fun _ _ => (Option.some_inj).trans eq_comm

theorem options?_eq_some_iff {document : Document} {options : Options} :
    options? .json document = some options ↔ ∃ given, Gives Field.Names Field.order document given ∧ Describes given options := by
  unfold options?
  constructor
  · intro read
    split at read
    · cases read
    · rename_i given found
      have gives := (fields_eq_some_iff Field.ofKey?_eq_some_iff).mp found
      exact ⟨given, gives, (foldlM_set_eq_some_iff (gives.nodup (by decide))).mp read⟩
  · rintro ⟨given, gives, described⟩
    rw [(fields_eq_some_iff Field.ofKey?_eq_some_iff).mpr gives]
    exact (foldlM_set_eq_some_iff (gives.nodup (by decide))).mpr described

end Decode

/-! ## Texts -/

open Decode Document

/-- Options that are described, unless an entry of their string map is at fault. -/
def checked (options : Options) : Except OptionsError Options :=
  match options.fault? with
  | some fault => .error (.invalid fault)
  | none => .ok options

theorem checked_eq_invalid_iff {options : Options} {fault : MapFault} :
    options.checked = .error (.invalid fault) ↔ options.fault? = some fault := by
  unfold checked
  cases options.fault? <;> simp

theorem checked_cases (options : Options) : options.checked = .ok options ∨ ∃ fault, options.checked = .error (.invalid fault) := by
  unfold checked
  cases options.fault? with
  | none => exact .inl rfl
  | some fault => exact .inr ⟨fault, rfl⟩

theorem ofText_of_gives {document : Document} {text : Text} {given : List (Field × Document)} {options : Options}
    (spelled : Json.Spells document text) (gives : Gives Field.Names Field.order document given)
    (described : Describes given options) : Options.ofText .json text = options.checked := by
  have read : (Format.json.parse? text).bind (options? .json) = some options :=
    Option.bind_eq_some_iff.mpr ⟨document, Json.parse?_of_spells spelled, options?_eq_some_iff.mpr ⟨given, gives, described⟩⟩
  rw [ofText, read]
  rfl

/-- A table with two members that name one field, in one spelling or in both, does not describe options. -/
theorem ofText_of_twice {members : List (Option Text × Document)} {text : Text} {field : Field} {key other : Text}
    {value second : Document} (spelled : Json.Spells (.table members) text) (named : field.Names key) (also : field.Names other)
    (twice : [(some key, value), (some other, second)].Sublist members) :
    Options.ofText .json text = .error (.malformed .json) := by
  have unread : (Format.json.parse? text).bind (options? .json) = none := by
    rw [Format.parse?, Json.parse?_of_spells spelled, Option.bind_some, Option.eq_none_iff_forall_ne_some]
    intro options read
    obtain ⟨given, gives, -⟩ := options?_eq_some_iff.mp read
    cases gives with
    | table isTable listed distinct =>
      cases isTable
      exact listed.not_nodup Field.ofKey?_eq_some_iff named also twice distinct
  rw [ofText, unread]

/-- Fields with well-typed values describe one set of options, in which all other fields have their defaults. Every text of a table
in which the fields stand in any order, each under either of its names, with any other members between them, is read alike, and so
is every text of an array of the values if the fields stand at the front of their order of declaration. The result is those options,
or the fault of the first entry of their string map that is at fault, if there is one. A table that gives a field twice is malformed. -/
theorem ofText_of_fields {given : List (Field × Document)} (distinct : (given.map Prod.fst).Nodup)
    (typed : ∀ pair ∈ given, ∃ value, pair.1.Said pair.2 value) :
    ∃ (options : Options) (result : Except OptionsError Options),
      (∀ other, Describes given other ↔ other = options) ∧
      (∀ (listed : List (Field × Document)) members text, listed.Perm given → Lists Field.Names listed members → Json.Spells (.table members) text →
        Options.ofText .json text = result) ∧
      (∀ (listed : List (Field × Document)) text, listed.Perm given → listed.map Prod.fst <+: Field.order →
        Json.Spells (.array (listed.map Prod.snd)) text → Options.ofText .json text = result) ∧
      (result = .ok options ∨ ∃ fault, result = .error (.invalid fault)) ∧
      ((∃ fault, result = .error (.invalid fault)) ↔ ∃ entry ∈ options.stringMap, entry.Faulty) ∧
      (∀ fault, result = .error (.invalid fault) → ∃ before entry behind, options.stringMap = before ++ entry :: behind ∧
        (∀ other ∈ before, ¬ other.Faulty) ∧ entry.Refused fault.message) ∧
      ∀ (field : Field) (key other : Text) (value second : Document) (members : List (Option Text × Document)) (text : Text),
        field.Names key → field.Names other → [(some key, value), (some other, second)].Sublist members →
        Json.Spells (.table members) text → Options.ofText .json text = .error (.malformed .json) := by
  obtain ⟨options, filled⟩ := Field.view.exists_foldlM
    (fun pair member => (typed pair member).imp fun _ said => Field.value?_eq_some_iff.mpr said) {}
  have described : Describes given options := (foldlM_set_eq_some_iff distinct).mp filled
  refine ⟨options, options.checked, fun other => ⟨fun also => also.unique described, ?_⟩, ?_, ?_, options.checked_cases, ?_, ?_, ?_⟩
  · rintro rfl
    exact described
  · intro listed members text same lists spelled
    exact ofText_of_gives spelled (.table rfl lists ((same.map Prod.fst).nodup_iff.mpr distinct)) (described.perm same)
  · intro listed text same front spelled
    exact ofText_of_gives spelled (.of_front front) (described.perm same)
  · simp only [checked_eq_invalid_iff, exists_fault?_iff]
  · intro fault found
    exact refused_of_fault? (checked_eq_invalid_iff.mp found)
  · intro field key other value second members text named also twice spelled
    exact ofText_of_twice spelled named also twice

theorem ofText_of_unpaired_tokens :
    ∃ fault, Options.ofText .json
        "\x7b\"stringMap\" :[[\"n\",7,[\"a\",\"b\"],\"c\"]], \"x\":null,\"auto_rename\":true\x7d".toList = .error (.invalid fault) ∧
      fault.message = "Configuration error: string_map entry \"n\" has 2 search tokens but 1 replace tokens" := by
  have described : Describes
      [(.autoRename, .bool true),
        (.stringMap, .array [.array [.string (some ['n']), .integer 7, .array [.string (some ['a']), .string (some ['b'])],
          .string (some ['c'])]])]
      { autoRename := true, stringMap := [{ name := ['n'], priority := 7, search := [['a'], ['b']], replace := [['c']] }] } :=
    (foldlM_set_eq_some_iff (by decide)).mp rfl
  obtain ⟨options, result, only, tables, -, -, refused, first, -⟩ :=
    ofText_of_fields (by decide) fun pair member => ⟨_, described.1 pair member⟩
  obtain rfl := (only _).mp described
  -- The text is put together from its values, the innermost first.
  have letter (c : Char) (plain : 0x20 ≤ c.toNat ∧ c ≠ '\x22' ∧ c ≠ '\\') :
      Json.Spells (.string (some [c])) ['\x22', c, '\x22'] :=
    .tight (.string (.plain (List.forall_mem_singleton.mpr plain)))
  have seven : Json.Spells (.integer 7) ['7'] :=
    .tight (.positive (@Json.WritesSize.mk false ['7'] [] [] none none ⟨by simp, by simp⟩ (fun _ => rfl) .none .none))
  have tokens := Json.Spells.tight (.array (.cons (letter 'a' (by decide)) (.last (letter 'b' (by decide)))))
  have entry := Json.Spells.tight
    (.array (.cons (letter 'n' (by decide)) (.cons seven (.cons tokens (.last (letter 'c' (by decide)))))))
  have tight : Json.Blanks [] := List.forall_mem_nil _
  have gap : Json.Blanks [' '] := List.forall_mem_singleton.mpr rfl
  have spelled := Json.Spells.tight (.table
    (.cons tight (@Json.WritesString.plain "stringMap".toList (by simp)) gap (.tight (.array (.last entry)))
      (.cons gap (@Json.WritesString.plain "x".toList (by simp)) tight (.tight .null)
        (.last tight (@Json.WritesString.plain "auto_rename".toList (by simp)) tight (.tight .yes)))))
  have unknown : ∀ field : Field, ¬ field.Names "x".toList := by
    intro field
    unfold Field.Names
    cases field <;> decide
  have read := tables _ _ _ (List.Perm.swap ..) (.known (.inr rfl) (.unknown unknown (.known (.inl rfl) .nil))) spelled
  obtain ⟨fault, found⟩ := refused.mpr ⟨_, List.mem_singleton_self _, .inr (.inl (by decide))⟩
  refine ⟨fault, read.trans found, ?_⟩
  obtain ⟨before, told, behind, split, -, message⟩ := first fault found
  obtain rfl := List.mem_singleton.mp (split.symm ▸ List.mem_append_right before (List.mem_cons_self ..))
  generalize fault.message = wording at message
  cases message with
  | noSearch nothing => cases nothing
  | unequal => decide
  | emptyToken _ paired => cases paired

end Options
end StyleFlip
