import StyleFlip.Proofs.Records

/-!
What JSON documents say of the values of options. Each reader of a value is matched with a relation that tells which documents it
takes and as what. An entry of a string map is a record of its own: a document says it by the names of its fields or by position,
and fields that it does not give have their defaults, if they have one (`entryOf?_eq_some_iff`).
-/
namespace StyleFlip

def Scope.name : Scope → Text
  | .all => "*".toList
  | .url => "url".toList
  | .selector => "selector".toList

namespace Options.Decode

/-- The camelCase spelling of a name in snake_case. -/
def camelCase : Text → Text
  | '_' :: c :: rest => c.toUpper :: camelCase rest
  | c :: rest => c :: camelCase rest
  | [] => []

theorem of_ite_eq_some {α : Type} {p : Prop} [Decidable p] {a b : α} {others : Option α}
    (found : (if p then some a else others) = some b) : (p ∧ a = b) ∨ others = some b := by
  split at found
  · exact .inl ⟨‹p›, Option.some.inj found⟩
  · exact .inr found

/-! ## Values -/

theorem bool?_eq_some_iff {document : Document} {value : Bool} : bool? document = some value ↔ document = .bool value := by
  cases document <;> simp [bool?]

theorem string?_eq_some_iff {document : Document} {content : Text} :
    string? document = some content ↔ document = .string (some content) := by
  cases document <;> simp [string?]

theorem mapM_eq_some_iff {α β : Type} {read? : α → Option β} {items : List α} {values : List β} :
    items.mapM read? = some values ↔ List.Forall₂ (fun item value => read? item = some value) items values := by
  induction items generalizing values with
  | nil => simp [eq_comm]
  | cons item items ih =>
    rw [List.mapM_cons, List.forall₂_cons_left_iff]
    cases read : read? item with
    | none => simp
    | some value =>
      cases others : items.mapM read? with
      | none => simp [← ih, others]
      | some rest => simp [← ih, others, eq_comm]

/-- A member with a name says a value under that name. -/
def MemberSays {α : Type} (Says : Document → α → Prop) (member : Option Text × Document) (pair : Text × α) : Prop :=
  member.1 = some pair.1 ∧ Says member.2 pair.2

/-- A document says a table of values: all its members have names and say values, and the last member of a name counts. -/
def TableSays {α : Type} (Says : Document → α → Prop) (document : Document) (table : Table α) : Prop :=
  ∃ members named, document.members? = some members ∧ List.Forall₂ (MemberSays Says) members named ∧
    table = named.foldl (fun table pair => Table.put table pair.1 pair.2) []

theorem table?_eq_some_iff {α : Type} {value? : Document → Option α} {Says : Document → α → Prop}
    (value : ∀ {document value}, value? document = some value ↔ Says document value) {document : Document} {table : Table α} :
    table? value? document = some table ↔ TableSays Says document table := by
  unfold table? TableSays
  cases document.members? with
  | none => simp
  | some members =>
    simp only [Option.some.injEq, exists_and_left, exists_eq_left']
    generalize ([] : Table α) = start
    induction members generalizing start with
    | nil => simp [eq_comm]
    | cons first rest ih =>
      obtain ⟨key, document⟩ := first
      rw [List.foldlM_cons]
      constructor
      · intro read
        obtain ⟨between, step, onward⟩ := Option.bind_eq_some_iff.mp read
        cases key with
        | none => cases step
        | some name =>
          cases own : value? document with
          | none => simp [own] at step
          | some said =>
            simp only [own, Option.some.injEq] at step
            subst step
            obtain ⟨named, others, rfl⟩ := (ih _).mp onward
            exact ⟨(name, said) :: named, .cons ⟨rfl, value.mp own⟩ others, rfl⟩
      · rintro ⟨named, members, rfl⟩
        cases members with
        | @cons _ pair _ named own others =>
          obtain ⟨rfl, own⟩ : key = some pair.1 ∧ _ := own
          rw [value.mpr own]
          exact (ih _).mpr ⟨named, others, rfl⟩

/-- A document says tokens: a string is one token, an array of strings any number of them. -/
inductive TokensSaid : Document → List Text → Prop
  | one (token : Text) : TokensSaid (.string (some token)) [token]
  | many (tokens : List Text) : TokensSaid (.array (tokens.map fun token => .string (some token))) tokens

theorem mapM_string?_eq_some_iff {items : List Document} {tokens : List Text} :
    items.mapM string? = some tokens ↔ items = tokens.map fun token => .string (some token) := by
  simp only [mapM_eq_some_iff, string?_eq_some_iff]
  rw [← List.forall₂_eq_eq_eq, List.forall₂_map_right_iff]

/-- Strings and arrays of strings can always be held. -/
theorem holds_strings (tokens : List Text) :
    Format.json.holds 125 (.array (tokens.map fun token => .string (some token))) = true := by
  have flat : Document.itemsDepth (tokens.map fun token => .string (some token)) = 0 ∧
      Document.everyItem (Document.fitsBits 64) (tokens.map fun token => .string (some token)) = true := by
    induction tokens with
    | nil => exact ⟨rfl, rfl⟩
    | cons token tokens ih =>
      rw [List.map_cons, Document.itemsDepth, ih.1, Document.everyItem, ih.2]
      exact ⟨rfl, rfl⟩
  rw [Format.holds, Document.depth, flat.1, Document.everyLeaf, flat.2]
  rfl

theorem tokens?_eq_some_iff {document : Document} {tokens : List Text} :
    tokens? .json document = some tokens ↔ TokensSaid document tokens := by
  constructor
  · intro read
    unfold tokens? at read
    split at read
    · split at read
      · obtain ⟨token, rfl, rfl⟩ := Option.map_eq_some_iff.mp read
        exact .one token
      · obtain rfl := mapM_string?_eq_some_iff.mp read
        exact .many tokens
      · cases read
    · cases read
  · intro said
    cases said with
    | one token => rfl
    | many tokens =>
      rw [tokens?, if_pos (holds_strings tokens)]
      exact mapM_string?_eq_some_iff.mpr rfl

/-- A document says a priority: an integer of 32 bits. -/
def PrioritySaid (document : Document) (priority : Int) : Prop :=
  document = .integer priority ∧ -2147483648 ≤ priority ∧ priority ≤ 2147483647

theorem priority?_eq_some_iff {document : Document} {priority : Int} :
    priority? document = some priority ↔ PrioritySaid document priority := by
  unfold PrioritySaid
  cases document with
  | integer value =>
    rw [priority?, Option.ite_none_right_eq_some, Option.some.injEq, Document.integer.injEq]
    constructor
    · rintro ⟨bounds, rfl⟩
      exact ⟨rfl, bounds⟩
    · rintro ⟨rfl, bounds⟩
      exact ⟨bounds, rfl⟩
  | _ => simp [priority?]

theorem scopeNamed?_eq_some_iff {name : Text} {scope : Scope} : scopeNamed? name = some scope ↔ name = scope.name := by
  constructor
  · intro named
    unfold scopeNamed? at named
    split_ifs at named <;> cases named <;> assumption
  · rintro rfl
    cases scope <;> rfl

/-- A document says a scope: its name, or a table with that name over `null`. -/
inductive ScopeSaid : Document → Scope → Prop
  | name (scope : Scope) : ScopeSaid (.string (some scope.name)) scope
  | table (scope : Scope) : ScopeSaid (.table [(some scope.name, .null)]) scope

theorem scope?_eq_some_iff {document : Document} {scope : Scope} :
    scope? .json document = some scope ↔ ScopeSaid document scope := by
  constructor
  · intro read
    unfold scope? at read
    split at read
    · obtain rfl := scopeNamed?_eq_some_iff.mp read
      exact .name scope
    · split at read
      · rename_i value nothing
        obtain rfl := scopeNamed?_eq_some_iff.mp read
        cases value <;> first | exact .table scope | cases nothing
      · cases read
    · cases read
  · intro said
    cases said with
    | name => exact scopeNamed?_eq_some_iff.mpr rfl
    | table => exact scopeNamed?_eq_some_iff.mpr rfl

/-- A document says a boolean that may be missing. -/
inductive OptionalBoolSaid : Document → Option Bool → Prop
  | null : OptionalBoolSaid .null none
  | bool (value : Bool) : OptionalBoolSaid (.bool value) (some value)

theorem optionalBool?_eq_some_iff {document : Document} {value : Option Bool} :
    optionalBool? document = some value ↔ OptionalBoolSaid document value := by
  constructor
  · intro read
    cases document <;> cases read
    · exact .null
    · exact .bool _
  · intro said
    cases said <;> rfl

/-! ## Entries of string maps -/

namespace EntryField

def key : EntryField → Text
  | .name => "name".toList
  | .priority => "priority".toList
  | .search => "search".toList
  | .replace => "replace".toList
  | .scope => "scope".toList
  | .ignoreCase => "ignore_case".toList
  | .greedy => "greedy".toList
  | .exclusive => "exclusive".toList

/-- A key names a field in snake_case or in camelCase. -/
def Names (field : EntryField) (key : Text) : Prop := key = field.key ∨ key = camelCase field.key

theorem ofKey?_eq_some_iff {key : Text} {field : EntryField} : ofKey? key = some field ↔ field.Names key := by
  constructor
  · intro named
    unfold ofKey? at named
    -- A field whose two names are the same is tested for one of them only.
    repeat
      rcases of_ite_eq_some named with ⟨own, rfl⟩ | named
      · first | exact own | exact .inl own
    cases named
  · rintro (rfl | rfl) <;> cases field <;> decide

def Value : EntryField → Type
  | .name => Text
  | .priority => Int
  | .search => List Text
  | .replace => List Text
  | .scope => Scope
  | .ignoreCase => Bool
  | .greedy => Option Bool
  | .exclusive => Bool

def get : (field : EntryField) → MapEntry → field.Value
  | .name, entry => entry.name
  | .priority, entry => entry.priority
  | .search, entry => entry.search
  | .replace, entry => entry.replace
  | .scope, entry => entry.scope
  | .ignoreCase, entry => entry.ignoreCase
  | .greedy, entry => entry.greedy
  | .exclusive, entry => entry.exclusive

/-- What a field holds that is not given; some fields have to be given. -/
def default? : (field : EntryField) → Option field.Value
  | .name => none
  | .priority => some (100 : Int)
  | .search => none
  | .replace => none
  | .scope => some Scope.all
  | .ignoreCase => some false
  | .greedy => some none
  | .exclusive => some false

/-- A document says what a field holds. -/
def Said : (field : EntryField) → Document → field.Value → Prop
  | .name, document, value => document = .string (some value)
  | .priority, document, value => PrioritySaid document value
  | .search, document, value => TokensSaid document value
  | .replace, document, value => TokensSaid document value
  | .scope, document, value => ScopeSaid document value
  | .ignoreCase, document, value => document = .bool value
  | .greedy, document, value => OptionalBoolSaid document value
  | .exclusive, document, value => document = .bool value

/-- The value of a field that is read from a document. -/
def value? : (field : EntryField) → Document → Option field.Value
  | .name => string?
  | .priority => priority?
  | .search => tokens? .json
  | .replace => tokens? .json
  | .scope => scope? .json
  | .ignoreCase => bool?
  | .greedy => optionalBool?
  | .exclusive => bool?

theorem value?_eq_some_iff {field : EntryField} {document : Document} {value : field.Value} :
    field.value? document = some value ↔ field.Said document value := by
  cases field with
  | name => exact string?_eq_some_iff
  | priority => exact priority?_eq_some_iff
  | search => exact tokens?_eq_some_iff
  | replace => exact tokens?_eq_some_iff
  | scope => exact scope?_eq_some_iff
  | ignoreCase => exact bool?_eq_some_iff
  | greedy => exact optionalBool?_eq_some_iff
  | exclusive => exact bool?_eq_some_iff

end EntryField

namespace Draft

/-- What a draft holds in a field, if it was given or has a default. -/
def get? : (field : EntryField) → Draft → Option field.Value
  | .name, draft => draft.name
  | .priority, draft => some draft.entry.priority
  | .search, draft => draft.search
  | .replace, draft => draft.replace
  | .scope, draft => some draft.entry.scope
  | .ignoreCase, draft => some draft.entry.ignoreCase
  | .greedy, draft => some draft.entry.greedy
  | .exclusive, draft => some draft.entry.exclusive

def put : (field : EntryField) → field.Value → Draft → Draft
  | .name, value, draft => { draft with name := some value }
  | .priority, value, draft => { draft with entry.priority := value }
  | .search, value, draft => { draft with search := some value }
  | .replace, value, draft => { draft with replace := some value }
  | .scope, value, draft => { draft with entry.scope := value }
  | .ignoreCase, value, draft => { draft with entry.ignoreCase := value }
  | .greedy, value, draft => { draft with entry.greedy := value }
  | .exclusive, value, draft => { draft with entry.exclusive := value }

def view : FieldView (Draft.set .json) where
  Value := EntryField.Value
  value? := EntryField.value?
  get? := get?
  put := put
  set_eq _ field _ := by cases field <;> rfl
  get?_put field _ _ := by cases field <;> rfl
  get?_put_of_ne {field other} _ _ different := by
    cases field <;> cases other <;> first | rfl | exact absurd rfl different

theorem get?_start (field : EntryField) : get? field {} = field.default? := by cases field <;> rfl

theorem finish?_eq_some_iff {draft : Draft} {entry : MapEntry} :
    draft.finish? = some entry ↔ ∀ field, get? field draft = some (field.get entry) := by
  obtain ⟨name, search, replace, unnamed, priority, _, _, scope, ignoreCase, greedy, exclusive⟩ := draft
  constructor
  · intro finished field
    cases name <;> cases search <;> cases replace <;> cases finished
    cases field <;> rfl
  · intro held
    obtain rfl : name = some entry.name := held .name
    obtain rfl : search = some entry.search := held .search
    obtain rfl : replace = some entry.replace := held .replace
    obtain rfl : priority = entry.priority := Option.some.inj (held .priority)
    obtain rfl : scope = entry.scope := Option.some.inj (held .scope)
    obtain rfl : ignoreCase = entry.ignoreCase := Option.some.inj (held .ignoreCase)
    obtain rfl : greedy = entry.greedy := Option.some.inj (held .greedy)
    obtain rfl : exclusive = entry.exclusive := Option.some.inj (held .exclusive)
    rfl

end Draft

/-- A document says an entry: the fields that it gives hold what is said of them, and all others their defaults. -/
def EntrySaid (document : Document) (entry : MapEntry) : Prop :=
  ∃ given, Gives EntryField.Names EntryField.order document given ∧
    (∀ pair ∈ given, pair.1.Said pair.2 (pair.1.get entry)) ∧
    ∀ field ∉ given.map Prod.fst, field.default? = some (field.get entry)

theorem entryOf?_eq_some_iff {document : Document} {entry : MapEntry} :
    entryOf? .json document = some entry ↔ EntrySaid document entry := by
  have filled : ∀ {given}, Gives EntryField.Names EntryField.order document given →
      ((given.foldlM (Draft.set .json) {}).bind Draft.finish? = some entry ↔
        (∀ pair ∈ given, pair.1.Said pair.2 (pair.1.get entry)) ∧
          ∀ field ∉ given.map Prod.fst, field.default? = some (field.get entry)) := by
    intro given gives
    rw [Option.bind_eq_some_iff]
    simp only [Draft.finish?_eq_some_iff]
    refine (Draft.view.exists_foldlM_iff (gives.nodup (by decide))).trans (and_congr ?_ ?_)
    · exact forall₂_congr fun _ _ => EntryField.value?_eq_some_iff
    · exact forall₂_congr fun field _ => by rw [← Draft.get?_start]; rfl
  unfold entryOf?
  constructor
  · intro read
    split at read
    · cases read
    · rename_i given found
      have gives := (fields_eq_some_iff EntryField.ofKey?_eq_some_iff).mp found
      exact ⟨given, gives, (filled gives).mp read⟩
  · rintro ⟨given, gives, said⟩
    rw [(fields_eq_some_iff EntryField.ofKey?_eq_some_iff).mpr gives]
    exact (filled gives).mpr said

end Options.Decode
end StyleFlip
