import StyleFlip.Options.Decode
import StyleFlip.Proofs.Layout

/-!
Records read from JSON documents field by field. A table gives the fields that its keys name, in the order of its members
(`Lists`), an array gives them in their order of declaration, and a field that is given twice is refused (`fields_eq_some_iff`).
Giving one field keeps all others (`FieldView`), so what a record holds in the end depends on which fields were given and not on
their order (`FieldView.of_foldlM`).
-/
namespace StyleFlip.Options.Decode

variable {φ : Type}

/-! ## Fields by name and by position -/

/-- The fields that the members of a table give, in their order. A member under a name of a field gives it, whichever of its names
it is, and a member under another key gives nothing. -/
inductive Lists (Names : φ → Text → Prop) : List (φ × Document) → List (Option Text × Document) → Prop
  | nil : Lists Names [] []
  | known {field : φ} {key : Text} {value : Document} {given : List (φ × Document)} {members : List (Option Text × Document)}
      (named : Names field key) (rest : Lists Names given members) :
      Lists Names ((field, value) :: given) ((some key, value) :: members)
  | unknown {key : Text} {value : Document} {given : List (φ × Document)} {members : List (Option Text × Document)}
      (unnamed : ∀ field, ¬ Names field key) (rest : Lists Names given members) : Lists Names given ((some key, value) :: members)

/-- The fields that a document gives, by name or by position, and none twice. -/
inductive Gives (Names : φ → Text → Prop) (order : List φ) : Document → List (φ × Document) → Prop
  | table {document : Document} {members : List (Option Text × Document)} {given : List (φ × Document)}
      (isTable : document.members? = some members) (listed : Lists Names given members)
      (distinct : (given.map Prod.fst).Nodup) : Gives Names order document given
  | array {items : List Document} (fits : items.length ≤ order.length) : Gives Names order (.array items) (order.zip items)

theorem isPrefix_map_fst_zip (order : List φ) (items : List Document) : (order.zip items).map Prod.fst <+: order := by
  induction order generalizing items with
  | nil => exact List.prefix_refl []
  | cons field order ih =>
    cases items with
    | nil => exact List.nil_prefix
    | cons item items => exact List.cons_prefix_cons.mpr ⟨rfl, ih items⟩

theorem Gives.nodup {Names : φ → Text → Prop} {order : List φ} (once : order.Nodup) {document : Document}
    {given : List (φ × Document)} (gives : Gives Names order document given) : (given.map Prod.fst).Nodup := by
  cases gives with
  | table _ _ distinct => exact distinct
  | @array items fits => exact once.sublist (isPrefix_map_fst_zip order items).sublist

/-- Fields that stand in their order of declaration, from the first one on, are given by position. -/
theorem Gives.of_front {Names : φ → Text → Prop} {order : List φ} {given : List (φ × Document)}
    (front : given.map Prod.fst <+: order) : Gives Names order (.array (given.map Prod.snd)) given := by
  obtain ⟨behind, rfl⟩ := front
  have zipped : (given.map Prod.fst ++ behind).zip (given.map Prod.snd) = given := by
    rw [← List.append_nil (given.map Prod.snd), List.zip_append (by simp), List.zip_nil_right, List.append_nil, List.zip_map']
    exact List.map_id' given
  have gives : Gives Names (given.map Prod.fst ++ behind) (.array (given.map Prod.snd)) _ := .array (by simp)
  rwa [zipped] at gives

/-- A part of the members gives a part of the fields. -/
theorem Lists.sublist {Names : φ → Text → Prop} {given : List (φ × Document)} {members part : List (Option Text × Document)}
    (listed : Lists Names given members) (chosen : part.Sublist members) :
    ∃ kept, kept.Sublist given ∧ Lists Names kept part := by
  induction listed generalizing part with
  | nil =>
    obtain rfl := List.sublist_nil.mp chosen
    exact ⟨[], List.Sublist.refl [], .nil⟩
  | known named _ ih =>
    cases chosen with
    | cons _ chosen =>
      obtain ⟨kept, within, listed⟩ := ih chosen
      exact ⟨kept, within.cons _, listed⟩
    | cons_cons _ chosen =>
      obtain ⟨kept, within, listed⟩ := ih chosen
      exact ⟨_ :: kept, within.cons_cons _, .known named listed⟩
  | unknown unnamed _ ih =>
    cases chosen with
    | cons _ chosen => exact ih chosen
    | cons_cons _ chosen =>
      obtain ⟨kept, within, listed⟩ := ih chosen
      exact ⟨kept, within, .unknown unnamed listed⟩

section
variable {fieldOf? : Text → Option φ} {Names : φ → Text → Prop}

/-- Two members under names of one field give it twice. -/
theorem Lists.not_nodup (names : ∀ {key field}, fieldOf? key = some field ↔ Names field key) {given : List (φ × Document)}
    {members : List (Option Text × Document)} (listed : Lists Names given members) {field : φ} {key other : Text}
    {value second : Document} (named : Names field key) (also : Names field other)
    (twice : [(some key, value), (some other, second)].Sublist members) : ¬ (given.map Prod.fst).Nodup := by
  have own : ∀ {found key}, Names field key → Names found key → found = field := fun named found =>
    Option.some.inj ((names.mpr found).symm.trans (names.mpr named))
  obtain ⟨kept, within, listed⟩ := listed.sublist twice
  intro once
  have once := once.sublist (within.map Prod.fst)
  cases listed with
  | unknown unnamed => exact unnamed field named
  | known first rest =>
    cases rest with
    | unknown unnamed => exact unnamed field also
    | known last =>
      rw [List.map_cons, List.map_cons, own named first, own also last] at once
      exact (List.nodup_cons.mp once).1 (List.mem_cons_self ..)

theorem distinct_iff [DecidableEq φ] {given : List (φ × Document)} : distinct given = true ↔ (given.map Prod.fst).Nodup := by
  induction given with
  | nil => simp [distinct]
  | cons first rest ih =>
    rw [distinct, Bool.and_eq_true, ih, List.map_cons, List.nodup_cons]
    refine and_congr_left fun _ => ?_
    simp only [List.all_eq_true, bne_iff_ne, List.mem_map, not_exists, not_and]

theorem knownMembers_eq_some_iff (names : ∀ {key field}, fieldOf? key = some field ↔ Names field key)
    {given : List (φ × Document)} {members : List (Option Text × Document)} :
    knownMembers .json fieldOf? members = some given ↔ Lists Names given members := by
  induction members generalizing given with
  | nil =>
    refine ⟨fun same => ?_, fun listed => ?_⟩
    · cases same
      exact .nil
    · cases listed
      rfl
  | cons first rest ih =>
    obtain ⟨key, value⟩ := first
    cases key with
    | none =>
      refine ⟨fun same => ?_, fun listed => ?_⟩
      · cases same
      · cases listed
    | some key =>
      rw [knownMembers]
      cases found : fieldOf? key with
      | none =>
        have unnamed : ∀ field, ¬ Names field key := fun field named => by simp [names.mpr named] at found
        refine Iff.trans ih ⟨.unknown unnamed, fun listed => ?_⟩
        cases listed with
        | known named _ => exact absurd named (unnamed _)
        | unknown _ listed => exact listed
      | some field =>
        refine ⟨fun same => ?_, fun listed => ?_⟩
        · obtain ⟨others, read, rfl⟩ := Option.map_eq_some_iff.mp same
          exact .known (names.mp found) (ih.mp read)
        · cases listed with
          | known named listed =>
            obtain rfl := Option.some.inj (found.symm.trans (names.mpr named))
            exact Option.map_eq_some_iff.mpr ⟨_, ih.mpr listed, rfl⟩
          | unknown unnamed _ => exact absurd (names.mp found) (unnamed field)

theorem fields_eq_some_iff [DecidableEq φ] (names : ∀ {key field}, fieldOf? key = some field ↔ Names field key) {order : List φ}
    {document : Document} {given : List (φ × Document)} :
    fields .json fieldOf? order document = some given ↔ Gives Names order document given := by
  constructor
  · intro read
    unfold fields at read
    split at read
    · split at read
      · rename_i fits
        cases read
        exact .array (of_decide_eq_true fits)
      · cases read
    · split at read
      · rename_i found
        split at read
        · rename_i once
          cases read
          obtain ⟨members, isTable, listed⟩ := Option.bind_eq_some_iff.mp found
          exact .table isTable ((knownMembers_eq_some_iff names).mp listed) (distinct_iff.mp once)
        · cases read
      · cases read
  · intro gives
    unfold fields
    cases gives with
    | table isTable listed once =>
      split
      · cases isTable
      · rw [isTable, Option.bind_some, (knownMembers_eq_some_iff names).mpr listed]
        exact if_pos (distinct_iff.mpr once)
    | array fits => exact if_pos (decide_eq_true fits)

end

/-! ## Records -/

/-- A record seen field by field: `set` gives a field the value that is read from a document, and keeps all others. A field may be
without a value until it is given one. -/
structure FieldView {ρ : Type} (set : ρ → φ × Document → Option ρ) where
  Value : φ → Type
  value? : (field : φ) → Document → Option (Value field)
  get? : (field : φ) → ρ → Option (Value field)
  put : (field : φ) → Value field → ρ → ρ
  set_eq : ∀ record field document, set record (field, document) = (value? field document).map fun value => put field value record
  get?_put : ∀ field value record, get? field (put field value record) = some value
  get?_put_of_ne : ∀ {field other} value record, other ≠ field → get? other (put field value record) = get? other record

namespace FieldView
variable {ρ : Type} {set : ρ → φ × Document → Option ρ} (view : FieldView set)

/-- Fields that can be read one by one can be given all together. -/
theorem exists_foldlM {given : List (φ × Document)} (typed : ∀ pair ∈ given, ∃ value, view.value? pair.1 pair.2 = some value)
    (record : ρ) : ∃ result, given.foldlM set record = some result := by
  induction given generalizing record with
  | nil => exact ⟨record, rfl⟩
  | cons first rest ih =>
    obtain ⟨⟨value, read⟩, others⟩ := List.forall_mem_cons.mp typed
    obtain ⟨result, onward⟩ := ih others (view.put first.1 value record)
    exact ⟨result, by rw [List.foldlM_cons, view.set_eq, read]; exact onward⟩

/-- A record to which fields are given holds their values, and where none is given what it held before. -/
theorem of_foldlM {given : List (φ × Document)} (distinct : (given.map Prod.fst).Nodup) {record result : ρ}
    (read : given.foldlM set record = some result) :
    (∀ pair ∈ given, view.value? pair.1 pair.2 = view.get? pair.1 result) ∧
      ∀ field ∉ given.map Prod.fst, view.get? field result = view.get? field record := by
  induction given generalizing record with
  | nil =>
    cases read
    exact ⟨List.forall_mem_nil _, fun _ _ => rfl⟩
  | cons first rest ih =>
    obtain ⟨new, others⟩ := List.nodup_cons.mp distinct
    rw [List.foldlM_cons, view.set_eq] at read
    obtain ⟨between, step, onward⟩ := Option.bind_eq_some_iff.mp read
    obtain ⟨value, own, rfl⟩ := Option.map_eq_some_iff.mp step
    obtain ⟨given, kept⟩ := ih others onward
    refine ⟨List.forall_mem_cons.mpr ⟨?_, given⟩, fun field other => ?_⟩
    · rw [own, kept _ new, view.get?_put]
    · rw [List.map_cons, List.mem_cons, not_or] at other
      rw [kept _ other.2, view.get?_put_of_ne _ _ other.1]

/-- The values of a record are given or were there before: this is all that can be said of it in the end. -/
theorem exists_foldlM_iff {given : List (φ × Document)} (distinct : (given.map Prod.fst).Nodup) {record : ρ}
    {value : (field : φ) → view.Value field} :
    (∃ result, given.foldlM set record = some result ∧ ∀ field, view.get? field result = some (value field)) ↔
      (∀ pair ∈ given, view.value? pair.1 pair.2 = some (value pair.1)) ∧
        ∀ field ∉ given.map Prod.fst, view.get? field record = some (value field) := by
  constructor
  · rintro ⟨result, read, held⟩
    obtain ⟨holds, keeps⟩ := view.of_foldlM distinct read
    exact ⟨fun pair member => (holds pair member).trans (held pair.1),
      fun field other => (keeps field other).symm.trans (held field)⟩
  · rintro ⟨said, kept⟩
    obtain ⟨result, read⟩ := view.exists_foldlM (fun pair member => ⟨_, said pair member⟩) record
    obtain ⟨holds, keeps⟩ := view.of_foldlM distinct read
    refine ⟨result, read, fun field => ?_⟩
    by_cases listed : field ∈ given.map Prod.fst
    · obtain ⟨pair, member, rfl⟩ := List.mem_map.mp listed
      exact (holds pair member).symm.trans (said pair member)
    · exact (keeps field listed).trans (kept field listed)

end FieldView
end StyleFlip.Options.Decode
