import StyleFlip.Document.Json
import StyleFlip.Proofs.Rereading

/-!
The texts that write a document in JSON: any escapes in strings, numbers in any of their forms, and blanks around every value and
key. The grammar is said apart from the reader (`Spells`), and every text of it is read as the document that it writes
(`parse?_of_spells`), so that statements about readers of documents speak of all their texts.
-/
namespace StyleFlip.Document.Json

/-! ## The grammar -/

def Blanks (text : Text) : Prop := ∀ c ∈ text, isBlank c = true

/-- How a part of a string is written: a character as itself or by an escape of one letter, and both parts by the escape with their
code. -/
inductive Part.Written : Part → Text → Prop
  | plain {c : Char} (printable : 0x20 ≤ c.toNat) (bare : c ≠ '\x22' ∧ c ≠ '\\') : Written (.char c) [c]
  | letter {e c : Char} (escape : escape? e = some c) : Written (.char c) ['\\', e]
  | code {a b c d : Char} {code : Nat} (hex : hex? [a, b, c, d] = some code) : Written (.ofCode code) ['\\', 'u', a, b, c, d]

/-- The parts of a string one after the other. -/
inductive WritesParts : List Part → Text → Prop
  | nil : WritesParts [] []
  | cons {part : Part} {text : Text} {parts : List Part} {more : Text} (first : part.Written text)
      (rest : WritesParts parts more) : WritesParts (part :: parts) (text ++ more)

/-- A string with its quotes; its content is none if halves of escapes do not pair up. -/
inductive WritesString : Option Text → Text → Prop
  | mk {parts : List Part} {text : Text} (written : WritesParts parts text) :
      WritesString (joinParts parts) ('\x22' :: (text ++ ['\x22']))

def Digits (text : Text) : Prop := text ≠ [] ∧ ∀ c ∈ text, c.isDigit = true

inductive WritesFraction : Option Text → Text → Prop
  | none : WritesFraction none []
  | some {digits : Text} (written : Digits digits) : WritesFraction (some digits) ('.' :: digits)

inductive WritesSign : Bool → Text → Prop
  | none : WritesSign false []
  | plus : WritesSign false ['+']
  | minus : WritesSign true ['-']

inductive WritesExponent : Option Int → Text → Prop
  | none : WritesExponent none []
  | some {letter : Char} {negative : Bool} {sign digits : Text} (marks : letter = 'e' ∨ letter = 'E')
      (signed : WritesSign negative sign) (written : Digits digits) :
      WritesExponent (some (if negative then -(Text.digitsValue digits : Int) else Text.digitsValue digits))
        (letter :: (sign ++ digits))

/-- The document of a number with the given parts. -/
def numberOf (negative : Bool) (digits : Text) (fraction : Option Text) (exponent : Option Int) : Document :=
  match fraction, exponent with
  | none, none => wholeNumber negative digits
  | _, _ => .decimal (((Held.ofWhole digits).withPlaces (fraction.getD [])).scaled (exponent.getD 0)).isFinite

/-- A number without its sign: a leading zero is the only digit before the point. -/
inductive WritesSize (negative : Bool) : Document → Text → Prop
  | mk {digits places power : Text} {fraction : Option Text} {exponent : Option Int} (written : Digits digits)
      (leading : digits.head? = some '0' → digits.length = 1) (fractional : WritesFraction fraction places)
      (scaled : WritesExponent exponent power) :
      WritesSize negative (numberOf negative digits fraction exponent) (digits ++ (places ++ power))

mutual
/-- A text writes a document, without blanks around it. -/
inductive Writes : Document → Text → Prop
  | null : Writes .null "null".toList
  | yes : Writes (.bool true) "true".toList
  | no : Writes (.bool false) "false".toList
  | positive {document : Document} {text : Text} (number : WritesSize false document text) : Writes document text
  | negative {document : Document} {text : Text} (number : WritesSize true document text) : Writes document ('-' :: text)
  | string {content : Option Text} {text : Text} (written : WritesString content text) : Writes (.string content) text
  | emptyArray {gap : Text} (blanks : Blanks gap) : Writes (.array []) ('[' :: (gap ++ [']']))
  | array {items : List Document} {text : Text} (written : WritesItems items text) : Writes (.array items) ('[' :: (text ++ [']']))
  | emptyTable {gap : Text} (blanks : Blanks gap) : Writes (.table []) ('{' :: (gap ++ ['}']))
  | table {members : List (Option Text × Document)} {text : Text} (written : WritesMembers members text) :
      Writes (.table members) ('{' :: (text ++ ['}']))

/-- A text writes a document, with blanks around it or not. -/
inductive Spells : Document → Text → Prop
  | mk {document : Document} {before text behind : Text} (leading : Blanks before) (written : Writes document text)
      (trailing : Blanks behind) : Spells document (before ++ (text ++ behind))

/-- The items of an array with commas between them, at least one. -/
inductive WritesItems : List Document → Text → Prop
  | last {item : Document} {text : Text} (written : Spells item text) : WritesItems [item] text
  | cons {item : Document} {text : Text} {items : List Document} {more : Text} (written : Spells item text)
      (rest : WritesItems items more) : WritesItems (item :: items) (text ++ ',' :: more)

/-- The members of a table with commas between them, at least one. -/
inductive WritesMembers : List (Option Text × Document) → Text → Prop
  | last {key : Option Text} {value : Document} {before name gap text : Text} (leading : Blanks before)
      (named : WritesString key name) (trailing : Blanks gap) (written : Spells value text) :
      WritesMembers [(key, value)] (before ++ (name ++ (gap ++ ':' :: text)))
  | cons {key : Option Text} {value : Document} {before name gap text : Text} {members : List (Option Text × Document)}
      {more : Text} (leading : Blanks before) (named : WritesString key name) (trailing : Blanks gap)
      (written : Spells value text) (rest : WritesMembers members more) :
      WritesMembers ((key, value) :: members) (before ++ (name ++ (gap ++ ':' :: (text ++ ',' :: more))))
end

/-- Blanks around a value may be missing. -/
theorem Spells.tight {document : Document} {text : Text} (written : Writes document text) : Spells document text := by
  have spelled := Spells.mk (List.forall_mem_nil _) written (List.forall_mem_nil _)
  rwa [List.nil_append, List.append_nil] at spelled

/-- A text without quotes, backslashes and control characters may stand in quotes as it is. -/
theorem WritesString.plain {text : Text} (plain : ∀ c ∈ text, 0x20 ≤ c.toNat ∧ c ≠ '\x22' ∧ c ≠ '\\') :
    WritesString (some text) ('\x22' :: (text ++ ['\x22'])) := by
  have written : WritesParts (text.map .char) text ∧ joinParts (text.map .char) = some text := by
    induction text with
    | nil => exact ⟨.nil, rfl⟩
    | cons c text ih =>
      obtain ⟨own, others⟩ := List.forall_mem_cons.mp plain
      obtain ⟨written, joined⟩ := ih others
      refine ⟨.cons (.plain own.1 own.2) written, ?_⟩
      rw [List.map_cons, joinParts, joined]
      rfl
  rw [← written.2]
  exact .mk written.1

/-! ## Blanks and strings -/

theorem skip_append {gap : Text} (blanks : Blanks gap) (text : Text) : skip (gap ++ text) = skip text :=
  List.dropWhile_append_of_pos blanks

theorem skip_cons {c : Char} (solid : isBlank c = false) (text : Text) : skip (c :: text) = c :: text :=
  List.dropWhile_cons_of_neg (by simp [solid])

theorem skip_append_cons {gap : Text} (blanks : Blanks gap) {c : Char} (solid : isBlank c = false) (text : Text) :
    skip (gap ++ c :: text) = c :: text := by
  rw [skip_append blanks, skip_cons solid]

theorem skip_of_blanks {gap : Text} (blanks : Blanks gap) : skip gap = [] := by
  rw [← List.append_nil gap, skip_append blanks]
  rfl

theorem readParts_plain {c : Char} (printable : 0x20 ≤ c.toNat) (bare : c ≠ '\x22' ∧ c ≠ '\\') (rest : Text) :
    readParts (c :: rest) = (readParts rest).map fun read => (.char c :: read.1, read.2) := by
  rw [readParts]
  · rw [if_neg (Nat.not_lt.mpr printable)]
  · exact bare.1
  · exact fun _ _ _ _ _ backslash => absurd backslash bare.2
  · exact fun _ _ backslash => absurd backslash bare.2

theorem readParts_letter {e c : Char} (escape : escape? e = some c) (rest : Text) :
    readParts ('\\' :: e :: rest) = (readParts rest).map fun read => (.char c :: read.1, read.2) := by
  rw [readParts, escape]
  · cases readParts rest <;> rfl
  · rintro a b c d more rfl
    cases escape

theorem readParts_code {a b c d : Char} {code : Nat} (hex : hex? [a, b, c, d] = some code) (rest : Text) :
    readParts ('\\' :: 'u' :: a :: b :: c :: d :: rest) = (readParts rest).map fun read => (.ofCode code :: read.1, read.2) := by
  rw [readParts, hex]
  cases readParts rest <;> rfl

theorem readParts_of_writes {parts : List Part} {text : Text} (written : WritesParts parts text) (rest : Text) :
    readParts (text ++ '\x22' :: rest) = some (parts, rest) := by
  induction written with
  | nil => rfl
  | cons first _ ih =>
    cases first with
    | plain printable bare =>
      rw [List.append_assoc, List.singleton_append, readParts_plain printable bare, ih]
      rfl
    | letter escape =>
      rw [List.append_assoc, List.cons_append, List.singleton_append, readParts_letter escape, ih]
      rfl
    | code hex =>
      simp only [List.cons_append, List.nil_append]
      rw [readParts_code hex, ih]
      rfl

/-- A string that is written starts with a quote and is read behind it. -/
theorem exists_quoted_of_writes {content : Option Text} {text : Text} (written : WritesString content text) :
    ∃ body, text = '\x22' :: body ∧ ∀ rest, readString (body ++ rest) = some (content, rest) := by
  obtain ⟨parts⟩ := written
  refine ⟨_, rfl, fun rest => ?_⟩
  rw [List.append_assoc, List.singleton_append, readString, readParts_of_writes parts]
  rfl

/-! ## Numbers -/

/-- A text that does not go on with a digit. -/
def NoDigit (rest : Text) : Prop := ∀ c ∈ rest.head?, c.isDigit = false

/-- A text with which no number goes on. -/
def Stops (rest : Text) : Prop := ∀ c ∈ rest.head?, c.isDigit = false ∧ c ≠ '.' ∧ c ≠ 'e' ∧ c ≠ 'E'

theorem stops_cons {c : Char} (stop : c.isDigit = false ∧ c ≠ '.' ∧ c ≠ 'e' ∧ c ≠ 'E') (rest : Text) : Stops (c :: rest) := by
  intro d head
  obtain rfl := Option.some.inj head
  exact stop

theorem Stops.noDigit {rest : Text} (stops : Stops rest) : NoDigit rest := fun c head => (stops c head).1

theorem takeWhile_digits {digits rest : Text} (written : Digits digits) (ends : NoDigit rest) :
    (digits ++ rest).takeWhile Char.isDigit = digits ∧ (digits ++ rest).dropWhile Char.isDigit = rest := by
  rw [List.takeWhile_append_of_pos written.2, List.dropWhile_append_of_pos written.2]
  cases rest with
  | nil => exact ⟨List.append_nil _, rfl⟩
  | cons c rest =>
    have other : ¬ c.isDigit = true := by simp [ends c rfl]
    rw [List.takeWhile_cons_of_neg other, List.dropWhile_cons_of_neg other]
    exact ⟨List.append_nil _, rfl⟩

theorem readFraction_of_writes {fraction : Option Text} {places rest : Text} (written : WritesFraction fraction places)
    (ends : ∀ c ∈ rest.head?, c.isDigit = false ∧ c ≠ '.') : readFraction (places ++ rest) = some (fraction, rest) := by
  cases written with
  | none =>
    rw [List.nil_append, readFraction]
    rintro more rfl
    exact (ends '.' rfl).2 rfl
  | @some digits written =>
    obtain ⟨taken, dropped⟩ := takeWhile_digits written fun c head => (ends c head).1
    rw [List.cons_append, readFraction, taken, dropped]
    obtain ⟨c, more, rfl⟩ := List.exists_cons_of_ne_nil written.1
    rfl

theorem readSign_of_writes {negative : Bool} {sign digits : Text} (signed : WritesSign negative sign) (written : Digits digits)
    (rest : Text) : readSign (sign ++ (digits ++ rest)) = (negative, digits ++ rest) := by
  cases signed with
  | none =>
    obtain ⟨c, more, rfl⟩ := List.exists_cons_of_ne_nil written.1
    have digit := written.2 c List.mem_cons_self
    rw [List.nil_append, List.cons_append, readSign]
    · intro _ same
      obtain ⟨rfl, _⟩ := List.cons.inj same
      cases digit
    · intro _ same
      obtain ⟨rfl, _⟩ := List.cons.inj same
      cases digit
  | plus => rfl
  | minus => rfl

theorem readExponent_of_writes {exponent : Option Int} {power rest : Text} (written : WritesExponent exponent power)
    (stops : Stops rest) : readExponent (power ++ rest) = some (exponent, rest) := by
  cases written with
  | none =>
    cases rest with
    | nil => rfl
    | cons c rest =>
      obtain ⟨_, _, lower, upper⟩ := stops c rfl
      rw [List.nil_append, readExponent, if_neg (by simp [lower, upper])]
  | @some letter negative sign digits marks signed written =>
    obtain ⟨taken, dropped⟩ := takeWhile_digits written stops.noDigit
    rw [List.cons_append, List.append_assoc, readExponent, if_pos marks, readSign_of_writes signed written]
    simp only [taken, dropped]
    obtain ⟨c, more, rfl⟩ := List.exists_cons_of_ne_nil written.1
    rfl

/-- What follows the digits before the point goes on with no digit. -/
theorem noDigit_power {exponent : Option Int} {power rest : Text} (written : WritesExponent exponent power) (stops : Stops rest) :
    ∀ c ∈ (power ++ rest).head?, c.isDigit = false ∧ c ≠ '.' := by
  cases written with
  | none => exact fun c head => ⟨(stops c head).1, (stops c head).2.1⟩
  | some marks signed written =>
    rintro c head
    obtain rfl := Option.some.inj head
    rcases marks with rfl | rfl <;> decide

theorem noDigit_places {fraction : Option Text} {places rest : Text} (written : WritesFraction fraction places)
    (ends : NoDigit rest) : NoDigit (places ++ rest) := by
  cases written with
  | none => exact ends
  | some written =>
    rintro c head
    obtain rfl := Option.some.inj head
    rfl

theorem readNumber_of_writes {negative : Bool} {document : Document} {text rest : Text}
    (written : WritesSize negative document text) (stops : Stops rest) :
    readNumber negative (text ++ rest) = some (document, rest) := by
  obtain ⟨written, leading, fractional, scaled⟩ := written
  rename_i digits places power fraction exponent
  have behind := noDigit_power scaled stops
  have ends := noDigit_places fractional fun c head => (behind c head).1
  obtain ⟨taken, dropped⟩ := takeWhile_digits written ends
  have allowed : ¬ (digits.isEmpty || (digits.head? == some '0' && decide (1 < digits.length))) = true := by
    have nonempty := written.1
    by_cases zero : digits.head? = some '0'
    · simp [nonempty, leading zero]
    · simp [nonempty, zero]
  rw [List.append_assoc, List.append_assoc, readNumber]
  simp only [taken, dropped]
  rw [if_neg allowed, readFraction_of_writes fractional behind]
  simp only [readExponent_of_writes scaled stops]
  cases fraction <;> cases exponent <;> rfl

/-! ## Values -/

theorem skip_skip (text : Text) : skip (skip text) = skip text := List.dropWhile_idempotent _ text

theorem readValue_skip (fuel : Nat) (text : Text) : readValue fuel (skip text) = readValue fuel text := by
  cases fuel with
  | zero => rfl
  | succ fuel => rw [readValue, readValue, skip_skip]

theorem readItems_skip (fuel : Nat) (text : Text) : readItems fuel (skip text) = readItems fuel text := by
  cases fuel with
  | zero => rfl
  | succ fuel => rw [readItems, readItems, readValue_skip]

theorem readMembers_skip (fuel : Nat) (text : Text) : readMembers fuel (skip text) = readMembers fuel text := by
  cases fuel with
  | zero => rfl
  | succ fuel => rw [readMembers, readMembers, skip_skip]

theorem readValue_array {fuel : Nat} {body : Text} {c : Char} {more : Text} (start : skip body = c :: more) (other : c ≠ ']') :
    readValue (fuel + 1) ('[' :: body) = (readItems fuel body).map fun read => (.array read.1, read.2) := by
  rw [readValue, skip_cons rfl, ← readItems_skip]
  simp only [start]
  split
  · rename_i same
    exact absurd (List.cons.inj same).1 other
  · rfl

theorem readValue_table {fuel : Nat} {body more : Text} (start : skip body = '\x22' :: more) :
    readValue (fuel + 1) ('{' :: body) = (readMembers fuel body).map fun read => (.table read.1, read.2) := by
  rw [readValue, skip_cons rfl, ← readMembers_skip]
  simp only [start]
  rfl

theorem solid_of_isDigit {c : Char} (digit : c.isDigit = true) : isBlank c = false := by
  cases blank : isBlank c with
  | false => rfl
  | true =>
    simp only [isBlank, Bool.or_eq_true, beq_iff_eq] at blank
    rcases blank with ((rfl | rfl) | rfl) | rfl <;> cases digit

theorem readValue_digit {fuel : Nat} {c : Char} {rest : Text} (digit : c.isDigit = true) :
    readValue (fuel + 1) (c :: rest) = readNumber false (c :: rest) := by
  have other : ∀ {word : Text} {d : Char}, word.head? = some d → d.isDigit = false → Text.after? word (c :: rest) = none := by
    intro word d head letter
    obtain ⟨more, rfl⟩ := List.head?_eq_some_iff.mp head
    rw [Text.after?_eq_none_iff, List.cons_prefix_cons]
    rintro ⟨rfl, _⟩
    rw [digit] at letter
    cases letter
  have null : Text.after? "null".toList (c :: rest) = none := other rfl rfl
  have yes : Text.after? "true".toList (c :: rest) = none := other rfl rfl
  have no : Text.after? "false".toList (c :: rest) = none := other rfl rfl
  rw [readValue, skip_cons (solid_of_isDigit digit)]
  split
  case h_5 => rw [null, yes, no]
  all_goals
    rename_i same
    obtain ⟨rfl, _⟩ := List.cons.inj same
    cases digit

/-! ## Documents -/

theorem exists_head_of_writes {document : Document} {text : Text} (written : Writes document text) :
    ∃ c more, text = c :: more ∧ isBlank c = false ∧ c ≠ ']' := by
  cases written with
  | null => exact ⟨_, _, rfl, rfl, by decide⟩
  | yes => exact ⟨_, _, rfl, rfl, by decide⟩
  | no => exact ⟨_, _, rfl, rfl, by decide⟩
  | positive number =>
    obtain ⟨digits, _, _, _⟩ := number
    obtain ⟨c, more, rfl⟩ := List.exists_cons_of_ne_nil digits.1
    have digit := digits.2 c List.mem_cons_self
    exact ⟨c, _, rfl, solid_of_isDigit digit, by rintro rfl; cases digit⟩
  | negative => exact ⟨_, _, rfl, rfl, by decide⟩
  | string written =>
    obtain ⟨_⟩ := written
    exact ⟨_, _, rfl, rfl, by decide⟩
  | emptyArray => exact ⟨_, _, rfl, rfl, by decide⟩
  | array => exact ⟨_, _, rfl, rfl, by decide⟩
  | emptyTable => exact ⟨_, _, rfl, rfl, by decide⟩
  | table => exact ⟨_, _, rfl, rfl, by decide⟩

theorem exists_skip_of_spells {document : Document} {text : Text} (spelled : Spells document text) (rest : Text) :
    ∃ c more, skip (text ++ rest) = c :: more ∧ c ≠ ']' := by
  obtain ⟨leading, written, _⟩ := spelled
  obtain ⟨c, more, rfl, solid, other⟩ := exists_head_of_writes written
  rw [List.append_assoc, List.append_assoc, List.cons_append, skip_append_cons leading solid]
  exact ⟨c, _, rfl, other⟩

theorem exists_skip_of_items {items : List Document} {text : Text} (written : WritesItems items text) (rest : Text) :
    ∃ c more, skip (text ++ rest) = c :: more ∧ c ≠ ']' := by
  cases written with
  | last written => exact exists_skip_of_spells written rest
  | cons written more =>
    rw [List.append_assoc]
    exact exists_skip_of_spells written _

theorem exists_skip_of_members {members : List (Option Text × Document)} {text : Text} (written : WritesMembers members text)
    (rest : Text) : ∃ more, skip (text ++ rest) = '\x22' :: more := by
  cases written with
  | last leading named _ _ =>
    obtain ⟨body, rfl, _⟩ := exists_quoted_of_writes named
    exact ⟨_, by rw [List.append_assoc, List.cons_append, List.cons_append, skip_append_cons leading rfl]⟩
  | cons leading named _ _ _ =>
    obtain ⟨body, rfl, _⟩ := exists_quoted_of_writes named
    exact ⟨_, by rw [List.append_assoc, List.cons_append, List.cons_append, skip_append_cons leading rfl]⟩

theorem stops_blanks_append {gap rest : Text} (blanks : Blanks gap) (stops : Stops rest) : Stops (gap ++ rest) := by
  cases gap with
  | nil => exact stops
  | cons c gap =>
    refine stops_cons ?_ _
    have blank := blanks c List.mem_cons_self
    simp only [isBlank, Bool.or_eq_true, beq_iff_eq] at blank
    rcases blank with ((rfl | rfl) | rfl) | rfl <;> decide

/-- Values are read as what they write with so much fuel, whatever follows them that is no part of a number. -/
def ReadsValues (fuel : Nat) : Prop :=
  ∀ ⦃document : Document⦄ ⦃text rest : Text⦄, Writes document text → 2 * text.length ≤ fuel → Stops rest →
    readValue fuel (text ++ rest) = some (document, rest)

/-- The same for the items of an array. -/
def ReadsItems (fuel : Nat) : Prop :=
  ∀ ⦃items : List Document⦄ ⦃text rest : Text⦄, WritesItems items text → 2 * text.length < fuel →
    readItems fuel (text ++ ']' :: rest) = some (items, rest)

/-- The same for the members of a table. -/
def ReadsMembers (fuel : Nat) : Prop :=
  ∀ ⦃members : List (Option Text × Document)⦄ ⦃text rest : Text⦄, WritesMembers members text → 2 * text.length < fuel →
    readMembers fuel (text ++ '}' :: rest) = some (members, rest)

theorem ReadsValues.of_spells {fuel : Nat} (values : ReadsValues fuel) {document : Document} {text rest : Text}
    (spelled : Spells document text) (enough : 2 * text.length ≤ fuel) (stops : Stops rest) :
    ∃ behind, Blanks behind ∧ readValue fuel (text ++ rest) = some (document, behind ++ rest) := by
  obtain ⟨leading, written, trailing⟩ := spelled
  refine ⟨_, trailing, ?_⟩
  simp only [List.length_append] at enough
  rw [List.append_assoc, List.append_assoc, ← readValue_skip, skip_append leading, readValue_skip]
  exact values written (by omega) (stops_blanks_append trailing stops)

theorem readsValues_succ {fuel : Nat} (items : ReadsItems fuel) (members : ReadsMembers fuel) : ReadsValues (fuel + 1) := by
  intro document text rest written enough stops
  cases written with
  | null => rfl
  | yes => rfl
  | no => rfl
  | positive number =>
    have read := readNumber_of_writes number stops
    obtain ⟨digits, _, _, _⟩ := number
    obtain ⟨c, more, rfl⟩ := List.exists_cons_of_ne_nil digits.1
    exact (readValue_digit (digits.2 c List.mem_cons_self)).trans read
  | negative number => exact readNumber_of_writes number stops
  | string written =>
    obtain ⟨body, rfl, read⟩ := exists_quoted_of_writes written
    rw [List.cons_append, readValue, skip_cons rfl]
    simp only [read]
    rfl
  | emptyArray blanks =>
    rw [List.cons_append, List.append_assoc, List.singleton_append, readValue, skip_cons rfl]
    simp only [skip_append_cons blanks (show isBlank ']' = false from rfl)]
  | array written =>
    simp only [List.length_cons, List.length_append, List.length_nil] at enough
    obtain ⟨c, others, skipped, other⟩ := exists_skip_of_items written (']' :: rest)
    rw [List.cons_append, List.append_assoc, List.singleton_append, readValue_array skipped other, items written (by omega)]
    rfl
  | emptyTable blanks =>
    rw [List.cons_append, List.append_assoc, List.singleton_append, readValue, skip_cons rfl]
    simp only [skip_append_cons blanks (show isBlank '}' = false from rfl)]
  | table written =>
    simp only [List.length_cons, List.length_append, List.length_nil] at enough
    obtain ⟨others, skipped⟩ := exists_skip_of_members written ('}' :: rest)
    rw [List.cons_append, List.append_assoc, List.singleton_append, readValue_table skipped, members written (by omega)]
    rfl

/-- Behind a value its blanks are skipped up to the mark that follows it. -/
theorem ReadsValues.exists_left {fuel : Nat} (values : ReadsValues fuel) {document : Document} {text : Text}
    (spelled : Spells document text) (enough : 2 * text.length ≤ fuel) {c : Char} (mark : c = ',' ∨ c = ']' ∨ c = '}')
    (rest : Text) : ∃ left, readValue fuel (text ++ c :: rest) = some (document, left) ∧ skip left = c :: rest := by
  obtain ⟨stop, solid⟩ : (c.isDigit = false ∧ c ≠ '.' ∧ c ≠ 'e' ∧ c ≠ 'E') ∧ isBlank c = false := by
    rcases mark with rfl | rfl | rfl <;> decide
  obtain ⟨behind, blanks, read⟩ := values.of_spells spelled enough (stops_cons stop rest)
  exact ⟨_, read, skip_append_cons blanks solid rest⟩

theorem readsItems_succ {fuel : Nat} (values : ReadsValues fuel) (items : ReadsItems fuel) : ReadsItems (fuel + 1) := by
  intro _ _ rest written enough
  cases written with
  | last written =>
    obtain ⟨left, read, skipped⟩ := values.exists_left written (Nat.le_of_lt_succ enough) (.inr (.inl rfl)) rest
    rw [readItems, read]
    simp only [skipped]
  | @cons _ _ _ more written others =>
    simp only [List.length_append, List.length_cons] at enough
    obtain ⟨left, read, skipped⟩ := values.exists_left written (by omega) (.inl rfl) (more ++ ']' :: rest)
    rw [List.append_assoc, List.cons_append, readItems, read]
    simp only [skipped]
    rw [items others (by omega)]
    rfl

theorem readsMembers_succ {fuel : Nat} (values : ReadsValues fuel) (members : ReadsMembers fuel) : ReadsMembers (fuel + 1) := by
  intro _ _ rest written enough
  cases written with
  | last leading named trailing written =>
    obtain ⟨body, rfl, readName⟩ := exists_quoted_of_writes named
    simp only [List.length_append, List.length_cons] at enough
    obtain ⟨left, read, skipped⟩ := values.exists_left written (by omega) (.inr (.inr rfl)) rest
    simp only [List.append_assoc, List.cons_append]
    rw [readMembers, skip_append_cons leading rfl]
    simp only [readName, skip_append_cons trailing (show isBlank ':' = false from rfl), read, skipped]
  | @cons _ _ _ _ _ _ _ more leading named trailing written others =>
    obtain ⟨body, rfl, readName⟩ := exists_quoted_of_writes named
    simp only [List.length_append, List.length_cons] at enough
    obtain ⟨left, read, skipped⟩ := values.exists_left written (by omega) (.inl rfl) (more ++ '}' :: rest)
    simp only [List.append_assoc, List.cons_append]
    rw [readMembers, skip_append_cons leading rfl]
    simp only [readName, skip_append_cons trailing (show isBlank ':' = false from rfl), read, skipped]
    rw [members others (by omega)]
    rfl

/-- No text is too long for its fuel: a value, an item or a member takes at most two units for each of its characters. -/
theorem reads_all (fuel : Nat) : ReadsValues fuel ∧ ReadsItems fuel ∧ ReadsMembers fuel := by
  induction fuel with
  | zero =>
    refine ⟨fun document text rest written enough => ?_, fun _ _ _ _ enough => absurd enough (Nat.not_lt_zero _),
      fun _ _ _ _ enough => absurd enough (Nat.not_lt_zero _)⟩
    obtain ⟨c, more, rfl, _⟩ := exists_head_of_writes written
    rw [List.length_cons] at enough
    omega
  | succ fuel ih =>
    obtain ⟨values, items, members⟩ := ih
    exact ⟨readsValues_succ items members, readsItems_succ values items, readsMembers_succ values members⟩

/-- Every text that spells a document is read as that document. -/
theorem parse?_of_spells {document : Document} {text : Text} (spelled : Spells document text) : parse? text = some document := by
  obtain ⟨behind, blanks, read⟩ :=
    (reads_all (2 * text.length + 2)).1.of_spells spelled (Nat.le_add_right _ _) (show Stops [] from fun _ head => nomatch head)
  rw [List.append_nil, List.append_nil] at read
  rw [parse?, read]
  exact if_pos (by rw [skip_of_blanks blanks]; rfl)

end StyleFlip.Document.Json
