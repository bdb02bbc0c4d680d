/-!
Texts as lists of characters. Every rule of the library that looks at text is stated on this type, so that cutting
and joining are list operations; `String` appears only where a text enters or leaves the library. White space is the
`White_Space` property of Unicode wherever the library speaks of blanks.
-/
namespace StyleFlip

abbrev Text := List Char

namespace Text

def byteCount : Text → Nat
  | [] => 0
  | c :: rest => c.utf8Size + byteCount rest

/-- Characters with the `White_Space` property. -/
def isBlank (c : Char) : Bool :=
  let n := c.toNat
  (0x9 ≤ n && n ≤ 0xd) || n == 0x20 || n == 0x85 || n == 0xa0 || n == 0x1680 || (0x2000 ≤ n && n ≤ 0x200a) ||
    n == 0x2028 || n == 0x2029 || n == 0x202f || n == 0x205f || n == 0x3000

def blankHead (text : Text) : Text := text.takeWhile isBlank

def trimStart (text : Text) : Text := text.dropWhile isBlank

def blankTail (text : Text) : Text := (text.reverse.takeWhile isBlank).reverse

def trimEnd (text : Text) : Text := (text.reverse.dropWhile isBlank).reverse

def trim (text : Text) : Text := trimEnd (trimStart text)

/-- What follows `head` in a text that starts with it. -/
def after? (head text : Text) : Option Text := head.isPrefixOf? text

/-- The parts of a text before and after the first place where `mark` stands. -/
def cut? (mark : Text) : Text → Option (Text × Text)
  | [] => (after? mark []).map fun rest => ([], rest)
  | c :: rest =>
    match after? mark (c :: rest) with
    | some following => some ([], following)
    | none => (cut? mark rest).map fun (before, following) => (c :: before, following)

/-- Whether `mark` stands anywhere in a text. -/
def holds (mark text : Text) : Bool := (cut? mark text).isSome

/-- The pieces of a text between the characters that equal `separator`. -/
def splitAt (separator : Char) : Text → List Text
  | [] => [[]]
  | c :: rest =>
    match splitAt separator rest with
    | [] => [[]]
    | piece :: pieces => if c = separator then [] :: piece :: pieces else (c :: piece) :: pieces

/-- The texts one after the other with `separator` between them. -/
def join (separator : Text) (texts : List Text) : Text := List.intercalate separator texts

/-- The number written by decimal digits. -/
def digitsValue (digits : Text) : Nat := digits.foldl (fun value c => value * 10 + (c.toNat - '0'.toNat)) 0

theorem byteCount_append (text rest : Text) : byteCount (text ++ rest) = byteCount text + byteCount rest := by
  induction text with
  | nil => exact (Nat.zero_add _).symm
  | cons c text ih => rw [List.cons_append, byteCount, byteCount, ih, Nat.add_assoc]

theorem blankHead_append_trimStart (text : Text) : blankHead text ++ trimStart text = text :=
  List.takeWhile_append_dropWhile

theorem trimEnd_append_blankTail (text : Text) : trimEnd text ++ blankTail text = text := by
  rw [trimEnd, blankTail, ← List.reverse_append, List.takeWhile_append_dropWhile, List.reverse_reverse]

theorem after?_eq_some {head text rest : Text} (found : after? head text = some rest) : text = head ++ rest := by
  rw [after?] at found
  induction head generalizing text with
  | nil =>
    cases found
    rfl
  | cons c head ih =>
    cases text with
    | nil => cases found
    | cons d text =>
      change (if (c == d) = true then head.isPrefixOf? text else none) = some rest at found
      by_cases same : (c == d) = true
      · rw [if_pos same] at found
        rw [ih found, eq_of_beq same]
        rfl
      · rw [if_neg same] at found
        cases found

theorem after?_append (head rest : Text) : after? head (head ++ rest) = some rest := by
  induction head with
  | nil => rfl
  | cons c head ih =>
    change (if (c == c) = true then head.isPrefixOf? (head ++ rest) else none) = some rest
    rw [if_pos (beq_self_eq_true c)]
    exact ih

theorem after?_eq_none_iff {head text : Text} : after? head text = none ↔ ¬ head <+: text := by
  constructor
  · rintro missing ⟨rest, rfl⟩
    rw [after?_append] at missing
    cases missing
  · intro other
    cases found : after? head text with
    | none => rfl
    | some rest => exact absurd ⟨rest, (after?_eq_some found).symm⟩ other

/-- A cut loses nothing: the text is the part before, the mark and the part after. -/
theorem cut?_eq_some {mark text before following : Text} (found : cut? mark text = some (before, following)) :
    text = before ++ mark ++ following := by
  induction text generalizing before with
  | nil =>
    simp only [cut?, Option.map_eq_some_iff] at found
    obtain ⟨rest, start, equal⟩ := found
    cases equal
    simpa using after?_eq_some start
  | cons c rest ih =>
    simp only [cut?] at found
    split at found
    · rename_i start
      cases found
      simpa using after?_eq_some start
    · obtain ⟨⟨inner, last⟩, later, equal⟩ := Option.map_eq_some_iff.mp found
      cases equal
      simp [ih later]

/-- The first place of a mark does not depend on what follows the mark. -/
theorem cut?_again {mark text before following : Text} (found : cut? mark text = some (before, following)) (other : Text) :
    cut? mark (before ++ mark ++ other) = some (before, other) := by
  have whole := cut?_eq_some found
  induction text generalizing before with
  | nil =>
    obtain ⟨rfl, rfl, rfl⟩ : before = [] ∧ mark = [] ∧ following = [] := by simpa using whole
    cases other <;> rfl
  | cons c rest ih =>
    rw [cut?] at found
    split at found
    · cases found
      rw [List.nil_append]
      cases start : mark ++ other with
      | nil =>
        obtain ⟨rfl, rfl⟩ := List.append_eq_nil_iff.mp start
        rfl
      | cons d more => rw [cut?, ← start, after?_append]
    · rename_i missing
      obtain ⟨⟨inner, last⟩, later, equal⟩ := Option.map_eq_some_iff.mp found
      cases equal
      obtain ⟨-, rfl⟩ := List.cons_eq_cons.mp whole
      have short : after? mark (c :: (inner ++ mark ++ other)) = none := by
        refine after?_eq_none_iff.mpr fun stands => after?_eq_none_iff.mp missing ?_
        have room : mark.length ≤ (c :: (inner ++ mark)).length := by simp only [List.length_cons, List.length_append]; omega
        have early : mark <+: c :: (inner ++ mark) :=
          List.prefix_of_prefix_length_le stands ⟨other, rfl⟩ room
        exact early.trans ⟨following, by simp⟩
      rw [List.cons_append, List.cons_append, cut?, short, ih later rfl]
      rfl

theorem length_of_cut? {mark text before following : Text} (found : cut? mark text = some (before, following)) :
    text.length = before.length + mark.length + following.length := by
  simp [cut?_eq_some found, Nat.add_assoc]

theorem cut?_singleton (c : Char) (text : Text) :
    cut? [c] text = if c ∈ text then some (text.takeWhile (· != c), (text.dropWhile (· != c)).tail) else none := by
  induction text with
  | nil => rfl
  | cons d text ih =>
    have start : after? [c] (d :: text) = if (c == d) = true then some text else none := rfl
    by_cases same : d = c
    · subst same
      simp [cut?, start]
    · rw [cut?, start, if_neg (by simpa using Ne.symm same), ih]
      by_cases member : c ∈ text <;> simp [member, same, Ne.symm same]

theorem holds_iff {mark text : Text} : holds mark text = true ↔ mark <:+: text := by
  rw [holds, Option.isSome_iff_exists]
  constructor
  · rintro ⟨⟨before, following⟩, found⟩
    exact ⟨before, following, (cut?_eq_some found).symm⟩
  · rintro ⟨before, following, rfl⟩
    rw [← Option.isSome_iff_exists, List.append_assoc]
    induction before with
    | nil =>
      have start := after?_append mark following
      cases whole : mark ++ following with
      | nil => rw [List.nil_append, cut?, ← whole, start]; rfl
      | cons c rest => rw [List.nil_append, cut?, ← whole, start]; rfl
    | cons c before ih =>
      rw [List.cons_append, cut?]
      split
      · rfl
      · rwa [Option.isSome_map]

end Text
end StyleFlip
