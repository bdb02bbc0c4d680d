import StyleFlip.Proofs.Lexemes

/-!
Texts as bytes of UTF-8. A text can be cut at the start of a character only: `from?` and `slice?` give nothing for a place inside a
character or beyond the end. The end of a header can be found byte by byte all the same, and the byte behind a backslash skipped
even if it is the first of several bytes of a character: the other bytes of such a character are like no byte that the search looks
for, so it comes to the same place as reading characters, and every place at which it cuts the text is the start of a character
(`scanFrom?_bytes`).
-/
namespace StyleFlip

namespace Text

def bytes (text : Text) : List UInt8 := text.flatMap String.utf8EncodeChar

theorem length_bytes (text : Text) : (bytes text).length = byteCount text := by
  induction text with
  | nil => rfl
  | cons c rest ih => rw [bytes, List.flatMap_cons, List.length_append, String.length_utf8EncodeChar, ← bytes, ih, byteCount]

theorem bytes_cons (c : Char) (rest : Text) : bytes (c :: rest) = String.utf8EncodeChar c ++ bytes rest := List.flatMap_cons

theorem bytes_append (text rest : Text) : bytes (text ++ rest) = bytes text ++ bytes rest := List.flatMap_append

theorem drop_bytes_append (text rest : Text) : (bytes (text ++ rest)).drop (byteCount text) = bytes rest := by
  rw [bytes_append, ← length_bytes, List.drop_left]

/-! ## Slices -/

/-- The text from a byte on, if a character starts there or the text ends there. -/
def from? : Text → Nat → Option Text
  | text, 0 => some text
  | [], _ + 1 => none
  | c :: rest, place + 1 => if c.utf8Size ≤ place + 1 then from? rest (place + 1 - c.utf8Size) else none

/-- The text up to a byte, if a character starts there or the text ends there. -/
def until? : Text → Nat → Option Text
  | _, 0 => some []
  | [], _ + 1 => none
  | c :: rest, place + 1 =>
    if c.utf8Size ≤ place + 1 then (until? rest (place + 1 - c.utf8Size)).map (c :: ·) else none

def slice? (text : Text) (start stop : Nat) : Option Text :=
  if start ≤ stop then (from? text start).bind fun rest => until? rest (stop - start) else none

/-- The byte at which a mark stands for the first time. -/
def find? (mark text : Text) : Option Nat := (cut? mark text).map fun found => byteCount found.1

theorem exists_size_eq_succ (c : Char) (text : Text) : ∃ place, byteCount (c :: text) = place + 1 :=
  ⟨byteCount (c :: text) - 1, by rw [byteCount]; have := c.utf8Size_pos; omega⟩

theorem from?_append (text rest : Text) : from? (text ++ rest) (byteCount text) = some rest := by
  induction text with
  | nil => cases rest <;> rfl
  | cons c text ih =>
    obtain ⟨place, size⟩ := exists_size_eq_succ c text
    rw [size, List.cons_append, from?, ← size, byteCount, if_pos (Nat.le_add_right _ _), Nat.add_sub_cancel_left, ih]

theorem until?_append (text rest : Text) : until? (text ++ rest) (byteCount text) = some text := by
  induction text with
  | nil => cases rest <;> rfl
  | cons c text ih =>
    obtain ⟨place, size⟩ := exists_size_eq_succ c text
    rw [size, List.cons_append, until?, ← size, byteCount, if_pos (Nat.le_add_right _ _), Nat.add_sub_cancel_left, ih]
    rfl

theorem slice?_append (before text rest : Text) :
    slice? (before ++ (text ++ rest)) (byteCount before) (byteCount before + byteCount text) = some text := by
  rw [slice?, if_pos (Nat.le_add_right _ _), from?_append, Nat.add_sub_cancel_left]
  exact until?_append text rest

/-- A text can be cut exactly where its characters start and at its end. -/
theorem from?_eq_some_iff {text rest : Text} {place : Nat} :
    from? text place = some rest ↔ ∃ before, text = before ++ rest ∧ byteCount before = place := by
  constructor
  · intro found
    fun_induction from? text place with
    | case1 text =>
      cases found
      exact ⟨[], rfl, rfl⟩
    | case2 => cases found
    | case3 c rest place fits ih =>
      obtain ⟨before, rfl, size⟩ := ih found
      exact ⟨c :: before, rfl, by rw [byteCount, size]; omega⟩
    | case4 => cases found
  · rintro ⟨before, rfl, rfl⟩
    exact from?_append before rest

/-! ## Bytes of characters -/

/-- A character of ASCII is one byte, and the byte stands for the character. -/
theorem utf8EncodeChar_of_ascii {c : Char} (ascii : c.toNat < 128) :
    String.utf8EncodeChar c = [c.toUInt8] ∧ c.toUInt8.toChar = c ∧ c.utf8Size = 1 := by
  have size : c.utf8Size = 1 := Char.utf8Size_eq_one_iff.mpr (UInt32.le_iff_toNat_le.mpr (Nat.le_of_lt_succ ascii))
  refine ⟨String.utf8EncodeChar_eq_singleton size, Char.ext (UInt32.toNat_inj.mp ?_), size⟩
  change c.toNat % 256 = c.toNat
  omega

/-- No byte of another character stands for a character of ASCII. -/
theorem beyond_of_mem_utf8EncodeChar {c : Char} (other : 128 ≤ c.toNat) {b : UInt8} (member : b ∈ String.utf8EncodeChar c) :
    128 ≤ b.toChar.toNat := by
  have high : ∀ n, 128 ≤ n % 256 → 128 ≤ (UInt8.ofNat n).toChar.toNat := fun n large => large
  have large : ¬ c.val.toNat ≤ 127 := Nat.not_le_of_gt other
  rw [String.utf8EncodeChar] at member
  simp only [large, if_false] at member
  split at member
  · simp only [List.mem_cons, List.not_mem_nil, or_false] at member
    rcases member with rfl | rfl <;> exact high _ (by omega)
  · split at member
    · simp only [List.mem_cons, List.not_mem_nil, or_false] at member
      rcases member with rfl | rfl | rfl <;> exact high _ (by omega)
    · simp only [List.mem_cons, List.not_mem_nil, or_false] at member
      rcases member with rfl | rfl | rfl | rfl <;> exact high _ (by omega)

theorem ne_toUInt8_of_beyond {b : UInt8} (beyond : 128 ≤ b.toChar.toNat) {d : Char} (ascii : d.toNat < 128) : b ≠ d.toUInt8 := by
  rintro rfl
  rw [(utf8EncodeChar_of_ascii ascii).2.1] at beyond
  omega

theorem toUInt8_inj {c d : Char} (ascii : c.toNat < 128) (other : d.toNat < 128) : c.toUInt8 = d.toUInt8 ↔ c = d := by
  refine ⟨fun same => ?_, fun same => by rw [same]⟩
  rw [← (utf8EncodeChar_of_ascii ascii).2.1, same, (utf8EncodeChar_of_ascii other).2.1]

/-- Only a text that starts with a character of ASCII has its byte as the first one. -/
theorem head?_of_bytes {text : Text} {d : Char} (ascii : d.toNat < 128) (first : (bytes text).head? = some d.toUInt8) :
    text.head? = some d := by
  cases text with
  | nil => cases first
  | cons c rest =>
    rw [bytes_cons, List.head?_append_of_ne_nil _ String.utf8EncodeChar_ne_nil] at first
    by_cases own : c.toNat < 128
    · rw [(utf8EncodeChar_of_ascii own).1, List.head?_cons, Option.some.injEq, toUInt8_inj own ascii] at first
      rw [first, List.head?_cons]
    · exact absurd rfl (ne_toUInt8_of_beyond
        (beyond_of_mem_utf8EncodeChar (Nat.le_of_not_lt own) (List.mem_of_head? first)) ascii)

/-! ## Comments -/

theorem byteCount_comment (body : Text) : byteCount (commentOpen ++ body ++ commentClose) = 2 + byteCount body + 2 := by
  rw [byteCount_append, byteCount_append]
  rfl

/-- A text can be cut behind the start of a comment. -/
theorem from?_commentOpen (before inner : Text) : from? (before ++ '/' :: '*' :: inner) (byteCount before + 2) = some inner := by
  have cut := from?_append (before ++ commentOpen) inner
  rwa [List.append_assoc, byteCount_append] at cut

/-- Bytes that open a comment come from characters that do. -/
theorem not_opens_of_alone {c : Char} {rest : Text} (ascii : c.toNat < 128)
    (alone : ∀ inner, c = '/' → rest = '*' :: inner → False) :
    ¬ (c.toUInt8 = '/'.toUInt8 ∧ (bytes rest).head? = some '*'.toUInt8) := by
  rintro ⟨first, second⟩
  obtain ⟨more, star⟩ := List.head?_eq_some_iff.mp (head?_of_bytes (by decide) second)
  exact alone more ((toUInt8_inj ascii (by decide)).mp first) star

theorem drop_bytes_of_cut? {inner body following : Text} (cut : cut? commentClose inner = some (body, following)) :
    ('*'.toUInt8 :: bytes inner).drop (1 + byteCount body + 2) = bytes following := by
  have size : byteCount (body ++ commentClose) = byteCount body + 2 := byteCount_append body commentClose
  rw [Nat.add_assoc, Nat.add_comm 1, List.drop_succ_cons, ← size, cut?_eq_some cut, drop_bytes_append]

end Text

/-! ## Looking for the end of a header -/

namespace Segment
open Text

/-- The number of bytes of the rest of a string, behind its opening quote. The byte behind a backslash is skipped; `escaped` says
whether a backslash was met last. -/
def stringEnd? (quote : UInt8) : Bool → List UInt8 → Option Nat
  | _, [] => none
  | true, _ :: rest => (stringEnd? quote false rest).map (· + 1)
  | false, b :: rest =>
    if b = '\\'.toUInt8 then (stringEnd? quote true rest).map (· + 1)
    else if b = quote then some 1
    else (stringEnd? quote false rest).map (· + 1)

theorem stringEnd?_of_beyond {quote : Char} (ascii : quote.toNat < 128) {high : List UInt8}
    (beyond : ∀ b ∈ high, 128 ≤ b.toChar.toNat) (rest : List UInt8) :
    stringEnd? quote.toUInt8 false (high ++ rest) = (stringEnd? quote.toUInt8 false rest).map (· + high.length) := by
  induction high with
  | nil => simp
  | cons b high ih =>
    obtain ⟨here, others⟩ := List.forall_mem_cons.mp beyond
    rw [List.cons_append, stringEnd?, if_neg (ne_toUInt8_of_beyond here (by decide)), if_neg (ne_toUInt8_of_beyond here ascii),
      ih others, Option.map_map]
    rfl

theorem map_byteCount_keep (c : Char) (found : Option (Text × Text)) :
    (found.map (keep [c])).map (fun found => byteCount found.1) =
      (found.map fun found => byteCount found.1).map (· + c.utf8Size) := by
  cases found with
  | none => rfl
  | some found => simp [keep, byteCount, Nat.add_comm]

/-- The bytes of a string end where its characters do. -/
theorem stringEnd?_bytes {quote : Char} (ascii : quote.toNat < 128) (escaped : Bool) (text : Text) :
    stringEnd? quote.toUInt8 escaped (bytes text) = (cutString? quote escaped text).map fun found => byteCount found.1 := by
  induction text generalizing escaped with
  | nil => cases escaped <;> rfl
  | cons c rest ih =>
    rw [bytes_cons]
    by_cases own : c.toNat < 128
    · obtain ⟨single, _, size⟩ := utf8EncodeChar_of_ascii own
      rw [single, List.singleton_append]
      cases escaped with
      | true => rw [stringEnd?, ih, cutString?, map_byteCount_keep, size]
      | false =>
        simp only [stringEnd?, cutString?, toUInt8_inj own (by decide : '\\'.toNat < 128), toUInt8_inj own ascii, ih]
        by_cases backslash : c = '\\'
        · rw [if_pos backslash, if_pos backslash, map_byteCount_keep, size]
        · by_cases closes : c = quote
          · rw [if_neg backslash, if_neg backslash, if_pos closes, if_pos closes, Option.map_some, byteCount, size]
            rfl
          · rw [if_neg backslash, if_neg backslash, if_neg closes, if_neg closes, map_byteCount_keep, size]
    · -- The first of several bytes may be skipped behind a backslash; the others are passed like all bytes in the string.
      have beyond : ∀ b ∈ String.utf8EncodeChar c, 128 ≤ b.toChar.toNat :=
        fun b => beyond_of_mem_utf8EncodeChar (Nat.le_of_not_lt own)
      have other : c ≠ '\\' ∧ c ≠ quote := ⟨by rintro rfl; exact own (by decide), by rintro rfl; exact own ascii⟩
      have size := String.length_utf8EncodeChar c
      cases escaped with
      | true =>
        cases split : String.utf8EncodeChar c with
        | nil => exact absurd split String.utf8EncodeChar_ne_nil
        | cons b high =>
          rw [split] at beyond size
          rw [List.cons_append, stringEnd?, stringEnd?_of_beyond ascii (List.forall_mem_cons.mp beyond).2, ih, cutString?,
            map_byteCount_keep, Option.map_map, ← size]
          rfl
      | false =>
        rw [stringEnd?_of_beyond ascii beyond, ih, cutString?, if_neg other.1, if_neg other.2, map_byteCount_keep, size]

/-- The byte at which a header ends, looked for byte by byte from `place` on, where the given bytes stand. Strings, comments and
parentheses are stepped over; to look for the end of a comment the text is cut behind its start. -/
def scanFrom? (text : Text) (depth place : Nat) : List UInt8 → Option (Except ParseError Nat)
  | [] => some (.ok place)
  | b :: rest =>
    if isQuote b.toChar then
      match stringEnd? b false rest with
      | none => some (.error (.openString place))
      | some length => scanFrom? text depth (place + 1 + length) (rest.drop length)
    else if b = '/'.toUInt8 ∧ rest.head? = some '*'.toUInt8 then
      match from? text (place + 2) with
      | none => none
      | some inner =>
        match find? commentClose inner with
        | none => some (.error (.openComment place))
        | some length => scanFrom? text depth (place + 2 + length + 2) (rest.drop (1 + length + 2))
    else if depth = 0 && endsHeader b.toChar then some (.ok place)
    else scanFrom? text (depthAfter depth b.toChar) (place + 1) rest
termination_by bytes => bytes.length
decreasing_by all_goals simp only [List.length_drop, List.length_cons]; omega

/-- A character outside ASCII means nothing to the reading of headers. -/
theorem plain_of_beyond {c : Char} (beyond : 128 ≤ c.toNat) :
    isQuote c = false ∧ endsHeader c = false ∧ ∀ depth, depthAfter depth c = depth := by
  have other : ∀ {d : Char}, d.toNat < 128 → c ≠ d := by
    rintro d ascii rfl
    omega
  refine ⟨?_, ?_, fun depth => ?_⟩
  · simp [isQuote, other (by decide : '\x22'.toNat < 128), other (by decide : '\x27'.toNat < 128)]
  · simp [endsHeader, other (by decide : '{'.toNat < 128), other (by decide : ';'.toNat < 128),
      other (by decide : '}'.toNat < 128)]
  · rw [depthAfter, if_neg (other (by decide)), if_neg (other (by decide))]

theorem scanFrom?_of_beyond {text : Text} {depth : Nat} {high : List UInt8} (beyond : ∀ b ∈ high, 128 ≤ b.toChar.toNat)
    (place : Nat) (rest : List UInt8) :
    scanFrom? text depth place (high ++ rest) = scanFrom? text depth (place + high.length) rest := by
  induction high generalizing place with
  | nil => rfl
  | cons b high ih =>
    obtain ⟨here, others⟩ := List.forall_mem_cons.mp beyond
    obtain ⟨quote, ends, level⟩ := plain_of_beyond here
    have slash : ¬ (b = '/'.toUInt8 ∧ (high ++ rest).head? = some '*'.toUInt8) :=
      fun both => ne_toUInt8_of_beyond here (by decide) both.1
    rw [List.cons_append, scanFrom?, if_neg (by simp [quote]), if_neg slash, if_neg (by simp [ends]), level, ih others,
      List.length_cons]
    congr 1
    omega

/-- A character outside strings and comments may end the header; no byte of it means anything else. -/
theorem scanFrom?_plain {c : Char} {rest : Text} (bare : ¬ isQuote c = true) (alone : ∀ inner, c = '/' → rest = '*' :: inner → False)
    (text : Text) (depth place : Nat) :
    scanFrom? text depth place (bytes (c :: rest)) =
      if depth = 0 && endsHeader c then some (.ok place)
      else scanFrom? text (depthAfter depth c) (place + c.utf8Size) (bytes rest) := by
  rw [bytes_cons]
  by_cases ascii : c.toNat < 128
  · obtain ⟨single, same, size⟩ := utf8EncodeChar_of_ascii ascii
    rw [single, List.singleton_append, scanFrom?, same, if_neg bare, if_neg (not_opens_of_alone ascii alone), size]
  · have beyond := Nat.le_of_not_lt ascii
    obtain ⟨_, ends, level⟩ := plain_of_beyond beyond
    rw [scanFrom?_of_beyond fun b => beyond_of_mem_utf8EncodeChar beyond, String.length_utf8EncodeChar, if_neg (by simp [ends]),
      level]

theorem ascii_of_isQuote {quote : Char} (quoted : isQuote quote = true) : quote.toNat < 128 := by
  rcases isQuote_iff.mp quoted with rfl | rfl <;> decide

/-- A string is stepped over. -/
theorem scanFrom?_string {quote : Char} (quoted : isQuote quote = true) (text rest : Text) (depth place : Nat) :
    scanFrom? text depth place (bytes (quote :: rest)) =
      (cutString? quote false rest).elim (some (.error (.openString place))) fun found =>
        scanFrom? text depth (place + byteCount (Lexeme.string quote found.1).text) (bytes found.2) := by
  obtain ⟨single, same, size⟩ := utf8EncodeChar_of_ascii (ascii_of_isQuote quoted)
  rw [bytes_cons, single, List.singleton_append, scanFrom?, same, if_pos quoted, stringEnd?_bytes (ascii_of_isQuote quoted)]
  cases cut : cutString? quote false rest with
  | none => rfl
  | some found =>
    have behind : (bytes rest).drop (byteCount found.1) = bytes found.2 := by
      rw [cutString?_eq_some cut, drop_bytes_append]
    simp only [Option.map_some, Option.elim_some]
    rw [behind, Lexeme.text, byteCount, size, Nat.add_assoc]

/-- A comment is stepped over. -/
theorem scanFrom?_comment (before inner : Text) (depth : Nat) :
    scanFrom? (before ++ '/' :: '*' :: inner) depth (byteCount before) (bytes ('/' :: '*' :: inner)) =
      (cut? commentClose inner).elim (some (.error (.openComment (byteCount before)))) fun found =>
        scanFrom? (before ++ '/' :: '*' :: inner) depth (byteCount before + byteCount (Lexeme.comment found.1).text)
          (bytes found.2) := by
  have start : bytes ('/' :: '*' :: inner) = '/'.toUInt8 :: '*'.toUInt8 :: bytes inner := rfl
  rw [start, scanFrom?, if_neg (by decide), if_pos ⟨rfl, rfl⟩, from?_commentOpen]
  cases cut : cut? commentClose inner with
  | none => simp [find?, cut]
  | some found =>
    simp only [find?, cut, Option.map_some, Option.elim_some]
    rw [drop_bytes_of_cut? cut, Lexeme.text, byteCount_comment, ← Nat.add_assoc, ← Nat.add_assoc]

theorem map_stop_keep (place : Nat) (head : Text) (result : Except ParseError (Text × Text)) :
    (result.map (keep head)).map (fun found => place + byteCount found.1) =
      result.map fun found => place + byteCount head + byteCount found.1 := by
  cases result with
  | error => rfl
  | ok found => simp [Except.map, keep, byteCount_append, Nat.add_assoc]

/-- Looking for the end of a header byte by byte comes to the same as reading its characters, and the text is only ever cut where
a character starts. -/
theorem scanFrom?_bytes (before after : Text) (depth : Nat) :
    scanFrom? (before ++ after) depth (byteCount before) (bytes after) =
      some ((readHeader .plain depth (byteCount before) after).map fun found => byteCount before + byteCount found.1) := by
  rw [readHeader_eq_readLexemes]
  -- The induction goes along the lexemes: what was stepped over comes to stand in front.
  fun_induction lexemes after generalizing before depth with
  | case1 text none =>
    rw [eq_nil_of_first none, show bytes [] = [] from rfl, scanFrom?, readLexemes]
    rfl
  | case2 text lexeme following found ih =>
    have onward := ih (before ++ lexeme.text)
    rw [List.append_assoc, ← firstLexeme?_eq_some found, byteCount_append] at onward
    unfold firstLexeme? at found
    split at found
    · cases found
    · rw [scanFrom?_comment]
      split at found
      · rename_i cut
        cases found
        rw [cut, Option.elim_some, onward, readLexemes, map_stop_keep]
        rfl
      · rename_i cut
        cases found
        rw [cut]
        rfl
    · rename_i alone
      split at found
      · rename_i quoted
        rw [scanFrom?_string quoted]
        split at found
        · rename_i cut
          cases found
          rw [cut, Option.elim_some, onward, readLexemes, map_stop_keep]
          rfl
        · rename_i cut
          cases found
          rw [cut]
          rfl
      · rename_i c _ bare
        cases found
        rw [show byteCount (Lexeme.plain c).text = c.utf8Size from Nat.add_zero _] at onward
        rw [scanFrom?_plain bare alone, readLexemes]
        by_cases stops : (depth = 0 && endsHeader c) = true
        · rw [if_pos stops, if_pos stops]
          rfl
        · rw [if_neg stops, if_neg stops, onward, map_stop_keep]
          rfl

end Segment
end StyleFlip
