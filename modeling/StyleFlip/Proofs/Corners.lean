import StyleFlip.Proofs.Rows
import StyleFlip.Standard.Rules
import Mathlib.Data.List.Forall2

/-!
The corners of a radius value. A side of a radius value gives the corners of a box from one to four values. To mirror a
side, its values are put into another order, or a fourth one is added to three (`turned_flipCorners`); the words stay words in
their new places as long as they close their parentheses (`Laid.replace`). The sides are found at slashes, and where these
stand outside parentheses the sides of the result are the mirrored sides (`flipRadius_mirrors`).
-/
namespace StyleFlip.Standard

/-! ## Rows with other words -/

/-- If the text of a row closes its parentheses, so does every word. -/
theorem Laid.closed {words : List (Text × Text)} {trailing : Text} (laid : Laid 0 words trailing)
    (whole : depthFrom 0 (Row.text ⟨words, trailing⟩) = 0) : ∀ pair ∈ words, depthFrom 0 pair.2 = 0 := by
  induction words with
  | nil => exact nofun
  | cons first rest ih =>
    obtain ⟨gap, word⟩ := first
    obtain ⟨blanks, _, ends, others⟩ := laid
    rw [Row.text_cons, depthFrom_append, depthFrom_of_blanks blanks, depthFrom_append] at whole
    rcases ends with ⟨closed, _⟩ | ⟨rfl, rfl⟩
    · rw [closed] at whole
      exact List.forall_mem_cons.mpr ⟨closed, ih others whole⟩
    · exact List.forall_mem_cons.mpr ⟨whole, nofun⟩

theorem Laid.depthFrom_text {words : List (Text × Text)} {trailing : Text} (laid : Laid 0 words trailing)
    (closed : ∀ pair ∈ words, depthFrom 0 pair.2 = 0) : depthFrom 0 (Row.text ⟨words, trailing⟩) = 0 := by
  induction words with
  | nil => exact depthFrom_of_blanks laid 0
  | cons first rest ih =>
    obtain ⟨gap, word⟩ := first
    obtain ⟨blanks, _, _, others⟩ := laid
    obtain ⟨here, later⟩ := List.forall_mem_cons.mp closed
    rw [Row.text_cons, depthFrom_append, depthFrom_of_blanks blanks, depthFrom_append]
    exact here.symm ▸ ih others later

/-- Words that close their parentheses may take the places of others. -/
theorem Laid.replace {row : List (Text × Text)} {trailing : Text} (laid : Laid 0 row trailing) {words : List Text}
    (fits : words.length = row.length) (proper : ∀ word ∈ words, IsWord 0 word ∧ depthFrom 0 word = 0) :
    Laid 0 ((row.map Prod.fst).zip words) trailing := by
  induction row generalizing words with
  | nil => exact laid
  | cons first rest ih =>
    obtain ⟨gap, old⟩ := first
    cases words with
    | nil => cases fits
    | cons word words =>
      obtain ⟨blanks, _, ends, others⟩ := laid
      obtain ⟨own, later⟩ := List.forall_mem_cons.mp proper
      have tail := ih others (Nat.succ.inj fits) later
      refine ⟨blanks, own.1, ?_, tail⟩
      rcases ends with ⟨_, parted⟩ | ⟨rfl, rfl⟩
      · refine .inl ⟨own.2, ?_⟩
        cases rest with
        | nil => exact parted
        | cons second rest =>
          cases words with
          | nil => cases fits
          | cons _ _ => exact parted
      · exact .inr ⟨rfl, rfl⟩

theorem Laid.isWord {words : List (Text × Text)} {trailing : Text} (laid : Laid 0 words trailing) :
    ∀ pair ∈ words, IsWord 0 pair.2 := by
  induction words with
  | nil => exact nofun
  | cons first rest ih => exact List.forall_mem_cons.mpr ⟨laid.2.1, ih laid.2.2.2⟩

theorem Row.mem_text {row : Row} {c : Char} :
    c ∈ row.text ↔ (∃ pair ∈ row.words, c ∈ pair.1 ∨ c ∈ pair.2) ∨ c ∈ row.trailing := by
  simp [Row.text, List.mem_flatMap]

/-- A row whose words are put into another order. -/
theorem replaceWords_of_closed {row : Row} (laid : Laid 0 row.words row.trailing) (closed : depthFrom 0 row.text = 0)
    {words : List Text} (fits : words.length = row.words.length) (known : words ⊆ row.texts) :
    values (row.replaceWords words) = words ∧ depthFrom 0 (row.replaceWords words) = 0 ∧
      row.replaceWords words ⊆ row.text := by
  have proper : ∀ word ∈ words, IsWord 0 word ∧ depthFrom 0 word = 0 := by
    intro word member
    obtain ⟨pair, listed, rfl⟩ := List.mem_map.mp (known member)
    exact ⟨laid.isWord pair listed, laid.closed closed pair listed⟩
  have placed := laid.replace fits proper
  have lengths : words.length ≤ (row.words.map Prod.fst).length := by simp [fits]
  rw [Row.replaceWords_eq fits]
  refine ⟨?_, placed.depthFrom_text ?_, ?_⟩
  · rw [placed.values_text, List.map_snd_zip lengths]
  · exact fun pair member => (proper pair.2 (List.of_mem_zip member).2).2
  · intro c member
    rcases Row.mem_text.mp member with ⟨pair, listed, inside⟩ | behind
    · obtain ⟨gapListed, wordListed⟩ := List.of_mem_zip listed
      rcases inside with inGap | inWord
      · obtain ⟨old, oldListed, same⟩ := List.mem_map.mp gapListed
        exact Row.mem_text.mpr (.inl ⟨old, oldListed, .inl (same ▸ inGap)⟩)
      · obtain ⟨old, oldListed, same⟩ := List.mem_map.mp (known wordListed)
        exact Row.mem_text.mpr (.inl ⟨old, oldListed, .inr (same ▸ inWord)⟩)
    · exact Row.mem_text.mpr (.inr behind)

/-! ## Corners -/

structure Corners where
  topLeft : Text
  topRight : Text
  bottomRight : Text
  bottomLeft : Text
deriving DecidableEq, Repr

namespace Corners

/-- One to four values for the corners, clockwise from the top left; a corner without a value of its own takes that of the
opposite corner, and a single value is for all. -/
def ofValues? : List Text → Option Corners
  | [a] => some ⟨a, a, a, a⟩
  | [a, b] => some ⟨a, b, a, b⟩
  | [a, b, c] => some ⟨a, b, c, b⟩
  | [a, b, c, d] => some ⟨a, b, c, d⟩
  | _ => none

def mirror (corners : Corners) : Corners :=
  ⟨corners.topRight, corners.topLeft, corners.bottomLeft, corners.bottomRight⟩

end Corners

/-- A side of a radius value and what becomes of it in the mirror. -/
structure MirrorsSide (side mirrored : Text) : Prop where
  corners : Corners.ofValues? (values mirrored) = (Corners.ofValues? (values side)).map Corners.mirror
  members : ∀ value ∈ values mirrored, value ∈ values side
  other : Corners.ofValues? (values side) = none → mirrored = side

/-- What becomes of a side, as a part of a radius value. -/
structure Turned (side turned : Text) : Prop extends MirrorsSide side turned where
  closes : depthFrom 0 side = 0 → depthFrom 0 turned = 0
  unslashed : '/' ∉ side → '/' ∉ turned

/-- As many values in another order. -/
theorem turned_replaceWords {row : Row} (laid : Laid 0 row.words row.trailing) (closed : depthFrom 0 row.text = 0)
    {words : List Text} (fits : words.length = row.texts.length) (known : words ⊆ row.texts) {corners : Corners}
    (before : Corners.ofValues? row.texts = some corners) (after : Corners.ofValues? words = some corners.mirror) :
    Turned row.text (row.replaceWords words) := by
  have texts : values row.text = row.texts := laid.values_text
  obtain ⟨listed, depth, chars⟩ := replaceWords_of_closed laid closed (by rw [fits, Row.texts, List.length_map]) known
  refine ⟨⟨?_, ?_, ?_⟩, fun _ => depth, fun out inside => out (chars inside)⟩
  · rw [listed, texts, before, after]
    rfl
  · rw [listed, texts]
    exact fun _ member => known member
  · intro other
    rw [texts, before] at other
    cases other

/-- Three values become four: the second one comes to the front and stays in its place too. -/
theorem Laid.extend {gap a gapB b gapC c trailing : Text} (laid : Laid 0 [(gap, a), (gapB, b), (gapC, c)] trailing) :
    Laid 0 [(gap, b), ([' '], a), ([' '], b), ([' '], c)] trailing := by
  have blank : ∀ c ∈ [' '], Text.isBlank c = true := List.forall_mem_singleton.mpr (by decide)
  obtain ⟨blanks, isWordA, endsA, _, isWordB, endsB, _, isWordC, endsC, others⟩ := laid
  have closedA : depthFrom 0 a = 0 := endsA.elim And.left fun none => nomatch none.1
  have closedB : depthFrom 0 b = 0 := endsB.elim And.left fun none => nomatch none.1
  have parted : [' '] ≠ [] := List.cons_ne_nil _ _
  exact ⟨blanks, isWordB, .inl ⟨closedB, parted⟩, blank, isWordA, .inl ⟨closedA, parted⟩, blank, isWordB,
    .inl ⟨closedB, parted⟩, blank, isWordC, endsC, others⟩

theorem turned_of_three {row : Row} (laid : Laid 0 row.words row.trailing) {a b c : Text} (three : row.texts = [a, b, c]) :
    Turned row.text (row.replaceWords [b, a, b, c]) := by
  obtain ⟨words, trailing⟩ := row
  obtain ⟨⟨gap, a⟩, rest, rfl, rfl, two⟩ := List.map_eq_cons_iff.mp three
  obtain ⟨⟨gapB, b⟩, rest, rfl, rfl, one⟩ := List.map_eq_cons_iff.mp two
  obtain ⟨⟨gapC, c⟩, rest, rfl, rfl, none⟩ := List.map_eq_cons_iff.mp one
  obtain rfl := List.map_eq_nil_iff.mp none
  simp only at laid ⊢
  have longer := laid.extend
  have same : Row.replaceWords ⟨[(gap, a), (gapB, b), (gapC, c)], trailing⟩ [b, a, b, c] =
      Row.text ⟨[(gap, b), ([' '], a), ([' '], b), ([' '], c)], trailing⟩ := by
    simp [Row.replaceWords, Row.text, Text.join, List.intercalate]
  rw [same]
  have before := laid.values_text
  have after := longer.values_text
  refine ⟨⟨?_, ?_, ?_⟩, ?_, ?_⟩
  · simp [before, after, Corners.ofValues?, Corners.mirror]
  · simp [before, after]
  · simp [before, Corners.ofValues?]
  · intro closed
    have words := laid.closed closed
    refine longer.depthFrom_text ?_
    simp at words ⊢
    tauto
  · simp [Row.text]
    tauto

/-- The corners of one side are exchanged, and the side stays a side. -/
theorem turned_flipCorners {side : Text} (plain : ∀ word ∈ values side, standsForComment word = false)
    (closed : (values side).length = 2 ∨ (values side).length = 4 → depthFrom 0 side = 0) :
    Turned side (flipCorners side) := by
  have laid := laid_rowFrom 0 side
  have text := text_rowFrom 0 side
  have texts := values_eq_texts side
  have row : Row.ofText side = rowFrom 0 side := absorb_of_plain (fun pair member => plain pair.2 (by
    rw [texts]
    exact List.mem_map_of_mem member)) _
  simp only [flipCorners, row]
  generalize rowFrom 0 side = found at laid text texts
  subst text
  rw [texts] at closed
  split
  · rename_i a b c d four
    rw [four] at closed
    exact turned_replaceWords laid (closed (.inr rfl)) (by simp [four]) (by simp [four]) (by rw [four]; rfl) rfl
  · rename_i a b c three
    exact turned_of_three laid three
  · rename_i a b two
    rw [two] at closed
    exact turned_replaceWords laid (closed (.inl rfl)) (by simp [two]) (by simp [two]) (by rw [two]; rfl) rfl
  · rename_i notFour notThree notTwo
    refine ⟨⟨?_, fun _ => id, fun _ => rfl⟩, id, id⟩
    -- A single value is for all corners, and more than four are for none.
    rw [texts]
    unfold Corners.ofValues?
    split
    · rfl
    · rename_i two
      exact absurd two (notTwo _ _)
    · rename_i three
      exact absurd three (notThree _ _ _)
    · rename_i four
      exact absurd four (notFour _ _ _ _)
    · rfl

/-! ## Sides -/

theorem piecesOutside_eq_singleton {cuts : Char → Bool} {text : Text} (whole : ∀ c ∈ text, cuts c = false) (depth : Nat) :
    piecesOutside cuts depth text = [text] := by
  induction text generalizing depth with
  | nil => rfl
  | cons c text ih =>
    obtain ⟨here, others⟩ := List.forall_mem_cons.mp whole
    rw [piecesOutside, here, Bool.false_and, if_neg Bool.false_ne_true, ih others]
    rfl

theorem forall_mem_dropLast_cons {motive : Text → Prop} {first : Text} {others : List Text} (own : others ≠ [] → motive first)
    (behind : ∀ part ∈ others.dropLast, motive part) : ∀ part ∈ (first :: others).dropLast, motive part := by
  cases others with
  | nil => exact nofun
  | cons second rest =>
    rw [List.dropLast_cons_of_ne_nil (List.cons_ne_nil _ _)]
    exact List.forall_mem_cons.mpr ⟨own (List.cons_ne_nil _ _), behind⟩

/-- Where a text was cut, its parentheses are closed. -/
theorem depthFrom_pieces {cuts : Char → Bool} {depth : Nat} {text first : Text} {others : List Text}
    (pieces : piecesOutside cuts depth text = first :: others) :
    (others ≠ [] → depthFrom depth first = 0) ∧ ∀ piece ∈ others.dropLast, depthFrom 0 piece = 0 := by
  induction text generalizing depth first others with
  | nil =>
    cases pieces
    exact ⟨fun more => absurd rfl more, nofun⟩
  | cons c text ih =>
    rw [piecesOutside] at pieces
    split at pieces
    · rename_i here
      obtain ⟨rfl, rest⟩ := List.cons_eq_cons.mp pieces
      simp only [Bool.and_eq_true, beq_iff_eq] at here
      obtain ⟨second, later, same⟩ := List.exists_cons_of_ne_nil (piecesOutside_ne_nil cuts 0 text)
      obtain ⟨closed, behind⟩ := ih same
      rw [← rest, same]
      exact ⟨fun _ => here.2, forall_mem_dropLast_cons closed behind⟩
    · obtain ⟨second, later, same⟩ := List.exists_cons_of_ne_nil (piecesOutside_ne_nil cuts (depthAfter depth c) text)
      rw [same] at pieces
      obtain ⟨rfl, rfl⟩ := List.cons_eq_cons.mp pieces
      obtain ⟨closed, behind⟩ := ih same
      exact ⟨closed, behind⟩

theorem closed_of_mem_dropLast_sides {value : Text} : ∀ side ∈ (sides value).dropLast, depthFrom 0 side = 0 := by
  obtain ⟨first, others, same⟩ := List.exists_cons_of_ne_nil (piecesOutside_ne_nil (· == '/') 0 value)
  obtain ⟨closed, behind⟩ := depthFrom_pieces same
  rw [sides, same]
  exact forall_mem_dropLast_cons closed behind

theorem splitAt_eq_piecesOutside {depth : Nat} {text : Text}
    (outside : ∀ before after, text = before ++ '/' :: after → depthFrom depth before = 0) :
    Text.splitAt '/' text = piecesOutside (· == '/') depth text := by
  induction text generalizing depth with
  | nil => rfl
  | cons c text ih =>
    have later : ∀ before after, text = before ++ '/' :: after → depthFrom (depthAfter depth c) before = 0 :=
      fun before after same => outside (c :: before) after (by rw [same]; rfl)
    rw [Text.splitAt, piecesOutside]
    by_cases slash : c = '/'
    · subst slash
      obtain rfl : depth = 0 := outside [] text rfl
      obtain ⟨piece, pieces, same⟩ := List.exists_cons_of_ne_nil (piecesOutside_ne_nil (· == '/') 0 text)
      rw [ih later, show depthAfter 0 '/' = 0 from rfl, same]
      rfl
    · obtain ⟨piece, pieces, same⟩ := List.exists_cons_of_ne_nil (piecesOutside_ne_nil (· == '/') (depthAfter depth c) text)
      rw [ih later, same]
      simp [slash]

theorem sides_join {parts : List Text} (nonempty : parts ≠ []) (unslashed : ∀ part ∈ parts, '/' ∉ part)
    (closed : ∀ part ∈ parts.dropLast, depthFrom 0 part = 0) : sides (Text.join ['/'] parts) = parts := by
  induction parts with
  | nil => exact absurd rfl nonempty
  | cons first rest ih =>
    obtain ⟨here, later⟩ := List.forall_mem_cons.mp unslashed
    have single : sides first = [first] := piecesOutside_eq_singleton (fun c member => by
      simp only [beq_eq_false_iff_ne, ne_eq]
      rintro rfl
      exact here member) 0
    cases rest with
    | nil => simpa [Text.join, List.intercalate] using single
    | cons second rest =>
      rw [List.dropLast_cons_of_ne_nil (List.cons_ne_nil _ _)] at closed
      obtain ⟨ends, others⟩ := List.forall_mem_cons.mp closed
      rw [Text.join_cons_cons, sides_append ends, single, ih (List.cons_ne_nil _ _) later others]
      rfl

theorem not_mem_of_mem_splitAt {separator : Char} {text part : Text} (member : part ∈ Text.splitAt separator text) :
    separator ∉ part := by
  induction text generalizing part with
  | nil =>
    rw [List.mem_singleton.mp member]
    exact List.not_mem_nil
  | cons c text ih =>
    rw [Text.splitAt] at member
    split at member
    · rw [List.mem_singleton.mp member]
      exact List.not_mem_nil
    · rename_i first others parts
      split at member
      · rcases List.mem_cons.mp member with rfl | later
        · exact List.not_mem_nil
        · exact ih (parts ▸ later)
      · rename_i other
        rcases List.mem_cons.mp member with rfl | later
        · have free := ih (parts ▸ List.mem_cons_self)
          exact List.not_mem_cons_of_ne_of_not_mem (Ne.symm other) free
        · exact ih (parts ▸ List.mem_cons_of_mem _ later)

/-- A radius value is mirrored side by side: the corners that each side gives are those that it gave, with left and right
exchanged, every value of a side was a value of that side, and a side of no or more than four values stays as it is. This
holds where no slash stands inside parentheses, no value looks like the placeholder of a comment, and a side of two or four
values closes its parentheses. -/
theorem flipRadius_mirrors {value : Text}
    (outside : ∀ before after, value = before ++ '/' :: after → depthFrom 0 before = 0)
    (plain : ∀ side ∈ sides value, ∀ word ∈ values side, standsForComment word = false)
    (closed : ∀ side ∈ sides value, (values side).length = 2 ∨ (values side).length = 4 → depthFrom 0 side = 0) :
    List.Forall₂ MirrorsSide (sides value) (sides (flipRadius value)) := by
  have parts : Text.splitAt '/' value = sides value := splitAt_eq_piecesOutside outside
  have turned : ∀ side ∈ sides value, Turned side (flipCorners side) :=
    fun side member => turned_flipCorners (plain side member) (closed side member)
  have mirrored : sides (flipRadius value) = (sides value).map flipCorners := by
    rw [flipRadius, parts]
    refine sides_join ?_ ?_ ?_
    · rw [ne_eq, List.map_eq_nil_iff]
      exact piecesOutside_ne_nil _ _ _
    · intro part member
      obtain ⟨side, listed, rfl⟩ := List.mem_map.mp member
      exact (turned side listed).unslashed (not_mem_of_mem_splitAt (parts ▸ listed))
    · intro part member
      rw [← List.map_dropLast] at member
      obtain ⟨side, listed, rfl⟩ := List.mem_map.mp member
      exact (turned side (List.dropLast_subset _ listed)).closes (closed_of_mem_dropLast_sides side listed)
  rw [mirrored, List.forall₂_map_right_iff, List.forall₂_same]
  exact fun side member => (turned side member).toMirrorsSide

/-- Two sides of three and of four values, one of them a sum: both are mirrored, and the first one needs a fourth value. -/
theorem flipRadius_mirrors_sum :
    let value := "1px calc(2px + 3px) 4px / 5px 6px 7px 8px".toList
    sides value = ["1px calc(2px + 3px) 4px ".toList, " 5px 6px 7px 8px".toList] ∧
      flipRadius value = "calc(2px + 3px) 1px calc(2px + 3px) 4px / 6px 5px 8px 7px".toList ∧
      List.Forall₂ MirrorsSide (sides value) (sides (flipRadius value)) := by
  intro value
  have places : ∀ place < 41, value[place]? = some '/' → depthFrom 0 (value.take place) = 0 := by decide +kernel
  have outside : ∀ before after, value = before ++ '/' :: after → depthFrom 0 before = 0 := by
    intro before after same
    have early : before.length < 41 := by
      have length := congrArg List.length same
      rw [List.length_append, List.length_cons, show value.length = 41 from rfl] at length
      omega
    have closed := places before.length early (by rw [same]; simp)
    rwa [same, List.take_left] at closed
  exact ⟨by decide +kernel, by decide +kernel, flipRadius_mirrors outside (by decide +kernel) (by decide +kernel)⟩

/-- A slash inside parentheses is taken for the end of a side: the second value ends up inside the quotient, and the corners
are not exchanged. -/
theorem flipRadius_breaks_quotient :
    let value := "calc(4px / 2) 1px".toList
    sides value = [value] ∧ values value = ["calc(4px / 2)".toList, "1px".toList] ∧
      flipRadius value = "calc(4px / 1px 2)".toList ∧
      ¬ List.Forall₂ MirrorsSide (sides value) (sides (flipRadius value)) := by
  intro value
  have whole : sides value = [value] := by decide +kernel
  have broken : sides (flipRadius value) = ["calc(4px / 1px 2)".toList] := by decide +kernel
  refine ⟨whole, by decide +kernel, by decide +kernel, ?_⟩
  rw [whole, broken]
  rintro (_ | ⟨mirrors, _⟩)
  exact absurd mirrors.corners (by decide +kernel)

end StyleFlip.Standard
