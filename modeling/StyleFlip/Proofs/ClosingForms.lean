import StyleFlip.Proofs.Blanks
import StyleFlip.Proofs.RoundTrip
import StyleFlip.Standard.Basic

/-!
What closes a block of ignored nodes. Two readers have to see it: `ignore` lets a comment through that starts with the closing
form, letter by letter, and the reader of directive comments takes the first of its forms that has a name. Both are said of
the parts of a comment (`closesIgnore_iff`, `firstCloses_iff`), and so they agree exactly on the comments whose first named
part is written without blanks in the wrong places (`closers_agree_iff`).
-/
namespace StyleFlip
namespace Directive
open Text

/-! ## Names of forms -/

/-- What may follow the name of a form: blanks, and then nothing or an argument. -/
def endsName (rest : Text) : Bool := (rest.takeWhile (· != ':')).all isBlank

/-- A form is named by what stands in front of its first colon, without the blanks around it. -/
theorem exists_formOf?_eq (opens closes : Bool) (text : Text) :
    ∃ argument, formOf? opens closes text =
      if (trim (text.takeWhile (· != ':'))).isEmpty then none
      else some ⟨trim (text.takeWhile (· != ':')), argument, opens, closes⟩ := by
  unfold formOf?
  rw [cut?_singleton]
  by_cases member : ':' ∈ text
  · rw [if_pos member]
    exact ⟨_, rfl⟩
  · have whole : text.takeWhile (· != ':') = text := by
      refine List.takeWhile_eq_self_iff.mpr fun c inside => ?_
      simp only [bne_iff_ne]
      rintro rfl
      exact member inside
    rw [if_neg member, whole]
    exact ⟨_, rfl⟩

/-- A form that closes blocks of ignored nodes and opens none. -/
def Form.ClosesIgnore (form : Form) : Prop := form.opens = false ∧ form.closes = true ∧ form.name = "ignore".toList

theorem formOf?_closes_iff {opens closes : Bool} {text : Text} :
    (∃ form, formOf? opens closes text = some form ∧ form.ClosesIgnore) ↔
      opens = false ∧ closes = true ∧ trim (text.takeWhile (· != ':')) = "ignore".toList := by
  obtain ⟨argument, same⟩ := exists_formOf?_eq opens closes text
  rw [same]
  constructor
  · rintro ⟨form, found, flags⟩
    split at found
    · cases found
    · cases found
      exact flags
  · rintro ⟨rfl, rfl, named⟩
    rw [named]
    exact ⟨_, rfl, rfl, rfl, rfl⟩

/-- A text is named `ignore` if blanks, this word and the end of the name follow each other. -/
theorem named_ignore_iff {text : Text} :
    trim (text.takeWhile (· != ':')) = "ignore".toList ↔
      ∃ gap rest, text = gap ++ "ignore".toList ++ rest ∧ (∀ c ∈ gap, isBlank c = true) ∧ endsName rest = true := by
  rw [trim_eq_iff (by decide) (by decide)]
  have word : ∀ rest : Text, ("ignore".toList ++ rest).takeWhile (· != ':') = "ignore".toList ++ rest.takeWhile (· != ':') :=
    fun rest => rfl
  constructor
  · rintro ⟨gap, tail, name, before, behind⟩
    refine ⟨gap, tail ++ text.dropWhile (· != ':'), ?_, before, ?_⟩
    · rw [← List.append_assoc, ← name, List.takeWhile_append_dropWhile]
    · -- What is left behind the name starts with its colon, if it has one.
      have stops : (text.dropWhile (· != ':')).takeWhile (· != ':') = [] := by
        have colon := List.head?_dropWhile_not (· != ':') text
        cases left : text.dropWhile (· != ':') with
        | nil => rfl
        | cons c more =>
          rw [left] at colon
          exact List.takeWhile_cons_of_neg (Bool.eq_false_iff.mp colon)
      rw [endsName, takeWhile_of_blanks (by decide) behind, stops, List.append_nil, List.all_eq_true]
      exact behind
  · rintro ⟨gap, rest, rfl, before, ends⟩
    refine ⟨gap, rest.takeWhile (· != ':'), ?_, before, List.all_eq_true.mp ends⟩
    rw [List.append_assoc, takeWhile_of_blanks (by decide) before, word, List.append_assoc]

/-! ## Parts of comments -/

/-- The parts of a directive comment, each with one form or without a name. -/
def parts? (text : Text) : Option (List Text) := (after? lead (start text)).map splitForms

theorem parse?_end (text : Text) : Form.parse? ("end:".toList ++ text) = formOf? false true text := by
  have begins : after? "begin:".toList ("end:".toList ++ text) = none := rfl
  have ends : after? "end:".toList ("end:".toList ++ text) = some text := after?_append _ _
  simp only [Form.parse?, begins, ends]

/-- A part closes blocks of ignored nodes if it reads `end:`, blanks, `ignore` and the end of a name. -/
theorem parse?_closes_iff {part : Text} :
    (∃ form, Form.parse? part = some form ∧ form.ClosesIgnore) ↔
      ∃ gap rest, part = "end:".toList ++ gap ++ "ignore".toList ++ rest ∧ (∀ c ∈ gap, isBlank c = true) ∧
        endsName rest = true := by
  constructor
  · rintro ⟨form, found, closes⟩
    unfold Form.parse? at found
    split at found
    · exact absurd (formOf?_closes_iff.mp ⟨form, found, closes⟩).1 (by decide)
    · rename_i rest _ start
      obtain ⟨gap, tail, rfl, blanks, ends⟩ := named_ignore_iff.mp (formOf?_closes_iff.mp ⟨form, found, closes⟩).2.2
      refine ⟨gap, tail, ?_, blanks, ends⟩
      rw [after?_eq_some start]
      simp only [List.append_assoc]
    · exact absurd (formOf?_closes_iff.mp ⟨form, found, closes⟩).1 (by decide)
  · rintro ⟨gap, rest, rfl, blanks, ends⟩
    have named := named_ignore_iff.mpr ⟨gap, rest, rfl, blanks, ends⟩
    obtain ⟨form, found, closes⟩ := formOf?_closes_iff.mpr ⟨rfl, rfl, named⟩
    refine ⟨form, ?_, closes⟩
    rw [List.append_assoc, List.append_assoc, ← List.append_assoc gap, parse?_end]
    exact found

theorem splitForms_ne_nil (text : Text) : splitForms text ≠ [] := by
  unfold splitForms
  split
  · exact List.cons_ne_nil _ _
  · split
    · exact List.cons_ne_nil _ _
    · split <;> exact List.cons_ne_nil _ _

/-- A character either starts the separator of two parts or belongs to the first part. -/
theorem splitForms_cons (c : Char) (text : Text) :
    (∃ following, afterSeparator? (c :: text) = some following ∧ splitForms (c :: text) = [] :: splitForms following) ∨
      afterSeparator? (c :: text) = none ∧
        ∃ part parts, splitForms text = part :: parts ∧ splitForms (c :: text) = (c :: part) :: parts := by
  obtain ⟨part, parts, rest⟩ := List.exists_cons_of_ne_nil (splitForms_ne_nil text)
  cases found : afterSeparator? (c :: text) with
  | some following =>
    refine .inl ⟨following, rfl, ?_⟩
    conv =>
      lhs
      unfold splitForms
    split
    · rename_i same
      rw [found] at same
      rw [Option.some.inj same]
    · rename_i same
      rw [found] at same
      cases same
  | none =>
    refine .inr ⟨rfl, part, parts, rest, ?_⟩
    conv =>
      lhs
      unfold splitForms
    split
    · rename_i same
      rw [found] at same
      cases same
    · rw [rest]

/-- A stretch without blanks belongs to one part. -/
theorem exists_splitForms_append (stretch : Text) (solid : stretch.any isBlank = false) (text : Text) :
    ∃ part parts, splitForms text = part :: parts ∧ splitForms (stretch ++ text) = (stretch ++ part) :: parts := by
  obtain ⟨part, parts, same⟩ := List.exists_cons_of_ne_nil (splitForms_ne_nil text)
  refine ⟨part, parts, same, ?_⟩
  induction stretch with
  | nil => exact same
  | cons c stretch ih =>
    obtain ⟨here, later⟩ := Bool.or_eq_false_iff.mp (List.any_cons ▸ solid)
    rcases splitForms_cons c (stretch ++ text) with ⟨_, separates, _⟩ | ⟨_, first, others, rest, split⟩
    · simp [afterSeparator?, here] at separates
    · rw [ih later] at rest
      obtain ⟨rfl, rfl⟩ := List.cons_eq_cons.mp rest
      exact split

theorem prefix_of_splitForms {text part : Text} {parts : List Text} (split : splitForms text = part :: parts) : part <+: text := by
  induction text generalizing part parts with
  | nil =>
    unfold splitForms at split
    cases split
    exact List.nil_prefix
  | cons c text ih =>
    rcases splitForms_cons c text with ⟨_, _, separated⟩ | ⟨_, first, others, rest, whole⟩
    · rw [separated] at split
      cases split
      exact List.nil_prefix
    · rw [whole] at split
      cases split
      exact List.cons_prefix_cons.mpr ⟨rfl, ih rest⟩

/-- The comment starts with the closing form if its first part does. -/
theorem closesIgnore_iff {text : Text} :
    closesIgnore text = true ↔ ∃ rest later, parts? text = some (("end:ignore".toList ++ rest) :: later) := by
  rw [closesIgnore, Option.isSome_iff_exists]
  constructor
  · rintro ⟨behind, found⟩
    obtain ⟨rest, later, _, split⟩ := exists_splitForms_append "end:ignore".toList (by decide) behind
    have body : after? lead (start text) = some ("end:ignore".toList ++ behind) := by
      rw [after?_eq_some found]
      exact after?_append lead _
    exact ⟨rest, later, by rw [parts?, body, Option.map_some, split]⟩
  · rintro ⟨rest, later, found⟩
    obtain ⟨body, here, split⟩ := Option.map_eq_some_iff.mp found
    obtain ⟨behind, rfl⟩ := prefix_of_splitForms split
    refine ⟨rest ++ behind, ?_⟩
    rw [after?_eq_some here, List.append_assoc]
    exact after?_append "rtl:end:ignore".toList _

/-- The first form of a directive comment closes blocks of ignored nodes. -/
def FirstCloses (text : Text) : Prop :=
  ∃ comment form others, Comment.parse? text = some comment ∧ comment.forms = form :: others ∧ form.ClosesIgnore

theorem firstCloses_iff {text : Text} :
    FirstCloses text ↔ ∃ skipped gap rest later,
      parts? text = some (skipped ++ ("end:".toList ++ gap ++ "ignore".toList ++ rest) :: later) ∧
        (∀ part ∈ skipped, Form.parse? part = none) ∧ (∀ c ∈ gap, isBlank c = true) ∧ endsName rest = true := by
  constructor
  · rintro ⟨comment, form, others, read, first, closes⟩
    obtain ⟨body, here, rfl⟩ := Option.map_eq_some_iff.mp read
    obtain ⟨skipped, part, later, split, nameless, found, _⟩ := List.filterMap_eq_cons_iff.mp first
    obtain ⟨gap, rest, rfl, blanks, ends⟩ := parse?_closes_iff.mp ⟨form, found, closes⟩
    exact ⟨skipped, gap, rest, later, by rw [parts?, here, Option.map_some, split], nameless, blanks, ends⟩
  · rintro ⟨skipped, gap, rest, later, found, nameless, blanks, ends⟩
    obtain ⟨body, here, split⟩ := Option.map_eq_some_iff.mp found
    obtain ⟨form, read, closes⟩ := parse?_closes_iff.mpr ⟨gap, rest, rfl, blanks, ends⟩
    refine ⟨_, form, later.filterMap Form.parse?, by rw [Comment.parse?, here]; rfl, ?_, closes⟩
    exact List.filterMap_eq_cons_iff.mpr ⟨skipped, _, later, split, nameless, read, rfl⟩

/-! ## Agreement -/

theorem parse?_ne_none (rest : Text) : Form.parse? ("end:ignore".toList ++ rest) ≠ none := by
  obtain ⟨argument, same⟩ := exists_formOf?_eq false true ("ignore".toList ++ rest)
  have named : (trim (("ignore".toList ++ rest).takeWhile (· != ':'))).isEmpty = false := by
    rw [List.isEmpty_eq_false_iff]
    intro nothing
    exact absurd (blanks_of_trim_eq_nil nothing 'i' List.mem_cons_self) (by decide)
  have read : Form.parse? ("end:ignore".toList ++ rest) = formOf? false true ("ignore".toList ++ rest) := parse?_end _
  rw [read, same, named]
  exact Option.some_ne_none _

/-- If the first part is the closing form, letter by letter, then no part is passed over and no blanks stand in it. -/
theorem eq_of_parts {skipped later others : List Text} {gap rest tail : Text}
    (same : skipped ++ ("end:".toList ++ gap ++ "ignore".toList ++ rest) :: later = ("end:ignore".toList ++ tail) :: others)
    (nameless : ∀ part ∈ skipped, Form.parse? part = none) (blanks : ∀ c ∈ gap, isBlank c = true) :
    skipped = [] ∧ gap = [] ∧ rest = tail := by
  cases skipped with
  | cons part skipped =>
    obtain ⟨rfl, _⟩ := List.cons_eq_cons.mp same
    exact absurd (nameless _ List.mem_cons_self) (parse?_ne_none tail)
  | nil =>
    obtain ⟨same, _⟩ := List.cons_eq_cons.mp same
    have same : gap ++ "ignore".toList ++ rest = "ignore".toList ++ tail := by
      rw [List.append_assoc, List.append_assoc] at same
      rw [List.append_assoc]
      exact List.append_cancel_left same
    cases gap with
    | cons c gap =>
      obtain ⟨rfl, _⟩ := List.cons_eq_cons.mp same
      exact absurd (blanks _ List.mem_cons_self) (by decide)
    | nil => exact ⟨rfl, rfl, List.append_cancel_left same⟩

theorem closesIgnore_iff_firstCloses_iff {text : Text} :
    (closesIgnore text = true ↔ FirstCloses text) ↔
      ∀ skipped gap rest later,
        parts? text = some (skipped ++ ("end:".toList ++ gap ++ "ignore".toList ++ rest) :: later) →
          (∀ part ∈ skipped, Form.parse? part = none) → (∀ c ∈ gap, isBlank c = true) →
            (endsName rest = true ↔ skipped = [] ∧ gap = []) := by
  constructor
  · intro agree skipped gap rest later found nameless blanks
    constructor
    · intro ends
      obtain ⟨tail, others, start⟩ := closesIgnore_iff.mp
        (agree.mpr (firstCloses_iff.mpr ⟨skipped, gap, rest, later, found, nameless, blanks, ends⟩))
      obtain ⟨first, tight, _⟩ := eq_of_parts (Option.some.inj (found.symm.trans start)) nameless blanks
      exact ⟨first, tight⟩
    · rintro ⟨rfl, rfl⟩
      obtain ⟨skipped, gap, tail, others, read, nameless, blanks, ends⟩ :=
        firstCloses_iff.mp (agree.mp (closesIgnore_iff.mpr ⟨rest, later, found⟩))
      obtain ⟨_, _, rfl⟩ := eq_of_parts (Option.some.inj (read.symm.trans found)) nameless blanks
      exact ends
  · intro spelled
    constructor
    · intro starts
      obtain ⟨rest, later, found⟩ := closesIgnore_iff.mp starts
      have ends := (spelled [] [] rest later found (by simp) (by simp)).mpr ⟨rfl, rfl⟩
      exact firstCloses_iff.mpr ⟨[], [], rest, later, found, by simp, by simp, ends⟩
    · intro closes
      obtain ⟨skipped, gap, rest, later, found, nameless, blanks, ends⟩ := firstCloses_iff.mp closes
      obtain ⟨rfl, rfl⟩ := (spelled skipped gap rest later found nameless blanks).mp ends
      exact closesIgnore_iff.mpr ⟨rest, later, found⟩

end Directive

namespace Standard
open Text Directive

/-- `ignore` lets a comment through if its first part starts with `end:ignore`. The first form of the comment closes blocks
of ignored nodes if, behind parts without a name, a part reads `end:`, blanks, `ignore` and the end of a name. So the two agree
on a comment exactly if the name ends behind `ignore` where, and only where, neither parts nor blanks are passed over. -/
theorem closers_agree_iff {σ : Type} (slot : Slot σ State) (node : NodeId) (invocation : Invocation) (store : σ) (scene : Scene)
    {text : Text} (comment : scene.sheet.comment? node = some text) :
    let passes := (enterIgnore slot node invocation store scene).1 = false
    (passes ↔ ∃ rest later, parts? text = some (("end:ignore".toList ++ rest) :: later)) ∧
    (FirstCloses text ↔ ∃ skipped gap rest later,
      parts? text = some (skipped ++ ("end:".toList ++ gap ++ "ignore".toList ++ rest) :: later) ∧
        (∀ part ∈ skipped, Form.parse? part = none) ∧ (∀ c ∈ gap, isBlank c = true) ∧ endsName rest = true) ∧
    ((passes ↔ FirstCloses text) ↔
      ∀ skipped gap rest later,
        parts? text = some (skipped ++ ("end:".toList ++ gap ++ "ignore".toList ++ rest) :: later) →
          (∀ part ∈ skipped, Form.parse? part = none) → (∀ c ∈ gap, isBlank c = true) →
            (endsName rest = true ↔ skipped = [] ∧ gap = [])) := by
  have passes : (enterIgnore slot node invocation store scene).1 = false ↔ closesIgnore text = true := by
    simp only [enterIgnore, comment, Option.any_some, Bool.not_eq_false']
  exact ⟨passes.trans closesIgnore_iff, firstCloses_iff, (iff_congr passes Iff.rfl).trans closesIgnore_iff_firstCloses_iff⟩

theorem closers_agree_iff_argument :
    let scene : Scene := ⟨⟨#[{ content := .comment "! rtl:end:ignore : for now rtl:rename".toList }]⟩, default, default, [], []⟩
    scene.sheet.comment? 0 = some "! rtl:end:ignore : for now rtl:rename".toList ∧
      ((enterIgnore (.whole State) 0 ⟨"ignore".toList, [], true, false, false, false, 0⟩ {} scene).1 = false ↔
        FirstCloses "! rtl:end:ignore : for now rtl:rename".toList) := by
  intro scene
  refine ⟨rfl, (closers_agree_iff (.whole State) 0 _ {} scene rfl).2.2.mpr ?_⟩
  intro skipped gap rest later found nameless blanks
  have parts : parts? "! rtl:end:ignore : for now rtl:rename".toList =
      some (("end:ignore".toList ++ " : for now".toList) :: ["rename".toList]) := by decide +kernel
  obtain ⟨rfl, rfl, rfl⟩ := eq_of_parts (Option.some.inj (found.symm.trans parts)) nameless blanks
  exact iff_of_true (by decide) ⟨rfl, rfl⟩

/-- A blank in front of the name: the form closes the block, but `ignore` does not let its comment through, so the block is
open to the end. -/
theorem block_outlives_spaced_closer :
    FirstCloses "rtl:end: ignore".toList ∧
    ∃ sheet, Sheet.parse "/*rtl:begin:ignore*/.a{left:0}/*rtl:end: ignore*/.b{left:0}".toList = .ok sheet ∧
      sheet.comment? 4 = some "rtl:end: ignore".toList ∧
      (∀ invocation options map handled warnings,
        (enterIgnore (.whole State) 4 invocation {} ⟨sheet, options, map, handled, warnings⟩).1 = true) ∧
      ((engine {}).flip sheet).1.toText = "/*rtl:begin:ignore*/.a{left:0}/*rtl:end: ignore*/.b{left:0}".toList ∧
      ((engine {}).flip sheet).2.1 = ⟨[⟨.stillOpen, 1, "unclosed directive \"ignore\".".toList⟩], 0⟩ := by
  have parts : parts? "rtl:end: ignore".toList =
      some ([] ++ ("end:".toList ++ " ".toList ++ "ignore".toList ++ []) :: []) := by decide +kernel
  refine ⟨firstCloses_iff.mpr ⟨[], _, _, [], parts, by simp, List.all_eq_true.mp rfl, rfl⟩, ?_⟩
  obtain ⟨sheet, parsed, test⟩ := Sheet.exists_of_readable
    (by decide +kernel :
      (Sheet.parse "/*rtl:begin:ignore*/.a{left:0}/*rtl:end: ignore*/.b{left:0}".toList).toOption.any (fun sheet =>
        sheet.comment? 4 == some "rtl:end: ignore".toList &&
        ((engine {}).flip sheet).1.toText == "/*rtl:begin:ignore*/.a{left:0}/*rtl:end: ignore*/.b{left:0}".toList &&
        ((engine {}).flip sheet).2.1 == ⟨[⟨.stillOpen, 1, "unclosed directive \"ignore\".".toList⟩], 0⟩) = true)
  simp only [Bool.and_eq_true, beq_iff_eq] at test
  obtain ⟨⟨comment, text⟩, report⟩ := test
  refine ⟨sheet, parsed, comment, fun invocation options map handled warnings => ?_, text, report⟩
  have claims : closesIgnore "rtl:end: ignore".toList = false := by decide +kernel
  simp only [enterIgnore, comment, Option.any_some, claims, Bool.not_false]

end Standard
end StyleFlip
