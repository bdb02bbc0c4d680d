import StyleFlip.Text.Basic
import Mathlib.Data.List.TakeWhile

/-!
Blanks at the ends of texts. A text that neither starts nor ends with a blank is what trimming leaves of it with any blanks
around it, and of no other text (`trim_eq_iff`), and it is not lost when blanks are taken from a text that holds it
(`isInfix_trim`).
-/
namespace StyleFlip.Text
variable {text gap word : Text}

theorem blanks_blankHead (text : Text) : ∀ c ∈ blankHead text, isBlank c = true := List.all_eq_true.mp List.all_takeWhile

theorem blanks_blankTail (text : Text) : ∀ c ∈ blankTail text, isBlank c = true :=
  fun c member => List.all_eq_true.mp List.all_takeWhile c (List.mem_reverse.mp member)

theorem eq_trim (text : Text) : text = blankHead text ++ (trim text ++ blankTail (trimStart text)) := by
  rw [trim, trimEnd_append_blankTail, blankHead_append_trimStart]

theorem trim_isInfix (text : Text) : trim text <:+: text := ⟨_, _, by rw [List.append_assoc, ← eq_trim]⟩

theorem trimStart_append_of_blanks (blanks : ∀ c ∈ gap, isBlank c = true) (text : Text) : trimStart (gap ++ text) = trimStart text :=
  List.dropWhile_append_of_pos blanks

theorem takeWhile_of_blanks {mark : Char} (solid : isBlank mark = false) (blanks : ∀ c ∈ gap, isBlank c = true) (text : Text) :
    (gap ++ text).takeWhile (· != mark) = gap ++ text.takeWhile (· != mark) := by
  refine List.takeWhile_append_of_pos fun c member => bne_iff_ne.mpr ?_
  rintro rfl
  exact absurd (blanks c member) (by simp [solid])

theorem trimEnd_append_of_blanks (text : Text) (blanks : ∀ c ∈ gap, isBlank c = true) : trimEnd (text ++ gap) = trimEnd text := by
  rw [trimEnd, List.reverse_append, List.dropWhile_append_of_pos fun c member => blanks c (List.mem_reverse.mp member), trimEnd]

theorem trimStart_eq_self (solid : text.head?.any isBlank = false) : trimStart text = text := by
  cases text with
  | nil => rfl
  | cons c text =>
    have solid : isBlank c = false := solid
    exact List.dropWhile_cons_of_neg (Bool.eq_false_iff.mp solid)

theorem trimEnd_eq_self (solid : text.getLast?.any isBlank = false) : trimEnd text = text := by
  rw [trimEnd, ← trimStart, trimStart_eq_self, List.reverse_reverse]
  rwa [List.head?_reverse]

theorem trimEnd_cons (c : Char) (text : Text) :
    trimEnd (c :: text) = if (c :: text).all isBlank then [] else c :: trimEnd text := by
  have all : (text.reverse.dropWhile isBlank).isEmpty = text.all isBlank := by
    rw [Bool.eq_iff_iff, List.isEmpty_iff, List.dropWhile_eq_nil_iff, List.all_eq_true]
    simp only [List.mem_reverse]
  rw [trimEnd, List.reverse_cons, List.dropWhile_append, all, List.all_cons, trimEnd]
  cases blanks : text.all isBlank with
  | true =>
    rw [blanks, List.isEmpty_iff] at all
    cases blank : isBlank c <;> simp [blank, all]
  | false => simp

theorem trim_eq_iff (starts : word.head?.any isBlank = false) (ends : word.getLast?.any isBlank = false) :
    trim text = word ↔ ∃ gap tail, text = gap ++ word ++ tail ∧ (∀ c ∈ gap, isBlank c = true) ∧ ∀ c ∈ tail, isBlank c = true := by
  constructor
  · rintro rfl
    exact ⟨blankHead text, blankTail (trimStart text), by rw [List.append_assoc, ← eq_trim], blanks_blankHead text,
      blanks_blankTail _⟩
  · rintro ⟨gap, tail, rfl, before, behind⟩
    rw [List.append_assoc, trim, trimStart_append_of_blanks before]
    cases word with
    | nil =>
      have nothing : trimStart tail = [] := List.dropWhile_eq_nil_iff.mpr behind
      rw [List.nil_append, nothing]
      rfl
    | cons c word =>
      have solid : trimStart (c :: word ++ tail) = c :: word ++ tail := trimStart_eq_self starts
      rw [solid, trimEnd_append_of_blanks _ behind, trimEnd_eq_self ends]

theorem solid_trim (text : Text) : (trim text).head?.any isBlank = false ∧ (trim text).getLast?.any isBlank = false := by
  have starts : ∀ text : Text, (trimStart text).head?.any isBlank = false := by
    intro text
    have solid := List.head?_dropWhile_not isBlank text
    rw [trimStart]
    cases first : (text.dropWhile isBlank).head? with
    | none => rfl
    | some c =>
      rw [first] at solid
      exact solid
  constructor
  · have whole := trimEnd_append_blankTail (trimStart text)
    rw [trim]
    cases shape : trimEnd (trimStart text) with
    | nil => rfl
    | cons c rest =>
      have solid := starts text
      rw [← whole, shape] at solid
      exact solid
  · rw [trim, trimEnd, List.getLast?_reverse]
    exact starts _

theorem trim_append_of_blanks (text : Text) (blanks : ∀ c ∈ gap, isBlank c = true) : trim (text ++ gap) = trim text := by
  obtain ⟨starts, ends⟩ := solid_trim text
  refine (trim_eq_iff starts ends).mpr ⟨blankHead text, blankTail (trimStart text) ++ gap, ?_, blanks_blankHead text,
    List.forall_mem_append.mpr ⟨blanks_blankTail _, blanks⟩⟩
  conv =>
    lhs
    rw [eq_trim text]
  simp only [List.append_assoc]

theorem trim_trimEnd (text : Text) : trim (trimEnd text) = trim text := by
  conv =>
    rhs
    rw [← trimEnd_append_blankTail text]
  rw [trim_append_of_blanks _ (blanks_blankTail text)]

theorem trimEnd_isInfix (text : Text) : trimEnd text <:+: text := ⟨[], blankTail text, trimEnd_append_blankTail text⟩

theorem isInfix_trimStart (starts : word.head?.any isBlank = false) (within : word <:+: text) : word <:+: trimStart text := by
  induction text with
  | nil => exact within
  | cons c text ih =>
    rw [trimStart, List.dropWhile_cons]
    split
    · rename_i blank
      rcases List.infix_cons_iff.mp within with first | later
      · cases word with
        | nil => exact List.nil_infix
        | cons d word =>
          obtain ⟨rfl, _⟩ := List.cons_prefix_cons.mp first
          exact absurd blank (Bool.eq_false_iff.mp starts)
      · exact ih later
    · exact within

theorem isInfix_trimEnd (ends : word.getLast?.any isBlank = false) (within : word <:+: text) : word <:+: trimEnd text := by
  rw [← List.reverse_infix, trimEnd, List.reverse_reverse]
  refine isInfix_trimStart ?_ (List.reverse_infix.mpr within)
  rwa [List.head?_reverse]

theorem isInfix_trim (starts : word.head?.any isBlank = false) (ends : word.getLast?.any isBlank = false)
    (within : word <:+: text) : word <:+: trim text :=
  isInfix_trimEnd ends (isInfix_trimStart starts within)

theorem blanks_of_trim_eq_nil (nothing : trim text = []) : ∀ c ∈ text, isBlank c = true := by
  obtain ⟨gap, tail, rfl, before, behind⟩ := (trim_eq_iff rfl rfl).mp nothing
  rw [List.append_nil]
  exact List.forall_mem_append.mpr ⟨before, behind⟩

end StyleFlip.Text
