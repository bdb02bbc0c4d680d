import StyleFlip.Proofs.ClosingForms
import StyleFlip.Proofs.Rereading

/-!
Writing directive comments. A form is written as `rtl:`, the keyword of its shape, its name and, if it has one, its argument
behind a colon; a comment is written as its forms with blanks between them (`Script`). The argument may hold anything but a
blank at its end and the start of another form, so it may hold colons, blanks and the letters `rtl`; only a form that opens and
closes at once cannot have both an argument and the name of a keyword. What is written so is read as the same forms, whatever
the blanks are (`parse?_text`).
-/
namespace StyleFlip.Directive
open Text

/-! ## Parts with arguments -/

/-- No blank in the text stands directly before the lead of a form. -/
def Unbroken (text : Text) : Prop := ∀ c, isBlank c = true → ¬ (c :: lead) <:+: text

theorem unbroken_iff {text : Text} :
    Unbroken text ↔ ∀ rest ∈ text.tails, rest.head?.any isBlank = true → ¬ lead <+: rest.tail := by
  constructor
  · intro unbroken rest within space starts
    cases rest with
    | nil => cases space
    | cons c rest =>
      refine unbroken c space (List.infix_iff_prefix_suffix.mpr ⟨c :: rest, ?_, (List.mem_tails _ _).mp within⟩)
      exact List.cons_prefix_cons.mpr ⟨rfl, starts⟩
  · intro tails c space within
    obtain ⟨rest, starts, ends⟩ := List.infix_iff_prefix_suffix.mp within
    cases rest with
    | nil => simp at starts
    | cons d rest =>
      obtain ⟨rfl, follows⟩ := List.cons_prefix_cons.mp starts
      exact tails _ ((List.mem_tails _ _).mpr ends) space follows

instance (text : Text) : Decidable (Unbroken text) := decidable_of_iff' _ unbroken_iff

/-- A word without blanks at the start of a text ends before the first blank. -/
theorem prefix_of_prefix_append {word text rest : Text} (solid : word.any isBlank = false) (blank : rest.head?.all isBlank = true)
    (starts : word <+: text ++ rest) : word <+: text := by
  induction text generalizing word with
  | nil =>
    cases word with
    | nil => exact List.nil_prefix
    | cons c word =>
      cases rest with
      | nil => simp at starts
      | cons d rest =>
        obtain ⟨rfl, _⟩ := List.cons_prefix_cons.mp starts
        have blank : isBlank c = true := blank
        simp [blank] at solid
  | cons d text ih =>
    cases word with
    | nil => exact List.nil_prefix
    | cons c word =>
      obtain ⟨rfl, more⟩ := List.cons_prefix_cons.mp starts
      obtain ⟨_, later⟩ := Bool.or_eq_false_iff.mp (List.any_cons ▸ solid)
      exact List.cons_prefix_cons.mpr ⟨rfl, ih later more⟩

/-- Inside an unbroken text no other form starts, even if blanks follow the text. -/
theorem afterSeparator?_eq_none {c : Char} {text rest : Text} (unbroken : Unbroken (c :: text))
    (trimmed : (c :: text).getLast?.any isBlank = false) (blank : rest.head?.all isBlank = true) :
    afterSeparator? (c :: (text ++ rest)) = none := by
  rw [afterSeparator?]
  split
  · rename_i space
    refine after?_eq_none_iff.mpr fun starts => ?_
    -- The blank `c` is not the last character, so the text has a first character that is none.
    have solid : trimStart text ≠ [] := by
      intro nothing
      have all : ∀ d ∈ c :: text, isBlank d = true := List.forall_mem_cons.mpr ⟨space, List.dropWhile_eq_nil_iff.mp nothing⟩
      rw [List.getLast?_eq_some_getLast (List.cons_ne_nil c text), Option.any_some, all _ (List.getLast_mem _)] at trimmed
      cases trimmed
    have apart : trimStart (text ++ rest) = trimStart text ++ rest := by
      rw [trimStart] at solid
      rw [trimStart, List.dropWhile_append, List.isEmpty_eq_false_iff.mpr solid]
      rfl
    rw [apart] at starts
    obtain ⟨behind, found⟩ := prefix_of_prefix_append (by decide) blank starts
    -- The last of the blanks in front of the lead breaks the text.
    obtain ⟨front, last, spaces⟩ : ∃ front last, c :: blankHead text = front ++ [last] :=
      ⟨_, _, (List.dropLast_append_getLast (List.cons_ne_nil _ _)).symm⟩
    have lastBlank : isBlank last = true := by
      have every : ∀ d ∈ c :: blankHead text, isBlank d = true := List.forall_mem_cons.mpr ⟨space, blanks_blankHead text⟩
      exact every last (by simp [spaces])
    refine unbroken last lastBlank ⟨front, behind, ?_⟩
    calc front ++ last :: lead ++ behind
      _ = (front ++ [last]) ++ (lead ++ behind) := by simp
      _ = c :: (blankHead text ++ trimStart text) := by rw [← spaces, found]; rfl
      _ = c :: text := by rw [blankHead_append_trimStart]
  · rfl

/-- An unbroken text belongs to one part with what follows it. -/
theorem splitForms_append {text rest part : Text} {parts : List Text} (unbroken : Unbroken text)
    (trimmed : text.getLast?.any isBlank = false) (blank : rest.head?.all isBlank = true) (split : splitForms rest = part :: parts) :
    splitForms (text ++ rest) = (text ++ part) :: parts := by
  induction text with
  | nil => exact split
  | cons c text ih =>
    have later : text.getLast?.any isBlank = false := by
      cases text with
      | nil => rfl
      | cons d text => rwa [List.getLast?_cons_cons] at trimmed
    have same := ih (fun d space within => unbroken d space (within.trans (List.suffix_cons c text).isInfix)) later
    rcases splitForms_cons c (text ++ rest) with ⟨_, separates, _⟩ | ⟨_, first, others, inner, whole⟩
    · rw [afterSeparator?_eq_none unbroken trimmed blank] at separates
      cases separates
    · rw [same] at inner
      obtain ⟨rfl, rfl⟩ := List.cons_eq_cons.mp inner
      exact whole

/-- Blanks alone are a part of their own. -/
theorem splitForms_blanks {gap : Text} (blanks : ∀ c ∈ gap, isBlank c = true) : splitForms gap = [gap] := by
  induction gap with
  | nil =>
    unfold splitForms
    rfl
  | cons c gap ih =>
    obtain ⟨_, later⟩ := List.forall_mem_cons.mp blanks
    rcases splitForms_cons c gap with ⟨following, separates, _⟩ | ⟨_, first, others, inner, whole⟩
    · have nothing : trimStart gap = [] := List.dropWhile_eq_nil_iff.mpr later
      simp [afterSeparator?, nothing, after?, lead] at separates
    · rw [ih later] at inner
      obtain ⟨rfl, rfl⟩ := List.cons_eq_cons.mp inner
      exact whole

/-- Blanks and the lead of a form end a part. -/
theorem splitForms_separator {gap : Text} (some : gap ≠ []) (blanks : ∀ c ∈ gap, isBlank c = true) (rest : Text) :
    splitForms (gap ++ (lead ++ rest)) = [] :: splitForms rest := by
  cases gap with
  | nil => exact absurd rfl some
  | cons c gap =>
    obtain ⟨space, later⟩ := List.forall_mem_cons.mp blanks
    have solid : trimStart (lead ++ rest) = lead ++ rest := trimStart_eq_self rfl
    have separates : afterSeparator? (c :: (gap ++ (lead ++ rest))) = .some rest := by
      rw [afterSeparator?, if_pos space, trimStart_append_of_blanks later, solid, after?_append]
    rcases splitForms_cons c (gap ++ (lead ++ rest)) with ⟨following, found, whole⟩ | ⟨missing, _⟩
    · rw [separates] at found
      obtain rfl := Option.some.inj found
      exact whole
    · rw [separates] at missing
      cases missing

/-! ## Forms -/

namespace Form

/-- The keyword that tells the shape of a form. -/
def keyword (form : Form) : Text :=
  match form.opens, form.closes with
  | true, false => "begin:".toList
  | false, true => "end:".toList
  | _, _ => []

/-- The name of a form and, behind a colon, its argument if it has one. -/
def call (form : Form) : Text := form.name ++ if form.argument = [] then [] else ':' :: form.argument

/-- A form as it is written behind its lead. -/
def body (form : Form) : Text := form.keyword ++ form.call

@[mk_iff]
structure Writable (form : Form) : Prop where
  used : form.opens = true ∨ form.closes = true
  named : form.name ≠ []
  solid : form.name.any isBlank = false
  colonless : ':' ∉ form.name
  trimmed : form.argument.getLast?.any isBlank = false
  unbroken : Unbroken form.argument
  /-- A form that opens and closes at once has no keyword, so a name in front of a colon must not look like one. -/
  plain : form.opens = true → form.closes = true → form.argument ≠ [] → form.name ≠ "begin".toList ∧ form.name ≠ "end".toList

instance (form : Form) : Decidable form.Writable := decidable_of_iff' _ (writable_iff form)

end Form

theorem cut?_colon {word : Text} (solid : ':' ∉ word) (rest : Text) :
    cut? [':'] (word ++ ':' :: rest) = some (word, rest) := by
  have other : ∀ c ∈ word, (c != ':') = true := fun c member => bne_iff_ne.mpr (ne_of_mem_of_not_mem member solid)
  rw [cut?_singleton, if_pos (by simp), List.takeWhile_append_of_pos other, List.dropWhile_append_of_pos other]
  simp

section
variable {form : Form} {gap : Text}

theorem cut?_call_of_argument (writable : form.Writable) (some : form.argument ≠ []) (gap : Text) :
    cut? [':'] (form.call ++ gap) = .some (form.name, form.argument ++ gap) := by
  rw [Form.call, if_neg some, List.append_assoc]
  exact cut?_colon writable.colonless _

theorem colon_not_mem_call (writable : form.Writable) (none : form.argument = []) (blanks : ∀ c ∈ gap, isBlank c = true) :
    ':' ∉ form.call ++ gap := by
  rw [Form.call, if_pos none, List.append_nil, List.mem_append, not_or]
  exact ⟨writable.colonless, fun member => absurd (blanks _ member) (by decide)⟩

theorem formOf?_call (writable : form.Writable) (blanks : ∀ c ∈ gap, isBlank c = true) (opens closes : Bool) :
    formOf? opens closes (form.call ++ gap) = some ⟨form.name, form.argument, opens, closes⟩ := by
  have named : form.name.isEmpty = false := List.isEmpty_eq_false_iff.mpr writable.named
  have solid : ∀ c ∈ form.name, isBlank c = false := fun c member =>
    Bool.eq_false_iff.mpr (List.any_eq_false.mp writable.solid c member)
  have starts : form.name.head?.any isBlank = false := by
    rw [List.head?_eq_some_head writable.named]
    exact solid _ (List.head_mem _)
  have ends : form.name.getLast?.any isBlank = false := by
    rw [List.getLast?_eq_some_getLast writable.named]
    exact solid _ (List.getLast_mem _)
  unfold formOf?
  by_cases none : form.argument = []
  · have trims : trim (form.call ++ gap) = form.name := by
      refine (trim_eq_iff starts ends).mpr ⟨[], gap, ?_, by simp, blanks⟩
      rw [Form.call, if_pos none, List.append_nil, List.nil_append]
    rw [cut?_singleton, if_neg (colon_not_mem_call writable none blanks)]
    simp only [trims, named, none]
    rfl
  · have trims : trim form.name = form.name := (trim_eq_iff starts ends).mpr ⟨[], [], by simp, by simp, by simp⟩
    have argument : trimEnd (form.argument ++ gap) = form.argument := by
      rw [trimEnd_append_of_blanks _ blanks, trimEnd_eq_self writable.trimmed]
    rw [cut?_call_of_argument writable none gap]
    simp only [trims, argument, named]
    rfl

/-- A form without a keyword is not taken for one with a keyword. -/
theorem after?_keyword_eq_none (writable : form.Writable) (blanks : ∀ c ∈ gap, isBlank c = true) {word : Text}
    (solid : ':' ∉ word) (other : form.argument ≠ [] → form.name ≠ word) :
    after? (word ++ [':']) (form.call ++ gap) = none := by
  refine after?_eq_none_iff.mpr ?_
  rintro ⟨rest, whole⟩
  rw [List.append_assoc, List.singleton_append] at whole
  by_cases none : form.argument = []
  · refine colon_not_mem_call writable none blanks ?_
    simp [← whole]
  · have cut := cut?_call_of_argument writable none gap
    rw [← whole, cut?_colon solid] at cut
    cases cut
    exact other none rfl

/-- A form is read from what is written for it, with any blanks behind it. -/
theorem parse?_body (writable : form.Writable) (blanks : ∀ c ∈ gap, isBlank c = true) :
    Form.parse? (form.body ++ gap) = some form := by
  have read := formOf?_call writable blanks
  obtain ⟨name, argument, opens, closes⟩ := form
  have begins : ∀ text, after? "begin:".toList ("begin:".toList ++ text) = some text := after?_append _
  rw [Form.body, List.append_assoc]
  match opens, closes with
  | true, false =>
    simp only [Form.keyword, Form.parse?, begins]
    exact read true false
  | false, true => exact (parse?_end _).trans (read false true)
  | true, true =>
    have noBegin := after?_keyword_eq_none writable blanks (show ':' ∉ "begin".toList by decide)
      fun some => (writable.plain rfl rfl some).1
    have noEnd := after?_keyword_eq_none writable blanks (show ':' ∉ "end".toList by decide)
      fun some => (writable.plain rfl rfl some).2
    have one : Form.parse? (Form.call ⟨name, argument, true, true⟩ ++ gap) =
        formOf? true true (Form.call ⟨name, argument, true, true⟩ ++ gap) := by
      unfold Form.parse?
      split
      · rename_i found
        cases noBegin.symm.trans found
      · rename_i found
        cases noEnd.symm.trans found
      · rfl
    exact one.trans (read true true)
  | false, false => exact absurd writable.used (by simp)

theorem splitForms_body (writable : form.Writable) {rest part : Text} {parts : List Text} (blank : rest.head?.all isBlank = true)
    (split : splitForms rest = part :: parts) : splitForms (form.body ++ rest) = (form.body ++ part) :: parts := by
  -- Up to its argument a form has no blanks, and the argument is unbroken.
  have keyword : form.keyword.any isBlank = false := by
    unfold Form.keyword
    split <;> rfl
  have solid : ∀ stretch : Text, stretch.any isBlank = false → ∀ {text part : Text} {parts : List Text},
      splitForms text = part :: parts → splitForms (stretch ++ text) = (stretch ++ part) :: parts := by
    intro stretch solid text part parts split
    obtain ⟨_, _, same, whole⟩ := exists_splitForms_append stretch solid text
    rw [split] at same
    cases same
    exact whole
  rw [Form.body, Form.call]
  by_cases none : form.argument = []
  · rw [if_pos none, List.append_nil, List.append_assoc, List.append_assoc]
    exact solid _ keyword (solid _ writable.solid split)
  · have inner := solid [':'] rfl (splitForms_append writable.unbroken writable.trimmed blank split)
    rw [if_neg none]
    simpa only [List.append_assoc, List.cons_append, List.nil_append] using solid _ keyword (solid _ writable.solid inner)

end

/-! ## Comments -/

/-- A directive comment as it is written: its forms, with the blanks around and between them. -/
structure Script where
  preserve : Bool
  front : Text
  /-- The blanks behind the exclamation mark of a comment that is to be kept. -/
  afterBang : Text
  first : Form
  /-- The other forms, each with the blanks in front of it. -/
  others : List (Text × Form)
  behind : Text
  writable : ∀ form ∈ first :: others.map (·.2), form.Writable
  blank : ∀ gap ∈ front :: afterBang :: behind :: others.map (·.1), gap.all isBlank = true
  separate : ∀ gap ∈ others.map (·.1), gap ≠ []

namespace Script

/-- The comment that a script is meant for. -/
def comment (script : Script) : Comment := ⟨script.preserve, script.first :: script.others.map (·.2)⟩

/-- The forms behind the first one, with their leads. -/
def continuation (others : List (Text × Form)) : Text := others.flatMap fun other => other.1 ++ (lead ++ other.2.body)

def text (script : Script) : Text :=
  script.front ++ (if script.preserve then '!' :: script.afterBang else []) ++
    (lead ++ (script.first.body ++ (continuation script.others ++ script.behind)))

end Script

/-- Forms with blanks between them are read one after the other. -/
theorem filterMap_splitForms {first : Form} {others : List (Text × Form)} {behind : Text}
    (writable : ∀ form ∈ first :: others.map (·.2), form.Writable) (blank : ∀ gap ∈ others.map (·.1), gap.all isBlank = true)
    (separate : ∀ gap ∈ others.map (·.1), gap ≠ []) (blanks : ∀ c ∈ behind, isBlank c = true) :
    (splitForms (first.body ++ (Script.continuation others ++ behind))).filterMap Form.parse? = first :: others.map (·.2) := by
  induction others generalizing first with
  | nil =>
    have tail : behind.head?.all isBlank = true := by
      cases behind with
      | nil => rfl
      | cons c behind => exact blanks c List.mem_cons_self
    have here : first.Writable := writable first List.mem_cons_self
    rw [Script.continuation, List.flatMap_nil, List.nil_append, splitForms_body here tail (splitForms_blanks blanks),
      List.filterMap_cons_some (parse?_body here blanks)]
    rfl
  | cons other others ih =>
    obtain ⟨gap, form⟩ := other
    obtain ⟨here, later⟩ := List.forall_mem_cons.mp writable
    obtain ⟨space, spaces⟩ := List.forall_mem_cons.mp blank
    have space : ∀ c ∈ gap, isBlank c = true := List.all_eq_true.mp space
    obtain ⟨some, all⟩ := List.forall_mem_cons.mp separate
    have starts : (gap ++ (lead ++ (form.body ++ (Script.continuation others ++ behind)))).head?.all isBlank = true := by
      cases gap with
      | nil => exact absurd rfl some
      | cons c gap => exact space c List.mem_cons_self
    have whole : Script.continuation ((gap, form) :: others) ++ behind =
        gap ++ (lead ++ (form.body ++ (Script.continuation others ++ behind))) := by
      simp only [Script.continuation, List.flatMap_cons, List.append_assoc]
    have alone : Form.parse? (first.body ++ []) = .some first := parse?_body here (List.forall_mem_nil _)
    rw [whole, splitForms_body here starts (splitForms_separator some space _), List.filterMap_cons_some alone,
      ih later spaces all]
    rfl

/-- A script is read as the comment that it is meant for. -/
theorem parse?_text (script : Script) : Comment.parse? script.text = some script.comment := by
  obtain ⟨preserve, front, afterBang, first, others, behind, writable, blank, separate⟩ := script
  obtain ⟨inFront, blank⟩ := List.forall_mem_cons.mp blank
  obtain ⟨behindBang, blank⟩ := List.forall_mem_cons.mp blank
  obtain ⟨atEnd, between⟩ := List.forall_mem_cons.mp blank
  have forms := filterMap_splitForms writable between separate (List.all_eq_true.mp atEnd)
  have read : ∀ text body, start text = lead ++ body → ((trimStart text).head? == some '!') = preserve →
      (splitForms body).filterMap Form.parse? = first :: others.map (·.2) →
        Comment.parse? text = some ⟨preserve, first :: others.map (·.2)⟩ := by
    intro text body begins kept inside
    rw [Comment.parse?, begins, after?_append, Option.map_some, kept, inside]
  refine read _ _ ?_ ?_ forms
  all_goals
    simp only [Script.text, start, List.append_assoc, trimStart_append_of_blanks (List.all_eq_true.mp inFront)]
    cases preserve
  · rfl
  · exact trimStart_append_of_blanks (List.all_eq_true.mp behindBang) _
  · rfl
  · rfl

/-- Keywords as names, and arguments with colons, blanks and the letters `rtl` in them. -/
theorem parse?_text_keywords :
    Comment.parse? "\u2003!\n rtl:begin:begin:a: rtl b rtl\n rtl:end\trtl:end:rtl: rtl  rtl:options:rtl:x:\u3000".toList =
      some ⟨true, [⟨"begin".toList, "a: rtl b rtl".toList, true, false⟩, ⟨"end".toList, [], true, true⟩,
        ⟨"rtl".toList, " rtl".toList, false, true⟩, ⟨"options".toList, "rtl:x:".toList, true, true⟩]⟩ :=
  parse?_text
    { preserve := true, front := "\u2003".toList, afterBang := "\n ".toList, behind := "\u3000".toList
      first := ⟨"begin".toList, "a: rtl b rtl".toList, true, false⟩
      others := [("\n ".toList, ⟨"end".toList, [], true, true⟩), ("\t".toList, ⟨"rtl".toList, " rtl".toList, false, true⟩),
        ("  ".toList, ⟨"options".toList, "rtl:x:".toList, true, true⟩)]
      writable := by decide +kernel
      blank := by decide +kernel
      separate := by decide +kernel }

end StyleFlip.Directive
