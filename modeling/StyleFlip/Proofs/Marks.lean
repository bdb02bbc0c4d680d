import StyleFlip.Directive.Mark
import StyleFlip.Proofs.Blanks
import StyleFlip.Proofs.Placeholders
import StyleFlip.Proofs.Swaps

/-!
A single mark in a text. A mark is written as a comment with `rtl:` in front of its body (`Directive.Token`), and a directive
reads its body as a name with or without an argument (`Directive.argumentIn?`). Where no star stands outside the mark, it is
the one that is found (`Directive.Token.findMark?_eq`), and stripping takes it away together with the blanks in front of it
(`Directive.Token.withoutMarks_eq`).
-/
namespace StyleFlip
namespace Text

/-! ## Case folding of ASCII characters -/

/-- A character that folds to an ASCII character other than `k` and `s` is one itself. -/
theorem toLower_eq_of_fold_eq {c d : Char} (same : fold c = d) (ascii : d.toNat < 0x80) (notK : d ≠ 'k') (notS : d ≠ 's') :
    c.toNat < 0x80 ∧ c.toLower = d := by
  by_cases low : c.toNat < 0x80
  · rw [fold, if_pos low] at same
    exact ⟨low, same⟩
  · rcases eq_of_fold_ascii low (same ▸ ascii) with rfl | rfl
    · exact absurd (same.symm.trans (by decide +kernel)) notK
    · exact absurd (same.symm.trans (by decide +kernel)) notS

/-- What holds of all ASCII characters with a lower-case form holds of all characters that fold to it. -/
theorem of_fold_eq (test : Char → Bool) {c d : Char} (same : fold c = d) (ascii : d.toNat < 0x80) (notK : d ≠ 'k')
    (notS : d ≠ 's')
    (all : ((List.range 0x80).all fun n => (Char.ofNat n).toLower != d || test (Char.ofNat n)) = true) : test c = true := by
  obtain ⟨low, lower⟩ := toLower_eq_of_fold_eq same ascii notK notS
  have checked := List.all_eq_true.mp all c.toNat (List.mem_range.mpr low)
  rw [Char.ofNat_toNat, lower, bne_self_eq_false, Bool.false_or] at checked
  exact checked

theorem starts_of_fold_r {c : Char} (same : fold c = 'r') : isBlank c = false ∧ c ≠ '!' := by
  have test := of_fold_eq (fun c => !isBlank c && c != '!') same (by decide) (by decide) (by decide) (by decide +kernel)
  simpa using test

theorem eq_colon_of_fold {c : Char} (same : fold c = ':') : c = ':' := by
  have test := of_fold_eq (· == ':') same (by decide) (by decide) (by decide) (by decide +kernel)
  simpa using test

theorem cut?_commentClose_of_starless {body : Text} (starless : '*' ∉ body) (rest : Text) :
    cut? commentClose (body ++ commentClose ++ rest) = some (body, rest) := by
  induction body with
  | nil => rfl
  | cons c body ih =>
    have start : after? commentClose (c :: (body ++ commentClose ++ rest)) = none :=
      after?_commentClose_eq_none.mpr fun closes => List.ne_of_not_mem_cons starless closes.1.symm
    rw [List.cons_append, List.cons_append, cut?, start, ih (List.not_mem_of_not_mem_cons starless)]
    rfl

theorem after?_commentOpen_eq_none {c : Char} {rest : Text} (other : ¬ (c = '/' ∧ rest.head? = some '*')) :
    after? commentOpen (c :: rest) = none := by
  cases found : after? commentOpen (c :: rest) with
  | none => rfl
  | some following =>
    obtain ⟨rfl, rfl⟩ := List.cons_eq_cons.mp (after?_eq_some found)
    exact absurd ⟨rfl, rfl⟩ other

end Text

namespace Directive
open Text

/-! ## Marks as they are written -/

/-- A mark as it is written, with no star in its body. -/
structure Token where
  /-- An exclamation mark or nothing. -/
  bang : Text
  gap : Text
  /-- The `rtl:` in any case. -/
  lead : Text
  body : Text
  banged : bang = [] ∨ bang = ['!']
  blanks : ∀ c ∈ gap, isBlank c = true
  leads : lead.map fold = Directive.lead.map fold
  starless : '*' ∉ body

namespace Token
variable (token : Token)

/-- What stands between the ends of the comment. -/
def inner : Text := token.bang ++ token.gap ++ token.lead ++ token.body

def text : Text := commentOpen ++ token.inner ++ commentClose

theorem exists_lead : ∃ c rest, token.lead = c :: rest ∧ fold c = 'r' := by
  have leads := token.leads
  cases shape : token.lead with
  | nil =>
    rw [shape] at leads
    cases leads
  | cons c rest =>
    rw [shape] at leads
    exact ⟨c, rest, rfl, (List.cons_eq_cons.mp leads).1⟩

theorem starless_inner : '*' ∉ token.inner := by
  have bang : '*' ∉ token.bang := by
    rcases token.banged with same | same <;> simp [same]
  have gap : '*' ∉ token.gap := fun member => absurd (token.blanks '*' member) (by decide)
  have lead : '*' ∉ token.lead := by
    intro member
    have folded : fold '*' ∈ token.lead.map fold := List.mem_map_of_mem member
    rw [token.leads] at folded
    exact absurd folded (by decide +kernel)
  simp [inner, bang, gap, lead, token.starless]

theorem dropBang_append {text : Text} (other : text.head? ≠ some '!') : dropBang (token.bang ++ text) = text := by
  rcases token.banged with same | same
  · rw [same, List.nil_append, dropBang]
    rintro rest rfl
    exact other rfl
  · rw [same]
    rfl

theorem afterLead?_eq (rest : Text) : afterLead? (token.text ++ rest) = some (token.body ++ commentClose ++ rest) := by
  obtain ⟨c, more, lead, starts⟩ := token.exists_lead
  obtain ⟨solid, unbanged⟩ := starts_of_fold_r starts
  have whole : token.text ++ rest =
      commentOpen ++ (token.bang ++ (token.gap ++ (token.lead ++ (token.body ++ commentClose ++ rest)))) := by
    simp [text, inner]
  have bang : dropBang (token.bang ++ (token.gap ++ (token.lead ++ (token.body ++ commentClose ++ rest)))) =
      token.gap ++ (token.lead ++ (token.body ++ commentClose ++ rest)) := by
    refine token.dropBang_append ?_
    cases gap : token.gap with
    | nil =>
      rw [lead]
      exact fun same => unbanged (Option.some.inj same)
    | cons d gap =>
      rintro ⟨⟩
      exact absurd (token.blanks '!' (gap ▸ List.mem_cons_self)) (by decide)
  have gap : trimStart (token.gap ++ (token.lead ++ (token.body ++ commentClose ++ rest))) =
      token.lead ++ (token.body ++ commentClose ++ rest) := by
    rw [trimStart_append_of_blanks token.blanks, trimStart_eq_self]
    rw [lead]
    exact solid
  have folded : afterFolded? Directive.lead (token.lead ++ (token.body ++ commentClose ++ rest)) =
      some (token.body ++ commentClose ++ rest) := afterFolded?_eq_some_iff.mpr ⟨token.lead, rfl, token.leads⟩
  have opened := after?_append commentOpen
    (token.bang ++ (token.gap ++ (token.lead ++ (token.body ++ commentClose ++ rest))))
  simp only [whole, afterLead?, opened, bang, gap, folded]

end Token

/-! ## Bodies -/

/-- What a directive reads in the body of a mark: a body of its name in any case has no argument, one that goes on with a
colon has the rest as its argument. Without a name the whole body is the argument. -/
def argumentIn? (name body : Text) : Option (Option Text) :=
  if name.isEmpty then some (some body)
  else
    match afterFolded? name body with
    | none => none
    | some (':' :: argument) => some (some argument)
    | some rest => if rest.all isBlank then some none else none

theorem afterFolded?_append {name : Text} (starless : '*' ∉ name.map fold) (body rest : Text) :
    afterFolded? name (body ++ '*' :: rest) = (afterFolded? name body).map (· ++ '*' :: rest) := by
  induction name generalizing body with
  | nil => simp [afterFolded?]
  | cons h name ih =>
    have other := List.ne_of_not_mem_cons starless
    cases body with
    | nil =>
      have star : fold '*' = '*' := by decide
      rw [List.nil_append, afterFolded?, afterFolded?, star, if_neg (Ne.symm other)]
      rfl
    | cons c body =>
      rw [List.cons_append, afterFolded?, afterFolded?]
      split
      · exact ih (List.not_mem_of_not_mem_cons starless) body
      · rfl

/-- Blanks may stand in front of the end of a mark, and nothing else. -/
theorem after?_trimStart {tail : Text} (starless : '*' ∉ tail) (rest : Text) :
    after? commentClose (trimStart (tail ++ commentClose ++ rest)) = if tail.all isBlank then some rest else none := by
  induction tail with
  | nil => rfl
  | cons c tail ih =>
    cases blank : isBlank c with
    | true =>
      have later := ih (List.not_mem_of_not_mem_cons starless)
      rw [List.all_cons, blank, Bool.true_and, ← later, List.cons_append, List.cons_append, trimStart,
        List.dropWhile_cons_of_pos blank]
      rfl
    | false =>
      have solid : trimStart (c :: tail ++ commentClose ++ rest) = c :: tail ++ commentClose ++ rest := trimStart_eq_self blank
      rw [solid, List.all_cons, blank, Bool.false_and]
      exact after?_commentClose_eq_none.mpr fun closes => List.ne_of_not_mem_cons starless closes.1.symm

theorem Token.markAt?_eq (token : Token) {name : Text} (starless : '*' ∉ name.map fold) (rest : Text) :
    markAt? name (token.text ++ rest) = (argumentIn? name token.body).map fun argument => (argument, rest) := by
  have whole : token.body ++ commentClose ++ rest = token.body ++ '*' :: '/' :: rest := by simp [commentClose]
  simp only [markAt?, argumentIn?, token.afterLead?_eq]
  cases name.isEmpty with
  | true =>
    rw [if_pos rfl, if_pos rfl, cut?_commentClose_of_starless token.starless]
    rfl
  | false =>
    rw [if_neg Bool.false_ne_true, if_neg Bool.false_ne_true, whole, afterFolded?_append starless]
    cases found : afterFolded? name token.body with
    | none => rfl
    | some tail =>
      obtain ⟨word, body, _⟩ := afterFolded?_eq_some_iff.mp found
      have free : '*' ∉ tail := fun member => token.starless (body ▸ List.mem_append_right _ member)
      have ends := after?_trimStart free rest
      have same : tail ++ '*' :: '/' :: rest = tail ++ commentClose ++ rest := by simp [commentClose]
      rw [Option.map_some, same]
      match tail, free, ends with
      | [], _, _ => rfl
      | c :: tail, free, ends =>
        by_cases colon : c = ':'
        · subst colon
          have cut := cut?_commentClose_of_starless (List.not_mem_of_not_mem_cons free) rest
          simp only [List.cons_append, cut, Option.map_some]
        · have read : ∀ (more : Text), c :: tail = ':' :: more → False := fun more same => colon (List.cons_eq_cons.mp same).1
          have onward : ∀ (more : Text), c :: tail ++ commentClose ++ rest = ':' :: more → False := fun more same =>
            colon (List.cons_eq_cons.mp same).1
          simp only [ends]
          cases (c :: tail).all isBlank <;> rfl

/-- How a body names a directive: by its name in any case, with nothing but blanks or with an argument behind it. -/
inductive Names (name : Text) : Text → Option Text → Prop where
  | alone {word gap : Text} (same : word.map fold = name.map fold) (blanks : ∀ c ∈ gap, isBlank c = true) :
      Names name (word ++ gap) none
  | argument {word argument : Text} (same : word.map fold = name.map fold) : Names name (word ++ ':' :: argument) (some argument)

theorem argumentIn?_eq_some_iff {name body : Text} {argument : Option Text} (named : name ≠ []) :
    argumentIn? name body = some argument ↔ Names name body argument := by
  have named : name.isEmpty = false := List.isEmpty_eq_false_iff.mpr named
  rw [argumentIn?, named, if_neg Bool.false_ne_true]
  constructor
  · intro read
    split at read
    · cases read
    · rename_i rest found
      cases read
      obtain ⟨word, rfl, same⟩ := afterFolded?_eq_some_iff.mp found
      exact .argument same
    · rename_i rest _ found
      obtain ⟨word, rfl, same⟩ := afterFolded?_eq_some_iff.mp found
      split at read
      · rename_i blanks
        cases read
        exact .alone same (List.all_eq_true.mp blanks)
      · cases read
  · intro names
    cases names with
    | @alone word gap same blanks =>
      rw [afterFolded?_eq_some_iff.mpr ⟨word, rfl, same⟩]
      match gap, blanks with
      | [], _ => rfl
      | c :: gap, blanks =>
        have colon : ∀ more : Text, c :: gap = ':' :: more → False := by
          rintro more ⟨⟩
          exact absurd (blanks ':' List.mem_cons_self) (by decide)
        simp only [List.all_eq_true.mpr blanks, if_true]
    | @argument word argument same =>
      rw [afterFolded?_eq_some_iff.mpr ⟨word, rfl, same⟩]
      rfl

/-- Names of which neither starts with the other, in whatever case. -/
def Apart (name other : Text) : Prop := ¬ name.map fold <+: other.map fold ∧ ¬ other.map fold <+: name.map fold

instance (name other : Text) : Decidable (Apart name other) := inferInstanceAs (Decidable (_ ∧ _))

theorem Names.starts_folded {name body : Text} {argument : Option Text} (names : Names name body argument) :
    name.map fold <+: body.map fold := by
  cases names with
  | alone same _ =>
    rw [List.map_append, same]
    exact List.prefix_append _ _
  | argument same =>
    rw [List.map_append, same]
    exact List.prefix_append _ _

theorem Names.starless {name body : Text} {argument : Option Text} (names : Names name body argument) (free : '*' ∉ body) :
    '*' ∉ argument.getD [] := by
  cases names with
  | alone _ _ => exact List.not_mem_nil
  | argument _ => exact fun member => free (List.mem_append_right _ (List.mem_cons_of_mem _ member))

/-- A body that names a directive names no other one. -/
theorem Names.argumentIn?_eq_none {name other body : Text} {argument : Option Text} (names : Names name body argument)
    (apart : Apart name other) : argumentIn? other body = none := by
  cases read : argumentIn? other body with
  | none => rfl
  | some another =>
    have named : other ≠ [] := by
      rintro rfl
      exact apart.2 List.nil_prefix
    rcases List.prefix_or_prefix_of_prefix names.starts_folded ((argumentIn?_eq_some_iff named).mp read).starts_folded with
      first | second
    · exact absurd first apart.1
    · exact absurd second apart.2

/-! ## Finding a mark -/

theorem afterLead?_eq_none {c : Char} {rest : Text} (other : ¬ (c = '/' ∧ rest.head? = some '*')) :
    afterLead? (c :: rest) = none := by
  rw [afterLead?, after?_commentOpen_eq_none other]

/-- No mark starts where a text without stars follows. -/
theorem afterLead?_of_starless {c : Char} {front rest : Text} (starless : '*' ∉ front) (other : rest.head? ≠ some '*') :
    afterLead? (c :: (front ++ rest)) = none := by
  refine afterLead?_eq_none fun opens => ?_
  have star := opens.2
  cases front with
  | nil => exact other star
  | cons d front =>
    cases star
    exact starless List.mem_cons_self

/-- What looks like the start of a comment at the end of one is no mark. -/
theorem afterLead?_closing (rest : Text) : afterLead? ('/' :: '*' :: '/' :: rest) = none := rfl

theorem markAt?_eq_none {name text : Text} (unmarked : afterLead? text = none) : markAt? name text = none := by
  rw [markAt?, unmarked]

/-- Characters other than stars are passed over. -/
theorem findMark?_append {front : Text} (starless : '*' ∉ front) {rest : Text} (other : rest.head? ≠ some '*') (name : Text) :
    findMark? name (front ++ rest) = (findMark? name rest).map fun mark => { mark with before := front ++ mark.before } := by
  induction front with
  | nil => simp
  | cons c front ih =>
    have later := List.not_mem_of_not_mem_cons starless
    have unmarked : markAt? name (c :: (front ++ rest)) = none := markAt?_eq_none (afterLead?_of_starless later other)
    rw [List.cons_append, findMark?, unmarked, ih later]
    cases findMark? name rest <;> rfl

theorem findMark?_eq_none {text : Text} (starless : '*' ∉ text) (name : Text) : findMark? name text = none := by
  have nothing : findMark? name (text ++ []) = none := findMark?_append starless (by simp) name
  rwa [List.append_nil] at nothing

/-- Behind its start a comment without stars holds no mark. -/
theorem findMark?_inside {inner rest : Text} (starless : '*' ∉ inner) (free : '*' ∉ rest) (name : Text) :
    findMark? name (inner ++ commentClose ++ rest) = none := by
  induction inner with
  | nil =>
    have star : markAt? name ('*' :: '/' :: rest) = none := rfl
    have later : findMark? name ('/' :: rest) = none := findMark?_eq_none (by simp [free]) name
    exact (by rw [findMark?, star, later]; rfl : findMark? name ('*' :: '/' :: rest) = none)
  | cons c inner ih =>
    have later := List.not_mem_of_not_mem_cons starless
    have unmarked : afterLead? (c :: (inner ++ commentClose ++ rest)) = none := by
      by_cases start : c = '/' ∧ (inner ++ commentClose ++ rest).head? = some '*'
      · cases inner with
        | nil =>
          rw [start.1]
          exact afterLead?_closing rest
        | cons d inner =>
          cases start.2
          exact absurd List.mem_cons_self later
      · exact afterLead?_eq_none start
    rw [List.cons_append, List.cons_append, findMark?, markAt?_eq_none unmarked, ih later]
    rfl

/-- A mark is found by the directives that can read its body. -/
theorem Token.findMark?_eq (token : Token) {name before following : Text} (starless : '*' ∉ name.map fold)
    (front : '*' ∉ before) (back : '*' ∉ following) :
    findMark? name (before ++ token.text ++ following) =
      (argumentIn? name token.body).map fun argument => ⟨before, token.text, argument, following⟩ := by
  have mark := token.markAt?_eq starless following
  have whole : token.text ++ following = '/' :: '*' :: (token.inner ++ commentClose ++ following) := by
    simp [Token.text, commentOpen]
  have here : findMark? name (token.text ++ following) =
      (argumentIn? name token.body).map fun argument => ⟨[], token.text, argument, following⟩ := by
    rw [whole] at mark ⊢
    rw [findMark?, mark]
    cases argumentIn? name token.body with
    | none =>
      have star : markAt? name ('*' :: (token.inner ++ commentClose ++ following)) = none := rfl
      have inside := findMark?_inside token.starless_inner back name
      simp only [Option.map_none, findMark?, star, inside]
    | some argument =>
      have taken : (token.text ++ following).take ((token.text ++ following).length - following.length) = token.text := by
        rw [List.length_append, Nat.add_sub_cancel, List.take_left]
      rw [whole] at taken
      simp only [Option.map_some]
      exact congrArg (fun token => some (Mark.mk [] token argument following)) taken
  rw [List.append_assoc, findMark?_append front (by rw [whole]; simp), here]
  cases argumentIn? name token.body <;> simp

theorem hasMark_eq_false {text : Text} (starless : '*' ∉ text) : hasMark text = false := by
  rw [hasMark, findMark?_eq_none starless]
  rfl

theorem Token.hasMark_eq_true (token : Token) {before following : Text} (front : '*' ∉ before) (back : '*' ∉ following) :
    hasMark (before ++ token.text ++ following) = true := by
  rw [hasMark, token.findMark?_eq (by simp) front back]
  rfl

/-! ## Stripping a mark -/

theorem withoutMarks_cons (c : Char) (rest : Text) :
    withoutMarks (c :: rest) =
      match afterMark? (c :: rest) with
      | some following => withoutMarks following
      | none => c :: withoutMarks rest := by
  conv =>
    lhs
    unfold withoutMarks
  split
  · rename_i found
    rw [found]
  · rename_i found
    rw [found]

theorem withoutMarks_nil : withoutMarks [] = [] := by
  unfold withoutMarks
  rfl

/-- A text at no place of which a mark starts stays. -/
theorem withoutMarks_eq_self {text : Text} (unmarked : ∀ rest, rest <:+ text → afterMark? rest = none) :
    withoutMarks text = text := by
  induction text with
  | nil => exact withoutMarks_nil
  | cons c text ih =>
    rw [withoutMarks_cons, unmarked (c :: text) (List.suffix_refl _)]
    exact congrArg (c :: ·) (ih fun rest suffix => unmarked rest (suffix.trans (List.suffix_cons c text)))

/-- A mark cannot start at or behind blanks that are followed by another character than the slash of a comment. -/
theorem afterMark?_eq_none {front rest : Text} (starless : '*' ∉ front) (other : rest.head? ≠ some '*')
    (solid : front.all isBlank = false) : afterMark? (front ++ rest) = none := by
  have left : trimStart front ≠ [] := by
    intro nothing
    rw [List.all_eq_true.mpr (List.dropWhile_eq_nil_iff.mp nothing)] at solid
    cases solid
  obtain ⟨c, more, shape⟩ := List.exists_cons_of_ne_nil left
  have kept : trimStart (front ++ rest) = c :: (more ++ rest) := by
    rw [trimStart, List.dropWhile_append, if_neg (by simpa [trimStart] using left), ← trimStart, shape]
    rfl
  have free : '*' ∉ more := fun member =>
    starless ((List.dropWhile_sublist isBlank).subset (show '*' ∈ trimStart front from shape ▸ List.mem_cons_of_mem c member))
  rw [afterMark?, kept, afterLead?_of_starless free other]

theorem withoutMarks_of_starless {text : Text} (starless : '*' ∉ text) : withoutMarks text = text := by
  refine withoutMarks_eq_self fun rest suffix => ?_
  have free : '*' ∉ rest := fun member => starless (suffix.subset member)
  cases blank : rest.all isBlank with
  | false =>
    have unmarked : afterMark? (rest ++ []) = none := afterMark?_eq_none free (by simp) blank
    rwa [List.append_nil] at unmarked
  | true =>
    have nothing : trimStart rest = [] := List.dropWhile_eq_nil_iff.mpr (List.all_eq_true.mp blank)
    rw [afterMark?, nothing]
    rfl

theorem Token.afterMark?_eq (token : Token) {gap : Text} (blanks : ∀ c ∈ gap, isBlank c = true) (rest : Text) :
    afterMark? (gap ++ token.text ++ rest) = some rest := by
  have trimmed : trimStart (gap ++ token.text ++ rest) = token.text ++ rest := by
    rw [List.append_assoc, trimStart_append_of_blanks blanks]
    exact trimStart_eq_self rfl
  simp only [afterMark?, trimmed, token.afterLead?_eq, cut?_commentClose_of_starless token.starless, Option.map_some]

/-- A mark goes together with the blanks in front of it. -/
theorem Token.withoutMarks_eq (token : Token) {before following : Text} (front : '*' ∉ before) (back : '*' ∉ following) :
    withoutMarks (before ++ token.text ++ following) = trimEnd before ++ following := by
  have start : (token.text ++ following).head? ≠ some '*' := by simp [Token.text, commentOpen]
  induction before with
  | nil =>
    have mark : afterMark? ([] ++ token.text ++ following) = some following := token.afterMark?_eq (by simp) following
    rw [List.nil_append] at mark
    obtain ⟨c, rest, shape⟩ : ∃ c rest, token.text ++ following = c :: rest := ⟨'/', _, rfl⟩
    rw [List.nil_append, shape, withoutMarks_cons, ← shape, mark]
    exact withoutMarks_of_starless back
  | cons c before ih =>
    rw [List.cons_append, List.cons_append, withoutMarks_cons, ← List.cons_append, ← List.cons_append, trimEnd_cons]
    cases blank : (c :: before).all isBlank with
    | true =>
      rw [token.afterMark?_eq (List.all_eq_true.mp blank)]
      exact withoutMarks_of_starless back
    | false =>
      rw [List.append_assoc, afterMark?_eq_none front start blank]
      exact congrArg (c :: ·) (ih (List.not_mem_of_not_mem_cons front))

theorem dropBang_suffix (text : Text) : dropBang text <:+ text := by
  unfold dropBang
  split
  · exact List.suffix_cons _ _
  · exact List.suffix_refl _

/-- A mark has a colon with a star behind it. -/
theorem exists_colon_of_afterMark? {text following : Text} (found : afterMark? text = some following) :
    ∃ body, ':' :: body <:+ text ∧ '*' ∈ body := by
  unfold afterMark? at found
  split at found
  · cases found
  · rename_i body lead
    obtain ⟨⟨inside, after⟩, closed, _⟩ := Option.map_eq_some_iff.mp found
    refine ⟨body, ?_, by simp [cut?_eq_some closed, commentClose]⟩
    unfold afterLead? at lead
    split at lead
    · cases lead
    · rename_i rest opened
      obtain ⟨word, whole, folds⟩ := afterFolded?_eq_some_iff.mp lead
      have letters : word.map fold = "rtl".toList ++ [':'] := folds.trans (by decide)
      obtain ⟨front, last, rfl, _, single⟩ := List.map_eq_append_iff.mp letters
      obtain ⟨c, rfl, same⟩ := List.map_eq_singleton_iff.mp single
      obtain rfl := eq_colon_of_fold same
      have inside : ':' :: body <:+ trimStart (dropBang rest) := by
        rw [whole, List.append_assoc]
        exact List.suffix_append _ _
      have outside : rest <:+ trimStart text := by
        rw [after?_eq_some opened]
        exact List.suffix_append _ _
      exact inside.trans ((List.dropWhile_suffix _).trans
        ((dropBang_suffix rest).trans (outside.trans (List.dropWhile_suffix _))))

/-- A text that has no star from its first colon on stays. -/
theorem withoutMarks_of_colon {text : Text} (free : '*' ∉ text.dropWhile (· != ':')) : withoutMarks text = text := by
  refine withoutMarks_eq_self fun rest suffix => ?_
  cases found : afterMark? rest with
  | none => rfl
  | some following =>
    obtain ⟨body, behind, star⟩ := exists_colon_of_afterMark? found
    obtain ⟨front, rfl⟩ := behind.trans suffix
    refine absurd ?_ free
    clear free suffix behind
    induction front with
    | nil => exact List.mem_cons_of_mem _ star
    | cons c front ih =>
      by_cases colon : c = ':'
      · subst colon
        exact List.mem_cons_of_mem _ (List.mem_append_right _ (List.mem_cons_of_mem _ star))
      · rwa [List.cons_append, List.dropWhile_cons_of_pos (by simpa using colon)]

end Directive
end StyleFlip
