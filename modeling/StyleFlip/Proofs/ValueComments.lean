import StyleFlip.Proofs.Locality
import StyleFlip.Proofs.Placeholders
import StyleFlip.Proofs.Rows
import StyleFlip.Proofs.ValueMarks

/-!
Comments inside values. Flip rules see the value with placeholders in place of its comments, and each rule is asked what it
makes of the marks of such a value. Swaps of keywords keep them as they are (`Swap.Inert.marks_apply`). Rules that take a
value apart into a row find characters outside all marks around its words (`Spaced`), so words in another order only
reorder the marks (`perm_marks_replaceWords`). A side of a radius value that grows from three values to four is the
exception: it drops the marks between its values, and doubles those inside the second one (`perm_marks_flipCorners`). For
whole declarations this says which comments a flip keeps (`comments_flipByRule`).
-/
namespace StyleFlip

/-! ## Swaps -/

open Text in
/-- A swap of tokens that belong to no mark. -/
structure Swap.Inert (swap : Swap) : Prop where
  exact : swap.ignoreCase = false
  first : swap.first ≠ [] ∧ ∀ c ∈ swap.first, isInert c = true
  second : swap.second ≠ [] ∧ ∀ c ∈ swap.second, isInert c = true

namespace Swap
open Text
variable {swap : Swap}

theorem Inert.tokenAt? (inert : swap.Inert) {previous : Option Char} {text token found : Text}
    (here : swap.tokenAt? previous text token = some found) : found = token ∧ ∃ rest, text = token ++ rest := by
  unfold Swap.tokenAt? Swap.afterToken? at here
  rw [inert.exact] at here
  split at here
  · cases here
  · rename_i rest start
    have whole := after?_eq_some start
    dsimp only at here
    split at here
    · cases here
      rw [whole, List.take_left]
      exact ⟨rfl, rest, rfl⟩
    · cases here

theorem Inert.matchAt? (inert : swap.Inert) {previous : Option Char} {text found : Text}
    (here : swap.matchAt? previous text = some found) :
    (found ≠ [] ∧ ∀ c ∈ found, isInert c = true) ∧ ∃ rest, text = found ++ rest := by
  unfold Swap.matchAt? at here
  split at here
  · cases first : swap.tokenAt? previous text swap.first with
    | some token =>
      rw [first] at here
      cases here
      obtain ⟨rfl, whole⟩ := inert.tokenAt? first
      exact ⟨inert.first, whole⟩
    | none =>
      rw [first] at here
      obtain ⟨rfl, whole⟩ := inert.tokenAt? (show swap.tokenAt? previous text swap.second = some found from here)
      exact ⟨inert.second, whole⟩
  · cases here

theorem Inert.replacement (inert : swap.Inert) (found : Text) :
    swap.replacement found ≠ [] ∧ ∀ c ∈ swap.replacement found, isInert c = true := by
  unfold Swap.replacement
  split
  · exact inert.second
  · exact inert.first

theorem Inert.marksFrom_applyFrom (inert : swap.Inert) (reading : Reading) (previous : Option Char) (pending : Nat)
    (adjacent : Bool) (text : Text) :
    marksFrom reading (swap.applyFrom previous pending adjacent text) = marksFrom reading (text.drop pending) := by
  induction text generalizing reading previous pending adjacent with
  | nil =>
    rw [applyFrom, List.drop_nil]
    split
    · rename_i found
      obtain ⟨⟨nonempty, _⟩, rest, whole⟩ := inert.matchAt? found
      exact absurd (List.append_eq_nil_iff.mp whole.symm).1 nonempty
    · rfl
  | cons c rest ih =>
    cases pending with
    | succ left => exact ih reading (some c) left (left == 0)
    | zero =>
      rw [applyFrom, List.drop_zero]
      split
      · rw [marksFrom, marksFrom, ih]
        rfl
      · rename_i found
        exact absurd rfl (inert.matchAt? found).1.1
      · rename_i first more found
        obtain ⟨⟨nonempty, letters⟩, following, whole⟩ := inert.matchAt? found
        obtain ⟨nonemptyNew, lettersNew⟩ := inert.replacement (first :: more)
        rw [marksFrom_inert_append lettersNew nonemptyNew, marks, ih, whole, marksFrom_inert_append letters nonempty]
        obtain ⟨rfl, rfl⟩ := List.cons_eq_cons.mp whole
        change marksFrom .idle ((more ++ following).drop more.length) = _
        rw [List.drop_left]
        rfl

/-- Exchanging tokens that belong to no mark keeps the marks. -/
theorem Inert.marks_apply (inert : swap.Inert) (text : Text) : marks (swap.apply text) = marks text :=
  inert.marksFrom_applyFrom .idle none 0 false text

end Swap

namespace Standard
open Text

/-! ## Rows -/

/-- Characters outside all marks stand on either side of every word of a row. -/
structure Spaced (words : List (Text × Text)) (trailing : Text) : Prop where
  ends : ∀ pair ∈ words, EndsInert pair.1
  starts : ∀ pair ∈ words.tail, pair.1 ≠ [] ∧ StartsInert pair.1
  trailing : words ≠ [] → StartsInert trailing

theorem spaced_nil (trailing : Text) : Spaced [] trailing :=
  ⟨List.forall_mem_nil _, List.forall_mem_nil _, fun some => absurd rfl some⟩

/-- The marks of a row are those of its gaps and words, one after the other. -/
theorem Spaced.marks_text {words : List (Text × Text)} {trailing : Text} (spaced : Spaced words trailing) :
    marks (Row.text ⟨words, trailing⟩) = words.flatMap (fun pair => marks pair.1 ++ marks pair.2) ++ marks trailing := by
  induction words with
  | nil => rfl
  | cons first rest ih =>
    obtain ⟨gap, word⟩ := first
    have behind : StartsInert (Row.text ⟨rest, trailing⟩) := by
      cases rest with
      | nil => exact spaced.trailing (List.cons_ne_nil _ _)
      | cons second rest =>
        obtain ⟨next, other⟩ := second
        obtain ⟨nonempty, starts⟩ := spaced.starts _ List.mem_cons_self
        obtain ⟨c, more, rfl⟩ := List.exists_cons_of_ne_nil nonempty
        rw [Row.text_cons]
        exact starts
    have others : Spaced rest trailing :=
      ⟨fun pair member => spaced.ends pair (List.mem_cons_of_mem _ member),
        fun pair member => spaced.starts pair (List.mem_of_mem_tail member),
        fun _ => spaced.trailing (List.cons_ne_nil _ _)⟩
    rw [Row.text_cons, marks_append_of_ends (spaced.ends _ List.mem_cons_self), marks_append_of_starts behind,
      ih others, List.flatMap_cons]
    simp only [List.append_assoc]

/-- Other words in the same places. -/
theorem Spaced.replace {row : List (Text × Text)} {trailing : Text} (spaced : Spaced row trailing) (words : List Text) :
    Spaced ((row.map Prod.fst).zip words) trailing where
  ends := by
    intro pair member
    obtain ⟨old, listed, same⟩ := List.mem_map.mp (List.of_mem_zip member).1
    exact same ▸ spaced.ends old listed
  starts := by
    intro pair member
    rw [List.tail_zip, ← List.map_tail] at member
    obtain ⟨old, listed, same⟩ := List.mem_map.mp (List.of_mem_zip member).1
    exact same ▸ spaced.starts old listed
  trailing := by
    intro nonempty
    refine spaced.trailing ?_
    rintro rfl
    exact nonempty rfl

section
variable {words : List (Text × Text)} {trailing : Text}
  (gaps : ∀ pair ∈ words, pair.1 ≠ [] ∧ ∀ c ∈ pair.1, isInert c = true) (blanks : ∀ c ∈ trailing, isInert c = true)
include gaps blanks

/-- A row behind a word: what was taken into the gaps leaves blanks at both ends of them. -/
theorem spaced_absorb_of_starts {carried : Text} (starts : StartsInert carried) :
    (∀ pair ∈ (absorb carried words trailing).words, pair.1 ≠ [] ∧ StartsInert pair.1 ∧ EndsInert pair.1) ∧
      StartsInert (absorb carried words trailing).trailing := by
  induction words generalizing carried with
  | nil => exact ⟨nofun, starts.append (startsInert_of_forall blanks)⟩
  | cons first rest ih =>
    obtain ⟨gap, word⟩ := first
    obtain ⟨⟨nonempty, inert⟩, later⟩ := List.forall_mem_cons.mp gaps
    have filled : carried ++ gap ≠ [] := List.append_ne_nil_of_right_ne_nil _ nonempty
    have begins := starts.append (startsInert_of_forall inert)
    rw [absorb]
    split
    · exact ih later (begins.append_of_ne_nil filled word)
    · obtain ⟨others, behind⟩ := ih later startsInert_nil
      have ends := (endsInert_of_forall inert).append_left nonempty carried
      exact ⟨List.forall_mem_cons.mpr ⟨⟨filled, begins, ends⟩, others⟩, behind⟩

theorem spaced_absorb (carried : Text) :
    Spaced (absorb carried words trailing).words (absorb carried words trailing).trailing := by
  induction words generalizing carried with
  | nil => exact spaced_nil _
  | cons first rest ih =>
    obtain ⟨gap, word⟩ := first
    obtain ⟨⟨nonempty, inert⟩, later⟩ := List.forall_mem_cons.mp gaps
    rw [absorb]
    split
    · exact ih later _
    · obtain ⟨others, behind⟩ := spaced_absorb_of_starts later blanks startsInert_nil
      have ends := (endsInert_of_forall inert).append_left nonempty carried
      exact ⟨List.forall_mem_cons.mpr ⟨ends, fun pair member => (others pair member).2.2⟩,
        fun pair member => ⟨(others pair member).1, (others pair member).2.1⟩, fun _ => behind⟩

end

theorem spaced_ofText (text : Text) : Spaced (Row.ofText text).words (Row.ofText text).trailing := by
  obtain ⟨blanks, parted, behind⟩ := (laid_rowFrom 0 text).gaps
  have inert : ∀ c ∈ (rowFrom 0 text).trailing, isInert c = true :=
    fun c member => isInert_of_isBlank (behind c member)
  rw [Row.ofText]
  generalize rowFrom 0 text = found at blanks parted inert
  obtain ⟨words, trailing⟩ := found
  cases words with
  | nil => exact spaced_nil trailing
  | cons first rest =>
    obtain ⟨gap, word⟩ := first
    obtain ⟨here, others⟩ := List.forall_mem_cons.mp blanks
    have gaps : ∀ pair ∈ rest, pair.1 ≠ [] ∧ ∀ c ∈ pair.1, isInert c = true :=
      fun pair member => ⟨parted pair member, fun c inside => isInert_of_isBlank (others pair member c inside)⟩
    simp only [absorb]
    split
    · exact spaced_absorb gaps inert _
    · obtain ⟨later, starts⟩ := spaced_absorb_of_starts gaps inert startsInert_nil
      have ends : EndsInert gap := endsInert_of_forall fun c inside => isInert_of_isBlank (here c inside)
      exact ⟨List.forall_mem_cons.mpr ⟨ends, fun pair member => (later pair member).2.2⟩,
        fun pair member => ⟨(later pair member).1, (later pair member).2.1⟩, fun _ => starts⟩

/-! ## Edges and corners -/

theorem perm_flatMap_gaps (words : List (Text × Text)) :
    (words.flatMap fun pair => marks pair.1 ++ marks pair.2).Perm
      ((words.map Prod.fst).flatMap marks ++ (words.map Prod.snd).flatMap marks) := by
  rw [List.flatMap_map, List.flatMap_map]
  exact (List.flatMap_append_perm _ _ _).symm

/-- Words in another order keep the marks of a row. -/
theorem perm_marks_replaceWords {row : Row} (spaced : Spaced row.words row.trailing) {words : List Text}
    (order : words.Perm row.texts) :
    (marks (row.replaceWords words)).Perm (marks row.text) := by
  have fits : words.length = row.words.length := by
    rw [order.length_eq, Row.texts, List.length_map]
  rw [Row.replaceWords_eq fits, (spaced.replace words).marks_text, show marks row.text = _ from spaced.marks_text]
  refine .append_right _ ((perm_flatMap_gaps _).trans (.trans ?_ (perm_flatMap_gaps _).symm))
  rw [List.map_fst_zip (by simp [fits]), List.map_snd_zip (by simp [fits])]
  exact .append_left _ (order.flatMap_right _)

theorem perm_marks_flipEdges (value : Text) : (marks (flipEdges value)).Perm (marks value) := by
  have spaced := spaced_ofText value
  have whole := Row.text_ofText value
  simp only [flipEdges]
  generalize Row.ofText value = row at spaced whole
  subst whole
  split
  · rename_i top right bottom left four
    refine perm_marks_replaceWords spaced ?_
    rw [four]
    exact .cons top (List.reverse_perm [right, bottom, left])
  · exact .refl _

/-- The marks between the values of a side of three values, which are lost when a fourth one is put in. -/
def droppedMarks (side : Text) : List Mark :=
  match (Row.ofText side).words with
  | [_, (second, _), (third, _)] => marks second ++ marks third
  | _ => []

/-- The marks inside the second value of a side of three values, which is written twice. -/
def doubledMarks (side : Text) : List Mark :=
  match (Row.ofText side).words with
  | [_, (_, second), _] => marks second
  | _ => []

theorem Spaced.extend {gap a gapB b gapC c trailing : Text}
    (spaced : Spaced [(gap, a), (gapB, b), (gapC, c)] trailing) :
    Spaced [(gap, b), ([' '], a), ([' '], b), ([' '], c)] trailing := by
  have blank : ∀ c ∈ [' '], isInert c = true := List.forall_mem_singleton.mpr (isInert_of_isBlank (by decide))
  have starts := startsInert_of_forall blank
  have ends := endsInert_of_forall blank
  have nonempty : [' '] ≠ [] := List.cons_ne_nil _ _
  refine ⟨?_, ?_, fun _ => spaced.trailing (List.cons_ne_nil _ _)⟩
  · have first := spaced.ends _ List.mem_cons_self
    simpa using ⟨first, ends⟩
  · simpa using starts

/-- Marks are kept where the corners of a side are exchanged, except that three values lose what stands between them, and
what stands in the second one is doubled. -/
theorem perm_marks_flipCorners (side : Text) :
    (marks (flipCorners side) ++ droppedMarks side).Perm (marks side ++ doubledMarks side) := by
  have spaced := spaced_ofText side
  have whole := Row.text_ofText side
  simp only [flipCorners, droppedMarks, doubledMarks]
  generalize Row.ofText side = row at spaced whole
  subst whole
  obtain ⟨words, trailing⟩ := row
  rcases words with _ | ⟨⟨gap, a⟩, _ | ⟨⟨gapB, b⟩, _ | ⟨⟨gapC, c⟩, _ | ⟨⟨gapD, d⟩, _ | ⟨more, others⟩⟩⟩⟩⟩
  · exact .refl _
  · exact .refl _
  · exact .append_right [] (perm_marks_replaceWords spaced (.swap a b []))
  · have longer : Row.replaceWords ⟨[(gap, a), (gapB, b), (gapC, c)], trailing⟩ [b, a, b, c] =
        Row.text ⟨[(gap, b), ([' '], a), ([' '], b), ([' '], c)], trailing⟩ := by
      simp [Row.replaceWords, Row.text, Text.join, List.intercalate]
    have before := spaced.marks_text
    have after := spaced.extend.marks_text
    simp only [Row.texts, List.map_cons, List.map_nil, longer, before, after, List.flatMap_cons, List.flatMap_nil]
    rw [show marks [' '] = [] from rfl, List.perm_iff_count]
    intro mark
    simp only [List.count_append, List.count_nil]
    omega
  · have order : [b, a, d, c].Perm [a, b, c, d] := .trans (.swap a b [d, c]) (.cons a (.cons b (.swap c d [])))
    exact .append_right [] (perm_marks_replaceWords spaced order)
  · exact .refl _

theorem doubledMarks_subset (side : Text) : doubledMarks side ⊆ marks side := by
  have spaced := spaced_ofText side
  have whole := Row.text_ofText side
  unfold doubledMarks
  generalize Row.ofText side = row at spaced whole
  subst whole
  obtain ⟨words, trailing⟩ := row
  simp only
  split
  · intro mark member
    rw [spaced.marks_text]
    simp [member]
  · exact List.nil_subset _

/-! ## Sides -/

theorem splitAt_ne_nil (separator : Char) (text : Text) : Text.splitAt separator text ≠ [] := by
  cases text with
  | nil => exact List.cons_ne_nil _ _
  | cons c text =>
    rw [Text.splitAt]
    split
    · exact List.cons_ne_nil _ _
    · split <;> exact List.cons_ne_nil _ _

theorem join_splitAt (separator : Char) (text : Text) : Text.join [separator] (Text.splitAt separator text) = text := by
  induction text with
  | nil => rfl
  | cons c text ih =>
    obtain ⟨part, others, parts⟩ := List.exists_cons_of_ne_nil (splitAt_ne_nil separator text)
    rw [parts] at ih
    rw [Text.splitAt, parts]
    simp only
    split
    · rename_i cut
      rw [Text.join_cons_cons, ih, cut]
      rfl
    · rw [← ih]
      cases others with
      | nil => simp [Text.join, List.intercalate]
      | cons second others => rw [Text.join_cons_cons, Text.join_cons_cons, List.cons_append]

theorem marks_append_slash (text rest : Text) : marks (text ++ '/' :: rest) = marks text ++ marksFrom .slash rest := by
  have next : ∀ reading : Reading, reading.next '/' = .slash := fun _ => rfl
  have none : ∀ reading : Reading, reading.mark? '/' = none := by
    intro reading
    cases reading with
    | idle => rfl
    | slash => rfl
    | number digits => simp [Reading.mark?, placeholderClose]
  rw [marks, marksFrom_append, marksFrom, next, none]
  rfl

theorem head?_join_ne {part : Text} (other : part.head? ≠ some '*') (rest : List Text) :
    (Text.join ['/'] (part :: rest)).head? ≠ some '*' := by
  cases part with
  | cons c part =>
    cases rest with
    | nil => simpa [Text.join, List.intercalate] using other
    | cons second rest =>
      rw [Text.join_cons_cons]
      exact other
  | nil =>
    cases rest with
    | nil => simp [Text.join, List.intercalate]
    | cons second rest =>
      rw [Text.join_cons_cons]
      simp

theorem marks_join {parts : List Text} (starless : ∀ part ∈ parts.tail, part.head? ≠ some '*') :
    marks (Text.join ['/'] parts) = parts.flatMap marks := by
  induction parts with
  | nil => rfl
  | cons first rest ih =>
    cases rest with
    | nil => simp [Text.join, List.intercalate]
    | cons second rest =>
      obtain ⟨here, others⟩ := List.forall_mem_cons.mp starless
      rw [Text.join_cons_cons, marks_append_slash, marksFrom_slash (head?_join_ne here rest), ih others]
      rfl

theorem starless_of_unopened {parts : List Text} (unopened : .opening ∉ marks (Text.join ['/'] parts)) :
    ∀ part ∈ parts.tail, part.head? ≠ some '*' := by
  induction parts with
  | nil => exact nofun
  | cons first rest ih =>
    cases rest with
    | nil => exact nofun
    | cons second rest =>
      rw [Text.join_cons_cons, marks_append_slash, List.mem_append, not_or] at unopened
      have plain := head?_ne_of_unopened unopened.2
      rw [marksFrom_slash plain] at unopened
      refine List.forall_mem_cons.mpr ⟨fun star => plain ?_, ih unopened.2⟩
      obtain ⟨more, rfl⟩ := List.head?_eq_some_iff.mp star
      cases rest with
      | nil => simp [Text.join, List.intercalate]
      | cons third rest => rfl

theorem marks_eq_flatMap_splitAt {value : Text} (unopened : .opening ∉ marks value) :
    marks value = (Text.splitAt '/' value).flatMap marks := by
  conv_lhs => rw [← join_splitAt '/' value]
  refine marks_join (starless_of_unopened ?_)
  rwa [join_splitAt]

/-- The marks of a radius value are kept but for those that its sides drop and double, unless an exchange puts a star right
behind a slash. -/
theorem perm_marks_flipRadius {value : Text} (unopened : .opening ∉ marks value)
    (starless : ∀ side ∈ (Text.splitAt '/' value).tail, (flipCorners side).head? ≠ some '*') :
    (marks (flipRadius value) ++ (Text.splitAt '/' value).flatMap droppedMarks).Perm
      (marks value ++ (Text.splitAt '/' value).flatMap doubledMarks) := by
  have after : marks (flipRadius value) = (Text.splitAt '/' value).flatMap fun side => marks (flipCorners side) := by
    have plain : ∀ part ∈ ((Text.splitAt '/' value).map flipCorners).tail, part.head? ≠ some '*' := by
      intro part member
      rw [← List.map_tail] at member
      obtain ⟨side, listed, rfl⟩ := List.mem_map.mp member
      exact starless side listed
    rw [flipRadius, marks_join plain, List.flatMap_map]
  rw [marks_eq_flatMap_splitAt unopened, after]
  refine (List.flatMap_append_perm _ _ _).trans (.trans ?_ (List.flatMap_append_perm _ _ _).symm)
  exact .flatMap_left _ fun side _ => perm_marks_flipCorners side

theorem marks_flipRadius_subset {value : Text} (unopened : .opening ∉ marks value)
    (starless : ∀ side ∈ (Text.splitAt '/' value).tail, (flipCorners side).head? ≠ some '*') :
    marks (flipRadius value) ⊆ marks value := by
  intro mark member
  have kept := (perm_marks_flipRadius unopened starless).subset (List.mem_append_left _ member)
  rcases List.mem_append.mp kept with same | twice
  · exact same
  · obtain ⟨side, listed, inside⟩ := List.mem_flatMap.mp twice
    rw [marks_eq_flatMap_splitAt unopened]
    exact List.mem_flatMap.mpr ⟨side, listed, doubledMarks_subset side inside⟩

/-! ## Rules -/

/-- A swap of keywords that minds their case. -/
theorem inert_of_isKeyword {swap : Swap}
    (keywords : (!swap.ignoreCase && isKeyword swap.first && isKeyword swap.second) = true) : swap.Inert := by
  simp only [Bool.and_eq_true, Bool.not_eq_true'] at keywords
  exact ⟨keywords.1.1, isInert_of_isKeyword keywords.1.2, isInert_of_isKeyword keywords.2⟩

theorem inert_of_mem_cursorSwaps {swap : Swap} (member : swap ∈ cursorSwaps) : swap.Inert := by
  have keywords : (cursorSwaps.all fun swap =>
      !swap.ignoreCase && isKeyword swap.first && isKeyword swap.second) = true := by decide +kernel
  exact inert_of_isKeyword (List.all_eq_true.mp keywords swap member)

theorem marks_foldl_apply {swaps : List Swap} (inert : ∀ swap ∈ swaps, swap.Inert) (value : Text) :
    marks (swaps.foldl (fun value swap => swap.apply value) value) = marks value := by
  induction swaps generalizing value with
  | nil => rfl
  | cons swap rest ih =>
    obtain ⟨here, others⟩ := List.forall_mem_cons.mp inert
    rw [List.foldl_cons, ih others, here.marks_apply]

/-- Every rule but that for radius values keeps the marks. -/
theorem perm_marks_of_answer? {name value : Text} {answer : Flipped} (found : answer? name value = some answer)
    (other : name ≠ "border-radius".toList) : (marks answer.value).Perm (marks value) := by
  obtain ⟨entry, first, rfl⟩ := Option.map_eq_some_iff.mp found
  have member := List.mem_of_find?_eq_some first
  have fits := List.find?_some first
  simp only [answers, List.mem_cons, List.not_mem_nil, or_false] at member
  rcases member with rfl | rfl | rfl | rfl | rfl | rfl
  · exact .of_eq ((inert_of_isKeyword rfl).marks_apply value)
  · exact .of_eq ((inert_of_isKeyword rfl).marks_apply value)
  · exact perm_marks_flipEdges value
  · exact absurd (List.mem_singleton.mp (Pattern.fits_names_iff.mp fits)) other
  · exact .of_eq (marks_foldl_apply (fun _ => inert_of_mem_cursorSwaps) value)
  · exact .refl _

theorem answer?_radius (value : Text) :
    answer? "border-radius".toList value = some ⟨"border-radius".toList, flipRadius value⟩ := rfl

/-! ## Values -/

/-- The value the rules see: its comments are set aside and its insets exchanged. -/
def workingValue (options : Options) (written : Text) : Text :=
  if options.processEnv then safeAreaInsets.apply (setAside written).1 else (setAside written).1

theorem marks_workingValue (options : Options) (written : Text) :
    marks (workingValue options written) = marks (setAside written).1 := by
  unfold workingValue
  split
  · exact (inert_of_isKeyword rfl).marks_apply _
  · rfl

theorem written_flipped? (options : Options) (decl : Declaration) :
    ((flipped? options decl).getD decl).written =
      ((answer? ((options.alias? decl.property).getD decl.property) (workingValue options decl.written)).map
        fun answer => restore (setAside decl.written).2 answer.value).getD decl.written := by
  simp only [flipped?, ← workingValue.eq_def]
  cases answer? ((options.alias? decl.property).getD decl.property) (workingValue options decl.written) with
  | none => rfl
  | some answer =>
    simp only [Option.map_some, Option.getD_some]
    split
    · rename_i same
      rw [Option.getD_none, same.2]
    · rw [Option.getD_some, Declaration.written_withWritten]

theorem declaration?_flipByRule (options : Options) {run : Run State} {node : Nat} {decl : Declaration}
    (found : run.scene.sheet.declaration? node = some decl) :
    (Run.flipByRule (engine options).registry run node).scene.sheet.declaration? node =
      some ((flipped? run.scene.options decl).getD decl) := by
  have flipped : Run.flipByRule (engine options).registry run node = _ := flipByRule_eq rfl found
  have content := Sheet.content_of_declaration? found
  have inside : node < run.scene.sheet.size := Sheet.lt_size_of_content_ne (by simp [content])
  rw [flipped]
  cases flipped? run.scene.options decl with
  | none => exact found
  | some changed =>
    have set := Sheet.content_setContent inside (.declaration changed)
    simp only [Run.countFlip, Run.setSheet, Sheet.declaration?, set, Option.getD_some]

/-- The comments of a value that marks stand for. -/
def commentsBehind (written : Text) (found : List Mark) : List Text :=
  found.filterMap (Mark.comment? (setAside written).2)

theorem perm_iff_of_perm_append {α : Type} {a b c d : List α} (balance : (a ++ c).Perm (b ++ d)) :
    a.Perm b ↔ c.Perm d := by
  constructor
  · intro same
    exact (List.perm_append_left_iff b).mp ((same.symm.append_right c).trans balance)
  · intro same
    exact (List.perm_append_right_iff d).mp ((same.symm.append_left a).trans balance)

/-- The flip rules keep the comments of a value, each as often as it was there, for all properties but `border-radius`.
There the comments between the values of a side of three are dropped and those inside the second of them are doubled, and
so the comments are kept exactly if these are the same, as long as no exchange puts a star right behind a slash. -/
theorem comments_flipByRule (options : Options) {run : Run State} {node : Nat} {decl : Declaration}
    (found : run.scene.sheet.declaration? node = some decl) (closes : closesComments false decl.written = true)
    (unmarked : placeholderOpen ∉ decl.written) :
    let name := (run.scene.options.alias? decl.property).getD decl.property
    let sides := Text.splitAt '/' (workingValue run.scene.options decl.written)
    let dropped := commentsBehind decl.written (sides.flatMap droppedMarks)
    let doubled := commentsBehind decl.written (sides.flatMap doubledMarks)
    ∃ changed, (Run.flipByRule (engine options).registry run node).scene.sheet.declaration? node = some changed ∧
      (name ≠ "border-radius".toList → (comments changed.written).Perm (comments decl.written)) ∧
      (name = "border-radius".toList → (∀ side ∈ sides.tail, (flipCorners side).head? ≠ some '*') →
        (comments changed.written ++ dropped).Perm (comments decl.written ++ doubled) ∧
        ((comments changed.written).Perm (comments decl.written) ↔ dropped.Perm doubled)) := by
  intro name sides dropped doubled
  have before := comments_eq_filterMap closes unmarked
  have working := marks_workingValue run.scene.options decl.written
  refine ⟨_, declaration?_flipByRule options found, fun other => ?_, fun own starless => ?_⟩
  · rw [written_flipped?]
    cases answered : answer? name (workingValue run.scene.options decl.written) with
    | none => exact .refl _
    | some answer =>
      have kept := perm_marks_of_answer? answered other
      rw [working] at kept
      rw [Option.map_some, Option.getD_some, comments_restore_setAside closes unmarked kept.subset, before]
      exact kept.filterMap _
  · have unopened := unopened_setAside closes unmarked
    rw [← working] at unopened
    have kept := perm_marks_flipRadius unopened starless
    have carried := marks_flipRadius_subset unopened starless
    rw [working] at kept carried
    have answered := answer?_radius (workingValue run.scene.options decl.written)
    have balance : (comments ((flipped? run.scene.options decl).getD decl).written ++ dropped).Perm
        (comments decl.written ++ doubled) := by
      rw [written_flipped?, show (run.scene.options.alias? decl.property).getD decl.property = _ from own, answered,
        Option.map_some, Option.getD_some, comments_restore_setAside closes unmarked carried, before]
      have images := kept.filterMap (Mark.comment? (setAside decl.written).2)
      rw [List.filterMap_append, List.filterMap_append] at images
      exact images
    exact ⟨balance, perm_iff_of_perm_append balance⟩

/-- Two sides of two and of three values with comments next to the values of the first one, which both stay. -/
theorem comments_flipByRule_two_sides :
    ∃ sheet decl changed, Sheet.parse "a{border-radius:1px/*a*/ 2px /*b*// 3px 4px 5px}".toList = .ok sheet ∧
      sheet.declaration? 2 = some decl ∧ closesComments false decl.written = true ∧ placeholderOpen ∉ decl.written ∧
      (Run.flipByRule (engine {}).registry ((engine {}).start sheet) 2).scene.sheet.declaration? 2 = some changed ∧
      (comments changed.written).Perm ["/*a*/".toList, "/*b*/".toList] := by
  let decl : Declaration :=
    { property := "border-radius".toList, between := ":".toList, value := "1px 2px / 3px 4px 5px".toList
      raw := some "1px/*a*/ 2px /*b*// 3px 4px 5px".toList, important := none }
  let sheet : Sheet := ⟨#[{ content := .root, children := [1] },
    { content := .rule "a".toList, parent := some 0, children := [2] },
    { content := .declaration decl, parent := some 1 }]⟩
  have parsed : Sheet.parse "a{border-radius:1px/*a*/ 2px /*b*// 3px 4px 5px}".toList = .ok sheet := by cbv
  have closes : closesComments false decl.written = true := by cbv
  have unmarked : placeholderOpen ∉ decl.written := by decide +kernel
  have working : workingValue {} decl.written = "1px\ue0000\ue001 2px \ue0001\ue001/ 3px 4px 5px".toList := by
    have aside : (setAside decl.written).1 = "1px\ue0000\ue001 2px \ue0001\ue001/ 3px 4px 5px".toList := by cbv
    rw [workingValue, if_pos rfl, aside]
    decide +kernel
  obtain ⟨changed, result, -, radius⟩ := @comments_flipByRule {} ((engine {}).start sheet) 2 decl rfl closes unmarked
  rw [show ((engine {}).start sheet).scene.options = {} from rfl, working] at radius
  have same := (radius rfl (by decide +kernel)).2.mpr (.of_eq rfl)
  have before : comments decl.written = ["/*a*/".toList, "/*b*/".toList] := by cbv
  exact ⟨sheet, decl, changed, parsed, rfl, closes, unmarked, result, before ▸ same⟩

/-- The comment between the first two of three values is gone. -/
theorem comments_flipByRule_three_values :
    ∃ sheet decl changed, Sheet.parse "a{border-radius:1px /*a*/ 2px 3px}".toList = .ok sheet ∧
      sheet.declaration? 2 = some decl ∧ closesComments false decl.written = true ∧ placeholderOpen ∉ decl.written ∧
      (Run.flipByRule (engine {}).registry ((engine {}).start sheet) 2).scene.sheet.declaration? 2 = some changed ∧
      comments decl.written = ["/*a*/".toList] ∧ comments changed.written = [] := by
  let decl : Declaration :=
    { property := "border-radius".toList, between := ":".toList, value := "1px  2px 3px".toList
      raw := some "1px /*a*/ 2px 3px".toList, important := none }
  let sheet : Sheet := ⟨#[{ content := .root, children := [1] },
    { content := .rule "a".toList, parent := some 0, children := [2] },
    { content := .declaration decl, parent := some 1 }]⟩
  have working : workingValue {} decl.written = "1px \ue0000\ue001 2px 3px".toList := by
    have aside : (setAside decl.written).1 = "1px \ue0000\ue001 2px 3px".toList := by cbv
    rw [workingValue, if_pos rfl, aside]
    decide +kernel
  have mirrored : flipRadius "1px \ue0000\ue001 2px 3px".toList = "2px 1px 2px 3px".toList := by decide +kernel
  have written : ((flipped? {} decl).getD decl).written = "2px 1px 2px 3px".toList := by
    have name : (({} : Options).alias? decl.property).getD decl.property = "border-radius".toList := rfl
    rw [written_flipped?, name, answer?_radius, working, mirrored]
    cbv
  have result := @declaration?_flipByRule {} ((engine {}).start sheet) 2 decl rfl
  refine ⟨sheet, decl, _, by cbv, rfl, by cbv, by decide +kernel, result, by cbv, ?_⟩
  rw [show ((engine {}).start sheet).scene.options = {} from rfl, written]
  cbv

end Standard
end StyleFlip
