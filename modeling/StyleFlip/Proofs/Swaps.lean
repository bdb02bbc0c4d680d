import Mathlib.Data.List.Basic
import Mathlib.Tactic.Common
import StyleFlip.Swap

/-!
What a swap does to a text. A text is read from left to right: where a token fits, the first one before the second, the
stretch that it fits is a part of its own, and any other character is passed over (`Swap.Reads`). A text has one such reading,
and the swap writes its parts one after the other, the stretches replaced (`Swap.exists_reads`, `Swap.Reads.applyFrom`). Which
token a stretch was read as is asked once more when it is replaced, by its lower-case form. The tokens are exchanged exactly
where both answers agree (`Swap.Told`), as they always do for a pair of tokens that are told apart (`Swap.TellsApart`).
-/
namespace StyleFlip

theorem Text.afterFolded?_eq_some_iff {head text rest : Text} :
    afterFolded? head text = some rest ↔ ∃ found, text = found ++ rest ∧ found.map fold = head.map fold := by
  induction head generalizing text with
  | nil => simp [afterFolded?]
  | cons h head ih =>
    cases text with
    | nil =>
      refine ⟨(nomatch ·), fun ⟨found, whole, same⟩ => ?_⟩
      rw [(List.append_eq_nil_iff.mp whole.symm).1] at same
      cases same
    | cons c text =>
      rw [afterFolded?]
      constructor
      · intro start
        split at start
        · rename_i letter
          obtain ⟨found, rfl, same⟩ := ih.mp start
          exact ⟨c :: found, rfl, by rw [List.map_cons, List.map_cons, letter, same]⟩
        · cases start
      · rintro ⟨found, whole, same⟩
        cases found with
        | nil => cases same
        | cons d found =>
          obtain ⟨rfl, rfl⟩ := List.cons_eq_cons.mp whole
          obtain ⟨letter, later⟩ := List.cons_eq_cons.mp same
          rw [if_pos letter.symm]
          exact ih.mpr ⟨found, rfl, later⟩

namespace Swap
open Text

/-! ## Readings -/

/-- A stretch of text spells a token if it is the token, or folds like it where case does not matter. -/
def Spells (swap : Swap) (token found : Text) : Prop :=
  if swap.ignoreCase then found.map fold = token.map fold else found = token

instance (swap : Swap) (token found : Text) : Decidable (swap.Spells token found) :=
  inferInstanceAs (Decidable (if swap.ignoreCase then found.map fold = token.map fold else found = token))

/-- A token fits a stretch of text between `previous` and `rest`: the stretch spells it and, unless the swap is greedy, has a
word boundary at either end. -/
structure Fits (swap : Swap) (token : Text) (previous : Option Char) (found rest : Text) : Prop where
  spells : swap.Spells token found
  starts : swap.greedy = false → isBoundary previous found.head? = true
  ends : swap.greedy = false → isBoundary found.getLast? rest.head? = true

/-- A token fits no stretch at the start of a text. -/
def Unfit (swap : Swap) (token : Text) (previous : Option Char) (text : Text) : Prop :=
  ∀ found rest, text = found ++ rest → ¬ swap.Fits token previous found rest

/-- A part of a text that has been read. -/
inductive Part where
  /-- A character that no occurrence covers. -/
  | char (c : Char)
  /-- An occurrence of the first token. -/
  | first (found : Text)
  /-- An occurrence of the second token. -/
  | second (found : Text)
deriving DecidableEq, Repr

def Part.text : Part → Text
  | .char c => [c]
  | .first found => found
  | .second found => found

/-- The parts of a text behind `previous`, read from left to right. At each place the first token is tried before the second
one, and a character is passed over only where neither fits. -/
inductive Reads (swap : Swap) : Option Char → Text → List Part → Prop where
  | done {previous : Option Char} : Reads swap previous [] []
  | char {previous : Option Char} {c : Char} {text : Text} {parts : List Part}
      (notFirst : swap.Unfit swap.first previous (c :: text)) (notSecond : swap.Unfit swap.second previous (c :: text))
      (onward : Reads swap (some c) text parts) : Reads swap previous (c :: text) (.char c :: parts)
  | first {previous : Option Char} {text found rest : Text} {parts : List Part} (whole : text = found ++ rest)
      (fits : swap.Fits swap.first previous found rest) (onward : Reads swap found.getLast? rest parts) :
      Reads swap previous text (.first found :: parts)
  | second {previous : Option Char} {text found rest : Text} {parts : List Part} (whole : text = found ++ rest)
      (notFirst : swap.Unfit swap.first previous text) (fits : swap.Fits swap.second previous found rest)
      (onward : Reads swap found.getLast? rest parts) : Reads swap previous text (.second found :: parts)

variable {swap : Swap} {token found rest text : Text} {previous : Option Char}

theorem Spells.length_eq (spells : swap.Spells token found) : found.length = token.length := by
  unfold Spells at spells
  split at spells
  · simpa using congrArg List.length spells
  · rw [spells]

theorem Spells.ne_nil (spells : swap.Spells token found) (nonempty : token ≠ []) : found ≠ [] := by
  rintro rfl
  exact nonempty (List.length_eq_zero_iff.mp spells.length_eq.symm)

theorem unfit_nil (nonempty : token ≠ []) : swap.Unfit token previous [] := fun _ _ whole fits =>
  fits.spells.ne_nil nonempty (List.append_eq_nil_iff.mp whole.symm).1

/-- A token fits at most one stretch at the start of a text. -/
theorem Spells.unique {other after : Text} (spells : swap.Spells token found) (also : swap.Spells token other)
    (same : found ++ rest = other ++ after) : found = other ∧ rest = after :=
  List.append_inj same (spells.length_eq.trans also.length_eq.symm)

theorem Reads.flatMap_text {parts : List Part} (reads : swap.Reads previous text parts) : parts.flatMap Part.text = text := by
  induction reads with
  | done => rfl
  | char _ _ _ ih => rw [List.flatMap_cons, ih]; rfl
  | first whole _ _ ih => rw [List.flatMap_cons, ih, whole]; rfl
  | second whole _ _ _ ih => rw [List.flatMap_cons, ih, whole]; rfl

theorem afterToken?_eq_some_iff :
    swap.afterToken? token text = some rest ↔ ∃ found, text = found ++ rest ∧ swap.Spells token found := by
  unfold afterToken? Spells
  split
  · exact afterFolded?_eq_some_iff
  · refine ⟨fun start => ⟨token, after?_eq_some start, rfl⟩, ?_⟩
    rintro ⟨found, rfl, rfl⟩
    exact after?_append found rest

theorem tokenAt?_append (spells : swap.Spells token found) (nonempty : found ≠ []) :
    swap.tokenAt? previous (found ++ rest) token =
      if swap.greedy || isBoundary found.getLast? rest.head? then some found else none := by
  have start : swap.afterToken? token (found ++ rest) = some rest := afterToken?_eq_some_iff.mpr ⟨found, rfl, spells⟩
  have last : (found.getLast? <|> previous) = found.getLast? := by
    rw [List.getLast?_eq_some_getLast nonempty]
    rfl
  simp only [tokenAt?, start, ← spells.length_eq, List.take_left, last]

/-- The matcher finds a token at the start of a text exactly where the token fits. -/
theorem tokenAt?_eq_some_iff (nonempty : token ≠ []) :
    (swap.greedy || isBoundary previous text.head?) = true ∧ swap.tokenAt? previous text token = some found ↔
      ∃ rest, text = found ++ rest ∧ swap.Fits token previous found rest := by
  have head : ∀ {found rest : Text}, found ≠ [] → (found ++ rest).head? = found.head? := List.head?_append_of_ne_nil _
  constructor
  · rintro ⟨starts, here⟩
    cases start : swap.afterToken? token text with
    | none => simp [tokenAt?, start] at here
    | some rest =>
      obtain ⟨stretch, rfl, spells⟩ := afterToken?_eq_some_iff.mp start
      have there := spells.ne_nil nonempty
      rw [tokenAt?_append spells there] at here
      obtain ⟨ends, rfl⟩ : (swap.greedy || isBoundary stretch.getLast? rest.head?) = true ∧ stretch = found := by
        simpa using here
      rw [head there] at starts
      exact ⟨rest, rfl, spells, fun bound => by simpa [bound] using starts, fun bound => by simpa [bound] using ends⟩
  · rintro ⟨rest, rfl, fits⟩
    have there := fits.spells.ne_nil nonempty
    rw [tokenAt?_append fits.spells there, head there]
    cases bound : swap.greedy with
    | true => exact ⟨rfl, rfl⟩
    | false => simp [fits.starts bound, fits.ends bound]

theorem tokenAt?_of_unfit (nonempty : token ≠ []) (unfit : swap.Unfit token previous text)
    (starts : (swap.greedy || isBoundary previous text.head?) = true) : swap.tokenAt? previous text token = none := by
  refine Option.eq_none_iff_forall_ne_some.mpr fun found here => ?_
  obtain ⟨rest, whole, fits⟩ := (tokenAt?_eq_some_iff nonempty).mp ⟨starts, here⟩
  exact unfit found rest whole fits

theorem matchAt?_of_first (first : swap.first ≠ []) (fits : swap.Fits swap.first previous found rest) :
    swap.matchAt? previous (found ++ rest) = some found := by
  obtain ⟨starts, here⟩ := (tokenAt?_eq_some_iff first).mpr ⟨rest, rfl, fits⟩
  rw [matchAt?, if_pos starts, here]
  rfl

theorem matchAt?_of_second (first : swap.first ≠ []) (second : swap.second ≠ [])
    (notFirst : swap.Unfit swap.first previous (found ++ rest)) (fits : swap.Fits swap.second previous found rest) :
    swap.matchAt? previous (found ++ rest) = some found := by
  obtain ⟨starts, here⟩ := (tokenAt?_eq_some_iff second).mpr ⟨rest, rfl, fits⟩
  rw [matchAt?, if_pos starts, tokenAt?_of_unfit first notFirst starts, here]
  rfl

theorem matchAt?_of_unfit (first : swap.first ≠ []) (second : swap.second ≠ [])
    (notFirst : swap.Unfit swap.first previous text) (notSecond : swap.Unfit swap.second previous text) :
    swap.matchAt? previous text = none := by
  unfold matchAt?
  split
  · rename_i starts
    rw [tokenAt?_of_unfit first notFirst starts, tokenAt?_of_unfit second notSecond starts]
    rfl
  · rfl

/-! ## What is written -/

/-- Whether the lower-case form of a stretch gives the same answer as its reading. -/
def Told (swap : Swap) : Part → Prop
  | .char _ => True
  | .first found => lower found = lower swap.first
  | .second found => lower found ≠ lower swap.first

instance (swap : Swap) : DecidablePred swap.Told
  | .char _ => .isTrue trivial
  | .first found => inferInstanceAs (Decidable (lower found = lower swap.first))
  | .second found => inferInstanceAs (Decidable (lower found ≠ lower swap.first))

/-- What stands in the place of a part if the tokens are exchanged. -/
def exchanged (swap : Swap) : Part → Text
  | .char c => [c]
  | .first _ => swap.second
  | .second _ => swap.first

/-- What stands in the place of a part if each token is kept, as it is spelled in the swap. -/
def kept (swap : Swap) : Part → Text
  | .char c => [c]
  | .first _ => swap.first
  | .second _ => swap.second

/-- What is written for a part: an occurrence of a token becomes the other token if its lower-case form tells which token it
is, and else it is taken for the other token and becomes its own one. -/
def put (swap : Swap) (part : Part) : Text := if swap.Told part then swap.exchanged part else swap.kept part

theorem put_first (swap : Swap) (found : Text) : swap.put (.first found) = swap.replacement found := rfl

theorem put_second (swap : Swap) (found : Text) : swap.put (.second found) = swap.replacement found := by
  by_cases told : lower found = lower swap.first <;> simp [put, exchanged, kept, Told, replacement, told]

/-- The characters of an occurrence are passed over. -/
theorem applyFrom_pending (nonempty : found ≠ []) (previous : Option Char) (adjacent : Bool) :
    swap.applyFrom previous found.length adjacent (found ++ rest) = swap.applyFrom found.getLast? 0 true rest := by
  induction found generalizing previous adjacent with
  | nil => exact absurd rfl nonempty
  | cons c more ih =>
    cases more with
    | nil => rfl
    | cons d more => exact ih (List.cons_ne_nil d more) (some c) false

theorem applyFrom_of_some (nonempty : found ≠ []) (adjacent : Bool)
    (matched : swap.matchAt? previous (found ++ rest) = some found) :
    swap.applyFrom previous 0 adjacent (found ++ rest) =
      swap.replacement found ++ swap.applyFrom found.getLast? 0 true rest := by
  cases found with
  | nil => exact absurd rfl nonempty
  | cons c more =>
    rw [List.cons_append] at matched
    rw [List.cons_append, applyFrom]
    simp only [matched]
    cases more with
    | nil => rfl
    | cons d more => exact congrArg _ (applyFrom_pending (List.cons_ne_nil d more) (some c) false)

section
variable {parts : List Part} (first : swap.first ≠ []) (second : swap.second ≠ [])
include first second

/-- The parts of a text are written one after the other. -/
theorem Reads.applyFrom (reads : swap.Reads previous text parts) (adjacent : Bool) :
    swap.applyFrom previous 0 adjacent text = parts.flatMap swap.put := by
  induction reads generalizing adjacent with
  | done =>
    rw [Swap.applyFrom, matchAt?_of_unfit first second (unfit_nil first) (unfit_nil second)]
    rfl
  | char notFirst notSecond onward ih =>
    rw [Swap.applyFrom]
    simp only [matchAt?_of_unfit first second notFirst notSecond, ih false]
    rfl
  | first whole fits onward ih =>
    rw [whole, applyFrom_of_some (fits.spells.ne_nil first) adjacent (matchAt?_of_first first fits), ih true,
      List.flatMap_cons, put_first]
  | second whole notFirst fits onward ih =>
    subst whole
    rw [applyFrom_of_some (fits.spells.ne_nil second) adjacent (matchAt?_of_second first second notFirst fits), ih true,
      List.flatMap_cons, put_second]

theorem exists_reads (previous : Option Char) (text : Text) : ∃ parts, swap.Reads previous text parts := by
  by_cases notFirst : swap.Unfit swap.first previous text
  · by_cases notSecond : swap.Unfit swap.second previous text
    · cases text with
      | nil => exact ⟨[], .done⟩
      | cons c text =>
        obtain ⟨parts, onward⟩ := exists_reads (some c) text
        exact ⟨_, .char notFirst notSecond onward⟩
    · simp only [Unfit, not_forall, not_not] at notSecond
      obtain ⟨found, rest, whole, fits⟩ := notSecond
      have := fits.spells.ne_nil second
      obtain ⟨parts, onward⟩ := exists_reads found.getLast? rest
      exact ⟨_, .second whole notFirst fits onward⟩
  · simp only [Unfit, not_forall, not_not] at notFirst
    obtain ⟨found, rest, whole, fits⟩ := notFirst
    have := fits.spells.ne_nil first
    obtain ⟨parts, onward⟩ := exists_reads found.getLast? rest
    exact ⟨_, .first whole fits onward⟩
termination_by text.length
decreasing_by
  · simp
  · simpa [whole, List.length_pos_iff] using this
  · simpa [whole, List.length_pos_iff] using this

/-- A text has one reading. -/
theorem Reads.unique {others : List Part} (reads : swap.Reads previous text parts) (also : swap.Reads previous text others) :
    parts = others := by
  induction reads generalizing others with
  | done =>
    cases also with
    | done => rfl
    | first whole fits => exact absurd fits (unfit_nil first _ _ whole)
    | second whole _ fits => exact absurd fits (unfit_nil second _ _ whole)
  | char notFirst notSecond _ ih =>
    cases also with
    | char _ _ onward => rw [ih onward]
    | first whole fits => exact absurd fits (notFirst _ _ whole)
    | second whole _ fits => exact absurd fits (notSecond _ _ whole)
  | first whole fits _ ih =>
    cases also with
    | done => exact absurd fits (unfit_nil first _ _ whole)
    | char notFirst => exact absurd fits (notFirst _ _ whole)
    | first whole' fits' onward =>
      obtain ⟨rfl, rfl⟩ := fits.spells.unique fits'.spells (whole.symm.trans whole')
      rw [ih onward]
    | second _ notFirst => exact absurd fits (notFirst _ _ whole)
  | second whole notFirst fits _ ih =>
    cases also with
    | done => exact absurd fits (unfit_nil second _ _ whole)
    | char _ notSecond => exact absurd fits (notSecond _ _ whole)
    | first whole' fits' => exact absurd fits' (notFirst _ _ whole')
    | second whole' _ fits' onward =>
      obtain ⟨rfl, rfl⟩ := fits.spells.unique fits'.spells (whole.symm.trans whole')
      rw [ih onward]

end
end Swap

namespace Text

/-! ## Case of ASCII letters -/

theorem toNat_ofNat {n : Nat} (valid : n.isValidChar) : (Char.ofNat n).toNat = n := by
  rw [Char.ofNat, dif_pos valid]
  rfl

/-- The run that sends the Kelvin sign to `k`. -/
def kelvinRun : CaseRun := (0x212a, 0x212a, 1, 0x6b)

/-- The run that sends the long s to `s`. -/
def longRun : CaseRun := (0x17f, 0x17f, 1, 0x73)

/-- A run all of whose code points go to characters above ASCII. -/
def leadsAbove (run : CaseRun) : Bool :=
  0x80 ≤ run.2.2.2 && (run.2.2.2 + (run.2.1 - run.1) < 0xd800 ||
    0xdfff < run.2.2.2 && run.2.2.2 + (run.2.1 - run.1) < 0x110000)

theorem leadsAbove_foldRuns : ∀ run ∈ foldRuns, leadsAbove run = true ∨ run = kelvinRun ∨ run = longRun := by
  decide +kernel

theorem leadsAbove_lowerRuns : ∀ run ∈ lowerRuns, leadsAbove run = true ∨ run = kelvinRun := by
  decide +kernel

/-- A character above ASCII is sent to one unless a run says otherwise that covers it. -/
theorem shifted_cases (runs : List CaseRun) {c : Char} (above : ¬ c.toNat < 0x80) :
    ¬ (Char.ofNat (shifted runs c.toNat)).toNat < 0x80 ∨
      ∃ run ∈ runs, leadsAbove run = false ∧ run.1 ≤ c.toNat ∧ c.toNat ≤ run.2.1 := by
  unfold shifted
  split
  · rename_i first last step target covers
    have member := List.mem_of_find?_eq_some covers
    have inside := List.find?_some covers
    simp only [Bool.and_eq_true, decide_eq_true_eq] at inside
    cases leads : leadsAbove (first, last, step, target) with
    | false => exact .inr ⟨_, member, leads, inside.1.1, inside.1.2⟩
    | true =>
      left
      simp only [leadsAbove, Bool.and_eq_true, Bool.or_eq_true, decide_eq_true_eq] at leads
      have valid : (target + (c.toNat - first)).isValidChar := by
        unfold Nat.isValidChar
        omega
      rw [toNat_ofNat valid]
      omega
  · rw [Char.ofNat_toNat]
    exact .inl above

/-- Only two characters above ASCII fold to one of ASCII. -/
theorem eq_of_fold_ascii {c : Char} (above : ¬ c.toNat < 0x80) (ascii : (fold c).toNat < 0x80) :
    c = Char.ofNat 0x212a ∨ c = Char.ofNat 0x17f := by
  rw [fold, if_neg above] at ascii
  obtain high | ⟨run, member, leads, low, high⟩ := shifted_cases foldRuns above
  · exact absurd ascii high
  · rw [← Char.ofNat_toNat c]
    obtain other | rfl | rfl := leadsAbove_foldRuns run member
    · rw [other] at leads
      cases leads
    · exact .inl (congrArg _ (Nat.le_antisymm high low))
    · exact .inr (congrArg _ (Nat.le_antisymm high low))

/-- Only one character above ASCII has its lower-case form in ASCII. -/
theorem eq_of_lowerIn_ascii {before following : Text} {c : Char} (above : ¬ c.toNat < 0x80)
    (ascii : ∀ d ∈ lowerIn before c following, d.toNat < 0x80) : c = Char.ofNat 0x212a := by
  rw [lowerIn, if_neg above] at ascii
  split at ascii
  · exact absurd (ascii (Char.ofNat 0x307) (by simp)) (by decide)
  split at ascii
  · have := ascii _ (List.mem_singleton_self _)
    split at this
    · exact absurd this (by decide)
    · exact absurd this (by decide)
  obtain high | ⟨run, member, leads, low, high⟩ := shifted_cases lowerRuns above
  · exact absurd (ascii _ (List.mem_singleton_self _)) high
  · obtain other | rfl := leadsAbove_lowerRuns run member
    · rw [other] at leads
      cases leads
    · rw [← Char.ofNat_toNat c]
      exact congrArg _ (Nat.le_antisymm high low)

theorem lowerIn_of_lt (before following : Text) {c : Char} (low : c.toNat < 0x80) : lowerIn before c following = [fold c] := by
  rw [lowerIn, fold, if_pos low, if_pos low]

theorem lowerIn_kelvin (before following : Text) :
    lowerIn before (Char.ofNat 0x212a) following = [fold (Char.ofNat 0x212a)] := by
  have same : shifted lowerRuns 0x212a = shifted foldRuns 0x212a := by decide +kernel
  exact congrArg (fun point => [Char.ofNat point]) same

/-- Characters that fold to an ASCII character, the letter s apart, to which a character with another lower-case form folds. -/
def foldsPlainly (c : Char) : Bool := (fold c).toNat < 0x80 && fold c != 's'

theorem lowerIn_of_foldsPlainly (before following : Text) {c : Char} (plain : foldsPlainly c = true) :
    lowerIn before c following = [fold c] := by
  obtain ⟨ascii, other⟩ : (fold c).toNat < 0x80 ∧ fold c ≠ 's' := by simpa [foldsPlainly] using plain
  by_cases low : c.toNat < 0x80
  · exact lowerIn_of_lt before following low
  · rcases eq_of_fold_ascii low ascii with rfl | rfl
    · exact lowerIn_kelvin before following
    · exact absurd (by decide +kernel) other

theorem lowerIn_of_ascii {before following : Text} {c : Char} (ascii : ∀ d ∈ lowerIn before c following, d.toNat < 0x80) :
    lowerIn before c following = [fold c] := by
  by_cases low : c.toNat < 0x80
  · exact lowerIn_of_lt before following low
  · rw [eq_of_lowerIn_ascii low ascii]
    exact lowerIn_kelvin before following

theorem lower_of_foldsPlainly {text : Text} (plain : ∀ c ∈ text, foldsPlainly c = true) : lower text = text.map fold := by
  suffices lowerAfter : ∀ before, lowerAfter before text = text.map fold from lowerAfter []
  induction text with
  | nil => exact fun _ => rfl
  | cons c rest ih =>
    intro before
    rw [lowerAfter, lowerIn_of_foldsPlainly before rest (plain c List.mem_cons_self),
      ih fun d member => plain d (List.mem_cons_of_mem c member)]
    rfl

theorem lower_of_ascii {text : Text} (ascii : ∀ c ∈ lower text, c.toNat < 0x80) : lower text = text.map fold := by
  suffices lowerAfter : ∀ before, (∀ c ∈ lowerAfter before text, c.toNat < 0x80) → lowerAfter before text = text.map fold from
    lowerAfter [] ascii
  clear ascii
  induction text with
  | nil => exact fun _ _ => rfl
  | cons c rest ih =>
    intro before ascii
    rw [lowerAfter] at ascii ⊢
    rw [lowerIn_of_ascii fun d member => ascii d (List.mem_append_left _ member),
      ih (c :: before) fun d member => ascii d (List.mem_append_right _ member)]
    rfl

end Text

namespace Swap
open Text

/-- A pair of tokens that lower-case forms tell apart: every spelling of the first token has its lower-case form, and no
spelling of the second one has it that is not one of the first. -/
structure TellsApart (swap : Swap) : Prop where
  first : ∀ found, swap.Spells swap.first found → lower found = lower swap.first
  second : ∀ found, swap.Spells swap.second found → ¬ swap.Spells swap.first found → lower found ≠ lower swap.first

/-- Tokens that must be spelled exactly are told apart if they differ in more than case. -/
theorem tellsApart_of_exact {swap : Swap} (exact : swap.ignoreCase = false)
    (apart : lower swap.first = lower swap.second → swap.first = swap.second) : swap.TellsApart := by
  have spells : ∀ {token found}, swap.Spells token found ↔ found = token := by simp [Spells, exact]
  refine ⟨fun found same => by rw [spells.mp same], fun found same other equal => other ?_⟩
  rw [spells] at same ⊢
  rw [same] at equal ⊢
  exact (apart equal.symm).symm

/-- Where case does not matter, a first token of plain characters is told apart from any other. -/
theorem tellsApart_of_foldsPlainly {swap : Swap} (anyCase : swap.ignoreCase = true)
    (plain : swap.first.all foldsPlainly = true) : swap.TellsApart := by
  have spells : ∀ {token found}, swap.Spells token found ↔ found.map fold = token.map fold := by simp [Spells, anyCase]
  have plain : ∀ c ∈ swap.first, foldsPlainly c = true := List.all_eq_true.mp plain
  have lowered : lower swap.first = swap.first.map fold := lower_of_foldsPlainly plain
  constructor
  · intro found same
    rw [lowered, ← spells.mp same]
    refine lower_of_foldsPlainly fun c member => ?_
    obtain ⟨d, inside, equal⟩ : ∃ d ∈ swap.first, fold d = fold c :=
      List.mem_map.mp (spells.mp same ▸ List.mem_map_of_mem member)
    rw [foldsPlainly, ← equal]
    exact plain d inside
  · intro found _ other equal
    refine other (spells.mpr ?_)
    rw [← lowered, ← equal]
    refine (lower_of_ascii fun c member => ?_).symm
    rw [equal, lowered] at member
    obtain ⟨d, inside, rfl⟩ := List.mem_map.mp member
    have ascii := plain d inside
    simp only [foldsPlainly, Bool.and_eq_true, decide_eq_true_eq] at ascii
    exact ascii.1

theorem Reads.told {swap : Swap} (apart : swap.TellsApart) {previous : Option Char} {text : Text} {parts : List Part}
    (reads : swap.Reads previous text parts) : ∀ part ∈ parts, swap.Told part := by
  induction reads with
  | done => exact List.forall_mem_nil _
  | char _ _ _ ih => exact List.forall_mem_cons.mpr ⟨trivial, ih⟩
  | first _ fits _ ih => exact List.forall_mem_cons.mpr ⟨apart.first _ fits.spells, ih⟩
  | second whole notFirst fits _ ih =>
    -- Both tokens would stand between the same boundaries.
    have other : ¬ swap.Spells swap.first _ := fun same => notFirst _ _ whole ⟨same, fits.starts, fits.ends⟩
    exact List.forall_mem_cons.mpr ⟨apart.second _ fits.spells other, ih⟩

theorem Reads.apply {swap : Swap} (first : swap.first ≠ []) (second : swap.second ≠ []) (apart : swap.TellsApart)
    {text : Text} {parts : List Part} (reads : swap.Reads none text parts) :
    swap.apply text = parts.flatMap swap.exchanged := by
  rw [Swap.apply, reads.applyFrom first second false]
  exact List.flatMap_congr fun part member => if_pos (reads.told apart part member)

/-- A swap reads a text in the one way there is and writes its parts one after the other: other characters as they are, an
occurrence whose token its lower-case form tells as the other token, and any other occurrence as its own token. So if the
tokens are told apart in every spelling, each becomes the other one throughout and nothing else changes. -/
theorem apply_exchanges (swap : Swap) (first : swap.first ≠ []) (second : swap.second ≠ []) (text : Text) :
    ∃ parts : List Part, (∀ others, swap.Reads none text others ↔ others = parts) ∧ parts.flatMap Part.text = text ∧
      swap.apply text = parts.flatMap swap.put ∧
      (swap.TellsApart → swap.apply text = parts.flatMap swap.exchanged) := by
  obtain ⟨parts, reads⟩ := exists_reads first second none text
  exact ⟨parts, fun others => ⟨fun also => also.unique first second reads, fun same => same ▸ reads⟩, reads.flatMap_text,
    reads.applyFrom first second false, fun apart => reads.apply first second apart⟩

theorem apply_exchanges_anyCase :
    let swap : Swap := { first := "ltr".toList, second := "rtl".toList, ignoreCase := true }
    let text := "LTR-Rtl ltrs".toList
    swap.first ≠ [] ∧ swap.second ≠ [] ∧ swap.TellsApart ∧
      (∃ parts : List Part, (∀ others, swap.Reads none text others ↔ others = parts) ∧ parts.flatMap Part.text = text ∧
        swap.apply text = parts.flatMap swap.put ∧
        (swap.TellsApart → swap.apply text = parts.flatMap swap.exchanged)) ∧
      swap.apply text = "rtl-ltr ltrs".toList :=
  ⟨by decide, by decide, tellsApart_of_foldsPlainly rfl (by decide), apply_exchanges _ (by decide) (by decide) _, by decide +kernel⟩

/-- Tokens that differ in case alone are not exchanged: the second one is written where it stood. Nor is a first token whose
spelling has a lower-case form of its own. -/
theorem apply_keeps :
    (let swap : Swap := { first := "left".toList, second := "Left".toList }
     swap.Reads none "Left".toList [.second "Left".toList] ∧ [Part.second "Left".toList].flatMap swap.exchanged = "left".toList ∧
       swap.apply "Left".toList = "Left".toList) ∧
    (let swap : Swap := { first := "s".toList, second := "t".toList, ignoreCase := true }
     swap.Reads none ['ſ'] [.first ['ſ']] ∧ [Part.first ['ſ']].flatMap swap.exchanged = "t".toList ∧
       swap.apply ['ſ'] = "s".toList) := by
  refine ⟨⟨.second rfl ?_ ⟨rfl, fun _ => by decide, fun _ => by decide⟩ .done, rfl, by decide +kernel⟩,
    ⟨.first rfl ⟨by decide +kernel, fun _ => by decide +kernel, fun _ => by decide +kernel⟩ .done, rfl, by decide +kernel⟩⟩
  rintro found rest whole ⟨spells, _, _⟩
  cases (show found = "left".toList from spells)
  cases whole

end Swap
end StyleFlip
