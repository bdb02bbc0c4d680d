import StyleFlip.Proofs.WordSwaps
import StyleFlip.Standard.Basic

/-!
Flip rules that exchange names. The rules for directions and sides swap two words, so they undo themselves. A resize cursor is a
word in front of `-resize`: a swap of two such names turns those words of a text that stand in front of `-resize` and no others
(`Swap.OfHeads.runs_apply`), and several swaps one after the other turn each of them as one table does
(`runs_applySwaps_of_heads`), whatever their order. A property that names a side has it as one of its parts between hyphens
(`fits_sidedNames_iff`), and a swap of two words turns that part (`HasPart.apply`). Main statement:
`keyword_rules_undo_themselves`.
-/
namespace StyleFlip

namespace Text

/-! ## Words in front of `-resize` -/

/-- Whether a text starts with `-resize` and has a word boundary behind it. -/
def startsResize (text : Text) : Bool := (after? "-resize".toList text).any fun rest => !startsWordy rest

/-- The runs of a text with those in front of `-resize` changed. -/
def turnResizes (turn : Text → Text) : List Text → List Text
  | [] => []
  | run :: rest => (if startsResize rest.flatten then turn run else run) :: turnResizes turn rest

theorem startsResize_iff {text : Text} :
    startsResize text = true ↔ ∃ rest, text = "-resize".toList ++ rest ∧ startsWordy rest = false := by
  rw [startsResize, Option.any_eq_true]
  constructor
  · rintro ⟨rest, found, ends⟩
    exact ⟨rest, after?_eq_some found, by simpa using ends⟩
  · rintro ⟨rest, rfl, ends⟩
    exact ⟨rest, after?_append _ rest, by simpa using ends⟩

theorem wordy_resize : Wordy "resize".toList := by decide

theorem Alternating.tail {run : Text} {list : List Text} (alternating : Alternating (run :: list)) : Alternating list :=
  ⟨(List.forall_mem_cons.mp alternating.nonempty).2, (List.forall_mem_cons.mp alternating.uniform).2,
    (List.isChain_cons.mp alternating.turns).2⟩

/-- A run of one sort may be put in front of a text that starts with the other sort. -/
theorem Alternating.cons {run : Text} {list : List Text} {kind : Bool} (alternating : Alternating list) (nonempty : run ≠ [])
    (uniform : ∀ c ∈ run, isWord c = kind) (differs : list ≠ [] → startsWordy list.flatten ≠ kind) :
    Alternating (run :: list) := by
  have starts : startsWordy run = kind := startsWordy_of_uniform nonempty uniform
  refine ⟨List.forall_mem_cons.mpr ⟨nonempty, alternating.nonempty⟩,
    List.forall_mem_cons.mpr ⟨starts.symm ▸ uniform, alternating.uniform⟩, List.isChain_cons.mpr ⟨?_, alternating.turns⟩⟩
  intro next member
  cases list with
  | nil => cases member
  | cons first more =>
    cases member
    have filled := alternating.nonempty next List.mem_cons_self
    have other := differs (List.cons_ne_nil _ _)
    rw [List.flatten_cons, startsWordy_append filled] at other
    rw [starts]
    exact other.symm

/-- Where `-resize` stands behind a run, it makes up two runs of its own. -/
theorem Alternating.startsResize_iff {list : List Text} (alternating : Alternating list) :
    startsResize list.flatten = true ↔ ∃ more, list = ['-'] :: "resize".toList :: more := by
  rw [Text.startsResize_iff]
  constructor
  · rintro ⟨rest, whole, ends⟩
    refine ⟨runs rest, ?_⟩
    have word : Alternating ("resize".toList :: runs rest) := by
      refine (alternating_runs rest).cons wordy_resize.nonempty wordy_resize.chars fun _ => ?_
      rw [flatten_runs, ends]
      exact Bool.false_ne_true
    have both : Alternating (['-'] :: "resize".toList :: runs rest) := by
      refine word.cons (List.cons_ne_nil _ _) (List.forall_mem_singleton.mpr (by decide : isWord '-' = false)) fun _ => ?_
      rw [List.flatten_cons, startsWordy_append wordy_resize.nonempty, wordy_resize.startsWordy]
      decide
    rw [← alternating.runs_flatten, whole, runs_eq_iff]
    refine ⟨?_, both⟩
    rw [List.flatten_cons, List.flatten_cons, flatten_runs]
    rfl
  · rintro ⟨more, rfl⟩
    exact ⟨more.flatten, rfl, alternating.tail.startsWordy_rest wordy_resize.startsWordy⟩

theorem turnResizes_of_fixed {turn : Text → Text} (fixed : ∀ run, turn run = run) (list : List Text) :
    turnResizes turn list = list := by
  induction list with
  | nil => rfl
  | cons run rest ih => rw [turnResizes, ih, fixed, ite_self]

/-- A change of words that neither makes nor touches the word `resize`. -/
structure TurnsHeads (turn : Text → Text) : Prop where
  words : ∀ run, turn run = run ∨ Wordy run ∧ Wordy (turn run)
  resize : ∀ run, turn run = "resize".toList ↔ run = "resize".toList

theorem Alternating.turnResizes {turn : Text → Text} (heads : TurnsHeads turn) {list : List Text}
    (alternating : Alternating list) : Alternating (turnResizes turn list) := by
  refine alternating.of_forall₂ ?_
  clear alternating
  induction list with
  | nil => exact .nil
  | cons run rest ih =>
    refine .cons ?_ ih
    split
    · exact heads.words run
    · exact .inl rfl

/-- The two runs of `-resize` stay. -/
theorem TurnsHeads.turnResizes_resize {turn : Text → Text} (heads : TurnsHeads turn) (more : List Text) :
    Text.turnResizes turn (['-'] :: "resize".toList :: more) = ['-'] :: "resize".toList :: Text.turnResizes turn more := by
  have dash : startsResize ("resize".toList :: more).flatten = false := rfl
  have word : (if startsResize more.flatten then turn "resize".toList else "resize".toList) = "resize".toList := by
    rw [(heads.resize _).mpr rfl, ite_self]
  rw [Text.turnResizes, Text.turnResizes, dash, word]
  rfl

/-- What stands behind a run counts as `-resize` before a change of words if and only if it does so afterwards. -/
theorem startsResize_turnResizes {turn : Text → Text} (heads : TurnsHeads turn) {list : List Text}
    (alternating : Alternating list) : startsResize (turnResizes turn list).flatten = startsResize list.flatten := by
  rw [Bool.eq_iff_iff, (alternating.turnResizes heads).startsResize_iff, alternating.startsResize_iff]
  constructor
  · rintro ⟨more, changed⟩
    match list, changed with
    | first :: second :: rest, changed =>
      obtain ⟨dash, changed⟩ := List.cons_eq_cons.mp changed
      obtain ⟨word, _⟩ := List.cons_eq_cons.mp changed
      -- A change puts words in the place of words, and `resize` only in its own.
      have dash : first = ['-'] := by
        split at dash
        · rcases heads.words first with same | ⟨_, other⟩
          · exact same.symm.trans dash
          · rw [dash] at other
            exact absurd (other.chars '-' List.mem_cons_self) (by decide)
        · exact dash
      have word : second = "resize".toList := by
        split at word
        · exact (heads.resize second).mp word
        · exact word
      exact ⟨rest, by rw [dash, word]⟩
  · rintro ⟨more, rfl⟩
    exact ⟨Text.turnResizes turn more, heads.turnResizes_resize more⟩

theorem turnResizes_turnResizes {turn : Text → Text} (heads : TurnsHeads turn) (other : Text → Text) {list : List Text}
    (alternating : Alternating list) :
    turnResizes other (turnResizes turn list) = turnResizes (fun run => other (turn run)) list := by
  induction list with
  | nil => rfl
  | cons run rest ih =>
    rw [turnResizes, turnResizes, turnResizes, startsResize_turnResizes heads alternating.tail, ih alternating.tail]
    split <;> rfl

/-! ## Texts next to each other -/

theorem Wordy.runs {word : Text} (wordy : Wordy word) : runs word = [word] := by
  have alone : Alternating ([] : List Text) := (runs_eq_iff.mp (rfl : Text.runs [] = [])).2
  refine runs_eq_iff.mpr ⟨by simp, alone.cons wordy.nonempty wordy.chars fun filled => absurd rfl filled⟩

theorem head?_of_runs {text run : Text} (first : run ∈ (runs text).head?) : text.head? = run.head? := by
  obtain ⟨rest, same⟩ := List.head?_eq_some_iff.mp first
  have nonempty := (alternating_runs text).nonempty run (same ▸ List.mem_cons_self)
  rw [← flatten_runs text, same, List.flatten_cons, List.head?_append_of_ne_nil _ nonempty]

theorem getLast?_of_runs {text run : Text} (last : run ∈ (runs text).getLast?) : text.getLast? = run.getLast? := by
  obtain ⟨front, same⟩ := List.getLast?_eq_some_iff.mp last
  have nonempty := (alternating_runs text).nonempty run (same ▸ by simp)
  rw [← flatten_runs text, same, List.flatten_append, List.flatten_singleton, List.getLast?_append_of_ne_nil _ nonempty]

/-- Where a word starts or ends, the runs of a text may be found on either side. -/
theorem runs_append {text rest : Text} (boundary : ∀ c ∈ text.getLast?, ∀ d ∈ rest.head?, isWord c ≠ isWord d) :
    runs (text ++ rest) = runs text ++ runs rest := by
  have front := alternating_runs text
  have back := alternating_runs rest
  refine runs_eq_iff.mpr ⟨by rw [List.flatten_append, flatten_runs, flatten_runs],
    List.forall_mem_append.mpr ⟨front.nonempty, back.nonempty⟩, List.forall_mem_append.mpr ⟨front.uniform, back.uniform⟩,
    List.isChain_append.mpr ⟨front.turns, back.turns, fun run last next first => ?_⟩⟩
  have filled := front.nonempty run (List.mem_of_mem_getLast? last)
  have filled' := back.nonempty next (List.mem_of_mem_head? first)
  have ends : text.getLast? = some (run.getLast filled) := (getLast?_of_runs last).trans (List.getLast?_eq_some_getLast filled)
  have starts : rest.head? = some (next.head filled') := (head?_of_runs first).trans (List.head?_eq_some_head filled')
  have differ := boundary _ ends _ starts
  rwa [front.uniform run (List.mem_of_mem_getLast? last) _ (List.getLast_mem filled),
    back.uniform next (List.mem_of_mem_head? first) _ (List.head_mem filled')] at differ

end Text

/-! ## Swaps of resize cursors -/

namespace Swap
open Text

/-- The swap of the words with which two tokens start. -/
def heads (swap : Swap) : Swap := { swap with first := swap.first.takeWhile isWord, second := swap.second.takeWhile isWord }

/-- A swap of two resize cursors, each a word in front of `-resize`. -/
@[mk_iff]
structure OfHeads (swap : Swap) : Prop where
  words : swap.heads.OfWords
  first : swap.first = swap.heads.first ++ "-resize".toList
  second : swap.second = swap.heads.second ++ "-resize".toList
  firstOther : swap.heads.first ≠ "resize".toList
  secondOther : swap.heads.second ≠ "resize".toList
  apart : lower swap.first ≠ lower swap.second

instance (swap : Swap) : Decidable swap.OfHeads := decidable_of_iff' _ (ofHeads_iff swap)

variable {swap : Swap}

theorem turnsHeads_turn (words : swap.OfWords) (first : swap.first ≠ "resize".toList) (second : swap.second ≠ "resize".toList) :
    TurnsHeads swap.turn := by
  constructor
  · exact words.turn_cases
  · intro run
    unfold turn
    split
    · rename_i same
      exact iff_of_false second (same ▸ first)
    · split
      · rename_i same
        exact iff_of_false first (same ▸ second)
      · rfl

theorem OfHeads.turnsHeads (heads : swap.OfHeads) : TurnsHeads swap.heads.turn :=
  turnsHeads_turn heads.words heads.firstOther heads.secondOther

theorem OfHeads.anchored (heads : swap.OfHeads) : swap.Anchored where
  exact := heads.words.exact
  bounded := heads.words.bounded
  first := by rw [heads.first, startsWordy_append heads.words.first.nonempty, heads.words.first.startsWordy]
  second := by rw [heads.second, startsWordy_append heads.words.second.nonempty, heads.words.second.startsWordy]

/-- A token fits a run with `-resize` behind it if the run is its head. -/
theorem Anchored.fits_head (anchored : swap.Anchored) {head rest : Text} {previous : Option Char} (word : Wordy head)
    (starts : previous.any isWord = false) (ends : startsWordy rest = false) :
    swap.Fits (head ++ "-resize".toList) previous (head ++ "-resize".toList) rest := by
  have first : (head ++ "-resize".toList).head?.any isWord = true := (startsWordy_append word.nonempty _).trans word.startsWordy
  have last : (head ++ "-resize".toList).getLast? = some 'e' := List.getLast?_append_of_ne_nil _ (by decide)
  have rest : rest.head?.any isWord = false := ends
  refine ⟨anchored.spells_iff.mpr rfl, fun _ => ?_, fun _ => ?_⟩
  · rw [isBoundary, starts, first]
    rfl
  · rw [isBoundary, last, rest]
    rfl

/-- A token fits no other run. -/
theorem Anchored.unfit_head (anchored : swap.Anchored) {head run rest : Text} {previous : Option Char} (word : Wordy head)
    (chars : ∀ c ∈ run, isWord c = true) (ends : startsWordy rest = false)
    (other : run = head → startsResize rest = false) : swap.Unfit (head ++ "-resize".toList) previous (run ++ rest) := by
  intro found after whole fits
  cases anchored.spells_iff.mp fits.spells
  rw [List.append_assoc] at whole
  have same : run = head := by
    rw [← takeWhile_append_of_wordy chars ends, whole, takeWhile_append_of_wordy word.chars rfl]
  obtain rfl : rest = "-resize".toList ++ after := by
    rw [same] at whole
    exact List.append_cancel_left whole
  have boundary := fits.ends anchored.bounded
  have last : (head ++ "-resize".toList).getLast? = some 'e' := List.getLast?_append_of_ne_nil _ (by decide)
  have closed : startsWordy after = false := by
    rw [isBoundary, last, show (some 'e').any isWord = true from rfl] at boundary
    simpa [startsWordy] using boundary
  have resumes : startsResize ("-resize".toList ++ after) = true := startsResize_iff.mpr ⟨after, rfl, closed⟩
  rw [other same] at resumes
  cases resumes

/-- A head and the `-resize` behind it are read together. -/
theorem OfHeads.exists_reads_head (heads : swap.OfHeads) {run rest : Text} {previous : Option Char} {parts : List Part}
    (head : run = swap.heads.first ∨ run = swap.heads.second) (starts : previous.any isWord = false)
    (ends : startsWordy rest = false) (onward : swap.Reads (some 'e') rest parts) :
    ∃ part, swap.Reads previous (run ++ "-resize".toList ++ rest) (part :: parts) ∧
      swap.exchanged part = swap.heads.turn run ++ "-resize".toList := by
  have onward : swap.Reads (run ++ "-resize".toList).getLast? rest parts := by
    rwa [List.getLast?_append_of_ne_nil _ (by decide : "-resize".toList ≠ [])]
  by_cases first : run = swap.heads.first
  · subst first
    have fits : swap.Fits swap.first previous (swap.heads.first ++ "-resize".toList) rest := by
      rw [heads.first]
      exact heads.anchored.fits_head heads.words.first starts ends
    refine ⟨.first _, .first rfl fits onward, ?_⟩
    rw [exchanged, turn, if_pos rfl, heads.second]
  · obtain rfl := head.resolve_left first
    have notFirst : swap.Unfit swap.first previous (swap.heads.second ++ "-resize".toList ++ rest) := by
      rw [heads.first, List.append_assoc]
      exact heads.anchored.unfit_head heads.words.first heads.words.second.chars rfl fun same => absurd same first
    have fits : swap.Fits swap.second previous (swap.heads.second ++ "-resize".toList) rest := by
      rw [heads.second]
      exact heads.anchored.fits_head heads.words.second starts ends
    refine ⟨.second _, .second rfl notFirst fits onward, ?_⟩
    rw [exchanged, turn, if_neg first, if_pos rfl, heads.first]

/-- Any other run is passed over. -/
theorem OfHeads.reads_other (heads : swap.OfHeads) {run : Text} {list : List Text} (alternating : Alternating (run :: list))
    {previous : Option Char} {parts : List Part}
    (other : startsResize list.flatten = true → run ≠ swap.heads.first ∧ run ≠ swap.heads.second)
    (onward : swap.Reads run.getLast? list.flatten parts) :
    swap.Reads previous (run ++ list.flatten) (run.map .char ++ parts) := by
  have anchored := heads.anchored
  have nonempty := alternating.nonempty run List.mem_cons_self
  have uniform := alternating.uniform run List.mem_cons_self
  cases kind : startsWordy run with
  | false =>
    have starts : startsWordy (run ++ list.flatten) = false := (startsWordy_append nonempty _).trans kind
    exact anchored.reads_passed nonempty uniform (anchored.unfit_inside anchored.first (.inl starts))
      (anchored.unfit_inside anchored.second (.inl starts)) onward
  | true =>
    have chars : ∀ c ∈ run, isWord c = true := kind ▸ uniform
    have unfit : ∀ {head}, Wordy head → (startsResize list.flatten = true → run ≠ head) →
        swap.Unfit (head ++ "-resize".toList) previous (run ++ list.flatten) := by
      intro head word differs
      refine anchored.unfit_head word chars (alternating.startsWordy_rest kind) fun same => ?_
      exact Bool.eq_false_iff.mpr fun resumes => differs resumes same
    have notFirst := unfit heads.words.first fun resumes => (other resumes).1
    have notSecond := unfit heads.words.second fun resumes => (other resumes).2
    rw [← heads.first] at notFirst
    rw [← heads.second] at notSecond
    exact anchored.reads_passed nonempty uniform notFirst notSecond onward

/-- The runs of a text are read one by one, except that a head and the `-resize` behind it are read together. -/
theorem OfHeads.exists_reads_flatten (heads : swap.OfHeads) {list : List Text} (alternating : Alternating list)
    (previous : Option Char) (starts : startsWordy list.flatten = true → previous.any isWord = false) :
    ∃ parts, swap.Reads previous list.flatten parts ∧
      parts.flatMap swap.exchanged = (turnResizes swap.heads.turn list).flatten := by
  match list, alternating, starts with
  | [], _, _ => exact ⟨[], .done, rfl⟩
  | run :: rest, alternating, starts =>
    have nonempty := alternating.nonempty run List.mem_cons_self
    rw [List.flatten_cons, startsWordy_append nonempty] at starts
    by_cases hit : startsResize rest.flatten = true ∧ (run = swap.heads.first ∨ run = swap.heads.second)
    · obtain ⟨resumes, head⟩ := hit
      obtain ⟨more, rfl⟩ := alternating.tail.startsResize_iff.mp resumes
      have word : Wordy run := head.elim (· ▸ heads.words.first) (· ▸ heads.words.second)
      have later := alternating.tail.tail
      have ends := later.startsWordy_rest wordy_resize.startsWordy
      obtain ⟨parts, onward, written⟩ := heads.exists_reads_flatten later.tail (some 'e') fun resumes => by
        rw [ends] at resumes
        cases resumes
      obtain ⟨part, reads, turned⟩ := heads.exists_reads_head head (starts word.startsWordy) ends onward
      refine ⟨part :: parts, ?_, ?_⟩
      · rw [List.append_assoc] at reads
        exact reads
      · rw [List.flatMap_cons, turned, written, turnResizes, resumes, heads.turnsHeads.turnResizes_resize]
        simp
    · obtain ⟨parts, onward, written⟩ := heads.exists_reads_flatten alternating.tail run.getLast? fun word => by
        rw [any_getLast? nonempty (alternating.uniform run List.mem_cons_self), ← Bool.not_eq_true]
        intro kind
        rw [alternating.startsWordy_rest kind] at word
        cases word
      have other : startsResize rest.flatten = true → run ≠ swap.heads.first ∧ run ≠ swap.heads.second := fun resumes =>
        not_or.mp fun head => hit ⟨resumes, head⟩
      refine ⟨run.map .char ++ parts, heads.reads_other alternating other onward, ?_⟩
      have kept : (if startsResize rest.flatten then swap.heads.turn run else run) = run := by
        split
        · rename_i resumes
          exact turn_of_ne (other resumes).1 (other resumes).2
        · rfl
      rw [List.flatMap_append, flatMap_exchanged_chars, written, turnResizes, kept, List.flatten_cons]
termination_by list.length

theorem OfHeads.runs_apply (heads : swap.OfHeads) (text : Text) :
    runs (swap.apply text) = turnResizes swap.heads.turn (runs text) := by
  obtain ⟨parts, reads, written⟩ := heads.exists_reads_flatten (alternating_runs text) none fun _ => rfl
  rw [flatten_runs] at reads
  have apart : swap.TellsApart := tellsApart_of_exact heads.words.exact fun same => absurd same heads.apart
  have nonempty : ∀ {token : Text}, startsWordy token = true → token ≠ [] := by
    rintro token wordy rfl
    cases wordy
  rw [reads.apply (nonempty heads.anchored.first) (nonempty heads.anchored.second) apart, written]
  exact ((alternating_runs text).turnResizes heads.turnsHeads).runs_flatten

theorem OfWords.apply_nil (words : swap.OfWords) : swap.apply [] = [] := by
  rw [← flatten_runs (swap.apply []), words.runs_apply]
  rfl

theorem OfWords.turn_of_mem (words : swap.OfWords) {run : Text} {c : Char} (member : c ∈ run) (other : isWord c = false) :
    swap.turn run = run := by
  refine (words.turn_cases run).resolve_right fun ⟨word, _⟩ => ?_
  rw [word.chars c member] at other
  cases other

/-- A text that starts with another character than those of words keeps it. -/
theorem OfWords.head?_apply (words : swap.OfWords) {text : Text} (other : ∀ c ∈ text.head?, isWord c = false) :
    (swap.apply text).head? = text.head? := by
  cases first : (runs text).head? with
  | none =>
    obtain rfl : text = [] := by rw [← flatten_runs text, List.head?_eq_none_iff.mp first, List.flatten_nil]
    rw [words.apply_nil]
  | some run =>
    have filled := (alternating_runs text).nonempty run (List.mem_of_mem_head? first)
    have start : text.head? = some (run.head filled) := (head?_of_runs first).trans (List.head?_eq_some_head filled)
    have kept := words.turn_of_mem (List.head_mem filled) (other _ start)
    have after : (runs (swap.apply text)).head? = some run := by
      rw [words.runs_apply, List.head?_map, first, Option.map_some, kept]
    rw [head?_of_runs after, head?_of_runs first]

/-- A text that ends with another character than those of words keeps it. -/
theorem OfWords.getLast?_apply (words : swap.OfWords) {text : Text} (other : ∀ c ∈ text.getLast?, isWord c = false) :
    (swap.apply text).getLast? = text.getLast? := by
  cases last : (runs text).getLast? with
  | none =>
    obtain rfl : text = [] := by rw [← flatten_runs text, List.getLast?_eq_none_iff.mp last, List.flatten_nil]
    rw [words.apply_nil]
  | some run =>
    have filled := (alternating_runs text).nonempty run (List.mem_of_mem_getLast? last)
    have stop : text.getLast? = some (run.getLast filled) :=
      (getLast?_of_runs last).trans (List.getLast?_eq_some_getLast filled)
    have kept := words.turn_of_mem (List.getLast_mem filled) (other _ stop)
    have after : (runs (swap.apply text)).getLast? = some run := by
      rw [words.runs_apply, List.getLast?_map, last, Option.map_some, kept]
    rw [getLast?_of_runs after, getLast?_of_runs last]

theorem OfWords.apply_apply (words : swap.OfWords) (text : Text) : swap.apply (swap.apply text) = text := by
  refine StringMap.applySwaps_applySwaps (List.forall_mem_singleton.mpr words) ?_ text
  have apart : swap.first ≠ swap.second := fun same => words.apart (congrArg lower same)
  simpa [StringMap.tokens] using apart

end Swap

namespace StringMap
open Text
variable {swaps : List Swap}

/-- Swaps of resize cursors, one after the other, turn the heads as the swaps of the heads do. -/
theorem runs_applySwaps_of_heads (cursors : ∀ swap ∈ swaps, swap.OfHeads) (text : Text) :
    runs (applySwaps swaps text) = turnResizes (turnAll (swaps.map Swap.heads)) (runs text) := by
  induction swaps generalizing text with
  | nil => exact (turnResizes_of_fixed (fun _ => rfl) _).symm
  | cons swap swaps ih =>
    obtain ⟨here, later⟩ := List.forall_mem_cons.mp cursors
    calc
      runs (applySwaps swaps (swap.apply text)) = turnResizes (turnAll (swaps.map Swap.heads)) (runs (swap.apply text)) :=
        ih later _
      _ = turnResizes (turnAll (swaps.map Swap.heads)) (turnResizes swap.heads.turn (runs text)) := by rw [here.runs_apply]
      _ = turnResizes (turnAll ((swap :: swaps).map Swap.heads)) (runs text) :=
        turnResizes_turnResizes here.turnsHeads _ (alternating_runs text)

theorem turnAll_append (swaps others : List Swap) (run : Text) :
    turnAll (swaps ++ others) run = turnAll others (turnAll swaps run) := List.foldl_append

end StringMap

namespace Standard
open Text

/-- The compass points with east and west exchanged. -/
def compass : List (Text × Text) :=
  [("ne".toList, "nw".toList), ("nw".toList, "ne".toList), ("se".toList, "sw".toList), ("sw".toList, "se".toList),
   ("e".toList, "w".toList), ("w".toList, "e".toList), ("nesw".toList, "nwse".toList), ("nwse".toList, "nesw".toList)]

/-- The opposite of a compass point; any other word stays. -/
def opposite (word : Text) : Text := (compass.lookup word).getD word

theorem ofHeads_of_mem_cursorSwaps : ∀ swap ∈ cursorSwaps, swap.OfHeads := by
  have all : cursorSwaps.all (fun swap => swap.OfHeads) = true := by decide +kernel
  simpa using List.all_eq_true.mp all

theorem nodup_tokens_cursorSwaps : (StringMap.tokens (cursorSwaps.map Swap.heads)).Nodup := by decide +kernel

theorem turnAll_cursorSwaps (word : Text) : StringMap.turnAll (cursorSwaps.map Swap.heads) word = opposite word := by
  have points : (compass.map Prod.fst).Perm (StringMap.tokens (cursorSwaps.map Swap.heads)) := by decide +kernel
  have each : compass.all (fun point => StringMap.turnAll (cursorSwaps.map Swap.heads) point.1 = opposite point.1) = true := by
    decide +kernel
  by_cases member : word ∈ compass.map Prod.fst
  · obtain ⟨point, inside, rfl⟩ := List.mem_map.mp member
    simpa using List.all_eq_true.mp each point inside
  · have alone : compass.lookup word = none := by
      rw [List.lookup_eq_none_iff]
      intro point inside
      simp only [bne_iff_ne]
      rintro rfl
      exact member (List.mem_map_of_mem inside)
    rw [StringMap.turnAll_of_notMem (mt points.mem_iff.mpr member), opposite, alone]
    rfl

/-- In whichever order the swaps are applied, the words in front of `-resize` become their opposites. -/
theorem runs_applySwaps_cursors {swaps : List Swap} (perm : swaps.Perm cursorSwaps) (value : Text) :
    runs (StringMap.applySwaps swaps value) = turnResizes opposite (runs value) := by
  have cursors : ∀ swap ∈ swaps, swap.OfHeads := fun swap member => ofHeads_of_mem_cursorSwaps swap (perm.mem_iff.mp member)
  have turns : StringMap.turnAll (swaps.map Swap.heads) = opposite := by
    funext word
    rw [← turnAll_cursorSwaps]
    exact (StringMap.turnAll_of_perm (perm.map Swap.heads).symm nodup_tokens_cursorSwaps word).symm
  rw [StringMap.runs_applySwaps_of_heads cursors, turns]

theorem flipCursor_flipCursor (value : Text) : flipCursor (flipCursor value) = value := by
  have twice : ∀ swap ∈ cursorSwaps ++ cursorSwaps, swap.OfHeads :=
    List.forall_mem_append.mpr ⟨ofHeads_of_mem_cursorSwaps, ofHeads_of_mem_cursorSwaps⟩
  have same : runs (flipCursor (flipCursor value)) = runs value := by
    rw [flipCursor, flipCursor, ← List.foldl_append]
    refine (StringMap.runs_applySwaps_of_heads twice value).trans (turnResizes_of_fixed (fun run => ?_) _)
    rw [List.map_append, StringMap.turnAll_append]
    exact StringMap.turnAll_turnAll nodup_tokens_cursorSwaps run
  rw [← flatten_runs (flipCursor _), same, flatten_runs]

/-! ## Properties that name a side -/

/-- A name has a text as one of its parts between hyphens. -/
def HasPart (part name : Text) : Prop :=
  ∃ before after, name = before ++ part ++ after ∧ (∀ c ∈ before.getLast?, c = '-') ∧ ∀ c ∈ after.head?, c = '-'

theorem fits_part_iff {part name : Text} :
    Pattern.fits [⟨true, part, true⟩, ⟨true, part ++ ['-'], false⟩, ⟨false, '-' :: part, true⟩,
      ⟨false, '-' :: (part ++ ['-']), false⟩] name = true ↔ HasPart part name := by
  simp only [Pattern.fits, List.any_cons, List.any_nil, Bool.or_false, Bool.or_eq_true, Alternative.fits, beq_iff_eq,
    List.isPrefixOf_iff_prefix, List.isSuffixOf_iff_suffix, holds_iff]
  constructor
  · rintro (rfl | ⟨after, rfl⟩ | ⟨before, rfl⟩ | ⟨before, after, rfl⟩)
    · exact ⟨[], [], by simp⟩
    · exact ⟨[], '-' :: after, by simp⟩
    · exact ⟨before ++ ['-'], [], by simp⟩
    · exact ⟨before ++ ['-'], '-' :: after, by simp⟩
  · rintro ⟨before, after, rfl, ends, starts⟩
    rcases before.eq_nil_or_concat with rfl | ⟨before, c, rfl⟩
    · cases after with
      | nil => exact .inl (by simp)
      | cons d after =>
        obtain rfl := starts d rfl
        exact .inr (.inl ⟨after, by simp⟩)
    · obtain rfl := ends c (by simp)
      cases after with
      | nil => exact .inr (.inr (.inl ⟨before, by simp⟩))
      | cons d after =>
        obtain rfl := starts d rfl
        exact .inr (.inr (.inr ⟨before, after, by simp⟩))

theorem fits_sidedNames_iff {name : Text} :
    sidedNames.fits name = true ↔ HasPart "left".toList name ∨ HasPart "right".toList name := by
  rw [← fits_part_iff, ← fits_part_iff, ← Bool.or_eq_true]
  exact Eq.congr_left List.any_append

/-- A word that is a part between hyphens is a run of its own. -/
theorem HasPart.exists_runs {part name : Text} (sided : HasPart part name) (word : Wordy part) :
    ∃ before after, runs name = runs before ++ part :: runs after ∧ (∀ c ∈ before.getLast?, c = '-') ∧
      ∀ c ∈ after.head?, c = '-' := by
  obtain ⟨before, after, rfl, ends, starts⟩ := sided
  refine ⟨before, after, ?_, ends, starts⟩
  have hyphen : isWord '-' = false := by decide
  have front : runs (before ++ part) = runs before ++ runs part := by
    refine runs_append fun c last d first => ?_
    rw [ends c last, hyphen, word.chars d (List.mem_of_mem_head? first)]
    exact Bool.false_ne_true
  have back : runs (before ++ part ++ after) = runs (before ++ part) ++ runs after := by
    refine runs_append fun c last d first => ?_
    rw [List.getLast?_append_of_ne_nil _ word.nonempty] at last
    rw [starts d first, hyphen, word.chars c (List.mem_of_mem_getLast? last)]
    exact Bool.false_ne_true.symm
  rw [back, front, word.runs, List.append_assoc]
  rfl

theorem HasPart.apply {swap : Swap} (words : swap.OfWords) {part name : Text} (sided : HasPart part name) (word : Wordy part) :
    HasPart (swap.turn part) (swap.apply name) := by
  obtain ⟨before, after, cut, ends, starts⟩ := sided.exists_runs word
  have hyphen : isWord '-' = false := by decide
  refine ⟨swap.apply before, swap.apply after, ?_, ?_, ?_⟩
  · rw [← flatten_runs (swap.apply name), words.runs_apply, cut, List.map_append, List.map_cons, ← words.runs_apply,
      ← words.runs_apply]
    simp [flatten_runs]
  · rwa [words.getLast?_apply fun c last => ends c last ▸ hyphen]
  · rwa [words.head?_apply fun c first => starts c first ▸ hyphen]

theorem HasPart.apply_ne {swap : Swap} (words : swap.OfWords) {part name : Text} (sided : HasPart part name) (word : Wordy part)
    (turns : swap.turn part ≠ part) : swap.apply name ≠ name := by
  obtain ⟨before, after, cut, _, _⟩ := sided.exists_runs word
  intro same
  have fixed : (runs name).map swap.turn = (runs name).map id := by
    rw [← words.runs_apply, same, List.map_id]
  exact turns (List.map_inj_left.mp fixed part (by simp [cut]))

theorem ofWords_leftRight : leftRight.OfWords := by decide

theorem ofWords_ltrRtl : ltrRtl.OfWords := by decide

/-- A name with a side is renamed to another name with a side. -/
theorem fits_apply_of_fits {name : Text} (sided : sidedNames.fits name = true) :
    leftRight.apply name ≠ name ∧ sidedNames.fits (leftRight.apply name) = true := by
  rw [fits_sidedNames_iff] at sided ⊢
  rcases sided with left | right
  · have word : Wordy "left".toList := ofWords_leftRight.first
    exact ⟨left.apply_ne ofWords_leftRight word (by decide), .inr (left.apply ofWords_leftRight word)⟩
  · have word : Wordy "right".toList := ofWords_leftRight.second
    exact ⟨right.apply_ne ofWords_leftRight word (by decide), .inl (right.apply ofWords_leftRight word)⟩

theorem not_fits_names_of_sided {listed : List Text} (unsided : ∀ name ∈ listed, sidedNames.fits name = false) {name : Text}
    (sided : sidedNames.fits name = true) : (Pattern.names listed).fits name = false := by
  rw [Bool.eq_false_iff]
  intro fits
  rw [unsided name (Pattern.fits_names_iff.mp fits)] at sided
  cases sided

/-- The rules in front of the one for names with a side are for listed names without one. -/
theorem not_fits_of_sided {σ : Type} (slot : Slot σ State) {name : Text} (sided : sidedNames.fits name = true) :
    ∀ rule ∈ (plugin slot).rules.dropLast, rule.fits name = false := by
  change ∀ rule ∈ [directions, sideKeywords, edgeShorthands, radii, resizeCursors], rule.fits name = false
  simp only [List.forall_mem_cons]
  refine ⟨?_, ?_, ?_, ?_, ?_, List.forall_mem_nil _⟩ <;> exact not_fits_names_of_sided (by decide) sided

theorem flip_flip_valueRule {σ : Type} (pattern : Pattern) {change : Text → Text} {property value : Text} {scene : Scene}
    {store : σ} (undoes : change (change value) = value) :
    let once := (valueRule pattern change : FlipRule σ).flip property value scene store
    (valueRule pattern change : FlipRule σ).flip once.1.property once.1.value scene once.2 = (⟨property, value⟩, store) := by
  simp only [valueRule, undoes]

/-- The rules for directions, sides as keywords, resize cursors and properties that name a side undo themselves. The swaps of
resize cursors put opposites for the compass points in front of `-resize`, all at once and in whichever order they are applied.
A property that names a side is renamed to another one, which none of the rules in front takes. -/
theorem keyword_rules_undo_themselves {σ : Type} (slot : Slot σ State) (property value : Text) (scene : Scene) (store : σ) :
    (∀ rule ∈ ([directions, sideKeywords, resizeCursors, sidedProperties] : List (FlipRule σ)),
      let once := rule.flip property value scene store
      rule.flip once.1.property once.1.value scene once.2 = (⟨property, value⟩, store)) ∧
    ((resizeCursors : FlipRule σ).flip property value scene store).1.value = (turnResizes opposite (runs value)).flatten ∧
    (∀ swaps : List Swap, swaps.Perm cursorSwaps →
      swaps.foldl (fun value swap => swap.apply value) value = (turnResizes opposite (runs value)).flatten) ∧
    ((sidedProperties : FlipRule σ).fits property = true →
      let renamed := ((sidedProperties : FlipRule σ).flip property value scene store).1.property
      renamed ≠ property ∧ (sidedProperties : FlipRule σ).fits renamed = true ∧
        ∃ earlier, (plugin slot).rules = earlier ++ [sidedProperties] ∧
          ∀ rule ∈ earlier, rule.fits renamed = false) := by
  have turned : ∀ swaps : List Swap, swaps.Perm cursorSwaps →
      swaps.foldl (fun value swap => swap.apply value) value = (turnResizes opposite (runs value)).flatten := by
    intro swaps perm
    rw [← runs_applySwaps_cursors perm, flatten_runs]
    rfl
  refine ⟨?_, turned cursorSwaps (.refl _), turned, fun sided => ?_⟩
  · simp only [List.forall_mem_cons]
    refine ⟨?_, ?_, ?_, ?_, List.forall_mem_nil _⟩
    · exact flip_flip_valueRule _ (ofWords_ltrRtl.apply_apply value)
    · exact flip_flip_valueRule _ (ofWords_leftRight.apply_apply value)
    · exact flip_flip_valueRule _ (flipCursor_flipCursor value)
    · simp only [sidedProperties, ofWords_leftRight.apply_apply]
  · obtain ⟨changed, again⟩ := fits_apply_of_fits sided
    exact ⟨changed, again, _, rfl, not_fits_of_sided slot again⟩

theorem keyword_rules_at_border_left :
    cursorSwaps.reverse.Perm cursorSwaps ∧
      StringMap.applySwaps cursorSwaps.reverse "nesw-resize, e-resize, -e-resized".toList =
        (turnResizes opposite (runs "nesw-resize, e-resize, -e-resized".toList)).flatten ∧
      sidedNames.fits "border-left--right-x".toList = true ∧
      leftRight.apply "border-left--right-x".toList ≠ "border-left--right-x".toList := by
  have perm : cursorSwaps.reverse.Perm cursorSwaps := List.reverse_perm _
  have sided : sidedNames.fits "border-left--right-x".toList = true := by decide
  obtain ⟨_, _, turned, renamed⟩ := keyword_rules_undo_themselves (.whole State) "border-left--right-x".toList
    "nesw-resize, e-resize, -e-resized".toList ⟨default, default, default, [], []⟩ {}
  exact ⟨perm, turned _ perm, sided, (renamed sided).1⟩

end Standard
end StyleFlip
