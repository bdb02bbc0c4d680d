import StyleFlip.Proofs.Swaps
import StyleFlip.StringMap
import Mathlib.Data.List.Forall2
import Mathlib.Data.List.Perm.Basic
import Mathlib.Data.List.SplitBy

/-!
Swaps of whole words. A text falls into its longest stretches of word characters and of other characters (`Text.runs`), and a
swap of two words that must be spelled exactly turns it run by run (`Swap.OfWords.runs_apply`). What it puts in is a word
again, so the runs stay apart, and a list of such swaps turns the text run by run too (`StringMap.runs_applySwaps`). If the
swaps have no token in common, every token becomes its partner, in whichever order they are applied
(`StringMap.Paired.turnAll`).
-/
namespace StyleFlip

/-! ## Runs -/

namespace Text

/-- A text cut into its longest stretches of word characters and of other characters. -/
def runs (text : Text) : List Text := text.splitBy fun a b => isWord a == isWord b

/-- Whether a stretch starts with a word character. -/
def startsWordy (run : Text) : Bool := run.head?.any isWord

/-- A word: one or more word characters. -/
structure Wordy (run : Text) : Prop where
  nonempty : run ≠ []
  chars : ∀ c ∈ run, isWord c = true

/-- Stretches of word characters and of other characters in turn. -/
structure Alternating (list : List Text) : Prop where
  nonempty : ∀ run ∈ list, run ≠ []
  uniform : ∀ run ∈ list, ∀ c ∈ run, isWord c = startsWordy run
  turns : list.IsChain fun a b => startsWordy a ≠ startsWordy b

theorem wordy_iff {run : Text} : Wordy run ↔ run ≠ [] ∧ run.all isWord = true := by
  rw [List.all_eq_true]
  exact ⟨fun word => ⟨word.nonempty, word.chars⟩, fun word => ⟨word.1, word.2⟩⟩

instance (run : Text) : Decidable (Wordy run) := decidable_of_iff _ wordy_iff.symm

theorem flatten_runs (text : Text) : (runs text).flatten = text := List.flatten_splitBy _ _

theorem startsWordy_of_uniform {run : Text} {kind : Bool} (nonempty : run ≠ []) (uniform : ∀ c ∈ run, isWord c = kind) :
    startsWordy run = kind := by
  rw [startsWordy, List.head?_eq_some_head nonempty]
  exact uniform _ (List.head_mem nonempty)

theorem Wordy.startsWordy {run : Text} (word : Wordy run) : startsWordy run = true :=
  startsWordy_of_uniform word.nonempty word.chars

theorem startsWordy_append {run : Text} (nonempty : run ≠ []) (rest : Text) : startsWordy (run ++ rest) = startsWordy run := by
  rw [startsWordy, List.head?_append_of_ne_nil _ nonempty]
  rfl

theorem any_getLast? {run : Text} {kind : Bool} (nonempty : run ≠ []) (uniform : ∀ c ∈ run, isWord c = kind) :
    run.getLast?.any isWord = kind := by
  rw [List.getLast?_eq_some_getLast nonempty]
  exact uniform _ (List.getLast_mem nonempty)

theorem isChain_iff_uniform {run : Text} :
    (run.IsChain fun a b => (isWord a == isWord b) = true) ↔ ∀ c ∈ run, isWord c = startsWordy run := by
  induction run with
  | nil => simp
  | cons c more ih =>
    cases more with
    | nil => simp [startsWordy]
    | cons d more =>
      rw [List.isChain_cons_cons, ih]
      simp only [startsWordy, List.head?_cons, Option.any_some, beq_iff_eq]
      constructor
      · rintro ⟨same, uniform⟩
        exact List.forall_mem_cons.mpr ⟨rfl, fun e member => (uniform e member).trans same.symm⟩
      · intro uniform
        obtain ⟨_, uniform⟩ := List.forall_mem_cons.mp uniform
        have same := uniform d List.mem_cons_self
        exact ⟨same.symm, fun e member => (uniform e member).trans same.symm⟩

/-- The runs of a text are the one way to cut it into alternating stretches. -/
theorem runs_eq_iff {text : Text} {list : List Text} : runs text = list ↔ text = list.flatten ∧ Alternating list := by
  rw [runs, List.splitBy_eq_iff]
  refine and_congr_right fun _ => ?_
  have meets : (∀ run ∈ list, run ≠ []) → (∀ run ∈ list, ∀ c ∈ run, isWord c = startsWordy run) →
      ((list.IsChain fun a b => ∃ ha hb, (isWord (a.getLast ha) == isWord (b.head hb)) = false) ↔
        list.IsChain fun a b => startsWordy a ≠ startsWordy b) := by
    intro nonempty uniform
    refine List.IsChain.iff_of_mem_imp fun a b here there => ?_
    have filled := nonempty a here
    have filled' := nonempty b there
    rw [exists_prop_of_true filled, exists_prop_of_true filled', uniform a here _ (List.getLast_mem filled),
      uniform b there _ (List.head_mem filled'), beq_eq_false_iff_ne]
  constructor
  · rintro ⟨nonempty, chains, turns⟩
    have nonempty : ∀ run ∈ list, run ≠ [] := fun run member empty => nonempty (empty ▸ member)
    have uniform := fun run member => isChain_iff_uniform.mp (chains run member)
    exact ⟨nonempty, uniform, (meets nonempty uniform).mp turns⟩
  · rintro ⟨nonempty, uniform, turns⟩
    exact ⟨fun member => nonempty [] member rfl, fun run member => isChain_iff_uniform.mpr (uniform run member),
      (meets nonempty uniform).mpr turns⟩

theorem alternating_runs (text : Text) : Alternating (runs text) := (runs_eq_iff.mp rfl).2

theorem Alternating.runs_flatten {list : List Text} (alternating : Alternating list) : runs list.flatten = list :=
  runs_eq_iff.mpr ⟨rfl, alternating⟩

/-- Behind a run of word characters a text goes on with another character. -/
theorem Alternating.startsWordy_rest {run : Text} {list : List Text} (alternating : Alternating (run :: list))
    (word : Text.startsWordy run = true) : Text.startsWordy list.flatten = false := by
  cases list with
  | nil => rfl
  | cons next more =>
    obtain ⟨turns, _⟩ := List.isChain_cons.mp alternating.turns
    rw [List.flatten_cons, startsWordy_append (alternating.nonempty next (List.mem_cons_of_mem _ List.mem_cons_self))]
    simpa [word] using turns next rfl

/-- Words may be put in the place of words. -/
theorem Alternating.of_forall₂ {list others : List Text} (alternating : Alternating list)
    (keeps : List.Forall₂ (fun run other => other = run ∨ Wordy run ∧ Wordy other) list others) : Alternating others := by
  have starts : others.map startsWordy = list.map startsWordy := by
    clear alternating
    induction keeps with
    | nil => rfl
    | @cons run other _ _ kept _ ih =>
      have same : startsWordy other = startsWordy run := by
        rcases kept with same | ⟨word, other⟩
        · rw [same]
        · rw [word.startsWordy, other.startsWordy]
      rw [List.map_cons, List.map_cons, same, ih]
  have sound : ∀ other ∈ others, other ≠ [] ∧ ∀ c ∈ other, isWord c = startsWordy other := by
    intro other member
    obtain ⟨i, inside, rfl⟩ := List.mem_iff_getElem.mp member
    have there : i < list.length := keeps.length_eq ▸ inside
    rcases keeps.get there inside with same | ⟨_, word⟩
    · simp only [List.get_eq_getElem] at same
      rw [same]
      exact ⟨alternating.nonempty _ (List.getElem_mem there), alternating.uniform _ (List.getElem_mem there)⟩
    · exact ⟨word.nonempty, fun c inside => (word.chars c inside).trans word.startsWordy.symm⟩
  refine ⟨fun other member => (sound other member).1, fun other member => (sound other member).2, ?_⟩
  have chain : (list.map startsWordy).IsChain (· ≠ ·) := (List.isChain_map startsWordy).mpr alternating.turns
  rw [← starts] at chain
  exact (List.isChain_map startsWordy).mp chain

theorem Alternating.map {list : List Text} (alternating : Alternating list) {f : Text → Text}
    (keeps : ∀ run ∈ list, f run = run ∨ Wordy run ∧ Wordy (f run)) : Alternating (list.map f) :=
  alternating.of_forall₂ (List.forall₂_map_right_iff.mpr (List.forall₂_same.mpr keeps))

theorem takeWhile_append_of_wordy {run rest : Text} (chars : ∀ c ∈ run, isWord c = true) (ends : startsWordy rest = false) :
    (run ++ rest).takeWhile isWord = run := by
  rw [List.takeWhile_append_of_pos chars]
  cases rest with
  | nil => simp
  | cons c rest =>
    have other : isWord c = false := ends
    simp [other]

end Text

/-! ## One swap -/

namespace Swap
open Text

/-- A swap of two words, spelled exactly and found only as whole words. -/
@[mk_iff]
structure OfWords (swap : Swap) : Prop where
  exact : swap.ignoreCase = false
  bounded : swap.greedy = false
  first : Wordy swap.first
  second : Wordy swap.second
  apart : lower swap.first ≠ lower swap.second

instance (swap : Swap) : Decidable swap.OfWords := decidable_of_iff' _ (ofWords_iff swap)

/-- What becomes of a run. -/
def turn (swap : Swap) (run : Text) : Text :=
  if run = swap.first then swap.second else if run = swap.second then swap.first else run

/-- How a run is read. -/
def partsOf (swap : Swap) (run : Text) : List Part :=
  if run = swap.first then [.first run] else if run = swap.second then [.second run] else run.map .char

theorem flatMap_exchanged_chars (swap : Swap) (run : Text) : (run.map Part.char).flatMap swap.exchanged = run := by
  induction run with
  | nil => rfl
  | cons c run ih => exact congrArg (c :: ·) ih

theorem flatMap_exchanged_partsOf (swap : Swap) (run : Text) : (swap.partsOf run).flatMap swap.exchanged = swap.turn run := by
  unfold partsOf turn
  split
  · simp [exchanged]
  · split
    · simp [exchanged]
    · exact flatMap_exchanged_chars swap run

variable {swap : Swap} {token run rest : Text} {previous : Option Char} {parts : List Part}

/-- A swap of two tokens that are spelled exactly, start with a word character and stand between word boundaries. -/
structure Anchored (swap : Swap) : Prop where
  exact : swap.ignoreCase = false
  bounded : swap.greedy = false
  first : startsWordy swap.first = true
  second : startsWordy swap.second = true

theorem OfWords.anchored (words : swap.OfWords) : swap.Anchored :=
  ⟨words.exact, words.bounded, words.first.startsWordy, words.second.startsWordy⟩

theorem Anchored.spells_iff (anchored : swap.Anchored) {found : Text} : swap.Spells token found ↔ found = token := by
  simp [Spells, anchored.exact]

/-- A token fits only at the start of a run of word characters. -/
theorem Anchored.unfit_inside (anchored : swap.Anchored) (wordy : startsWordy token = true) {text : Text}
    (inside : startsWordy text = false ∨ previous.any isWord = true) : swap.Unfit token previous text := by
  rintro found rest rfl fits
  cases anchored.spells_iff.mp fits.spells
  have starts := fits.starts anchored.bounded
  have nonempty : token ≠ [] := by
    rintro rfl
    cases wordy
  have start : startsWordy (token ++ rest) = true := (startsWordy_append nonempty rest).trans wordy
  have head : token.head?.any isWord = true := wordy
  rw [isBoundary, head] at starts
  rcases inside with other | other
  · rw [start] at other
    cases other
  · rw [other] at starts
    cases starts

/-- A word fits no other run. -/
theorem OfWords.unfit_start (words : swap.OfWords) (word : Wordy token) (chars : ∀ c ∈ run, isWord c = true)
    (ends : startsWordy rest = false) (other : run ≠ token) : swap.Unfit token previous (run ++ rest) := by
  intro found after whole fits
  cases words.anchored.spells_iff.mp fits.spells
  have after : startsWordy after = false := by
    have ends := fits.ends words.bounded
    rw [isBoundary, any_getLast? word.nonempty word.chars] at ends
    simpa [startsWordy] using ends
  refine other ?_
  rw [← takeWhile_append_of_wordy chars ends, whole, takeWhile_append_of_wordy word.chars after]

/-- Characters inside a run are passed over. -/
theorem Anchored.reads_inside (anchored : swap.Anchored) {kind : Bool} (uniform : ∀ c ∈ run, isWord c = kind)
    (inside : kind = false ∨ previous.any isWord = true) (onward : swap.Reads (run.getLast?.or previous) rest parts) :
    swap.Reads previous (run ++ rest) (run.map .char ++ parts) := by
  induction run generalizing previous with
  | nil => simpa using onward
  | cons c more ih =>
    obtain ⟨here, later⟩ := List.forall_mem_cons.mp uniform
    have inside' : startsWordy (c :: more ++ rest) = false ∨ previous.any isWord = true :=
      inside.imp_left fun other => here.trans other
    refine .char (anchored.unfit_inside anchored.first inside') (anchored.unfit_inside anchored.second inside') (ih later ?_ ?_)
    · cases kind with
      | false => exact .inl rfl
      | true => exact .inr here
    · simpa [List.getLast?_cons, Option.or_some] using onward

/-- A run at which no token fits is passed over. -/
theorem Anchored.reads_passed (anchored : swap.Anchored) {kind : Bool} (nonempty : run ≠ []) (uniform : ∀ c ∈ run, isWord c = kind)
    (notFirst : swap.Unfit swap.first previous (run ++ rest)) (notSecond : swap.Unfit swap.second previous (run ++ rest))
    (onward : swap.Reads run.getLast? rest parts) : swap.Reads previous (run ++ rest) (run.map .char ++ parts) := by
  cases run with
  | nil => exact absurd rfl nonempty
  | cons c more =>
    obtain ⟨here, inside⟩ := List.forall_mem_cons.mp uniform
    have kinds : kind = false ∨ (some c).any isWord = true := by
      cases kind with
      | false => exact .inl rfl
      | true => exact .inr here
    refine .char notFirst notSecond (anchored.reads_inside inside kinds ?_)
    simpa [List.getLast?_cons, Option.or_some] using onward

/-- A run of other characters is passed over. -/
theorem OfWords.reads_other (words : swap.OfWords) (nonempty : run ≠ []) (uniform : ∀ c ∈ run, isWord c = false)
    (onward : swap.Reads run.getLast? rest parts) : swap.Reads previous (run ++ rest) (swap.partsOf run ++ parts) := by
  have starts := startsWordy_of_uniform nonempty uniform
  have other : ∀ {token}, Wordy token → run ≠ token := by
    rintro token word rfl
    rw [word.startsWordy] at starts
    cases starts
  have unfit : ∀ {token}, Wordy token → swap.Unfit token previous (run ++ rest) := fun word =>
    words.anchored.unfit_inside word.startsWordy (.inl ((startsWordy_append nonempty rest).trans starts))
  rw [partsOf, if_neg (other words.first), if_neg (other words.second)]
  exact words.anchored.reads_passed nonempty uniform (unfit words.first) (unfit words.second) onward

/-- A run of word characters is an occurrence of a token if it is the token, and else it is passed over. -/
theorem OfWords.reads_word (words : swap.OfWords) (word : Wordy run) (starts : previous.any isWord = false)
    (ends : startsWordy rest = false) (onward : swap.Reads run.getLast? rest parts) :
    swap.Reads previous (run ++ rest) (swap.partsOf run ++ parts) := by
  have fits : ∀ {token}, run = token → swap.Fits token previous run rest := by
    intro token same
    have head : run.head?.any isWord = true := word.startsWordy
    have rest : rest.head?.any isWord = false := ends
    refine ⟨words.anchored.spells_iff.mpr same, fun _ => ?_, fun _ => ?_⟩
    · rw [isBoundary, starts, head]
      rfl
    · rw [isBoundary, any_getLast? word.nonempty word.chars, rest]
      rfl
  by_cases isFirst : run = swap.first
  · rw [partsOf, if_pos isFirst]
    exact .first rfl (fits isFirst) onward
  have notFirst : swap.Unfit swap.first previous (run ++ rest) := words.unfit_start words.first word.chars ends isFirst
  by_cases isSecond : run = swap.second
  · rw [partsOf, if_neg isFirst, if_pos isSecond]
    exact .second rfl notFirst (fits isSecond) onward
  have notSecond : swap.Unfit swap.second previous (run ++ rest) := words.unfit_start words.second word.chars ends isSecond
  rw [partsOf, if_neg isFirst, if_neg isSecond]
  exact words.anchored.reads_passed word.nonempty word.chars notFirst notSecond onward

/-- Alternating stretches are read one by one. -/
theorem OfWords.reads_flatten (words : swap.OfWords) {list : List Text} (alternating : Alternating list)
    (starts : ∀ run ∈ list.head?, startsWordy run = true → previous.any isWord = false) :
    swap.Reads previous list.flatten (list.flatMap swap.partsOf) := by
  induction list generalizing previous with
  | nil => exact .done
  | cons run more ih =>
    obtain ⟨nonempty, filled⟩ := List.forall_mem_cons.mp alternating.nonempty
    obtain ⟨uniform, uniforms⟩ := List.forall_mem_cons.mp alternating.uniform
    obtain ⟨turns, later⟩ := List.isChain_cons.mp alternating.turns
    have onward : swap.Reads run.getLast? more.flatten (more.flatMap swap.partsOf) := by
      refine ih ⟨filled, uniforms, later⟩ fun next member word => ?_
      rw [any_getLast? nonempty uniform]
      simpa [word] using turns next member
    cases kind : startsWordy run with
    | false => exact words.reads_other nonempty (kind ▸ uniform) onward
    | true =>
      exact words.reads_word ⟨nonempty, kind ▸ uniform⟩ (starts run rfl kind) (alternating.startsWordy_rest kind) onward

theorem OfWords.turn_cases (words : swap.OfWords) (run : Text) : swap.turn run = run ∨ Wordy run ∧ Wordy (swap.turn run) := by
  unfold turn
  split
  · rename_i same
    exact .inr ⟨same ▸ words.first, words.second⟩
  · split
    · rename_i same
      exact .inr ⟨same ▸ words.second, words.first⟩
    · exact .inl rfl

theorem OfWords.runs_apply (words : swap.OfWords) (text : Text) : runs (swap.apply text) = (runs text).map swap.turn := by
  have reads : swap.Reads none text ((runs text).flatMap swap.partsOf) := by
    have reads : swap.Reads none (runs text).flatten _ := words.reads_flatten (alternating_runs text) fun _ _ _ => rfl
    rwa [flatten_runs] at reads
  have apart := tellsApart_of_exact words.exact fun same => absurd same words.apart
  have written : swap.apply text = ((runs text).map swap.turn).flatten := by
    rw [reads.apply words.first.nonempty words.second.nonempty apart, List.flatMap_assoc, ← List.flatMap_def]
    exact List.flatMap_congr fun run _ => flatMap_exchanged_partsOf swap run
  rw [written]
  exact ((alternating_runs text).map fun run _ => words.turn_cases run).runs_flatten

theorem turn_of_ne (notFirst : run ≠ swap.first) (notSecond : run ≠ swap.second) : swap.turn run = run := by
  rw [turn, if_neg notFirst, if_neg notSecond]

end Swap

/-! ## One swap after the other -/

namespace StringMap
open Text
variable {swaps : List Swap}

/-- What becomes of a run. -/
def turnAll (swaps : List Swap) (run : Text) : Text := swaps.foldl (fun run swap => swap.turn run) run

def tokens (swaps : List Swap) : List Text := swaps.flatMap fun swap => [swap.first, swap.second]

/-- Two texts are the tokens of a swap. -/
def Paired (swaps : List Swap) (run other : Text) : Prop :=
  ∃ swap ∈ swaps, run = swap.first ∧ other = swap.second ∨ run = swap.second ∧ other = swap.first

theorem runs_applySwaps (words : ∀ swap ∈ swaps, swap.OfWords) (text : Text) :
    runs (applySwaps swaps text) = (runs text).map (turnAll swaps) := by
  induction swaps generalizing text with
  | nil => exact (List.map_id _).symm
  | cons swap swaps ih =>
    obtain ⟨here, later⟩ := List.forall_mem_cons.mp words
    calc
      runs (applySwaps swaps (swap.apply text)) = (runs (swap.apply text)).map (turnAll swaps) := ih later _
      _ = ((runs text).map swap.turn).map (turnAll swaps) := by rw [here.runs_apply]
      _ = (runs text).map (turnAll (swap :: swaps)) := List.map_map

theorem Paired.symm {run other : Text} (paired : Paired swaps run other) : Paired swaps other run := by
  obtain ⟨swap, member, ⟨first, second⟩ | ⟨second, first⟩⟩ := paired
  · exact ⟨swap, member, .inr ⟨second, first⟩⟩
  · exact ⟨swap, member, .inl ⟨first, second⟩⟩

theorem Paired.mem_tokens {run other : Text} (paired : Paired swaps run other) : run ∈ tokens swaps := by
  obtain ⟨swap, member, ⟨rfl, _⟩ | ⟨rfl, _⟩⟩ := paired
  · exact List.mem_flatMap.mpr ⟨swap, member, by simp⟩
  · exact List.mem_flatMap.mpr ⟨swap, member, by simp⟩

theorem turnAll_of_notMem {run : Text} (outside : run ∉ tokens swaps) : turnAll swaps run = run := by
  induction swaps with
  | nil => rfl
  | cons swap swaps ih =>
    simp only [tokens, List.flatMap_cons, List.mem_append, List.mem_cons, List.not_mem_nil, or_false, not_or] at outside
    obtain ⟨⟨notFirst, notSecond⟩, later⟩ := outside
    rw [turnAll, List.foldl_cons, Swap.turn_of_ne notFirst notSecond]
    exact ih later

/-- A token becomes its partner: no other swap has either of them. -/
theorem Paired.turnAll {run other : Text} (paired : Paired swaps run other) (distinct : (tokens swaps).Nodup) :
    turnAll swaps run = other := by
  induction swaps with
  | nil =>
    obtain ⟨_, impossible, _⟩ := paired
    cases impossible
  | cons swap swaps ih =>
    obtain ⟨⟨apart, firstOutside⟩, secondOutside, later⟩ :
        (swap.first ≠ swap.second ∧ swap.first ∉ tokens swaps) ∧ swap.second ∉ tokens swaps ∧ (tokens swaps).Nodup := by
      simpa [tokens] using distinct
    obtain ⟨found, member, tokens⟩ := paired
    rw [StringMap.turnAll, List.foldl_cons]
    rcases List.mem_cons.mp member with rfl | member
    · rcases tokens with ⟨rfl, rfl⟩ | ⟨rfl, rfl⟩
      · rw [Swap.turn, if_pos rfl]
        exact turnAll_of_notMem secondOutside
      · rw [Swap.turn, if_neg apart.symm, if_pos rfl]
        exact turnAll_of_notMem firstOutside
    · have inside : Paired swaps run other := ⟨found, member, tokens⟩
      have notFirst : run ≠ swap.first := fun same => firstOutside (same ▸ inside.mem_tokens)
      have notSecond : run ≠ swap.second := fun same => secondOutside (same ▸ inside.mem_tokens)
      rw [Swap.turn_of_ne notFirst notSecond]
      exact ih inside later

theorem turnAll_of_unpaired {run : Text} (alone : ∀ other, ¬ Paired swaps run other) : turnAll swaps run = run := by
  refine turnAll_of_notMem fun member => ?_
  obtain ⟨swap, inside, token⟩ := List.mem_flatMap.mp member
  rcases List.mem_pair.mp token with rfl | rfl
  · exact alone swap.second ⟨swap, inside, .inl ⟨rfl, rfl⟩⟩
  · exact alone swap.first ⟨swap, inside, .inr ⟨rfl, rfl⟩⟩

theorem turnAll_turnAll (distinct : (tokens swaps).Nodup) (run : Text) : turnAll swaps (turnAll swaps run) = run := by
  by_cases paired : ∃ other, Paired swaps run other
  · obtain ⟨other, paired⟩ := paired
    rw [paired.turnAll distinct, paired.symm.turnAll distinct]
  · have alone := turnAll_of_unpaired (not_exists.mp paired)
    rw [alone, alone]

theorem turnAll_of_perm {others : List Swap} (perm : swaps.Perm others) (distinct : (tokens swaps).Nodup) (run : Text) :
    turnAll swaps run = turnAll others run := by
  have same : ∀ other, Paired swaps run other ↔ Paired others run other := fun other =>
    exists_congr fun swap => and_congr_left' perm.mem_iff
  by_cases paired : ∃ other, Paired swaps run other
  · obtain ⟨other, paired⟩ := paired
    have distinct' : (tokens others).Nodup := (perm.flatMap_right _).nodup_iff.mp distinct
    rw [paired.turnAll distinct, ((same other).mp paired).turnAll distinct']
  · rw [turnAll_of_unpaired (not_exists.mp paired),
      turnAll_of_unpaired fun other found => paired ⟨other, (same other).mpr found⟩]

/-- Swaps of words that have no token in common may be applied in any order. -/
theorem applySwaps_of_perm {others : List Swap} (perm : swaps.Perm others) (words : ∀ swap ∈ swaps, swap.OfWords)
    (distinct : (tokens swaps).Nodup) (text : Text) : applySwaps swaps text = applySwaps others text := by
  have words' : ∀ swap ∈ others, swap.OfWords := fun swap member => words swap (perm.mem_iff.mpr member)
  rw [← flatten_runs (applySwaps swaps text), runs_applySwaps words, ← flatten_runs (applySwaps others text),
    runs_applySwaps words']
  exact congrArg _ (List.map_congr_left fun run _ => turnAll_of_perm perm distinct run)

theorem applySwaps_applySwaps (words : ∀ swap ∈ swaps, swap.OfWords) (distinct : (tokens swaps).Nodup) (text : Text) :
    applySwaps swaps (applySwaps swaps text) = text := by
  have twice : runs (applySwaps swaps (applySwaps swaps text)) = runs text := by
    rw [runs_applySwaps words, runs_applySwaps words, List.map_map]
    exact (List.map_congr_left fun run _ => turnAll_turnAll distinct run).trans (List.map_id _)
  rw [← flatten_runs (applySwaps swaps _), twice, flatten_runs]

end StringMap
end StyleFlip
