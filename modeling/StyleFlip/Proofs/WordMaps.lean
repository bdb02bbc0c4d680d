import StyleFlip.Options.Basic
import StyleFlip.Proofs.WordSwaps
import Mathlib.Data.List.Forall2
import Mathlib.Data.List.Nodup

/-!
String maps of whole words. The swaps of a map come from the entries that apply to a kind of text: those whose scope covers
it, by priority and by place, up to the first exclusive one (`StringMap.InEffect`). These are the ones that are reached in the
order of application (`StringMap.mem_inEffect_ranked_iff`). If a map has only words as tokens and each of them once, the
tokens of the entries in effect take each other's place (`Options.WordLevel.apply_words`).
-/
namespace StyleFlip
namespace StringMap
open Text

/-! ## The entries in effect -/

/-- The entries in the order in which they apply. -/
def ranked (entries : List MapEntry) : List MapEntry := entries.mergeSort fun a b => a.priority ≤ b.priority

/-- The entries that apply to a kind of text, of entries in the order in which they apply. -/
def inEffect (target : Target) : List MapEntry → List MapEntry
  | [] => []
  | entry :: rest =>
    if entry.scope.covers target then if entry.exclusive then [entry] else entry :: inEffect target rest
    else inEffect target rest

/-- The swaps that apply to a kind of text. -/
def swapsInEffect (entries : List MapEntry) (greedy : Bool) (target : Target) : List Swap :=
  (inEffect target (ranked entries)).flatMap fun entry => entry.swaps greedy

/-- An entry comes before another one: by its priority, or by its place in the list. -/
def Precedes (entries : List MapEntry) (entry other : MapEntry) : Prop :=
  entry.priority < other.priority ∨ entry.priority = other.priority ∧ [entry, other].Sublist entries

/-- An entry is in effect for a kind of text: its scope covers it, and no exclusive entry that does so comes before it. -/
structure InEffect (entries : List MapEntry) (target : Target) (entry : MapEntry) : Prop where
  listed : entry ∈ entries
  covers : entry.scope.covers target = true
  unclosed : ∀ other ∈ entries, Precedes entries other entry → other.scope.covers target = true → other.exclusive = false

theorem applyStages_eq (entries : List MapEntry) (greedy : Bool) (target : Target) (text : Text) :
    applyStages target (entries.map fun entry => (entry, entry.swaps greedy)) text =
      applySwaps ((inEffect target entries).flatMap fun entry => entry.swaps greedy) text := by
  induction entries generalizing text with
  | nil => rfl
  | cons entry rest ih =>
    rw [List.map_cons, applyStages, inEffect]
    split
    · split
      · rw [List.flatMap_singleton]
      · rw [ih, List.flatMap_cons]
        exact List.foldl_append.symm
    · exact ih text

theorem apply_ofEntries (entries : List MapEntry) (greedy : Bool) (target : Target) (text : Text) :
    (ofEntries entries greedy).apply target text = applySwaps (swapsInEffect entries greedy target) text :=
  applyStages_eq (ranked entries) greedy target text

theorem inEffect_sublist (target : Target) (entries : List MapEntry) : (inEffect target entries).Sublist entries := by
  induction entries with
  | nil => exact .slnil
  | cons entry rest ih =>
    rw [inEffect]
    split
    · split
      · exact .cons_cons entry (List.nil_sublist rest)
      · exact ih.cons_cons entry
    · exact ih.cons entry

theorem inEffect_of_shared {target : Target} {entries : List MapEntry} (shared : ∀ entry ∈ entries, entry.exclusive = false) :
    inEffect target entries = entries.filter fun entry => entry.scope.covers target := by
  induction entries with
  | nil => rfl
  | cons entry rest ih =>
    obtain ⟨here, later⟩ := List.forall_mem_cons.mp shared
    rw [inEffect, List.filter_cons, here, ih later]
    rfl

theorem pair_sublist_cons_iff {first entry other : MapEntry} {rest : List MapEntry} :
    [other, entry].Sublist (first :: rest) ↔ [other, entry].Sublist rest ∨ other = first ∧ entry ∈ rest := by
  simp [List.sublist_cons_iff, and_assoc, eq_comm]

theorem mem_inEffect_iff {target : Target} {entries : List MapEntry} (distinct : entries.Nodup) {entry : MapEntry} :
    entry ∈ inEffect target entries ↔ entry ∈ entries ∧ entry.scope.covers target = true ∧
      ∀ other, [other, entry].Sublist entries → other.scope.covers target = true → other.exclusive = false := by
  induction entries with
  | nil => simp [inEffect]
  | cons first rest ih =>
    obtain ⟨outside, later⟩ := List.nodup_cons.mp distinct
    simp only [pair_sublist_cons_iff]
    by_cases same : entry = first
    · -- No entry stands before the first one.
      subst same
      have unclosed : ∀ other, ¬ ([other, entry].Sublist rest ∨ other = entry ∧ entry ∈ rest) := by
        rintro other (before | ⟨_, inside⟩)
        · exact outside (before.subset (by simp))
        · exact outside inside
      have absent : entry ∉ inEffect target rest := fun member => outside ((inEffect_sublist target rest).subset member)
      cases covers : entry.scope.covers target <;> cases exclusive : entry.exclusive <;>
        simp [inEffect, covers, exclusive, unclosed, absent]
    · have listed : entry ∈ first :: rest ↔ entry ∈ rest := by simp [same]
      have unclosed : (∀ other, [other, entry].Sublist rest ∨ other = first ∧ entry ∈ rest →
            other.scope.covers target = true → other.exclusive = false) ↔
          (∀ other, [other, entry].Sublist rest → other.scope.covers target = true → other.exclusive = false) ∧
            (entry ∈ rest → first.scope.covers target = true → first.exclusive = false) := by
        simp only [or_imp, forall_and, and_imp, forall_eq]
      rw [listed, unclosed, inEffect]
      cases covers : first.scope.covers target with
      | false => simp [ih later]
      | true =>
        cases exclusive : first.exclusive with
        | false => simp [ih later, same]
        | true => simp +contextual [same]

/-- Two entries of a list stand in one order or the other. -/
theorem pair_sublist_total {entries : List MapEntry} {entry other : MapEntry} (here : entry ∈ entries) (there : other ∈ entries)
    (differ : entry ≠ other) : [entry, other].Sublist entries ∨ [other, entry].Sublist entries := by
  induction entries with
  | nil => cases here
  | cons first rest ih =>
    simp only [pair_sublist_cons_iff]
    rcases List.mem_cons.mp here with rfl | later
    · exact .inl (.inr ⟨rfl, (List.mem_cons.mp there).resolve_left differ.symm⟩)
    · rcases List.mem_cons.mp there with rfl | also
      · exact .inr (.inr ⟨rfl, later⟩)
      · exact (ih later also).imp .inl .inl

theorem pair_sublist_asymm {entries : List MapEntry} (distinct : entries.Nodup) {entry other : MapEntry}
    (before : [entry, other].Sublist entries) : ¬ [other, entry].Sublist entries := by
  induction entries with
  | nil => cases before
  | cons first rest ih =>
    obtain ⟨outside, later⟩ := List.nodup_cons.mp distinct
    rw [pair_sublist_cons_iff] at before ⊢
    rintro (after | ⟨rfl, after⟩)
    · rcases before with before | ⟨rfl, _⟩
      · exact ih later before after
      · exact outside (after.subset (by simp))
    · rcases before with before | ⟨rfl, before⟩
      · exact outside (before.subset (by simp))
      · exact outside after

theorem ranked_perm (entries : List MapEntry) : (ranked entries).Perm entries := List.mergeSort_perm entries _

section
variable {entries : List MapEntry} {entry other : MapEntry}

theorem priority_le_of_pair_sublist (before : [entry, other].Sublist (ranked entries)) : entry.priority ≤ other.priority := by
  have sorted : (ranked entries).Pairwise fun a b => decide (a.priority ≤ b.priority) = true :=
    List.pairwise_mergeSort (by simp; omega) (by simp; omega) entries
  exact of_decide_eq_true (sorted.forall_sublist before)

/-- Entries of one priority keep their order. -/
theorem pair_sublist_ranked (order : entry.priority ≤ other.priority) (before : [entry, other].Sublist entries) :
    [entry, other].Sublist (ranked entries) :=
  List.pair_sublist_mergeSort (by simp; omega) (by simp; omega) (decide_eq_true order) before

/-- One entry stands before another in the order of application exactly if it precedes it. -/
theorem pair_sublist_ranked_iff (distinct : entries.Nodup) (here : entry ∈ entries) (there : other ∈ entries) :
    [entry, other].Sublist (ranked entries) ↔ Precedes entries entry other := by
  have distinct' : (ranked entries).Nodup := (ranked_perm entries).nodup_iff.mpr distinct
  constructor
  · intro before
    have order := priority_le_of_pair_sublist before
    refine (Int.lt_or_eq_of_le order).imp_right fun same => ⟨same, ?_⟩
    have differ : entry ≠ other := by
      rintro rfl
      exact List.nodup_iff_sublist.mp distinct' entry before
    refine (pair_sublist_total here there differ).resolve_right fun after => ?_
    exact pair_sublist_asymm distinct' before (pair_sublist_ranked (Int.le_of_eq same.symm) after)
  · rintro (order | ⟨same, before⟩)
    · have differ : entry ≠ other := by
        rintro rfl
        exact Int.lt_irrefl _ order
      have placed : ∀ {entry}, entry ∈ entries → entry ∈ ranked entries := (ranked_perm entries).mem_iff.mpr
      refine (pair_sublist_total (placed here) (placed there) differ).resolve_right fun after => ?_
      exact Int.not_le.mpr order (priority_le_of_pair_sublist after)
    · exact pair_sublist_ranked (Int.le_of_eq same) before

theorem mem_inEffect_ranked_iff (distinct : entries.Nodup) {target : Target} :
    entry ∈ inEffect target (ranked entries) ↔ InEffect entries target entry := by
  have distinct' : (ranked entries).Nodup := (ranked_perm entries).nodup_iff.mpr distinct
  rw [mem_inEffect_iff distinct', (ranked_perm entries).mem_iff]
  constructor
  · rintro ⟨listed, covers, unclosed⟩
    exact ⟨listed, covers, fun other there before =>
      unclosed other ((pair_sublist_ranked_iff distinct there listed).mpr before)⟩
  · rintro ⟨listed, covers, unclosed⟩
    refine ⟨listed, covers, fun other before => ?_⟩
    have there : other ∈ entries := (ranked_perm entries).mem_iff.mp (before.subset List.mem_cons_self)
    exact unclosed other there ((pair_sublist_ranked_iff distinct there listed).mp before)

end
/-- An entry apart from its priority. -/
def unranked (entry : MapEntry) : MapEntry := { entry with priority := 0 }

/-- Without an exclusive entry the swaps are those of all entries that cover the kind of text. -/
theorem swapsInEffect_perm {entries : List MapEntry} (shared : ∀ entry ∈ entries, entry.exclusive = false)
    (greedy : Bool) (target : Target) :
    (swapsInEffect entries greedy target).Perm
      (((entries.map unranked).filter fun entry => entry.scope.covers target).flatMap fun entry =>
        entry.swaps greedy) := by
  have same : ((entries.map unranked).filter fun entry => entry.scope.covers target).flatMap
      (fun entry => entry.swaps greedy) =
        (entries.filter fun entry => entry.scope.covers target).flatMap fun entry => entry.swaps greedy := by
    rw [List.filter_map, List.flatMap_map]
    rfl
  have placed : ∀ entry ∈ ranked entries, entry.exclusive = false := fun entry member =>
    shared entry ((ranked_perm entries).mem_iff.mp member)
  rw [same, swapsInEffect, inEffect_of_shared placed]
  exact ((ranked_perm entries).filter _).flatMap_right _

/-- Two tokens that an entry in effect pairs with each other. -/
def Partners (entries : List MapEntry) (target : Target) (token other : Text) : Prop :=
  ∃ entry, InEffect entries target entry ∧
    ((token, other) ∈ entry.search.zip entry.replace ∨ (other, token) ∈ entry.search.zip entry.replace)

/-- What becomes of a run: the partner of a token takes its place, and any other run stays. -/
def Becomes (entries : List MapEntry) (target : Target) (run result : Text) : Prop :=
  Partners entries target run result ∨ result = run ∧ ∀ other, ¬ Partners entries target run other

end StringMap

/-! ## Maps of words -/

def MapEntry.tokens (entry : MapEntry) : List Text := entry.search ++ entry.replace

open Text in
/-- Valid options whose string map exchanges whole words: its tokens are words that must be spelled exactly, each stands in the
map once, and the tokens of a pair differ in more than case. -/
structure Options.WordLevel (options : Options) : Prop where
  valid : options.fault? = none
  exact : ∀ entry ∈ options.stringMap, entry.ignoreCase = false
  bounded : ∀ entry ∈ options.stringMap, entry.greedy.getD options.greedy = false
  words : ∀ entry ∈ options.stringMap, ∀ token ∈ entry.tokens, ∀ c ∈ token, isWord c = true
  distinct : (options.stringMap.flatMap MapEntry.tokens).Nodup
  apart : ∀ entry ∈ options.stringMap, ∀ pair ∈ entry.search.zip entry.replace, lower pair.1 ≠ lower pair.2

namespace MapEntry
open StringMap

theorem of_fault?_eq_none {entry : MapEntry} (valid : entry.fault? = none) :
    entry.search ≠ [] ∧ entry.search.length = entry.replace.length ∧ ∀ token ∈ entry.tokens, token ≠ [] := by
  unfold fault? at valid
  split at valid
  · cases valid
  split at valid
  · cases valid
  split at valid
  · cases valid
  rename_i filled equal nonempty
  refine ⟨by simpa using filled, not_not.mp equal, fun token member empty => nonempty ?_⟩
  exact List.any_eq_true.mpr ⟨token, member, by simp [empty]⟩

theorem mem_swaps_iff {entry : MapEntry} {greedy : Bool} {swap : Swap} :
    swap ∈ entry.swaps greedy ↔ ∃ pair ∈ entry.search.zip entry.replace, swap =
      { first := pair.1, second := pair.2, ignoreCase := entry.ignoreCase, greedy := entry.greedy.getD greedy } := by
  simp [swaps, eq_comm]

theorem perm_tokens {search replace : List Text} (equal : search.length = replace.length) :
    ((search.zip replace).flatMap fun pair => [pair.1, pair.2]).Perm (search ++ replace) := by
  induction search generalizing replace with
  | nil =>
    rw [List.length_eq_zero_iff.mp equal.symm]
    exact .refl _
  | cons token search ih =>
    cases replace with
    | nil => cases equal
    | cons other replace =>
      have later := ih (Nat.succ.inj equal)
      exact ((later.cons other).trans List.perm_middle.symm).cons token

theorem tokens_swaps_perm {entry : MapEntry} (equal : entry.search.length = entry.replace.length) (greedy : Bool) :
    (StringMap.tokens (entry.swaps greedy)).Perm entry.tokens := by
  have tokens : StringMap.tokens (entry.swaps greedy) =
      (entry.search.zip entry.replace).flatMap fun pair => [pair.1, pair.2] := List.flatMap_map ..
  rw [tokens]
  exact perm_tokens equal

end MapEntry

namespace Options.WordLevel
open Text StringMap
variable {options : Options}

theorem faultless (level : options.WordLevel) : ∀ entry ∈ options.stringMap, entry.fault? = none :=
  List.findSome?_eq_none_iff.mp level.valid

theorem ofWords (level : options.WordLevel) {entry : MapEntry} (listed : entry ∈ options.stringMap) :
    ∀ swap ∈ entry.swaps options.greedy, swap.OfWords := by
  intro swap member
  obtain ⟨pair, paired, rfl⟩ := MapEntry.mem_swaps_iff.mp member
  obtain ⟨_, _, nonempty⟩ := MapEntry.of_fault?_eq_none (level.faultless entry listed)
  have word : ∀ token ∈ entry.tokens, Wordy token := fun token inside =>
    ⟨nonempty token inside, level.words entry listed token inside⟩
  obtain ⟨first, second⟩ := List.of_mem_zip paired
  exact ⟨level.exact entry listed, level.bounded entry listed, word _ (List.mem_append_left _ first),
    word _ (List.mem_append_right _ second), level.apart entry listed pair paired⟩

/-- No entry is listed twice, for it would bring its tokens twice. -/
theorem nodup (level : options.WordLevel) : options.stringMap.Nodup := by
  refine (List.nodup_flatMap.mp level.distinct).2.imp_of_mem fun {entry other} here _ disjoint same => ?_
  obtain ⟨filled, _⟩ := MapEntry.of_fault?_eq_none (level.faultless entry here)
  obtain ⟨token, rest, search⟩ := List.exists_cons_of_ne_nil filled
  have inside : token ∈ entry.tokens := List.mem_append_left _ (search ▸ List.mem_cons_self)
  exact disjoint inside (same ▸ inside)

theorem ofWords_swapsInEffect (level : options.WordLevel) (target : Target) :
    ∀ swap ∈ swapsInEffect options.stringMap options.greedy target, swap.OfWords := by
  intro swap member
  obtain ⟨entry, inEffect, inside⟩ := List.mem_flatMap.mp member
  exact level.ofWords ((mem_inEffect_ranked_iff level.nodup).mp inEffect).listed swap inside

theorem nodup_tokens (level : options.WordLevel) (target : Target) :
    (tokens (swapsInEffect options.stringMap options.greedy target)).Nodup := by
  have kept : (inEffect target (ranked options.stringMap)).Sublist (ranked options.stringMap) := inEffect_sublist _ _
  have listed : ∀ entry ∈ inEffect target (ranked options.stringMap), entry ∈ options.stringMap := fun entry member =>
    (ranked_perm _).mem_iff.mp (kept.subset member)
  have same : (tokens (swapsInEffect options.stringMap options.greedy target)).Perm
      ((inEffect target (ranked options.stringMap)).flatMap MapEntry.tokens) := by
    rw [tokens, swapsInEffect, List.flatMap_assoc]
    exact .flatMap (.refl _) fun entry member => MapEntry.tokens_swaps_perm
      (MapEntry.of_fault?_eq_none (level.faultless entry (listed entry member))).2.1 options.greedy
  rw [same.nodup_iff]
  have distinct := ((ranked_perm options.stringMap).flatMap_right MapEntry.tokens).nodup_iff.mpr level.distinct
  rw [List.nodup_flatMap] at distinct ⊢
  exact ⟨fun entry member => distinct.1 entry (kept.subset member), distinct.2.sublist kept⟩

theorem paired_iff (level : options.WordLevel) {target : Target} {token other : Text} :
    Paired (swapsInEffect options.stringMap options.greedy target) token other ↔
      Partners options.stringMap target token other := by
  constructor
  · rintro ⟨swap, member, tokens⟩
    obtain ⟨entry, inEffect, inside⟩ := List.mem_flatMap.mp member
    obtain ⟨pair, paired, rfl⟩ := MapEntry.mem_swaps_iff.mp inside
    refine ⟨entry, (mem_inEffect_ranked_iff level.nodup).mp inEffect, tokens.imp ?_ ?_⟩
    · rintro ⟨rfl, rfl⟩
      exact paired
    · rintro ⟨rfl, rfl⟩
      exact paired
  · rintro ⟨entry, inEffect, tokens⟩
    have listed := (mem_inEffect_ranked_iff level.nodup).mpr inEffect
    have brings : ∀ pair ∈ entry.search.zip entry.replace, _ ∈ swapsInEffect options.stringMap options.greedy target :=
      fun pair member => List.mem_flatMap.mpr ⟨entry, listed, MapEntry.mem_swaps_iff.mpr ⟨pair, member, rfl⟩⟩
    rcases tokens with member | member
    · exact ⟨_, brings _ member, .inl ⟨rfl, rfl⟩⟩
    · exact ⟨_, brings _ member, .inr ⟨rfl, rfl⟩⟩

theorem becomes_turnAll (level : options.WordLevel) (target : Target) (run : Text) :
    Becomes options.stringMap target run (turnAll (swapsInEffect options.stringMap options.greedy target) run) := by
  by_cases paired : ∃ other, Partners options.stringMap target run other
  · obtain ⟨other, partners⟩ := paired
    rw [(level.paired_iff.mpr partners).turnAll (level.nodup_tokens target)]
    exact .inl partners
  · rw [turnAll_of_unpaired fun other found => paired ⟨other, level.paired_iff.mp found⟩]
    exact .inr ⟨rfl, not_exists.mp paired⟩

/-- A string map of whole words exchanges the words of the entries in effect: a run of word characters that is a token becomes
its partner, and all else stays. Done twice, this gives the text back. If no entry is exclusive, neither the order of the
entries nor their priorities matter. -/
theorem apply_words (level : options.WordLevel) (target : Target) (text : Text) :
    List.Forall₂ (Becomes options.stringMap target) (runs text) (runs (options.map.apply target text)) ∧
      options.map.apply target (options.map.apply target text) = text ∧
      ((∀ entry ∈ options.stringMap, entry.exclusive = false) → ∀ other : Options, other.greedy = options.greedy →
        (other.stringMap.map unranked).Perm (options.stringMap.map unranked) →
          other.map.apply target text = options.map.apply target text) := by
  have words := level.ofWords_swapsInEffect target
  have distinct := level.nodup_tokens target
  simp only [Options.map, apply_ofEntries]
  refine ⟨?_, applySwaps_applySwaps words distinct text, fun shared other greedy same => ?_⟩
  · rw [runs_applySwaps words, List.forall₂_map_right_iff, List.forall₂_same]
    exact fun run _ => level.becomes_turnAll target run
  · have shared' : ∀ entry ∈ other.stringMap, entry.exclusive = false := by
      intro entry member
      obtain ⟨twin, listed, equal⟩ := List.mem_map.mp (same.mem_iff.mp (List.mem_map_of_mem member))
      exact (congrArg MapEntry.exclusive equal).symm.trans (shared twin listed)
    have perm := (swapsInEffect_perm shared options.greedy target).trans
      (((same.filter _).flatMap_right _).symm.trans (swapsInEffect_perm shared' options.greedy target).symm)
    rw [greedy]
    exact (applySwaps_of_perm perm words distinct text).symm

theorem defaults : Options.WordLevel {} where
  valid := by decide
  exact := List.forall_mem_cons.mpr ⟨rfl, List.forall_mem_singleton.mpr rfl⟩
  bounded := List.forall_mem_cons.mpr ⟨rfl, List.forall_mem_singleton.mpr rfl⟩
  words := by
    have words : defaultStringMap.all (fun entry => entry.tokens.all fun token => token.all isWord) = true := by decide
    simpa only [List.all_eq_true] using words
  distinct := by decide +kernel
  apart := by
    have apart : defaultStringMap.all (fun entry => (entry.search.zip entry.replace).all fun pair =>
      lower pair.1 != lower pair.2) = true := by decide +kernel
    simpa only [List.all_eq_true, bne_iff_ne] using apart

theorem apply_words_default :
    let options : Options := {}
    let other : Options := { stringMap := (defaultStringMap.map fun entry => { entry with priority := 7 }).reverse }
    let text := ".Left > ltr-leftover".toList
    options.WordLevel ∧ (∀ entry ∈ options.stringMap, entry.exclusive = false) ∧ other.greedy = options.greedy ∧
      (other.stringMap.map unranked).Perm (options.stringMap.map unranked) ∧
      List.Forall₂ (Becomes options.stringMap .selector) (runs text) (runs (options.map.apply .selector text)) ∧
      options.map.apply .selector (options.map.apply .selector text) = text ∧
      other.map.apply .selector text = options.map.apply .selector text ∧
      options.map.apply .selector text = ".Right > rtl-leftover".toList := by
  intro options other text
  have level : options.WordLevel := defaults
  have shared : ∀ entry ∈ options.stringMap, entry.exclusive = false :=
    List.forall_mem_cons.mpr ⟨rfl, List.forall_mem_singleton.mpr rfl⟩
  have same : (other.stringMap.map unranked).Perm (options.stringMap.map unranked) := .swap ..
  obtain ⟨becomes, twice, ordered⟩ := level.apply_words .selector text
  refine ⟨level, shared, rfl, same, becomes, twice, ordered shared other rfl same, ?_⟩
  rw [Options.map, ofEntries, List.mergeSort_of_pairwise (by decide)]
  decide +kernel

end Options.WordLevel
end StyleFlip
