import StyleFlip.Directive.Form
import StyleFlip.Sheet.Basic
import Mathlib.Data.List.Basic
import Mathlib.Data.List.Range

/-!
Counting blocks. Along a list of forms, each of which opens or closes a block, the open blocks of a name are counted
(`openBlocks`). A form that closes where none is open is a stray one (`strays`), and a block stays open if the count of its
name never falls back to what it was before it (`unclosed`). What one more form does to them is said by `strays_concat` and
the `unclosed_concat` lemmas: a form that closes takes away the innermost open block of its name, since the blocks of a name that
stay open have the depths `0, 1, …` in their order (`depths_openPlaces`). All of it can be said of one name at a time
(`strays_filter`, `unclosed_filter`).
-/
namespace StyleFlip.Balance

/-- A form with the number of its comment. -/
abbrev Placed := NodeId × Directive.Form

/-- How many blocks of a name are open after some forms; a form that closes counts only if one is open. -/
def openBlocks (name : Text) (forms : List Placed) : Nat :=
  forms.foldl (fun count form => if form.2.name = name then if form.2.opens then count + 1 else count - 1 else count) 0

/-- How many blocks of its name are open before a form, given with its place. -/
def depth (forms : List Placed) (place : Placed × Nat) : Nat := openBlocks place.1.2.name (forms.take place.2)

/-- The forms that close where no block of their name is open. -/
def strays (forms : List Placed) : List Placed :=
  (forms.zipIdx.filter fun place => !place.1.2.opens && depth forms place == 0).map Prod.fst

/-- Whether a form opens a block that is never closed: from then on more blocks of its name are open than before it. -/
def staysOpen (forms : List Placed) (place : Placed × Nat) : Bool :=
  place.1.2.opens && (List.range (forms.length + 1)).all fun later =>
    later ≤ place.2 || depth forms place < openBlocks place.1.2.name (forms.take later)

/-- The forms that open a block that is never closed, with their places. -/
def openPlaces (forms : List Placed) : List (Placed × Nat) := forms.zipIdx.filter (staysOpen forms)

/-- The forms that open a block that is never closed, in their order. -/
def unclosed (forms : List Placed) : List Placed := (openPlaces forms).map Prod.fst

def isNamed (name : Text) (form : Placed) : Bool := form.2.name == name

section
variable {name : Text} {forms : List Placed} {form : Placed} {place : Placed × Nat}

/-! ## One more form -/

theorem openBlocks_concat (name : Text) (forms : List Placed) (form : Placed) :
    openBlocks name (forms ++ [form]) =
      if form.2.name = name then if form.2.opens then openBlocks name forms + 1 else openBlocks name forms - 1
      else openBlocks name forms := by
  simp [openBlocks]

theorem lt_length_of_mem_zipIdx (member : place ∈ forms.zipIdx) : place.2 < forms.length := by
  have bounds := List.mem_zipIdx (x := place.1) (i := place.2) member
  omega

theorem depth_concat (early : place.2 ≤ forms.length) : depth (forms ++ [form]) place = depth forms place := by
  rw [depth, depth, List.take_append_of_le_length early]

theorem depth_last (forms : List Placed) (form : Placed) :
    depth (forms ++ [form]) (form, forms.length) = openBlocks form.2.name forms := by
  rw [depth, List.take_append_of_le_length (Nat.le_refl _), List.take_length]

/-- A form that closes is a stray one if no block of its name is open. -/
theorem strays_concat (forms : List Placed) (form : Placed) :
    strays (forms ++ [form]) =
      strays forms ++ if form.2.opens = false ∧ openBlocks form.2.name forms = 0 then [form] else [] := by
  have before : forms.zipIdx.filter (fun place => !place.1.2.opens && depth (forms ++ [form]) place == 0) =
      forms.zipIdx.filter (fun place => !place.1.2.opens && depth forms place == 0) := by
    refine List.filter_congr fun place member => ?_
    rw [depth_concat (Nat.le_of_lt (lt_length_of_mem_zipIdx member))]
  rw [strays, List.zipIdx_append, List.filter_append, List.map_append, before, ← strays]
  congr 1
  simp only [List.zipIdx_singleton, List.filter_cons, List.filter_nil, Nat.zero_add, depth_last]
  by_cases stray : form.2.opens = false ∧ openBlocks form.2.name forms = 0
  · simp [stray]
  · rw [if_neg stray]
    simpa using stray

/-- A block stays open over one more form if there are still more blocks of its name open than before it. -/
theorem staysOpen_concat (early : place.2 < forms.length) (form : Placed) :
    staysOpen (forms ++ [form]) place =
      (staysOpen forms place && decide (depth forms place < openBlocks place.1.2.name (forms ++ [form]))) := by
  have same : depth (forms ++ [form]) place = depth forms place := depth_concat (Nat.le_of_lt early)
  have before : ((List.range (forms.length + 1)).all fun later =>
        later ≤ place.2 || depth forms place < openBlocks place.1.2.name ((forms ++ [form]).take later)) =
      (List.range (forms.length + 1)).all fun later =>
        later ≤ place.2 || depth forms place < openBlocks place.1.2.name (forms.take later) := by
    rw [Bool.eq_iff_iff, List.all_eq_true, List.all_eq_true]
    refine forall₂_congr fun later member => ?_
    rw [List.take_append_of_le_length (Nat.le_of_lt_succ (List.mem_range.mp member))]
  have last : ¬ forms.length + 1 ≤ place.2 := by omega
  have whole : (forms ++ [form]).take (forms.length + 1) = forms ++ [form] := List.take_of_length_le (by simp)
  rw [staysOpen, staysOpen, List.length_append, List.length_singleton, List.range_succ, List.all_append, same, before]
  simp only [List.all_cons, List.all_nil, Bool.and_true, whole, last, decide_false, Bool.false_or, Bool.and_assoc]

theorem depth_lt_of_mem_openPlaces (member : place ∈ openPlaces forms) :
    place.2 < forms.length ∧ depth forms place < openBlocks place.1.2.name forms := by
  obtain ⟨listed, stays⟩ := List.mem_filter.mp member
  have early := lt_length_of_mem_zipIdx listed
  refine ⟨early, ?_⟩
  have last := List.all_eq_true.mp (Bool.and_eq_true_iff.mp stays).2 forms.length (List.mem_range.mpr (Nat.lt_succ_self _))
  simpa [Nat.not_le.mpr early] using last

/-- One more form takes away the blocks whose depth the count falls back to, and adds its own if it opens. -/
theorem openPlaces_concat (forms : List Placed) (form : Placed) :
    openPlaces (forms ++ [form]) =
      (openPlaces forms).filter (fun place => depth forms place < openBlocks place.1.2.name (forms ++ [form])) ++
        if form.2.opens then [(form, forms.length)] else [] := by
  have before : forms.zipIdx.filter (staysOpen (forms ++ [form])) =
      (openPlaces forms).filter fun place => depth forms place < openBlocks place.1.2.name (forms ++ [form]) := by
    rw [openPlaces, List.filter_filter]
    refine List.filter_congr fun place member => ?_
    rw [staysOpen_concat (lt_length_of_mem_zipIdx member), Bool.and_comm]
  have own : staysOpen (forms ++ [form]) (form, forms.length) = form.2.opens := by
    cases opens : form.2.opens with
    | false => simp [staysOpen, opens]
    | true =>
      rw [staysOpen, depth_last, opens, Bool.true_and, List.all_eq_true]
      intro later _
      by_cases early : later ≤ forms.length
      · simp [early]
      · have whole : (forms ++ [form]).take later = forms ++ [form] := List.take_of_length_le (by simp; omega)
        simp [whole, openBlocks_concat, opens]
  rw [openPlaces, List.zipIdx_append, List.filter_append, before]
  simp only [List.zipIdx_singleton, Nat.zero_add, List.filter_cons, List.filter_nil, own]

/-! ## Depths -/

theorem filter_lt_range (count limit : Nat) :
    (List.range count).filter (fun level => level < limit) = List.range (min count limit) := by
  induction count with
  | zero => simp
  | succ count ih =>
    rw [List.range_succ, List.filter_append, ih]
    by_cases below : count < limit
    · rw [Nat.min_eq_left (Nat.le_of_lt below), Nat.min_eq_left below, List.range_succ]
      simp [below]
    · rw [Nat.min_eq_right (by omega), Nat.min_eq_right (by omega)]
      simp [below]

/-- The blocks of a name that stay open have the depths `0, 1, …` in their order. -/
theorem depths_openPlaces (name : Text) (forms : List Placed) :
    ((openPlaces forms).filter fun place => isNamed name place.1).map (depth forms) = List.range (openBlocks name forms) := by
  induction forms using List.reverseRecOn with
  | nil => rfl
  | append_singleton forms form ih =>
    -- Of the blocks before, those remain whose depth lies below the new count.
    have before : (((openPlaces forms).filter fun place =>
          depth forms place < openBlocks place.1.2.name (forms ++ [form])).filter fun place => isNamed name place.1).map
            (depth (forms ++ [form])) =
        (List.range (openBlocks name forms)).filter fun level => level < openBlocks name (forms ++ [form]) := by
      have same : ((openPlaces forms).filter fun place =>
            depth forms place < openBlocks place.1.2.name (forms ++ [form])).filter (fun place => isNamed name place.1) =
          ((openPlaces forms).filter fun place => isNamed name place.1).filter
            ((fun level => decide (level < openBlocks name (forms ++ [form]))) ∘ depth forms) := by
        rw [List.filter_filter, List.filter_filter]
        refine List.filter_congr fun place _ => ?_
        by_cases named : place.1.2.name = name
        · simp [isNamed, named]
        · simp [isNamed, beq_eq_false_iff_ne.mpr named]
      rw [same, ← ih, List.filter_map]
      refine List.map_congr_left fun place member => ?_
      have listed := (List.mem_filter.mp (List.mem_filter.mp member).1).1
      exact depth_concat (Nat.le_of_lt (depth_lt_of_mem_openPlaces listed).1)
    rw [openPlaces_concat, List.filter_append, List.map_append, before, openBlocks_concat]
    rw [filter_lt_range]
    by_cases named : form.2.name = name
    · cases opens : form.2.opens with
      | true => simp [named, isNamed, depth_last, List.range_succ]
      | false => simp [named]
    · cases opens : form.2.opens <;> simp [named, isNamed, beq_eq_false_iff_ne.mpr named]

/-- As many blocks of a name stay open as its count says. -/
theorem length_filter_unclosed (name : Text) (forms : List Placed) :
    ((unclosed forms).filter (isNamed name)).length = openBlocks name forms := by
  rw [unclosed, List.filter_map, List.length_map]
  have counted := congrArg List.length (depths_openPlaces name forms)
  rw [List.length_map, List.length_range] at counted
  exact counted

theorem unclosed_sublist (forms : List Placed) : (unclosed forms).Sublist forms := by
  have listed := (List.filter_sublist (p := staysOpen forms) (l := forms.zipIdx)).map Prod.fst
  rwa [List.zipIdx_map_fst] at listed

theorem openBlocks_eq_zero_iff : openBlocks name forms = 0 ↔ ∀ other ∈ unclosed forms, other.2.name ≠ name := by
  rw [← length_filter_unclosed, List.length_eq_zero_iff, List.filter_eq_nil_iff]
  simp [isNamed]

/-! ## Blocks that stay open -/

theorem unclosed_concat_opens (opens : form.2.opens = true) : unclosed (forms ++ [form]) = unclosed forms ++ [form] := by
  have kept : (openPlaces forms).filter (fun place => depth forms place < openBlocks place.1.2.name (forms ++ [form])) =
      openPlaces forms := by
    refine List.filter_eq_self.mpr fun place member => ?_
    have below := (depth_lt_of_mem_openPlaces member).2
    rw [decide_eq_true_eq, openBlocks_concat, opens]
    split
    · exact Nat.lt_succ_of_lt below
    · exact below
  rw [unclosed, openPlaces_concat, kept, opens, if_pos rfl, List.map_append]
  rfl

/-- A form that closes nothing leaves the open blocks as they are. -/
theorem unclosed_concat_stray (closes : form.2.opens = false) (stray : openBlocks form.2.name forms = 0) :
    unclosed (forms ++ [form]) = unclosed forms := by
  have kept : (openPlaces forms).filter (fun place => depth forms place < openBlocks place.1.2.name (forms ++ [form])) =
      openPlaces forms := by
    refine List.filter_eq_self.mpr fun place member => ?_
    have other : form.2.name ≠ place.1.2.name :=
      Ne.symm (openBlocks_eq_zero_iff.mp stray place.1 (List.mem_map_of_mem member))
    rw [decide_eq_true_eq, openBlocks_concat, if_neg other]
    exact (depth_lt_of_mem_openPlaces member).2
  rw [unclosed, openPlaces_concat, kept, closes]
  simp [unclosed]

/-- A form that closes takes away the innermost open block of its name. -/
theorem unclosed_concat_closes (closes : form.2.opens = false) {front later : List Placed} {found : Placed}
    (row : unclosed forms = front ++ found :: later) (named : found.2.name = form.2.name)
    (innermost : ∀ other ∈ later, other.2.name ≠ form.2.name) : unclosed (forms ++ [form]) = front ++ later := by
  obtain ⟨before, rest, places, rfl, restRow⟩ := List.map_eq_append_iff.mp row
  obtain ⟨place, behind, rfl, rfl, rfl⟩ := List.map_eq_cons_iff.mp restRow
  have silent : (behind.filter fun place => isNamed form.2.name place.1) = [] := by
    refine List.filter_eq_nil_iff.mpr fun other member => ?_
    simpa [isNamed] using innermost other.1 (List.mem_map_of_mem member)
  -- The innermost block of the name has the greatest depth, the others of the name lie below it.
  have depths := depths_openPlaces form.2.name forms
  rw [places, List.filter_append, List.filter_cons_of_pos (by simp [isNamed, named]), silent, List.map_append] at depths
  obtain ⟨level, counted⟩ : ∃ level, openBlocks form.2.name forms = level + 1 := by
    have length := congrArg List.length depths
    simp only [List.length_append, List.map_cons, List.map_nil, List.length_singleton, List.length_range] at length
    exact ⟨_, length.symm⟩
  rw [counted, List.range_succ] at depths
  obtain ⟨lower, top⟩ := List.append_inj' depths rfl
  have after : ∀ other, openBlocks other (forms ++ [form]) = if form.2.name = other then level else openBlocks other forms := by
    intro other
    rw [openBlocks_concat, closes]
    split
    · rename_i same
      rw [← same, counted]
      rfl
    · rfl
  have keepsBefore : before.filter (fun place => depth forms place < openBlocks place.1.2.name (forms ++ [form])) = before := by
    refine List.filter_eq_self.mpr fun other member => ?_
    rw [decide_eq_true_eq, after]
    split
    · rename_i same
      have listed : depth forms other ∈ List.range level := by
        rw [← lower]
        exact List.mem_map_of_mem (List.mem_filter.mpr ⟨member, by simp [isNamed, same]⟩)
      exact List.mem_range.mp listed
    · exact (depth_lt_of_mem_openPlaces (by rw [places]; exact List.mem_append_left _ member)).2
  have keepsBehind : behind.filter (fun place => depth forms place < openBlocks place.1.2.name (forms ++ [form])) = behind := by
    refine List.filter_eq_self.mpr fun other member => ?_
    have foreign : form.2.name ≠ other.1.2.name := Ne.symm (innermost other.1 (List.mem_map_of_mem member))
    rw [decide_eq_true_eq, after, if_neg foreign]
    exact (depth_lt_of_mem_openPlaces (by rw [places]; exact List.mem_append_right _ (List.mem_cons_of_mem _ member))).2
  have dropped : ¬ depth forms place < openBlocks place.1.2.name (forms ++ [form]) := by
    rw [after, if_pos named.symm, show depth forms place = level from (List.cons.inj top).1]
    exact Nat.lt_irrefl level
  rw [unclosed, openPlaces_concat, closes, places, List.filter_append, List.filter_cons_of_neg (by simpa using dropped),
    keepsBefore, keepsBehind]
  simp

/-! ## One name at a time -/

theorem openBlocks_filter (name : Text) (forms : List Placed) :
    openBlocks name (forms.filter (isNamed name)) = openBlocks name forms := by
  induction forms using List.reverseRecOn with
  | nil => rfl
  | append_singleton forms form ih =>
    rw [List.filter_append, openBlocks_concat]
    by_cases named : form.2.name = name
    · rw [List.filter_cons_of_pos (by simp [isNamed, named]), List.filter_nil, openBlocks_concat, ih]
    · rw [List.filter_cons_of_neg (by simp [isNamed, named]), List.filter_nil, List.append_nil, ih, if_neg named]

/-- Which forms of a name are stray ones depends on the forms of that name alone. -/
theorem strays_filter (name : Text) (forms : List Placed) :
    (strays forms).filter (isNamed name) = strays (forms.filter (isNamed name)) := by
  induction forms using List.reverseRecOn with
  | nil => rfl
  | append_singleton forms form ih =>
    rw [strays_concat, List.filter_append, List.filter_append, ih]
    by_cases named : form.2.name = name
    · rw [List.filter_cons_of_pos (by simp [isNamed, named]), List.filter_nil, strays_concat, named, openBlocks_filter]
      congr 1
      split
      · simp [isNamed, named]
      · rfl
    · rw [List.filter_cons_of_neg (by simp [isNamed, named]), List.filter_nil, List.append_nil]
      split
      · simp [isNamed, named]
      · simp

theorem exists_last_named {forms : List Placed} (listed : ∃ form ∈ forms, form.2.name = name) :
    ∃ front found later, forms = front ++ found :: later ∧ found.2.name = name ∧ ∀ other ∈ later, other.2.name ≠ name := by
  induction forms using List.reverseRecOn with
  | nil =>
    obtain ⟨_, member, _⟩ := listed
    cases member
  | append_singleton forms form ih =>
    by_cases named : form.2.name = name
    · exact ⟨forms, form, [], rfl, named, by simp⟩
    · have earlier : ∃ other ∈ forms, other.2.name = name := by
        obtain ⟨other, member, same⟩ := listed
        rcases List.mem_append.mp member with old | new
        · exact ⟨other, old, same⟩
        · rw [List.mem_singleton.mp new] at same
          exact absurd same named
      obtain ⟨front, found, later, row, same, innermost⟩ := ih earlier
      refine ⟨front, found, later ++ [form], by simp [row], same, ?_⟩
      intro other member
      rcases List.mem_append.mp member with old | new
      · exact innermost other old
      · rw [List.mem_singleton.mp new]
        exact named

/-- Of the open blocks of a name, if there are any, one is the innermost. -/
theorem exists_innermost (isOpen : openBlocks name forms ≠ 0) :
    ∃ front found later, unclosed forms = front ++ found :: later ∧ found.2.name = name ∧
      ∀ other ∈ later, other.2.name ≠ name := by
  refine exists_last_named ?_
  by_contra none
  push Not at none
  exact isOpen (openBlocks_eq_zero_iff.mpr none)

/-- Which blocks of a name stay open depends on the forms of that name alone. -/
theorem unclosed_filter (name : Text) (forms : List Placed) :
    (unclosed forms).filter (isNamed name) = unclosed (forms.filter (isNamed name)) := by
  induction forms using List.reverseRecOn with
  | nil => rfl
  | append_singleton forms form ih =>
    rw [List.filter_append]
    by_cases named : form.2.name = name
    · have own : isNamed name form = true := by simp [isNamed, named]
      rw [List.filter_cons_of_pos own, List.filter_nil]
      cases opens : form.2.opens with
      | true => rw [unclosed_concat_opens opens, unclosed_concat_opens opens, List.filter_append, ih, List.filter_cons_of_pos own,
          List.filter_nil]
      | false =>
        by_cases stray : openBlocks form.2.name forms = 0
        · have alone : openBlocks form.2.name (forms.filter (isNamed name)) = 0 := by
            rw [named, openBlocks_filter, ← named, stray]
          rw [unclosed_concat_stray opens stray, unclosed_concat_stray opens alone, ih]
        · obtain ⟨front, found, later, row, same, innermost⟩ := exists_innermost stray
          have silent : later.filter (isNamed name) = [] := by
            refine List.filter_eq_nil_iff.mpr fun other member => ?_
            simpa [isNamed, named] using innermost other member
          have alone : unclosed (forms.filter (isNamed name)) = front.filter (isNamed name) ++ found :: [] := by
            rw [← ih, row, List.filter_append, List.filter_cons_of_pos (by simp [isNamed, same, named]), silent]
          rw [unclosed_concat_closes opens row same innermost, unclosed_concat_closes opens alone same (by simp),
            List.filter_append, silent]
    · have foreign : isNamed name form = false := by simp [isNamed, named]
      rw [List.filter_cons_of_neg (by simp [foreign]), List.filter_nil, List.append_nil, ← ih]
      cases opens : form.2.opens with
      | true => rw [unclosed_concat_opens opens, List.filter_append]; simp [foreign]
      | false =>
        by_cases stray : openBlocks form.2.name forms = 0
        · rw [unclosed_concat_stray opens stray]
        · obtain ⟨front, found, later, row, same, innermost⟩ := exists_innermost stray
          have other : isNamed name found = false := by simp [isNamed, same, named]
          rw [unclosed_concat_closes opens row same innermost, row, List.filter_append, List.filter_append,
            List.filter_cons_of_neg (by simp [other])]

end
end StyleFlip.Balance
