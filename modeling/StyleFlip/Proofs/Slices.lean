import StyleFlip.Proofs.Bytes

/-!
Reading by slices: the reader of stylesheets said once more on the bytes of the text. It keeps the byte at which it stands, takes
every piece out of the text, out of a header or out of a value with comments as a slice between two bytes, and looks for the ends
of headers and for exclamation marks byte by byte. It has no result if a slice is out of range or splits a character, or if it
takes more steps than the text has bytes. Neither ever happens, and its result is that of the reader (`parseSlices?_eq`).
-/
namespace StyleFlip

namespace Text

theorem getElem?_bytes_append (text rest : Text) : (bytes (text ++ rest))[byteCount text]? = (bytes rest).head? := by
  rw [bytes_append, List.getElem?_append_right (by rw [length_bytes]), length_bytes, Nat.sub_self, List.head?_eq_getElem?]

theorem byteCount_pos {text : Text} (some : text ≠ []) : 0 < byteCount text := by
  cases text with
  | nil => exact absurd rfl some
  | cons c rest => exact Nat.add_pos_left c.utf8Size_pos _

end Text

/-! ## Segments -/

namespace Segment
open Text

/-- The comment that starts at a byte and the byte behind it. -/
def commentSlices? (text before : Text) (start : Nat) : Option (Ending ⊕ Segment × Nat) := do
  let inner ← from? text (start + 2)
  match find? commentClose inner with
  | none => return .inl (.fault (.openComment start))
  | some length =>
    let body ← slice? text (start + 2) (start + 2 + length)
    return .inr (⟨before, start, .comment body⟩, start + 2 + length + 2)

/-- The segment with a header that starts at a byte and the byte behind it. -/
def headerSlices? (text before : Text) (start : Nat) : Option (Ending ⊕ Segment × Nat) := do
  match ← scanFrom? text 0 start ((bytes text).drop start) with
  | .error error => return .inl (.fault error)
  | .ok stop =>
    let header ← slice? text start stop
    let next := (bytes text)[stop]?
    if next = some '{'.toUInt8 then return .inr (⟨before, start, .opening header⟩, stop + 1)
    if next = some ';'.toUInt8 then return .inr (⟨before, start, .statement header true⟩, stop + 1)
    return .inr (⟨before, start, .statement header false⟩, stop)

/-- The segment that starts at a byte, behind its spacing, and the byte behind it, or how the row ends there. -/
def stepSlicesAt? (text before : Text) (start : Nat) : Option (Ending ⊕ Segment × Nat) := do
  if byteCount text ≤ start then return .inl (.spacing before)
  let rest ← from? text start
  if rest.head? = some '}' then return .inr (⟨before, start, .closing⟩, start + 1)
  if rest.take 2 = commentOpen then commentSlices? text before start else headerSlices? text before start

/-- The first segment from a byte on and the byte behind it, or how the row ends. -/
def stepSlices? (text : Text) (place : Nat) : Option (Ending ⊕ Segment × Nat) := do
  let rest ← from? text place
  let length := byteCount (rest.takeWhile isSpacing)
  let before ← until? rest length
  stepSlicesAt? text before (place + length)

/-- The segments of a text from a byte on, and how the row ends, in a number of steps. -/
def cutSlices? (text : Text) : Nat → Nat → Option (List Segment × Ending)
  | 0, _ => none
  | steps + 1, place => do
    match ← stepSlices? text place with
    | .inl ending => return ([], ending)
    | .inr (segment, next) =>
      let (others, ending) ← cutSlices? text steps next
      return (segment :: others, ending)

/-- A step of the cut, with the byte behind the segment in place of the text behind it. -/
def Step.placed : Step → Ending ⊕ Segment × Nat
  | .stop ending => .inl ending
  | .segment taken _ => .inr (taken, taken.start + byteCount taken.shape.text)

theorem commentSlices?_eq (earlier inner before : Text) :
    commentSlices? (earlier ++ '/' :: '*' :: inner) before (byteCount earlier) =
      some (stepAt before (byteCount earlier) ('/' :: '*' :: inner)).placed := by
  have size : byteCount (earlier ++ commentOpen) = byteCount earlier + 2 := byteCount_append earlier commentOpen
  rw [commentSlices?, from?_commentOpen, stepAt]
  cases cut : cut? commentClose inner with
  | none => simp [find?, cut, Step.placed]
  | some found =>
    obtain ⟨body, following⟩ := found
    have taken : slice? (earlier ++ '/' :: '*' :: inner) (byteCount earlier + 2) (byteCount earlier + 2 + byteCount body) =
        some body := by
      have slice := slice?_append (earlier ++ commentOpen) body (commentClose ++ following)
      rwa [← List.append_assoc body, ← cut?_eq_some cut, List.append_assoc, size] at slice
    simp only [find?, cut, Option.map_some, Option.bind_eq_bind, Option.bind_some, taken, Step.placed, Shape.text,
      byteCount_comment, ← Nat.add_assoc]
    rfl

theorem headerSlices?_eq {c : Char} {rest : Text} (inside : c ≠ '}') (alone : ∀ inner, c = '/' → rest = '*' :: inner → False)
    (earlier before : Text) :
    headerSlices? (earlier ++ c :: rest) before (byteCount earlier) =
      some (stepAt before (byteCount earlier) (c :: rest)).placed := by
  rw [headerSlices?, drop_bytes_append, scanFrom?_bytes]
  cases read : readHeader .plain 0 (byteCount earlier) (c :: rest) with
  | error error =>
    rw [stepAt, read]
    · rfl
    · exact inside
    · exact alone
  | ok found =>
    obtain ⟨header, following⟩ := found
    rw [stepAt_of_readHeader inside alone read]
    have whole := readHeader_eq_ok read
    have taken := slice?_append earlier header following
    have next := getElem?_bytes_append (earlier ++ header) following
    rw [List.append_assoc, ← whole, byteCount_append] at next
    rw [← whole] at taken
    have stopped : ∀ tail : Text, byteCount earlier + byteCount (header ++ tail) =
        byteCount earlier + byteCount header + byteCount tail := by
      intro tail
      rw [byteCount_append, Nat.add_assoc]
    rcases readHeader_following read with rfl | ⟨d, more, rfl, ends⟩
    · rw [show (bytes []).head? = none from rfl] at next
      simp [Except.map, taken, next, ofHeader, Step.placed, Shape.text]
    · simp only [endsHeader, Bool.or_eq_true, beq_iff_eq] at ends
      have braces : '}'.toUInt8 ≠ '{'.toUInt8 ∧ '}'.toUInt8 ≠ ';'.toUInt8 ∧ ';'.toUInt8 ≠ '{'.toUInt8 := by decide
      rcases ends with (rfl | rfl) | rfl
      · rw [show (bytes ('{' :: more)).head? = some '{'.toUInt8 from rfl] at next
        simp [Except.map, taken, next, ofHeader, Step.placed, Shape.text, stopped, show byteCount ['{'] = 1 from rfl]
      · rw [show (bytes (';' :: more)).head? = some ';'.toUInt8 from rfl] at next
        simp [Except.map, taken, next, ofHeader, Step.placed, Shape.text, stopped, braces, show byteCount [';'] = 1 from rfl]
      · rw [show (bytes ('}' :: more)).head? = some '}'.toUInt8 from rfl] at next
        simp [Except.map, taken, next, ofHeader, Step.placed, Shape.text, braces]

theorem stepSlicesAt?_eq (earlier rest before : Text) :
    stepSlicesAt? (earlier ++ rest) before (byteCount earlier) = some (stepAt before (byteCount earlier) rest).placed := by
  cases rest with
  | nil => simp [stepSlicesAt?, stepAt, Step.placed]
  | cons c rest =>
    have inside : ¬ byteCount (earlier ++ c :: rest) ≤ byteCount earlier := by
      have own := @byteCount_pos (c :: rest) (by simp)
      rw [byteCount_append]
      omega
    by_cases closing : c = '}'
    · subst closing
      simp [stepSlicesAt?, inside, from?_append, stepAt, Step.placed, Shape.text, show byteCount ['}'] = 1 from rfl]
    · by_cases comment : (c :: rest).take 2 = commentOpen
      · obtain ⟨inner, rfl, rfl⟩ : ∃ inner, c = '/' ∧ rest = '*' :: inner := by
          cases rest with
          | nil => cases comment
          | cons d inner =>
            cases comment
            exact ⟨inner, rfl, rfl⟩
        simp only [stepSlicesAt?, inside, if_false, from?_append]
        exact commentSlices?_eq earlier inner before
      · have alone : ∀ inner, c = '/' → rest = '*' :: inner → False := by
          rintro inner rfl rfl
          exact comment rfl
        simp only [stepSlicesAt?, inside, if_false, from?_append, Option.bind_eq_bind, Option.bind_some, List.head?_cons,
          Option.some.injEq, closing, comment]
        exact headerSlices?_eq closing alone earlier before

theorem stepSlices?_eq (earlier rest : Text) :
    stepSlices? (earlier ++ rest) (byteCount earlier) = some (step (byteCount earlier) rest).placed := by
  have spacing : until? rest (byteCount (rest.takeWhile isSpacing)) = some (rest.takeWhile isSpacing) := by
    have cut := until?_append (rest.takeWhile isSpacing) (rest.dropWhile isSpacing)
    rwa [List.takeWhile_append_dropWhile] at cut
  have behind := stepSlicesAt?_eq (earlier ++ rest.takeWhile isSpacing) (rest.dropWhile isSpacing) (rest.takeWhile isSpacing)
  rw [List.append_assoc, List.takeWhile_append_dropWhile, byteCount_append] at behind
  simp only [stepSlices?, from?_append, Option.bind_eq_bind, Option.bind_some, spacing, behind]
  rfl

/-- Every segment takes at least one byte, so that there are enough steps. -/
theorem cutSlices?_eq {steps : Nat} (earlier rest : Text) (enough : byteCount rest < steps) :
    cutSlices? (earlier ++ rest) steps (byteCount earlier) = some (cutFrom (byteCount earlier) rest) := by
  induction steps generalizing earlier rest with
  | zero => exact absurd enough (Nat.not_lt_zero _)
  | succ steps ih =>
    rw [cutSlices?, stepSlices?_eq]
    cases taken : step (byteCount earlier) rest with
    | stop ending =>
      rw [cutFrom_of_stop taken]
      rfl
    | segment segment following =>
      have whole := step_eq_segment taken
      have own := byteCount_pos (shape_text_ne_nil taken)
      obtain ⟨before, start, _⟩ := stepAt_eq_segment taken
      have next : segment.start + byteCount segment.shape.text =
          byteCount (earlier ++ (segment.before ++ segment.shape.text)) := by
        rw [start, ← before, byteCount_append, byteCount_append, Nat.add_assoc]
      have later := ih (earlier ++ (segment.before ++ segment.shape.text)) following
        (by rw [whole, byteCount_append, byteCount_append] at enough; omega)
      rw [List.append_assoc, ← whole, ← next] at later
      rw [cutFrom_of_segment taken]
      simp only [Step.placed, Option.bind_eq_bind, Option.bind_some, later]
      rfl

end Segment

/-! ## Headers -/

namespace Sheet
open Segment Text

/-- The byte of the last exclamation mark outside comments from `place` on, where the given bytes stand, or else `last`. To look for
the end of a comment the text is cut behind its start. -/
def lastBang? (text : Text) (last : Option Nat) (place : Nat) : List UInt8 → Option (Option Nat)
  | [] => some last
  | b :: rest =>
    if b = '/'.toUInt8 ∧ rest.head? = some '*'.toUInt8 then
      match from? text (place + 2) with
      | none => none
      | some inner =>
        match find? commentClose inner with
        | none => some last
        | some length => lastBang? text last (place + 2 + length + 2) (rest.drop (1 + length + 2))
    else lastBang? text (if b = '!'.toUInt8 then some place else last) (place + 1) rest
termination_by bytes => bytes.length
decreasing_by all_goals simp only [List.length_drop, List.length_cons]; omega

/-- Inside a comment no exclamation mark counts. -/
theorem cutLastBang?_commented (text : Text) :
    cutLastBang? true text = (cut? commentClose text).bind fun found =>
      (cutLastBang? false found.2).map (keep (found.1 ++ commentClose)) := by
  induction text with
  | nil => rfl
  | cons c rest ih =>
    cases close : after? commentClose (c :: rest) with
    | some following =>
      obtain ⟨rfl, rfl⟩ := List.cons_eq_cons.mp (after?_eq_some close)
      rw [cut?, close]
      rfl
    | none =>
      have stays : ∀ inner, c = '*' → rest = '/' :: inner → False := by
        rintro inner rfl rfl
        cases close
      rw [cutLastBang?, ih, cut?, close]
      · cases cut? commentClose rest with
        | none => rfl
        | some found =>
          simp only [Option.bind_some, Option.map_some]
          cases cutLastBang? false found.2 <;> simp [keep]
      · exact fun _ inside => Bool.noConfusion inside
      · exact fun inner _ star slash => stays inner star slash

/-- An exclamation mark counts if it stands outside comments and none comes later. -/
theorem cutLastBang?_cons {c : Char} {rest : Text} (alone : ∀ inner, c = '/' → rest = '*' :: inner → False) :
    cutLastBang? false (c :: rest) =
      ((cutLastBang? false rest).map (keep [c])).or (if c = '!' then some ([], rest) else none) := by
  rw [cutLastBang?]
  · cases cutLastBang? false rest <;> simp
  · exact fun inner _ slash star => alone inner slash star
  · exact fun _ inside => Bool.noConfusion inside

theorem lastBang?_of_beyond {text : Text} {high : List UInt8} (beyond : ∀ b ∈ high, 128 ≤ b.toChar.toNat) (last : Option Nat)
    (place : Nat) (rest : List UInt8) :
    lastBang? text last place (high ++ rest) = lastBang? text last (place + high.length) rest := by
  induction high generalizing place with
  | nil => rfl
  | cons b high ih =>
    obtain ⟨here, others⟩ := List.forall_mem_cons.mp beyond
    have slash : ¬ (b = '/'.toUInt8 ∧ (high ++ rest).head? = some '*'.toUInt8) :=
      fun both => ne_toUInt8_of_beyond here (by decide) both.1
    rw [List.cons_append, lastBang?, if_neg slash, if_neg (ne_toUInt8_of_beyond here (by decide)), ih others, List.length_cons]
    congr 1
    omega

/-- A character outside comments may be an exclamation mark; no byte of it means anything else. -/
theorem lastBang?_plain {c : Char} {rest : Text} (alone : ∀ inner, c = '/' → rest = '*' :: inner → False) (text : Text)
    (last : Option Nat) (place : Nat) :
    lastBang? text last place (bytes (c :: rest)) =
      lastBang? text (if c = '!' then some place else last) (place + c.utf8Size) (bytes rest) := by
  rw [bytes_cons]
  by_cases ascii : c.toNat < 128
  · obtain ⟨single, _, size⟩ := utf8EncodeChar_of_ascii ascii
    rw [single, List.singleton_append, lastBang?, if_neg (not_opens_of_alone ascii alone), size]
    simp only [toUInt8_inj ascii (by decide : '!'.toNat < 128)]
  · have beyond := Nat.le_of_not_lt ascii
    have bang : c ≠ '!' := by
      rintro rfl
      exact ascii (by decide)
    rw [lastBang?_of_beyond fun b => beyond_of_mem_utf8EncodeChar beyond, String.length_utf8EncodeChar, if_neg bang]

/-- A comment is stepped over. -/
theorem lastBang?_comment (before inner : Text) (last : Option Nat) :
    lastBang? (before ++ '/' :: '*' :: inner) last (byteCount before) (bytes ('/' :: '*' :: inner)) =
      (cut? commentClose inner).elim (some last) fun found =>
        lastBang? (before ++ '/' :: '*' :: inner) last (byteCount before + byteCount (commentOpen ++ found.1 ++ commentClose))
          (bytes found.2) := by
  have start : bytes ('/' :: '*' :: inner) = '/'.toUInt8 :: '*'.toUInt8 :: bytes inner := rfl
  rw [start, lastBang?, if_pos ⟨rfl, rfl⟩, from?_commentOpen]
  cases cut : cut? commentClose inner with
  | none => simp [find?, cut]
  | some found =>
    simp only [find?, cut, Option.map_some, Option.elim_some]
    rw [drop_bytes_of_cut? cut, byteCount_comment, ← Nat.add_assoc, ← Nat.add_assoc]

/-- The place of what was found behind a text that was kept. -/
theorem map_place_keep (place : Nat) (head : Text) (found : Option (Text × Text)) :
    (found.map (keep head)).map (fun found => place + byteCount found.1) =
      found.map fun found => place + byteCount head + byteCount found.1 := by
  cases found with
  | none => rfl
  | some found => simp [keep, byteCount_append, Nat.add_assoc]

/-- Looking for the last exclamation mark byte by byte finds the one that is found among the characters. -/
theorem lastBang?_bytes (before after : Text) (last : Option Nat) :
    lastBang? (before ++ after) last (byteCount before) (bytes after) =
      some (((cutLastBang? false after).map fun found => byteCount before + byteCount found.1).or last) := by
  -- The induction is on the number of characters: a whole comment is stepped over at once.
  induction length : after.length using Nat.strong_induction_on generalizing before after last with
  | h n ih =>
    subst length
    cases after with
    | nil =>
      rw [show bytes [] = [] from rfl, lastBang?]
      rfl
    | cons c rest =>
      by_cases comment : ∃ inner, c = '/' ∧ rest = '*' :: inner
      · obtain ⟨inner, rfl, rfl⟩ := comment
        rw [lastBang?_comment, cutLastBang?, cutLastBang?_commented]
        cases cut : cut? commentClose inner with
        | none => simp
        | some found =>
          have whole : '/' :: '*' :: inner = commentOpen ++ found.1 ++ commentClose ++ found.2 := by
            rw [cut?_eq_some cut]
            simp [commentOpen]
          have shorter : found.2.length < ('/' :: '*' :: inner).length := by
            rw [whole]
            simp only [List.length_append, commentOpen, List.length_cons]
            omega
          have onward := ih _ shorter (before ++ (commentOpen ++ found.1 ++ commentClose)) found.2 last rfl
          have kept : ((cutLastBang? false found.2).map (keep (found.1 ++ commentClose))).map (keep commentOpen) =
              (cutLastBang? false found.2).map (keep (commentOpen ++ found.1 ++ commentClose)) := by
            cases cutLastBang? false found.2 <;> simp [keep]
          rw [List.append_assoc, ← whole, byteCount_append] at onward
          rw [Option.elim_some, onward, Option.bind_some, ← map_place_keep, ← kept]
          rfl
      · have alone : ∀ inner, c = '/' → rest = '*' :: inner → False :=
          fun inner slash star => comment ⟨inner, slash, star⟩
        have onward := ih rest.length (by simp) (before ++ [c]) rest (if c = '!' then some (byteCount before) else last) rfl
        rw [List.append_assoc, List.singleton_append, byteCount_append] at onward
        rw [lastBang?_plain alone, show c.utf8Size = byteCount [c] from rfl, onward, cutLastBang?_cons alone, Option.map_or,
          map_place_keep, Option.or_assoc]
        by_cases bang : c = '!' <;> simp [bang, byteCount]

/-- A text without its comments, in a number of steps. -/
def outsideSlices? : Nat → Text → Option Text
  | 0, _ => none
  | steps + 1, text => do
    match find? commentOpen text with
    | none => return text
    | some start =>
      let before ← until? text start
      let inner ← from? text (start + 2)
      match find? commentClose inner with
      | none => return before
      | some length =>
        let following ← from? text (start + 2 + length + 2)
        let others ← outsideSlices? steps following
        return before ++ others

/-- The declaration with a value that may hold comments. -/
def writtenSlices? (decl : Declaration) (raw : Text) : Option Declaration := do
  let outside ← outsideSlices? (byteCount raw + 1) raw
  if trim outside = raw then return { decl with value := raw, raw := none }
  return { decl with value := trim outside, raw := some raw }

/-- The value of a declaration and its importance marker. -/
def markerSlices? (body : Text) : Option (Text × Option Text) := do
  match ← lastBang? body none 0 (bytes body) with
  | none => return (body, none)
  | some bang =>
    let marker ← from? body (bang + 1)
    if marksImportant marker then
      let before ← until? body bang
      let important ← from? body (byteCount (trimEnd before))
      return (trimEnd before, some important)
    return (body, none)

/-- The declaration that a header holds, with the blanks after its value. -/
def declarationSlices? (header : Text) : Option (Option (Declaration × Text)) := do
  match find? [':'] header with
  | none => return none
  | some colon =>
    let name ← until? header colon
    let following ← from? header (colon + 1)
    let body := trimStart following
    let between ← slice? header (byteCount (trimEnd name)) (byteCount header - byteCount body)
    let after ← from? body (byteCount (trimEnd body))
    let (value, important) ← markerSlices? (trimEnd body)
    let blank : Declaration := { property := trimEnd name, between, value := [], raw := none, important }
    let decl ← writtenSlices? blank value
    return some (decl, after)

/-- The at-rule in a header, with its spacing. -/
def atRuleSlices? (before header : Text) (hasBlock semicolon : Bool) : Option (Content × Spacing) := do
  let body ← from? header 1
  let length := byteCount (body.takeWhile fun c => !endsName c)
  let name ← until? body length
  let rest ← from? body length
  let params := trimStart rest
  let afterName ← until? rest (byteCount rest - byteCount params)
  let between ← from? params (byteCount (trimEnd params))
  return (.atRule name (trimEnd params) hasBlock, { before, between, afterName, semicolon })

/-- The rule or at-rule that a header opens, with its spacing. -/
def blockSlices? (before header : Text) : Option (Content × Spacing) := do
  if header.head? = some '@' then atRuleSlices? before header true false
  else
    let between ← from? header (byteCount (trimEnd header))
    return (.rule (trimEnd header), { before, between })

/-- The at-rule or declaration that a header without a block is, with its spacing. -/
def statementSlices? (before header : Text) (semicolon : Bool) : Option (Option (Content × Spacing)) := do
  if header.head? = some '@' then
    let found ← atRuleSlices? before header false semicolon
    return some found
  else
    let found ← declarationSlices? header
    return found.map fun (decl, after) => (.declaration decl, { before, after, semicolon })

/-- What stands behind a text without its blanks at the end are these blanks. -/
theorem from?_trimEnd (text : Text) : from? text (byteCount (trimEnd text)) = some (blankTail text) := by
  have cut := from?_append (trimEnd text) (blankTail text)
  rwa [trimEnd_append_blankTail] at cut

/-- Every comment takes at least one byte, so that there are enough steps. -/
theorem outsideSlices?_eq {steps : Nat} (text : Text) (enough : byteCount text < steps) :
    outsideSlices? steps text = some (outsideFrom false text) := by
  induction steps generalizing text with
  | zero => exact absurd enough (Nat.not_lt_zero _)
  | succ steps ih =>
    rw [outsideSlices?, outsideFrom_false_eq]
    cases opened : cut? commentOpen text with
    | none => simp [find?, opened]
    | some found =>
      obtain ⟨before, inner⟩ := found
      obtain rfl := cut?_eq_some opened
      have kept : until? (before ++ commentOpen ++ inner) (byteCount before) = some before := by
        rw [List.append_assoc]
        exact until?_append before (commentOpen ++ inner)
      have behind : from? (before ++ commentOpen ++ inner) (byteCount before + 2) = some inner := by
        have split := from?_append (before ++ commentOpen) inner
        rwa [byteCount_append] at split
      rw [Option.elim_some, outsideFrom_true_eq]
      cases closed : cut? commentClose inner with
      | none =>
        simp only [find?, opened, closed, kept, behind, Option.map, Option.bind_eq_bind, Option.bind_some]
        rw [Option.elim_none, List.append_nil]
        rfl
      | some found =>
        obtain ⟨body, following⟩ := found
        obtain rfl := cut?_eq_some closed
        have later : from? (before ++ commentOpen ++ (body ++ commentClose ++ following))
            (byteCount before + 2 + byteCount body + 2) = some following := by
          have split := from?_append (before ++ commentOpen ++ (body ++ commentClose)) following
          rw [byteCount_append, byteCount_append, byteCount_append, List.append_assoc _ (body ++ commentClose)] at split
          rwa [← Nat.add_assoc] at split
        have fewer : byteCount following < steps := by
          simp only [byteCount_append, show byteCount commentOpen = 2 from rfl] at enough
          omega
        simp only [find?, opened, closed, kept, behind, later, ih following fewer, Option.map, Option.bind_eq_bind,
          Option.bind_some]
        rfl

theorem writtenSlices?_eq (decl : Declaration) (raw : Text) : writtenSlices? decl raw = some (decl.withWritten raw) := by
  simp only [writtenSlices?, outsideSlices?_eq raw (Nat.lt_succ_self _), Option.bind_eq_bind, Option.bind_some,
    Declaration.withWritten, withoutComments]
  split <;> simp_all

theorem markerSlices?_eq (body : Text) : markerSlices? body = some (valueAndMarker body) := by
  have found := lastBang?_bytes [] body none
  simp only [List.nil_append, Option.or_none, show byteCount [] = 0 from rfl, Nat.zero_add] at found
  rw [markerSlices?, found, valueAndMarker]
  cases cut : cutLastBang? false body with
  | none => rfl
  | some parts =>
    obtain ⟨before, marker⟩ := parts
    obtain rfl := cutLastBang?_eq_some cut
    have behind : from? (before ++ '!' :: marker) (byteCount before + 1) = some marker := by
      have split := from?_append (before ++ ['!']) marker
      rwa [List.append_assoc, byteCount_append] at split
    have important : from? (before ++ '!' :: marker) (byteCount (trimEnd before)) = some (blankTail before ++ '!' :: marker) := by
      have split := from?_append (trimEnd before) (blankTail before ++ '!' :: marker)
      rwa [← List.append_assoc, trimEnd_append_blankTail] at split
    by_cases marks : marksImportant marker = true <;> simp [behind, marks, until?_append, important]

theorem declarationSlices?_eq (header : Text) : declarationSlices? header = some (declarationOf? header) := by
  rw [declarationSlices?, declarationOf?]
  cases cut : cut? [':'] header with
  | none => simp [find?, cut]
  | some parts =>
    obtain ⟨name, following⟩ := parts
    have whole := cut?_eq_some cut
    rw [List.append_assoc, List.singleton_append] at whole
    have before : until? header (byteCount name) = some name := by
      rw [whole]
      exact until?_append name (':' :: following)
    have behind : from? header (byteCount name + 1) = some following := by
      have split := from?_append (name ++ [':']) following
      rwa [List.append_assoc, byteCount_append, List.singleton_append, ← whole] at split
    have between : slice? header (byteCount (trimEnd name)) (byteCount header - byteCount (trimStart following)) =
        some (blankTail name ++ ':' :: blankHead following) := by
      have slice := slice?_append (trimEnd name) (blankTail name ++ ':' :: blankHead following) (trimStart following)
      have joined : trimEnd name ++ (blankTail name ++ ':' :: blankHead following ++ trimStart following) = header := by
        rw [List.append_assoc, List.cons_append, blankHead_append_trimStart, ← List.append_assoc, trimEnd_append_blankTail, whole]
      have size := congrArg byteCount joined
      rw [byteCount_append, byteCount_append] at size
      rw [joined] at slice
      rw [← slice]
      congr 1
      omega
    simp [find?, cut, before, behind, between, from?_trimEnd, markerSlices?_eq, writtenSlices?_eq]

theorem atRuleSlices?_eq (before body : Text) (hasBlock semicolon : Bool) :
    atRuleSlices? before ('@' :: body) hasBlock semicolon = some (atRuleOf before body hasBlock semicolon) := by
  let name := body.takeWhile fun c => !endsName c
  let rest := body.dropWhile fun c => !endsName c
  have whole : name ++ rest = body := List.takeWhile_append_dropWhile
  have sign : from? ('@' :: body) 1 = some body := from?_append ['@'] body
  have first : until? body (byteCount name) = some name := by
    conv => lhs; rw [← whole]
    exact until?_append name rest
  have second : from? body (byteCount name) = some rest := by
    conv => lhs; rw [← whole]
    exact from?_append name rest
  have gap : until? rest (byteCount rest - byteCount (trimStart rest)) = some (blankHead rest) := by
    have split := until?_append (blankHead rest) (trimStart rest)
    have size := byteCount_append (blankHead rest) (trimStart rest)
    rw [blankHead_append_trimStart] at split size
    rwa [size, Nat.add_sub_cancel]
  simp only [atRuleSlices?, sign, Option.bind_eq_bind, Option.bind_some]
  rw [first, second]
  simp only [Option.bind_some]
  rw [gap, from?_trimEnd]
  rfl

theorem head?_ne_of_plain {header : Text} (plain : ∀ body, header = '@' :: body → False) : header.head? ≠ some '@' := by
  intro sign
  obtain ⟨body, same⟩ := List.head?_eq_some_iff.mp sign
  exact plain body same

theorem blockSlices?_eq (before header : Text) : blockSlices? before header = some (blockOf before header) := by
  unfold blockOf
  split
  · rename_i body
    exact atRuleSlices?_eq before body true false
  · rename_i plain
    simp [blockSlices?, head?_ne_of_plain plain, from?_trimEnd]

theorem statementSlices?_eq (before header : Text) (semicolon : Bool) :
    statementSlices? before header semicolon = some (statementOf? before header semicolon) := by
  unfold statementOf?
  split
  · rename_i body
    simp [statementSlices?, atRuleSlices?_eq]
  · rename_i plain
    simp [statementSlices?, head?_ne_of_plain plain, declarationSlices?_eq]

/-! ## Sheets -/

/-- The items of a row of segments whose headers are read by slices. -/
def assembleSlices? (frames : List Frame) (done : List Item) :
    List Segment → Ending → Option (Except ParseError (List Item × Text))
  | [], .fault error => some (.error error)
  | [], .spacing trailing =>
    match frames with
    | [] => some (.ok (done.reverse, trailing))
    | frame :: _ => some (.error (.openBlock frame.opened))
  | segment :: rest, ending =>
    match segment.shape with
    | .comment text => assembleSlices? frames (.node (.comment text) { before := segment.before } [] :: done) rest ending
    | .closing =>
      match frames with
      | [] => some (.error (.strayClose segment.start))
      | frame :: outer =>
        let closed := .node frame.content { frame.spacing with after := segment.before } done.reverse
        assembleSlices? outer (closed :: frame.earlier) rest ending
    | .opening header => do
      let (content, spacing) ← blockSlices? segment.before header
      assembleSlices? (⟨content, spacing, segment.start + byteCount header, done⟩ :: frames) [] rest ending
    | .statement header semicolon => do
      match ← statementSlices? segment.before header semicolon with
      | none => return .error (.noColon segment.start)
      | some (content, spacing) => assembleSlices? frames (.node content spacing [] :: done) rest ending

theorem assembleSlices?_eq (frames : List Frame) (done : List Item) (segments : List Segment) (ending : Ending) :
    assembleSlices? frames done segments ending = some (assemble frames done segments ending) := by
  induction segments generalizing frames done with
  | nil =>
    cases ending with
    | fault => rfl
    | spacing => cases frames <;> rfl
  | cons segment rest ih =>
    cases shape : segment.shape with
    | comment text => simp only [assembleSlices?, assemble, shape, ih]
    | closing =>
      cases frames with
      | nil => simp only [assembleSlices?, assemble, shape]
      | cons frame outer => simp only [assembleSlices?, assemble, shape, ih]
    | opening header =>
      simp only [assembleSlices?, assemble, shape, blockSlices?_eq, Option.bind_eq_bind, Option.bind_some, ih]
    | statement header semicolon =>
      simp only [assembleSlices?, assemble, shape, statementSlices?_eq, Option.bind_eq_bind, Option.bind_some]
      cases statementOf? segment.before header semicolon with
      | none => rfl
      | some found => exact ih _ _

/-- The stylesheet that a text holds, read by slices in no more steps than the text has bytes, and one for its end. -/
def parseSlices? (text : Text) : Option (Except ParseError Sheet) := do
  let (segments, ending) ← Segment.cutSlices? text (byteCount text + 1) 0
  let read ← assembleSlices? [] [] segments ending
  return read.map fun (items, trailing) => ofItems items trailing

/-- Reading by slices always comes to an end, no slice is out of range or splits a character, and the result is that of reading. -/
theorem parseSlices?_eq (text : Text) : parseSlices? text = some (parse text) := by
  have cut := Segment.cutSlices?_eq [] text (Nat.lt_succ_self (byteCount text))
  rw [List.nil_append] at cut
  change Segment.cutSlices? text (byteCount text + 1) 0 = some (Segment.cut text) at cut
  simp only [parseSlices?, cut, Option.bind_eq_bind, Option.bind_some, assembleSlices?_eq]
  rfl

end Sheet
end StyleFlip
