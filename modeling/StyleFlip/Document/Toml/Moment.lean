import StyleFlip.Document.Double

/-!
Dates and times of TOML. A moment is a date, a time of day, or both with an offset from universal time or without. It
is known by its standard notation: a capital `T` between date and time, a capital `Z` for universal time itself, and a
fraction of a second with nine digits at most and without zeros at its end.
-/
namespace StyleFlip.Document.Toml

/-- The number that exactly `width` digits at the start of a text write, and what follows them. -/
def fixedDigits? (width : Nat) (text : Text) : Option (Nat × Text) :=
  let digits := text.take width
  if digits.length = width ∧ digits.all Char.isDigit then some (Text.digitsValue digits, text.drop width) else none

def daysIn (year month : Nat) : Nat :=
  if month = 2 then (if year % 4 = 0 ∧ (year % 100 ≠ 0 ∨ year % 400 = 0) then 29 else 28)
  else if month = 4 ∨ month = 6 ∨ month = 9 ∨ month = 11 then 30 else 31

def afterDate? (text : Text) : Option Text :=
  match fixedDigits? 4 text with
  | some (year, '-' :: rest) =>
    match fixedDigits? 2 rest with
    | some (month, '-' :: rest) =>
      match fixedDigits? 2 rest with
      | some (day, rest) => if 1 ≤ month ∧ month ≤ 12 ∧ 1 ≤ day ∧ day ≤ daysIn year month then some rest else none
      | none => none
    | _ => none
  | _ => none

/-- What follows hours and minutes at the start of a text. -/
def afterClock? (text : Text) : Option Text :=
  match fixedDigits? 2 text with
  | some (hour, ':' :: rest) =>
    match fixedDigits? 2 rest with
    | some (minute, rest) => if hour ≤ 23 ∧ minute ≤ 59 then some rest else none
    | none => none
  | _ => none

/-- What follows seconds at the start of a text, the colon before them included. -/
def afterSeconds? : Text → Option Text
  | ':' :: rest =>
    match fixedDigits? 2 rest with
    | some (second, rest) => if second ≤ 60 then some rest else none
    | none => none
  | _ => none

/-- The standard notation of a fraction of a second: at least one digit and at most nine, without zeros at the end. -/
def fractionText (digits : Text) : Text :=
  match ((digits.take 9).reverse.dropWhile (· == '0')).reverse with
  | [] => ['0']
  | kept => kept

/-- The standard notation of a time of day at the start of a text, and what follows it. Seconds may be missing, and only
seconds have a fraction. -/
def readTime? (text : Text) : Option (Text × Text) :=
  match afterClock? text with
  | none => none
  | some (':' :: rest) =>
    match afterSeconds? (':' :: rest) with
    | none => none
    | some ('.' :: rest) =>
      match rest.takeWhile Char.isDigit with
      | [] => none
      | digits => some (text.take 8 ++ '.' :: fractionText digits, rest.dropWhile Char.isDigit)
    | some rest => some (text.take 8, rest)
  | some rest => some (text.take 5, rest)

/-- The standard notation of an offset, which may be missing. -/
def offset? : Text → Option Text
  | [] => some []
  | [c] => if c = 'Z' ∨ c = 'z' then some ['Z'] else none
  | c :: rest =>
    if (c = '+' ∨ c = '-') ∧ afterClock? rest = some [] then
      some (if rest = "00:00".toList then '+' :: rest else c :: rest)
    else none

def moment? (text : Text) : Option Text :=
  match afterDate? text with
  | some [] => some text
  | some (c :: rest) =>
    if c = 'T' ∨ c = 't' ∨ c = ' ' then
      match readTime? rest with
      | some (time, following) => (offset? following).map fun offset => text.take 10 ++ 'T' :: (time ++ offset)
      | none => none
    else none
  | none =>
    match readTime? text with
    | some (time, []) => some time
    | _ => none

end StyleFlip.Document.Toml
