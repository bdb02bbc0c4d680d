import StyleFlip.Text.Basic

/-!
Which decimal numbers a double can hold. A number that is read exactly fits if it lies below the least magnitude that
rounds to no finite double. A number that is held in a significand of 64 bits loses the digits that do not fit, and is
then the product of two doubles, one for the significand and one for the power of ten; it fits if that product does.
-/
namespace StyleFlip.Document

/-- The least magnitude that rounds to no finite double. -/
def doubleLimit : Nat := Nat.pow 2 1024 - Nat.pow 2 970

/-- Whether `mantissa * 10 ^ exponent` rounds to a finite double. -/
def isFinite (mantissa : Nat) (exponent : Int) : Bool :=
  if mantissa = 0 then true
  else match exponent with
    | .ofNat up => up ≤ 400 && mantissa * Nat.pow 10 up < doubleLimit
    | .negSucc down => (Nat.toDigits 10 mantissa).length ≤ down || mantissa < doubleLimit * Nat.pow 10 (down + 1)

/-- The nearest number with at most 53 significant bits; of two that are equally near, the one with an even last bit. -/
def nearest (n : Nat) : Nat :=
  let unit := Nat.pow 2 (n.log2 - 52)
  let quotient := n / unit
  let rest := n % unit
  if unit < 2 * rest || (unit == 2 * rest && quotient % 2 == 1) then (quotient + 1) * unit else quotient * unit

/-- A number `significand * 10 ^ exponent` whose significand has 64 bits. -/
structure Held where
  significand : Nat
  exponent : Int
deriving DecidableEq, Repr

namespace Held

/-- The significand with one more digit, if it fits. -/
def extend? (significand : Nat) (digit : Char) : Option Nat :=
  let extended := significand * 10 + (digit.toNat - '0'.toNat)
  if extended < Nat.pow 2 64 then some extended else none

/-- The digits before the point. From the first one that does not fit, each only raises the exponent. -/
def ofWholeFrom (significand : Nat) : Text → Held
  | [] => ⟨significand, 0⟩
  | c :: rest =>
    match extend? significand c with
    | some extended => ofWholeFrom extended rest
    | none => ⟨significand, rest.length + 1⟩

/-- The number that the digits before the point write. -/
def ofWhole (digits : Text) : Held := ofWholeFrom 0 digits

/-- The number with digits after the point. The first one that does not fit and all after it are dropped. -/
def withPlaces (held : Held) : Text → Held
  | [] => held
  | c :: rest =>
    match extend? held.significand c with
    | some extended => withPlaces ⟨extended, held.exponent - 1⟩ rest
    | none => held

/-- The number times a power of ten. -/
def scaled (held : Held) (power : Int) : Held := { held with exponent := held.exponent + power }

/-- Whether the number is a finite double. No double is a power of ten beyond `10 ^ 308`. -/
def isFinite (held : Held) : Bool :=
  held.significand == 0 ||
    match held.exponent with
    | .negSucc _ => true
    | .ofNat up => up ≤ 308 && nearest held.significand * nearest (Nat.pow 10 up) < doubleLimit

end Held
end StyleFlip.Document
