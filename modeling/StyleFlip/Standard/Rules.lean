import StyleFlip.Engine.Plugin
import StyleFlip.Standard.Row

/-!
The standard flip rules: directions, sides as keywords, shorthands of four values, corners, resize cursors, and
properties that name a side.
-/
namespace StyleFlip.Standard
variable {σ : Type}

def leftRight : Swap := { first := "left".toList, second := "right".toList }

def ltrRtl : Swap := { first := "ltr".toList, second := "rtl".toList }

/-- The names of the resize cursors, pair by pair. -/
def cursorSwaps : List Swap :=
  [{ first := "nesw-resize".toList, second := "nwse-resize".toList },
   { first := "ne-resize".toList, second := "nw-resize".toList },
   { first := "se-resize".toList, second := "sw-resize".toList },
   { first := "e-resize".toList, second := "w-resize".toList }]

/-- A rule that changes values only and keeps nothing. -/
def valueRule (pattern : Pattern) (change : Text → Text) : FlipRule σ where
  fits := pattern.fits
  flip property value _ store := (⟨property, change value⟩, store)

/-- `direction`: `ltr` and `rtl` change places. -/
def directions : FlipRule σ := valueRule (.names ["direction".toList]) ltrRtl.apply

/-- Properties with a side as their value: `left` and `right` change places. -/
def sideKeywords : FlipRule σ :=
  valueRule (.names ["float".toList, "clear".toList, "text-align".toList, "text-align-last".toList]) leftRight.apply

/-- Four values for top, right, bottom and left, with right and left exchanged; any other value stays. -/
def flipEdges (value : Text) : Text :=
  let row := Row.ofText value
  match row.texts with
  | [top, right, bottom, left] => row.replaceWords [top, left, bottom, right]
  | _ => value

def edgeShorthands : FlipRule σ :=
  valueRule (.names ["margin".toList, "padding".toList, "border-width".toList, "border-style".toList,
    "border-color".toList, "inset".toList, "scroll-margin".toList, "scroll-padding".toList]) flipEdges

/-- One side of a radius value, with the corners exchanged left to right; three values need a fourth for that. -/
def flipCorners (side : Text) : Text :=
  let row := Row.ofText side
  match row.texts with
  | [a, b, c, d] => row.replaceWords [b, a, d, c]
  | [a, b, c] => row.replaceWords [b, a, b, c]
  | [a, b] => row.replaceWords [b, a]
  | _ => side

/-- A radius value: each part between slashes has its corners exchanged. -/
def flipRadius (value : Text) : Text := Text.join ['/'] ((Text.splitAt '/' value).map flipCorners)

def radii : FlipRule σ := valueRule (.names ["border-radius".toList]) flipRadius

/-- A cursor value with east and west exchanged. -/
def flipCursor (value : Text) : Text := cursorSwaps.foldl (fun value swap => swap.apply value) value

def resizeCursors : FlipRule σ := valueRule (.names ["cursor".toList]) flipCursor

/-- Names in which a side is a part between hyphens. -/
def sidedNames : Pattern :=
  ["left".toList, "right".toList].flatMap fun side =>
    [⟨true, side, true⟩, ⟨true, side ++ ['-'], false⟩, ⟨false, '-' :: side, true⟩, ⟨false, '-' :: (side ++ ['-']), false⟩]

/-- Properties that name a side are renamed. -/
def sidedProperties : FlipRule σ where
  fits := sidedNames.fits
  flip property value _ store := (⟨leftRight.apply property, value⟩, store)

end StyleFlip.Standard
