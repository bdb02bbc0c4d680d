import StyleFlip.Text.Basic
import StyleFlip.Text.Ranges

/-!
Simple case folding (Unicode 16): each character goes to one character, and two characters are the same letter in
another case exactly if they fold to the same one.
-/
namespace StyleFlip.Text

/-- The characters above ASCII that fold to another one. -/
def foldRuns : List CaseRun := caseRuns ++
  [(0xb5, 0xb5, 1, 0x3bc), (0x17f, 0x17f, 1, 0x73), (0x345, 0x345, 1, 0x3b9), (0x3c2, 0x3c2, 1, 0x3c3),
   (0x3d0, 0x3d0, 1, 0x3b2), (0x3d1, 0x3d1, 1, 0x3b8), (0x3d5, 0x3d5, 1, 0x3c6), (0x3d6, 0x3d6, 1, 0x3c0),
   (0x3f0, 0x3f0, 1, 0x3ba), (0x3f1, 0x3f1, 1, 0x3c1), (0x3f5, 0x3f5, 1, 0x3b5), (0x13f8, 0x13fd, 1, 0x13f0),
   (0x1c80, 0x1c80, 1, 0x432), (0x1c81, 0x1c81, 1, 0x434), (0x1c82, 0x1c82, 1, 0x43e), (0x1c83, 0x1c84, 1, 0x441),
   (0x1c85, 0x1c85, 1, 0x442), (0x1c86, 0x1c86, 1, 0x44a), (0x1c87, 0x1c87, 1, 0x463), (0x1c88, 0x1c88, 1, 0xa64b),
   (0x1e9b, 0x1e9b, 1, 0x1e61), (0x1fbe, 0x1fbe, 1, 0x3b9), (0x1fd3, 0x1fd3, 1, 0x390), (0x1fe3, 0x1fe3, 1, 0x3b0),
   (0xab70, 0xabbf, 1, 0x13a0), (0xfb05, 0xfb05, 1, 0xfb06)]

def fold (c : Char) : Char :=
  if c.toNat < 0x80 then c.toLower else Char.ofNat (shifted foldRuns c.toNat)

/-- What follows `head` in a text that starts with it in any case. -/
def afterFolded? : Text → Text → Option Text
  | [], text => some text
  | _ :: _, [] => none
  | h :: head, c :: text => if fold h = fold c then afterFolded? head text else none

end StyleFlip.Text
