import GoTree.Unicode.Ranges

/-!
# The White_Space property

Characters that only separate.  Comments with nothing but such characters between them may belong to
one group.
-/

namespace GoTree.Unicode

/-- **The characters with the property `White_Space`**, as ascending ranges of code points. -/
def whiteSpace : Ranges :=
  [(0x9, 0xD), (0x20, 0x20), (0x85, 0x85), (0xA0, 0xA0), (0x1680, 0x1680), (0x2000, 0x200A),
   (0x2028, 0x2029), (0x202F, 0x202F), (0x205F, 0x205F), (0x3000, 0x3000)]

/-- Whether `c` has the property `White_Space`. -/
def isBlank (c : Char) : Bool :=
  whiteSpace.contains c

theorem isBlank_newline : isBlank '\n' = true := by decide

end GoTree.Unicode
