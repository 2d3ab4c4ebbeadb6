import EcmaFold.Text.Category.Ranges

/-!
The space separators of Unicode 15.0.0: general category Zs.
-/

namespace EcmaFold.Category

/-- Every space separator. -/
def spaceSeparators : Ranges := [
  (0x0020, 0x0020), (0x00A0, 0x00A0), (0x1680, 0x1680), (0x2000, 0x200A), (0x202F, 0x202F),
  (0x205F, 0x205F), (0x3000, 0x3000)]

end EcmaFold.Category
