import CppTry.XMLText
import Mathlib.Data.Nat.Digits.Defs

namespace CppTry

namespace XMLUtil

end XMLUtil

namespace StrPair
open XMLUtil

variable {build : Build} {flags : Flags}

end StrPair

end CppTry
