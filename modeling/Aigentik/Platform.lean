import Aigentik.Effects.Program
import Aigentik.Strings.Regex
import Mathlib.Data.Rat.Defs

namespace Aigentik

open Strings

/-- What the code catches as a `Throwable`. -/
structure Throwable where
  simpleName : Str
  message : Option Str
  deriving DecidableEq

/-- The functions of the Java and Android libraries whose tables or algorithms
are not part of the repository. -/
structure Platform where
  /-- The folding `equals(ignoreCase = true)` compares characters by. -/
  fold : Char → Char
  lowercase : Str → Str
  /-- The word characters `\w` of a regular expression. -/
  isWordChar : Char → Bool
  /-- `PhoneNumberUtils.formatNumberToE164(_, "US")`; `none` also for its exceptions. -/
  formatNumberToE164 : Str → Option Str
  /-- PBKDF2WithHmacSHA256 of a password and a salt (100000 iterations, 256 bits). -/
  pbkdf2 : Str → List UInt8 → List UInt8
  /-- SHA-256 of the UTF-8 encoding. -/
  sha256 : Str → List UInt8
  /-- `"%.2f".format(_)` in the default locale. -/
  format2 : ℚ → Str
  /-- `JSONObject(_)` as the function `optString(_, "")`; `none` for its exception. -/
  jsonObject : Str → Option (Str → Str)

namespace Platform

variable (P : Platform)

def equalsIgnoreCase (a b : Str) : Bool := a.map P.fold == b.map P.fold

def containsIgnoreCase (s sub : Str) : Bool := contains (s.map P.fold) (sub.map P.fold)

end Platform

/-- The platform on inputs in ASCII, with the answers of the real hash and phone
functions for one password, its salt and one number. -/
def asciiPlatform : Platform where
  fold := Char.toLower
  lowercase := List.map Char.toLower
  isWordChar c := c.isAlphanum || c == '_'
  formatNumberToE164 s := if s = "+16502530000".toList then some s else none
  pbkdf2 password salt :=
    if password = "s3cret".toList ∧ salt = [0, 1, 2, 3, 4, 5, 6, 7, 8, 9, 10, 11, 12, 13, 14, 15] then
      [233, 77, 132, 91, 249, 58, 75, 47, 249, 150, 40, 14, 77, 114, 158, 113, 130, 141, 86, 50,
        226, 51, 159, 242, 229, 204, 240, 0, 148, 245, 199, 161]
    else []
  sha256 _ := []
  format2 q := if q = 9 / 10 then "0.90".toList else "0.50".toList
  jsonObject _ := none

end Aigentik
