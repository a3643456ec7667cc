import Aigentik.Platform

namespace Aigentik.PhoneNormalizer

open Strings

variable (P : Platform)

def toE164 (raw : Str) : Str :=
  if isBlank raw then raw
  else match P.formatNumberToE164 raw with
    | some normalized => normalized
    | none =>
      let digits := digits raw
      if digits.length = 10 then "+1" ++ digits
      else if digits.length = 11 ∧ startsWith digits "1" then "+" ++ digits
      else if digits.length > 11 then "+" ++ digits
      else if startsWith raw "+" ∧ digits.length ≥ 10 then "+" ++ digits
      else raw

/-- The digits numbers are compared by throughout the agent. -/
def lastTen (s : Str) : Str := takeLast 10 (digits s)

def isSameNumber (a b : Str) : Bool :=
  toE164 P a == toE164 P b || (lastTen a != [] && lastTen a == lastTen b)

def looksLikePhoneNumber (s : Str) : Bool :=
  (digits s).length ≥ 7 &&
    (s.filter fun c ↦ !isDigit c && c != '+' && c != '-' && c != '(' && c != ')' && c != ' ') == []

end Aigentik.PhoneNormalizer
