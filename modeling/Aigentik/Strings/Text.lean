import Mathlib.Data.List.DropRight
import Mathlib.Data.List.Infix

namespace Strings

/-- A string is the list of its characters. -/
abbrev Str := List Char

instance : Coe String Str := ⟨String.toList⟩

instance : LawfulBEq Str := inferInstance

/-- The zeros of the decimal digit blocks (category Nd) of the basic plane; each
block is ten consecutive code points. -/
def digitZeros : List ℕ :=
  [0x30, 0x660, 0x6f0, 0x7c0, 0x966, 0x9e6, 0xa66, 0xae6, 0xb66, 0xbe6, 0xc66, 0xce6, 0xd66,
    0xde6, 0xe50, 0xed0, 0xf20, 0x1040, 0x1090, 0x17e0, 0x1810, 0x1946, 0x19d0, 0x1a80, 0x1a90,
    0x1b50, 0x1bb0, 0x1c40, 0x1c50, 0xa620, 0xa8d0, 0xa900, 0xa9d0, 0xa9f0, 0xaa50, 0xabf0, 0xff10]

/-- The digit blocks beyond the basic plane: two UTF-16 units, so only a regular
expression sees them as digits. -/
def supplementaryZeros : List ℕ :=
  [0x104a0, 0x10d30, 0x11066, 0x110f0, 0x11136, 0x111d0, 0x112f0, 0x11450, 0x114d0, 0x11650,
    0x116c0, 0x11730, 0x118e0, 0x11950, 0x11c50, 0x11d50, 0x11da0, 0x16a60, 0x16ac0, 0x16b50,
    0x1d7ce, 0x1d7d8, 0x1d7e2, 0x1d7ec, 0x1d7f6, 0x1e140, 0x1e2f0, 0x1e950, 0x1fbf0]

def inDigitBlock (c : Char) (z : ℕ) : Bool := z ≤ c.toNat && c.toNat ≤ z + 9

/-- `Char.isDigit`: a decimal digit in any script. -/
def isDigit (c : Char) : Bool := digitZeros.any (inDigitBlock c)

/-- The space, line and paragraph separators (category Z). -/
def isSeparator (c : Char) : Bool :=
  let n := c.toNat
  n == 0x20 || n == 0xa0 || n == 0x1680 || (0x2000 ≤ n && n ≤ 0x200a) || n == 0x2028 ||
    n == 0x2029 || n == 0x202f || n == 0x205f || n == 0x3000

/-- `Char.isWhitespace`. -/
def isWhitespace (c : Char) : Bool :=
  (9 ≤ c.toNat && c.toNat ≤ 13) || (0x1c ≤ c.toNat && c.toNat ≤ 0x1f) || isSeparator c

def isBlank (s : Str) : Bool := s.all isWhitespace

def trim (s : Str) : Str := (s.dropWhile isWhitespace).rdropWhile isWhitespace

def digits (s : Str) : Str := s.filter isDigit

def utf16Length (s : Str) : ℕ := s.foldl (fun n c ↦ n + if c.toNat < 0x10000 then 1 else 2) 0

def takeLast (n : ℕ) (s : Str) : Str := s.drop (s.length - n)

def startsWith (s p : Str) : Bool := p.isPrefixOf s

def contains (s sub : Str) : Bool := s.tails.any fun t ↦ startsWith t sub

def indexOf (s sub : Str) : Option ℕ := s.tails.findIdx? fun t ↦ startsWith t sub

def removePrefix (s p : Str) : Str := if startsWith s p then s.drop p.length else s

/-- What follows the first occurrence of `sub`; the whole string if there is none. -/
def substringAfter (s sub : Str) : Str :=
  match indexOf s sub with
  | some i => s.drop (i + sub.length)
  | none => s

def joinToString (sep : Str) : List Str → Str
  | [] => []
  | [s] => s
  | s :: rest => s ++ sep ++ joinToString sep rest

/-- `lines()`: split at `\r\n`, `\n` and `\r`. -/
def linesFrom : Str → Str → List Str
  | line, '\r' :: '\n' :: s => line.reverse :: linesFrom [] s
  | line, '\r' :: s => line.reverse :: linesFrom [] s
  | line, '\n' :: s => line.reverse :: linesFrom [] s
  | line, c :: s => linesFrom (c :: line) s
  | line, [] => [line.reverse]

def lines (s : Str) : List Str := linesFrom [] s

theorem contains_of_infix {s sub : Str} (h : sub <:+: s) : contains s sub = true := by
  obtain ⟨before, after, rfl⟩ := h
  refine List.any_eq_true.mpr ⟨sub ++ after, (List.mem_tails _ _).mpr ?_, ?_⟩
  · rw [List.append_assoc]
    exact List.suffix_append _ _
  · exact List.isPrefixOf_iff_prefix.mpr (List.prefix_append _ _)

theorem dropWhile_trim (s : Str) : (trim s).dropWhile isWhitespace = trim s := by
  rw [List.dropWhile_eq_self_iff]
  intro hlen
  have hpre := List.rdropWhile_prefix isWhitespace (s.dropWhile isWhitespace)
  have hne : 0 < (s.dropWhile isWhitespace).length := hlen.trans_le hpre.length_le
  have hhead := List.dropWhile_get_zero_not isWhitespace s hne
  have heq : (trim s)[0] = (s.dropWhile isWhitespace)[0] := hpre.getElem hlen
  rw [heq]
  exact hhead

@[simp] theorem trim_trim (s : Str) : trim (trim s) = trim s := by
  rw [trim, dropWhile_trim, trim, List.rdropWhile_idempotent]

end Strings
