/-!
Numbers as text: decimal, and hexadecimal in either letter case, padded or not; the value of a run
of digits in a given base; and the numbers that a whole text stands for.
-/

namespace UniversalMachine.Digits

def lower (base n : Nat) : List Char := Nat.toDigits base n

def upper (base n : Nat) : List Char := (Nat.toDigits base n).map Char.toUpper

/-- Fills a text up to a width from the left; a longer text is kept whole. -/
def padLeft (fill : Char) (width : Nat) (text : List Char) : List Char :=
  List.replicate (width - text.length) fill ++ text

def decimal (n : Nat) : String := String.ofList (lower 10 n)

def signed : Int → String
  | .ofNat n => decimal n
  | .negSucc n => "-" ++ decimal (n + 1)

def column (width n : Nat) : String := String.ofList (padLeft ' ' width (lower 10 n))

def hexLower (n : Nat) : String := String.ofList (lower 16 n)

def hexLowerPadded (width n : Nat) : String := String.ofList (padLeft '0' width (lower 16 n))

def hexUpperPadded (width n : Nat) : String := String.ofList (padLeft '0' width (upper 16 n))

def isDecimal (c : Char) : Bool := '0' ≤ c && c ≤ '9'
def isBinary (c : Char) : Bool := c == '0' || c == '1'
def isHexadecimal (c : Char) : Bool :=
  isDecimal c || ('a' ≤ c && c ≤ 'f') || ('A' ≤ c && c ≤ 'F')

/-- The value of a hexadecimal digit in either case. Characters that are no digits count as zero. -/
def value (c : Char) : Nat :=
  if isDecimal c then c.toNat - '0'.toNat
  else if 'a' ≤ c && c ≤ 'f' then c.toNat - 'a'.toNat + 10
  else if 'A' ≤ c && c ≤ 'F' then c.toNat - 'A'.toNat + 10
  else 0

def read (base : Nat) (text : List Char) : Nat :=
  text.foldl (fun n c => base * n + value c) 0

def digits? (text : List Char) : Option Nat :=
  if !text.isEmpty && text.all isDecimal then some (read 10 text) else none

def natural? : List Char → Option Nat
  | '+' :: digits => digits? digits
  | digits => digits? digits

def integer? : List Char → Option Int
  | '-' :: digits => (digits? digits).map fun n => -Int.ofNat n
  | text => (natural? text).map Int.ofNat

/-- A decimal number that fits in 64 bits, without a minus sign. -/
def unsigned? (text : List Char) : Option Nat := (natural? text).filter (· < UInt64.size)

end UniversalMachine.Digits
