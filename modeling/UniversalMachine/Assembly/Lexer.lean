import UniversalMachine.Register

/-!
Source text cut into tokens.

At each place the longest run of characters that has one of the shapes below is taken. Blanks and
comments are dropped. Where no shape fits, one character is reported and lexing goes on behind it. A
run whose shape fits but which stands for no value, such as a number that is too large, is reported
as a whole.
-/

namespace UniversalMachine.Assembly

inductive Token where
  | identifier (name : String)
  | register (r : Register)
  | number (value : Int)
  | hex (value : Nat)
  | binary (value : Nat)
  | char (value : Char)
  | directive (name : String)
  | comma
  | colon
  | newline
  deriving DecidableEq, Repr

def Token.describe : Token → String
  | identifier name => "Identifier(\"" ++ name ++ "\")"
  | register r => "Register(" ++ Digits.decimal r.val ++ ")"
  | number value => "Number(" ++ Digits.signed value ++ ")"
  | hex value => "Hex(" ++ Digits.decimal value ++ ")"
  | binary value => "Binary(" ++ Digits.decimal value ++ ")"
  | char value => "Char(" ++ Digits.decimal value.toNat ++ ")"
  | directive name => "Directive(\"" ++ name ++ "\")"
  | comma => "Comma"
  | colon => "Colon"
  | newline => "Newline"

inductive Shape where
  | blank
  | comment
  | identifier
  | register
  | number
  | hex
  | binary
  | char
  | directive
  | comma
  | colon
  | newline
  deriving DecidableEq, Repr

namespace Lexer

def quote : Char := '\x27'
def backslash : Char := '\\'

def isBlank (c : Char) : Bool := c == ' ' || c == '\t' || c == '\r'
def isCommentMark (c : Char) : Bool := c == ';' || c == '#'
def isLetter (c : Char) : Bool := ('a' ≤ c && c ≤ 'z') || ('A' ≤ c && c ≤ 'Z')
def isNameStart (c : Char) : Bool := isLetter c || c == '_'
def isNamePart (c : Char) : Bool := isNameStart c || Digits.isDecimal c
def isRegisterDigit (c : Char) : Bool := '0' ≤ c && c ≤ '7'
def isHexMark (c : Char) : Bool := c == 'x' || c == 'X'
def isBinaryMark (c : Char) : Bool := c == 'b' || c == 'B'

def run (p : Char → Bool) (text : List Char) : Nat := (text.takeWhile p).length

def isRegisterName : List Char → Bool
  | [r, d] => (r == 'r' || r == 'R') && isRegisterDigit d
  | _ => false

def longestName (c : Char) (rest : List Char) : Shape × Nat :=
  (if isRegisterName (c :: rest.takeWhile isNamePart) then .register else .identifier,
    run isNamePart rest)

/-- The longest number that starts with the given digit. A base mark counts only when a digit of its
base follows. -/
def longestNumber (c : Char) (rest : List Char) : Shape × Nat :=
  match rest with
  | [] => (.number, 0)
  | mark :: tail =>
    if c == '0' && isHexMark mark && run Digits.isHexadecimal tail != 0 then
      (.hex, 1 + run Digits.isHexadecimal tail)
    else if c == '0' && isBinaryMark mark && run Digits.isBinary tail != 0 then
      (.binary, 1 + run Digits.isBinary tail)
    else (.number, run Digits.isDecimal rest)

/-- The number of characters of a character literal behind its opening quote. -/
def charExtent? : List Char → Option Nat
  | [] => none
  | c :: rest =>
    if c == backslash then
      match rest with
      | e :: q :: _ => if e != '\n' && q == quote then some 3 else none
      | _ => none
    else if c == quote || c == '\n' then none
    else
      match rest with
      | q :: _ => if q == quote then some 2 else none
      | [] => none

/-- The longest run that starts with `c` and has a shape: its shape, and how many of the characters
behind `c` belong to it. -/
def longest? (c : Char) (rest : List Char) : Option (Shape × Nat) :=
  if isBlank c then some (.blank, run isBlank rest)
  else if isCommentMark c then some (.comment, run (· != '\n') rest)
  else if isNameStart c then some (longestName c rest)
  else if Digits.isDecimal c then some (longestNumber c rest)
  else if c == '-' then
    if run Digits.isDecimal rest = 0 then none else some (.number, run Digits.isDecimal rest)
  else if c == '.' then
    match rest with
    | d :: tail => if isNameStart d then some (.directive, 1 + run isNamePart tail) else none
    | [] => none
  else if c == quote then (charExtent? rest).map fun n => (.char, n)
  else if c == ',' then some (.comma, 0)
  else if c == ':' then some (.colon, 0)
  else if c == '\n' then some (.newline, 0)
  else none

def escape? (c : Char) : Option Char :=
  if c == 'n' then some '\n'
  else if c == 't' then some '\t'
  else if c == 'r' then some '\r'
  else if c == '0' then some '\x00'
  else if c == backslash then some backslash
  else if c == quote then some quote
  else none

/-- The character that a literal stands for, quotes included. -/
def charValue? : List Char → Option Char
  | _ :: c :: e :: _ => if c == backslash then escape? e else some c
  | _ => none

def numberValue (text : List Char) : Int :=
  match text with
  | '-' :: digits => -(Digits.read 10 digits : Int)
  | digits => (Digits.read 10 digits : Int)

def signedMin : Int := -9223372036854775808
def signedMax : Int := 9223372036854775807
def unsignedBound : Nat := 18446744073709551616

/-- A number with a base mark, if it fits in 64 bits. -/
def unsigned? (base : Nat) (text : List Char) : Option Nat :=
  let value := Digits.read base (text.drop 2)
  if value < unsignedBound then some value else none

def token? (shape : Shape) (text : List Char) : Option Token :=
  match shape with
  | .blank | .comment => none
  | .identifier => some (.identifier (String.ofList text))
  | .register => (Register.ofIndex? (Digits.read 10 (text.drop 1))).map .register
  | .number =>
    let value := numberValue text
    if signedMin ≤ value && value ≤ signedMax then some (.number value) else none
  | .hex => (unsigned? 16 text).map .hex
  | .binary => (unsigned? 2 text).map .binary
  | .char => (charValue? text).map .char
  | .directive => some (.directive (String.ofList (text.drop 1)))
  | .comma => some .comma
  | .colon => some .colon
  | .newline => some .newline

end Lexer

inductive Lexeme where
  | token (t : Token)
  | invalid (text : String)
  deriving DecidableEq, Repr

/-- A lexeme with its place, counted in bytes from the start of the text. -/
structure Item where
  lexeme : Lexeme
  start : Nat
  stop : Nat
  deriving DecidableEq, Repr

namespace Lexer

def byteLength (text : List Char) : Nat :=
  text.foldr (fun c length => c.utf8Size + length) 0

def lexeme (shape : Shape) (text : List Char) : Lexeme :=
  match token? shape text with
  | some t => .token t
  | none => .invalid (String.ofList text)

def isSkipped : Shape → Bool
  | .blank | .comment => true
  | _ => false

def itemsFrom (start : Nat) (text : List Char) : List Item :=
  match text with
  | [] => []
  | c :: rest =>
    match longest? c rest with
    | none =>
      let stop := start + c.utf8Size
      ⟨.invalid (String.singleton c), start, stop⟩ :: itemsFrom stop rest
    | some (shape, more) =>
      let found := c :: rest.take more
      let stop := start + byteLength found
      let behind := itemsFrom stop (rest.drop more)
      if isSkipped shape then behind else ⟨lexeme shape found, start, stop⟩ :: behind
termination_by text.length
decreasing_by
  · simp
  · simp only [List.length_drop, List.length_cons]
    omega

def items (text : List Char) : List Item := itemsFrom 0 text

end Lexer

end UniversalMachine.Assembly
