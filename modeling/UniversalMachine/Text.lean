import UniversalMachine.Bytes
import UniversalMachine.Text.CaseData

/-!
Texts: their UTF-8 bytes, their white space, their lines and their lower-case forms.

To lower the case of a text, each character is replaced by its lower-case form. Two characters need
more than a look-up: the dotted capital I becomes two characters, and a capital sigma at the end of
a word becomes the final form of the letter.
-/

namespace UniversalMachine.Text

def toUtf8 (text : String) : Bytes := text.toUTF8.data.toList

def ofUtf8? (bytes : Bytes) : Option String := String.fromUTF8? (ByteArray.mk bytes.toArray)

def isSpace (c : Char) : Bool :=
  let n := c.toNat
  (0x09 ≤ n && n ≤ 0x0D) || n == 0x20 || n == 0x85 || n == 0xA0 || n == 0x1680 ||
    (0x2000 ≤ n && n ≤ 0x200A) || n == 0x2028 || n == 0x2029 || n == 0x202F || n == 0x205F ||
    n == 0x3000

def trim (text : List Char) : List Char :=
  ((text.dropWhile isSpace).reverse.dropWhile isSpace).reverse

def dropReturn (line : List Char) : List Char :=
  if line.getLast? = some '\r' then line.dropLast else line

/-- The lines of a text. A line ends at a newline, with or without a carriage return before it; the
last line may have no end, and then keeps all its characters. -/
def lines (text : List Char) : List (List Char) :=
  match h : text.dropWhile (· != '\n') with
  | [] => if text.isEmpty then [] else [text]
  | _ :: rest =>
    have : rest.length < text.length := by
      have hlen := (List.dropWhile_suffix (l := text) (· != '\n')).length_le
      rwa [h, List.length_cons] at hlen
    dropReturn (text.takeWhile (· != '\n')) :: lines rest
termination_by text.length

def inRanges (ranges : List (Nat × Nat)) (c : Char) : Bool :=
  ranges.any fun range => range.1 ≤ c.toNat && c.toNat ≤ range.2

def isCased (c : Char) : Bool := inRanges casedRanges c
def isCaseIgnorable (c : Char) : Bool := inRanges caseIgnorableRanges c

def CaseRow.covers (row : CaseRow) (code : Nat) : Bool :=
  row.first ≤ code && code ≤ row.last && (code - row.first) % row.step == 0

/-- The lower-case partner of a character that has just one, and the character itself otherwise. -/
def lowerPartner (c : Char) : Char :=
  match caseRows.find? (·.covers c.toNat) with
  | some row => Char.ofNat (c.toNat + row.offset).toNat
  | none => c

/-- Whether the first character that is not passed over is a letter with case. -/
def meetsCased (text : List Char) : Bool :=
  match text.dropWhile isCaseIgnorable with
  | c :: _ => isCased c
  | [] => false

/-- The lower-case form of a character between the given neighbours; `before` is nearest first. -/
def lowerAt (before : List Char) (c : Char) (after : List Char) : List Char :=
  if c == 'Σ' then [if meetsCased before && !meetsCased after then 'ς' else 'σ']
  else if c == 'İ' then ['i', Char.ofNat 0x307]
  else [lowerPartner c]

def lowercaseAfter (before : List Char) : List Char → List Char
  | [] => []
  | c :: rest => lowerAt before c rest ++ lowercaseAfter (c :: before) rest

def lowercase (text : List Char) : List Char := lowercaseAfter [] text

end UniversalMachine.Text
