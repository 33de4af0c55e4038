import IdlLinker.Decimal.Layout

/-!
# JSON documents

The documents this library writes, and their two printed forms: on one line, and indented. A
floating point number keeps its width, because the fewest digits that read back depend on it;
infinities and words that stand for no number have no JSON form and print as `null`.

Both printed forms are one recursion over the document, with a separate function for the items and
for the members, as the nesting of lists in documents asks for. The indented form carries its depth
along. Neither form has any choice: equal documents are printed as equal texts, and it is only for
the readers of these texts that blanks do not matter.
-/

namespace IdlLinker

open Decimal

/-- A JSON document. Members of an object are in the order in which they are printed. -/
inductive Json where
  | null
  | bool (b : Bool)
  | int (n : Int)
  | float32 (x : Binary32)
  | float64 (x : Binary64)
  | text (s : String)
  | list (items : List Json)
  | object (members : List (String × Json))

namespace Json

/-- Numbers of sixty-four bits: positional from `1e-5` up to below `1e16`, else with a signed
exponent. -/
def layout64 : Layout := ⟨-5, 15, "+", .even⟩

/-- Numbers of thirty-two bits: positional from `1e-6` up to below `1e13`. -/
def layout32 : Layout := ⟨-6, 12, "+", .even⟩

/-- A character inside a string: the quote, the backslash and the control characters are escaped,
everything else stands for itself. -/
def escape (c : Char) : String :=
  match c with
  | '"' => "\\\""
  | '\\' => "\\\\"
  | '\x08' => "\\b"
  | '\x0c' => "\\f"
  | '\n' => "\\n"
  | '\r' => "\\r"
  | '\t' => "\\t"
  | c => if c.toNat < 0x20 then "\\u" ++ hexadecimal c.toNat else String.singleton c
where
  /-- The four digits of an escaped control character. -/
  hexadecimal (n : Nat) : String :=
    let digits := Nat.toDigits 16 n
    String.ofList (List.replicate (4 - digits.length) '0' ++ digits)

/-- A string between quotes. -/
def quoted (s : String) : String :=
  "\"" ++ s.toList.foldl (fun out c ↦ out ++ escape c) "" ++ "\""

/-- A document that is neither a list nor an object. -/
def scalar : Json → String
  | .null => "null"
  | .bool b => if b then "true" else "false"
  | .int n => toString n
  | .float32 x => if x.isFinite then layout32.text x else "null"
  | .float64 x => if x.isFinite then layout64.text x else "null"
  | .text s => quoted s
  | .list _ => "[]"
  | .object _ => "\x7b\x7d"

mutual

/-- The document on one line, without spaces. -/
def compact : Json → String
  | .list items => "[" ++ compactItems items ++ "]"
  | .object members => "\x7b" ++ compactMembers members ++ "\x7d"
  | j => j.scalar

def compactItems : List Json → String
  | [] => ""
  | [j] => j.compact
  | j :: rest => j.compact ++ "," ++ compactItems rest

def compactMembers : List (String × Json) → String
  | [] => ""
  | [(k, j)] => quoted k ++ ":" ++ j.compact
  | (k, j) :: rest => quoted k ++ ":" ++ j.compact ++ "," ++ compactMembers rest

end

def newline (depth : Nat) : String :=
  "\n" ++ String.ofList (List.replicate (2 * depth) ' ')

mutual

/-- The document with every item and member on a line of its own, indented by its depth. -/
def indented (depth : Nat) : Json → String
  | .list [] => "[]"
  | .list items => "[" ++ indentedItems (depth + 1) items ++ newline depth ++ "]"
  | .object [] => "\x7b\x7d"
  | .object members => "\x7b" ++ indentedMembers (depth + 1) members ++ newline depth ++ "\x7d"
  | j => j.scalar

/-- Items on lines of their own. -/
def indentedItems (depth : Nat) : List Json → String
  | [] => ""
  | [j] => newline depth ++ j.indented depth
  | j :: rest => newline depth ++ j.indented depth ++ "," ++ indentedItems depth rest

/-- Members on lines of their own. -/
def indentedMembers (depth : Nat) : List (String × Json) → String
  | [] => ""
  | [(k, j)] => newline depth ++ quoted k ++ ": " ++ j.indented depth
  | (k, j) :: rest =>
    newline depth ++ quoted k ++ ": " ++ j.indented depth ++ "," ++ indentedMembers depth rest

end

/-- The indented form of a whole document. -/
def pretty (j : Json) : String := j.indented 0

end Json

end IdlLinker
