import IdlLinker.Text.Glyph

/-!
# Written forms

A program talks to people in text, and three kinds of value have a written form of their own there,
whichever part of the program they belong to.

* A piece of *text* stands between quotes, in a form in which no character can be mistaken for
  another: a character without a glyph of its own is given by its code point. Diagnostics and events
  quote what they found in this way.
* *Nested settings* are laid out as an `Outline`: each part of a group stands on a line of its own,
  indented by four spaces more than the group, with a comma after it.
* A *natural number* is read from a setting that a person wrote. It may begin with a plus sign and
  with zeros; a document is stricter, and its numbers are read elsewhere.
-/

namespace IdlLinker.Text

/-! ## Quoted text -/

/-- A character as it stands in quoted text. -/
def quotedChar (c : Char) : String :=
  match c with
  | '\x00' => "\\0"
  | '\t' => "\\t"
  | '\n' => "\\n"
  | '\r' => "\\r"
  | '"' => "\\\""
  | '\\' => "\\\\"
  | c =>
    if hasGlyph c then String.singleton c
    else "\\u\x7b" ++ String.ofList (Nat.toDigits 16 c.toNat) ++ "\x7d"

/-- Text between quotes. -/
def quoted (s : String) : String :=
  "\"" ++ String.join (s.toList.map quotedChar) ++ "\""

/-! ## Outlines -/

/-- A nested value that is to be written down. -/
inductive Outline where
  | word (s : String)
  /-- Parts between an opening and a closing text, each after a label. -/
  | group (opening : String) (parts : List (String × Outline)) (closing : String)

namespace Outline

def bool (b : Bool) : Outline := .word (if b then "true" else "false")

/-- Parts without names, between brackets. -/
def list (parts : List Outline) : Outline := .group "[" (parts.map (("", ·))) "]"

/-- Parts with names, between braces. -/
def record (name : String) (parts : List (String × Outline)) : Outline :=
  .group (name ++ " \x7b") (parts.map fun part ↦ (part.1 ++ ": ", part.2)) "\x7d"

/-- A part under a name, between parentheses. -/
def wrapped (name : String) (part : Outline) : Outline := .group (name ++ "(") [("", part)] ")"

/-- A part that may be missing. -/
def option (part? : Option Outline) : Outline :=
  match part? with
  | none => .word "None"
  | some part => wrapped "Some" part

mutual

/-- The written form of a value; its further lines begin with `margin`. -/
def render (margin : String) : Outline → String
  | .word s => s
  | .group opening [] closing => opening ++ closing
  | .group opening (part :: parts) closing =>
    opening ++ "\n" ++ renderParts (margin ++ "    ") (part :: parts) ++ margin ++ closing

/-- The lines of the parts of a group. -/
def renderParts (margin : String) : List (String × Outline) → String
  | [] => ""
  | (label, part) :: rest =>
    margin ++ label ++ part.render margin ++ ",\n" ++ renderParts margin rest

end

end Outline

/-! ## Natural numbers -/

/-- The value of decimal digits, `n` being the value of those before them; `none` if there is
anything but digits. -/
def digitsValue? (n : Nat) : List Char → Option Nat
  | [] => some n
  | c :: rest => if c.isDigit then digitsValue? (10 * n + (c.toNat - '0'.toNat)) rest else none

/-- The natural number that a text stands for: digits, at least one, after an optional plus sign. -/
def natural? (s : String) : Option Nat :=
  let digits :=
    match s.toList with
    | '+' :: rest => rest
    | cs => cs
  if digits.isEmpty then none else digitsValue? 0 digits

end IdlLinker.Text
