/-!
# Glob patterns

A glob pattern stands for many names: `?` is any character, `*` any text, and a class such as
`[a-z]` or `[!0-9]` one character that is in a set or is not. A component `**` stands for any number
of folders; two stars may stand nowhere else.

In a class every character stands for itself, except that a hyphen with a character on both sides
makes a range. The first character of a class cannot close it, so `[]]` is a class of one bracket.

A pattern is read as a whole first, for the sake of its faults, whose positions are those in the
text as it was given; then each component is read by itself. A component is a list of tokens, and
matching is the only recursion over it: a star stands for nothing, or for one more character and the
star again.
-/

namespace IdlLinker.Glob

/-- A part of a character class. -/
inductive CharRange where
  | one (c : Char)
  | between (first last : Char)
deriving DecidableEq, Repr

namespace CharRange

def contains : CharRange → Char → Bool
  | .one c, x => x = c
  | .between first last, x => first ≤ x && x ≤ last

def ofChars : List Char → List CharRange
  | first :: '-' :: last :: rest => .between first last :: ofChars rest
  | c :: rest => .one c :: ofChars rest
  | [] => []

end CharRange

/-- A part of a pattern. -/
inductive Token where
  | char (c : Char)
  | anyChar
  | anyText
  /-- Any number of folders. -/
  | anyFolders
  | inside (ranges : List CharRange)
  | outside (ranges : List CharRange)
deriving DecidableEq, Repr

/-- Whether a token that stands for one character stands for the given one. -/
def Token.admits : Token → Char → Bool
  | .char c, x => x = c
  | .anyChar, _ => true
  | .inside ranges, x => ranges.any (·.contains x)
  | .outside ranges, x => !ranges.any (·.contains x)
  | .anyText, _ | .anyFolders, _ => false

/-- The character that a token is, if it is one. -/
def Token.char? : Token → Option Char
  | .char c => some c
  | _ => none

/-- What is wrong with the text of a pattern. -/
inductive PatternCause where
  | tooManyStars
  | starsInComponent
  | malformedClass
deriving DecidableEq, Repr

/-- Why a text is no pattern, and at which character. -/
structure PatternFault where
  position : Nat
  cause : PatternCause
deriving DecidableEq, Repr

def PatternFault.message (fault : PatternFault) : String :=
  "Pattern syntax error near position " ++ toString fault.position ++ ": " ++
    match fault.cause with
    | .tooManyStars => "wildcards are either regular `*` or recursive `**`"
    | .starsInComponent => "recursive wildcards must form a single path component"
    | .malformedClass => "invalid range pattern"

/-- What an opening bracket begins: the characters of a class and the text after it, if a bracket
closes it; `first` cannot. -/
def closeClass? (first : Char) (rest : List Char) : Option (List Char × List Char) :=
  match rest.dropWhile (· ≠ ']') with
  | [] => none
  | _ :: after => some (first :: rest.takeWhile (· ≠ ']'), after)

theorem length_of_closeClass? {first : Char} {rest chars after : List Char}
    (h : closeClass? first rest = some (chars, after)) : after.length < rest.length := by
  have hle := (List.dropWhile_sublist (l := rest) (· ≠ ']')).length_le
  unfold closeClass? at h
  split at h
  · cases h
  · rename_i heq
    cases h
    rw [heq] at hle
    exact hle

/-- The tokens of a pattern from a position on; `before` is the character before it. -/
def tokens (position : Nat) (before : Option Char) : List Char → Except PatternFault (List Token)
  | [] => .ok []
  | '?' :: rest => do return .anyChar :: (← tokens (position + 1) (some '?') rest)
  | '*' :: '*' :: '*' :: _ => .error ⟨position + 2, .tooManyStars⟩
  | '*' :: '*' :: rest =>
    if before.any (· ≠ '/') then .error ⟨position - 1, .starsInComponent⟩
    else if rest.head?.any (· ≠ '/') then .error ⟨position + 2, .starsInComponent⟩
    else do return .anyFolders :: (← tokens (position + 2) (some '*') rest)
  | '*' :: rest => do return .anyText :: (← tokens (position + 1) (some '*') rest)
  | '[' :: '!' :: first :: rest =>
    match h : closeClass? first rest with
    | none => .error ⟨position, .malformedClass⟩
    | some (chars, after) => do
      have := length_of_closeClass? h
      return .outside (CharRange.ofChars chars) ::
        (← tokens (position + 3 + chars.length) (some ']') after)
  | ['[', '!'] => .error ⟨position, .malformedClass⟩
  | '[' :: first :: rest =>
    match h : closeClass? first rest with
    | none => .error ⟨position, .malformedClass⟩
    | some (chars, after) => do
      have := length_of_closeClass? h
      return .inside (CharRange.ofChars chars) ::
        (← tokens (position + 2 + chars.length) (some ']') after)
  | ['['] => .error ⟨position, .malformedClass⟩
  | c :: rest => do return .char c :: (← tokens (position + 1) (some c) rest)
termination_by cs => cs.length

/-- A pattern for one component of a path. -/
structure Pattern where
  tokens : List Token
deriving DecidableEq, Repr

namespace Pattern

/-- The pattern that a text stands for. -/
def ofText (s : String) : Except PatternFault Pattern := do return ⟨← Glob.tokens 0 none s.toList⟩

/-- Whether a pattern stands for any number of folders. -/
def isRecursive (p : Pattern) : Bool := p.tokens.contains .anyFolders

/-- The only name that a pattern without wildcards stands for. -/
def literal? (p : Pattern) : Option String :=
  (p.tokens.mapM Token.char?).map String.ofList

def matchTokens : List Token → List Char → Bool
  | [], cs => cs.isEmpty
  | .anyText :: rest, [] | .anyFolders :: rest, [] => matchTokens rest []
  | .anyText :: rest, c :: cs => matchTokens rest (c :: cs) || matchTokens (.anyText :: rest) cs
  | .anyFolders :: rest, c :: cs =>
    matchTokens rest (c :: cs) || matchTokens (.anyFolders :: rest) cs
  | token :: rest, c :: cs => token.admits c && matchTokens rest cs
  | _ :: _, [] => false
termination_by tokens cs => tokens.length + cs.length

def admits (p : Pattern) (name : String) : Bool := matchTokens p.tokens name.toList

/-- Whether a pattern begins with a point of its own. -/
def beginsWithPoint (p : Pattern) : Bool := p.tokens.head? = some (.char '.')

end Pattern

/-- A pattern for a path: where to begin, and a pattern for each component after that. -/
structure PathPattern where
  /-- Whether the path begins at the root. -/
  rooted : Bool
  /-- The components; of neighbours that stand for any number of folders there is only one. -/
  components : List Pattern
  /-- Whether only folders are meant. -/
  onlyFolders : Bool

namespace PathPattern

/-- The pieces of a text between slashes; a slash at the end ends the last piece. -/
def pieces (s : String) : List String :=
  match (s.splitOn "/").reverse with
  | "" :: back => back.reverse
  | all => all.reverse

/-- Keeps one of neighbouring components that stand for any number of folders. -/
def collapse : List Pattern → List Pattern
  | p :: q :: rest =>
    if p.isRecursive && q.isRecursive then collapse (q :: rest) else p :: collapse (q :: rest)
  | ps => ps

/-- The path pattern that a text stands for. The text has to be a pattern as a whole, and each of
its components by itself. -/
def ofText (s : String) : Except PatternFault PathPattern := do
  let _ ← Pattern.ofText s
  let rooted := s.toList.head? = some '/'
  let body := if rooted then String.ofList (s.toList.drop 1) else s
  let components ← (pieces body).mapM Pattern.ofText
  return ⟨rooted, collapse (if s = "/" then [⟨[]⟩] else components), s.toList.getLast? = some '/'⟩

end PathPattern

/-- Whether a text is meant as a pattern. -/
def isPattern (s : String) : Bool := s.toList.any fun c ↦ c = '*' || c = '?' || c = '['

end IdlLinker.Glob
