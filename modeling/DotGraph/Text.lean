set_option autoImplicit false

namespace DotGraph.Text

/-- The code points with the Unicode property White_Space, as closed ranges. -/
def blankRanges : List (Nat × Nat) :=
  [(0x09, 0x0D), (0x20, 0x20), (0x85, 0x85), (0xA0, 0xA0), (0x1680, 0x1680),
   (0x2000, 0x200A), (0x2028, 0x2029), (0x202F, 0x202F), (0x205F, 0x205F), (0x3000, 0x3000)]

def isBlankChar (c : Char) : Bool :=
  blankRanges.any fun r => decide (r.1 ≤ c.toNat ∧ c.toNat ≤ r.2)

def isBlank (s : String) : Bool := s.toList.all isBlankChar

def isNameStart (c : Char) : Bool :=
  c.isAlpha || c == '_' || decide (0x80 ≤ c.toNat ∧ c.toNat ≤ 0xFF)

def isNamePart (c : Char) : Bool := isNameStart c || c.isDigit

-- A scanner takes as much as it can and returns the rest, or nothing where it does not begin.

def afterName? : List Char → Option (List Char)
  | [] => none
  | c :: s => if isNameStart c then some (s.dropWhile isNamePart) else none

def afterDigits? : List Char → Option (List Char)
  | [] => none
  | c :: s => if c.isDigit then some (s.dropWhile Char.isDigit) else none

def afterMinus : List Char → List Char
  | '-' :: s => s
  | s => s

def afterFraction : List Char → List Char
  | '.' :: s => s.dropWhile Char.isDigit
  | s => s

def afterPoint? : List Char → Option (List Char)
  | '.' :: s => afterDigits? s
  | _ => none

def afterWhole? (s : List Char) : Option (List Char) := (afterDigits? s).map afterFraction

def afterUnsigned? (s : List Char) : Option (List Char) := afterPoint? s <|> afterWhole? s

def afterNumeral? (s : List Char) : Option (List Char) := afterUnsigned? (afterMinus s)

def afterBare? (s : List Char) : Option (List Char) := afterName? s <|> afterNumeral? s

def isBare (s : String) : Bool := afterBare? s.toList == some []

/-- Writes `w` in the place of every `a`. -/
def replaceChar (a : Char) (w : List Char) (s : List Char) : List Char :=
  s.flatMap fun c => if c = a then w else [c]

/-- Writes `w` in the place of every `a` that is followed by `b`, and of this `b`. -/
def replacePair (a b : Char) (w : List Char) : List Char → List Char
  | c :: d :: s =>
    if c = a ∧ d = b then w ++ replacePair a b w s else c :: replacePair a b w (d :: s)
  | s => s

/-- Four passes, each over the result of the one before it. Backslashes come first, so that
none of the others meets a backslash it would have to double. -/
def escapeChars (s : List Char) : List Char :=
  replaceChar '\n' ['\\', 'n'] (replacePair '\r' '\n' ['\\', 'n']
    (replaceChar '"' ['\\', '"'] (replaceChar '\\' ['\\', '\\'] s)))

def escape (s : String) : String := String.ofList (escapeChars s.toList)

/-- How strings are written. Raw ones are taken to be escaped already. -/
inductive StringMode where
  | escaped | raw
  deriving DecidableEq, Repr

def StringMode.write : StringMode → String → String
  | .escaped, s => escape s
  | .raw, s => s

def quote (mode : StringMode) (s : String) : String :=
  if isBare s then mode.write s else "\"" ++ mode.write s ++ "\""

theorem toList_escape (s : String) : (escape s).toList = escapeChars s.toList :=
  String.toList_ofList

theorem quote_of_isBare (mode : StringMode) {s : String} (h : isBare s = true) :
    quote mode s = mode.write s := if_pos h

theorem quote_of_isBare_false (mode : StringMode) {s : String} (h : isBare s = false) :
    quote mode s = "\"" ++ mode.write s ++ "\"" := by
  rw [quote, h]
  rfl

end DotGraph.Text
