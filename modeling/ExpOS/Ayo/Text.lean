import ExpOS.Support.Chars

/-!
# Texts of the package manager

The package manager compares names without regard to case, splits texts at
separators and cleans slash-separated paths.  The tables of the character set
and the quoting of a text in a message are parameters.
-/

namespace ExpOS.Ayo

abbrev Text := List Char

/-- The characters of a literal. -/
def text (literal : String) : Text :=
  literal.toList

/-- What the model takes from the text library of the host language. -/
class TextLibrary where
  /-- One character for all that differ from it in case only. -/
  fold : Char → Char
  /-- The small letter of a character. -/
  lower : Char → Char
  /-- The text in quotation marks, with escapes. -/
  quote : Text → Text

/-- The tables restricted to ASCII letters, and quoting without escapes. -/
@[reducible] def asciiLibrary : TextLibrary where
  fold := Char.toLower
  lower := Char.toLower
  quote s := '"' :: s ++ ['"']

section Case

variable [TextLibrary]

/-- Equal up to case. -/
def equalFold (a b : Text) : Bool :=
  a.map TextLibrary.fold == b.map TextLibrary.fold

def toLower (s : Text) : Text :=
  s.map TextLibrary.lower

end Case

/-! ## Separators -/

def startsWith (s head : Text) : Bool :=
  head.isPrefixOf s

/-- The text before the first separator, and the text after it if there is
one. -/
def cut (separator : Char) : Text → Text × Option Text
  | [] => ([], none)
  | c :: rest =>
    if c = separator then ([], some rest)
    else
      let (before, after) := cut separator rest
      (c :: before, after)

/-- The texts with another one between neighbours. -/
def join (separator : String) (parts : List Text) : Text :=
  List.intercalate (text separator) parts

/-! ## Decimal numbers -/

def digit (c : Char) : Option ℕ :=
  if '0' ≤ c ∧ c ≤ '9' then some (c.toNat - 48) else none

/-- The value of a text of one or more digits. -/
def decimal : Text → Option ℕ
  | [] => none
  | digits => digits.foldlM (fun n c => (digit c).map (n * 10 + ·)) 0

/-- The value of a number that fits into 64 bits. -/
def atoi : Text → Option ℤ
  | '-' :: digits =>
    (decimal digits).bind fun n =>
      if n ≤ 2 ^ 63 then some (-(n : ℤ)) else none
  | '+' :: digits =>
    (decimal digits).bind fun n => if n < 2 ^ 63 then some n else none
  | digits =>
    (decimal digits).bind fun n => if n < 2 ^ 63 then some n else none

/-! ## Paths -/

/-- Take one component of a path into the components kept so far, the last one
first. -/
def cleanStep (rooted : Bool) (kept : List Text) (component : Text) : List Text :=
  if component = [] ∨ component = text "." then kept
  else if component = text ".." then
    match kept with
    | last :: rest => if last = text ".." then component :: kept else rest
    | [] => if rooted then [] else [component]
  else component :: kept

/-- The shortest path that means the same. -/
def pathClean (path : Text) : Text :=
  if path = [] then text "."
  else
    let rooted := startsWith path (text "/")
    let body := join "/"
      ((path.splitOn '/').foldl (cleanStep rooted) []).reverse
    if rooted then '/' :: body else if body = [] then text "." else body

end ExpOS.Ayo
