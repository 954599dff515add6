/-!
# Inspection text

Values that a reader of logs may want to look at describe themselves by an `Outline`. It has two
printed forms: on one line, or with one entry per line. Both show the same outline, and texts are
quoted the same way in both.
-/

namespace RpcMethod

/-- What a value shows of itself. A record that keeps some of its fields to itself says so. -/
inductive Outline where
  | word (text : String)
  | quoted (text : String)
  | list (items : List Outline)
  | call (name : String) (arguments : List Outline)
  | record (name : String) (fields : List (String × Outline)) (partly : Bool)

namespace Outline

def number (n : Nat) : Outline := word (Nat.repr n)

def flag (b : Bool) : Outline := word (if b then "true" else "false")

/-- An optional value, shown as `None` or within `Some`. -/
def option : Option Outline → Outline
  | none => word "None"
  | some shown => call "Some" [shown]

/-- A character as it stands between quotes: the quote, the backslash and the control characters
are escaped, by a letter if there is one and otherwise by their number in base sixteen. No other
character is escaped: combining marks, and characters from U+00A0 on that do not print, stand as
they are, so this is the inspection text only of texts that have none of these. -/
def escape (c : Char) : String :=
  if c = '"' then "\\\""
  else if c = '\\' then "\\\\"
  else if c = '\n' then "\\n"
  else if c = '\r' then "\\r"
  else if c = '\t' then "\\t"
  else if c.toNat = 0 then "\\0"
  else if c.toNat < 32 ∨ 127 ≤ c.toNat ∧ c.toNat < 160 then
    "\\u\x7b" ++ String.ofList (Nat.toDigits 16 c.toNat) ++ "\x7d"
  else String.singleton c

def quote (text : String) : String :=
  "\"" ++ String.join (text.toList.map escape) ++ "\""

mutual
/-- The outline on one line. -/
def line : Outline → String
  | word text => text
  | quoted text => quote text
  | list items => "[" ++ ", ".intercalate (lines items) ++ "]"
  | call name arguments => name ++ "(" ++ ", ".intercalate (lines arguments) ++ ")"
  | record name fields partly =>
    let entries := fieldLines fields ++ (if partly then [".."] else [])
    if entries.isEmpty then name
    else name ++ " \x7b " ++ ", ".intercalate entries ++ " \x7d"

def lines : List Outline → List String
  | [] => []
  | shown :: rest => line shown :: lines rest

def fieldLines : List (String × Outline) → List String
  | [] => []
  | (name, shown) :: rest => (name ++ ": " ++ line shown) :: fieldLines rest
end

/-- The start of a line: four blanks for every level. -/
def margin (level : Nat) : String := String.ofList (List.replicate (4 * level) ' ')

/-- Entries between an opening and a closing text, each on a line of its own one level deeper and
each but a closing `..` followed by a comma. -/
def block (level : Nat) (opening closing : String) (entries : List String) (partly : Bool) :
    String :=
  let inner := margin (level + 1)
  let body := String.join (entries.map fun entry => inner ++ entry ++ ",\n")
  let rest := if partly then inner ++ "..\n" else ""
  opening ++ "\n" ++ body ++ rest ++ margin level ++ closing

mutual
/-- The outline with one entry per line, as it stands at a level of indentation. -/
def page (level : Nat) : Outline → String
  | word text => text
  | quoted text => quote text
  | list items => if items.isEmpty then "[]" else block level "[" "]" (pages (level + 1) items) false
  | call name arguments => block level (name ++ "(") ")" (pages (level + 1) arguments) false
  | record name fields partly =>
    if fields.isEmpty then name ++ (if partly then " \x7b .. \x7d" else "")
    else block level (name ++ " \x7b") "\x7d" (fieldPages (level + 1) fields) partly

def pages (level : Nat) : List Outline → List String
  | [] => []
  | shown :: rest => page level shown :: pages level rest

def fieldPages (level : Nat) : List (String × Outline) → List String
  | [] => []
  | (name, shown) :: rest => (name ++ ": " ++ page level shown) :: fieldPages level rest
end

/-- The outline with one entry per line. -/
def indented (shown : Outline) : String := page 0 shown

end Outline

end RpcMethod
