import SnapLisp.Number.Format

/-!
# JSON documents

The documents that describe scripts, and their indented text. The fields of an object stand in the
order in which they are given. Writing a document puts its text in front of a rest
(`Json.render`), so that no text is copied twice.
-/

namespace SnapLisp

/-- A JSON document. -/
inductive Json where
  | null
  | natural (n : Nat)
  /-- A finite double. -/
  | number (x : Float)
  | string (s : String)
  | array (items : List Json)
  | object (fields : List (String × Json))

namespace Json

/-- The document of a double. Those that are not finite have none and become `null`. -/
def ofFloat (x : Float) : Json := if x.isFinite then .number x else .null

/-- A lower-case hexadecimal digit. -/
def hexDigit (n : Nat) : Char := if n < 10 then Char.ofNat (48 + n) else Char.ofNat (87 + n)

/-- How a character stands in a string: a quote, a backslash and the control characters are
escaped. -/
def escape (c : Char) : List Char :=
  if c = '"' then ['\\', '"']
  else if c = '\\' then ['\\', '\\']
  else if c = '\n' then ['\\', 'n']
  else if c = '\r' then ['\\', 'r']
  else if c = '\t' then ['\\', 't']
  else if c = '\x08' then ['\\', 'b']
  else if c = '\x0c' then ['\\', 'f']
  else if c.toNat < 32 then
    ['\\', 'u', '0', '0', hexDigit (c.toNat / 16), hexDigit (c.toNat % 16)]
  else [c]

/-- A quoted string in front of a rest. -/
def quote (s : String) (rest : List Char) : List Char :=
  '"' :: (s.toList.flatMap escape ++ '"' :: rest)

/-- A new line with two blanks a level, in front of a rest. -/
def newline (level : Nat) (rest : List Char) : List Char :=
  '\n' :: (List.replicate (2 * level) ' ' ++ rest)

mutual

/-- The indented text of a document that starts on a line of the given level, in front of a rest. -/
def render (level : Nat) : Json → List Char → List Char
  | .null, rest => 'n' :: 'u' :: 'l' :: 'l' :: rest
  | .natural n, rest => Nat.toDigits 10 n ++ rest
  | .number x, rest => (Number.Format.json.text x).toList ++ rest
  | .string s, rest => quote s rest
  | .array [], rest => '[' :: ']' :: rest
  | .array (j :: js), rest =>
    '[' :: newline (level + 1)
      (render (level + 1) j (renderItems (level + 1) js (newline level (']' :: rest))))
  | .object [], rest => '\x7b' :: '\x7d' :: rest
  | .object ((key, j) :: fields), rest =>
    '\x7b' :: newline (level + 1) (quote key (':' :: ' ' ::
      render (level + 1) j (renderFields (level + 1) fields (newline level ('\x7d' :: rest)))))

/-- Further elements of an array, each on a line of its own, in front of a rest. -/
def renderItems (level : Nat) : List Json → List Char → List Char
  | [], rest => rest
  | j :: js, rest => ',' :: newline level (render level j (renderItems level js rest))

/-- Further fields of an object, each on a line of its own, in front of a rest. -/
def renderFields (level : Nat) : List (String × Json) → List Char → List Char
  | [], rest => rest
  | (key, j) :: fields, rest =>
    ',' :: newline level (quote key (':' :: ' ' ::
      render level j (renderFields level fields rest)))

end

/-- The indented text of a document. -/
def text (j : Json) : String := String.ofList (j.render 0 [])

end Json

end SnapLisp
