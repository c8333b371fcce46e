import SnapLisp.Form.Basic
import SnapLisp.Json

/-!
# Scripts as JSON documents

A node becomes an object of its kind, its content and its place, with the keys in the order of
their bytes. The full document gives both ends of every span; in the compact one a single entry
under `@` names lines and columns.
-/

namespace SnapLisp

/-- The document of a place. -/
def Position.json (p : Position) : Json :=
  .object [("column", .natural p.column), ("line", .natural p.line), ("offset", .natural p.offset)]

namespace Form

mutual

/-- The document of a form with both ends of every span. -/
def json : Form → Json
  | .symbol name span =>
    .object [("end", span.stop.json), ("kind", .string "symbol"), ("start", span.start.json),
      ("symbol", .string name)]
  | .number value span =>
    .object [("end", span.stop.json), ("kind", .string "number"), ("number", .ofFloat value),
      ("start", span.start.json)]
  | .list items span =>
    .object [("end", span.stop.json), ("kind", .string "list"), ("list", .array (jsonAll items)),
      ("start", span.start.json)]

/-- The full documents of the forms of a list. -/
def jsonAll : List Form → List Json
  | [] => []
  | f :: fs => json f :: jsonAll fs

end

mutual

/-- The document of a form with one entry for each span. -/
def compactJson : Form → Json
  | .symbol name span =>
    .object [("@", .string span.compact), ("kind", .string "symbol"), ("symbol", .string name)]
  | .number value span =>
    .object [("@", .string span.compact), ("kind", .string "number"), ("number", .ofFloat value)]
  | .list items span =>
    .object [("@", .string span.compact), ("kind", .string "list"),
      ("list", .array (compactJsonAll items))]

/-- The compact documents of the forms of a list. -/
def compactJsonAll : List Form → List Json
  | [] => []
  | f :: fs => compactJson f :: compactJsonAll fs

end

end Form

/-- The document of a script, with collapsed spans or with both ends of each. -/
def Script.json (s : Script) (compact : Bool) : Json :=
  if compact then
    .object [("@", .string s.span.compact), ("exprs", .array (Form.compactJsonAll s.forms)),
      ("kind", .string "module")]
  else
    .object [("end", s.span.stop.json), ("exprs", .array (Form.jsonAll s.forms)),
      ("kind", .string "module"), ("start", s.span.start.json)]

end SnapLisp
