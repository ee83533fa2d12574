/-!
Records as text. A record is a name and its fields in order. On one line the fields follow each other between braces;
spread out, each field has a line of its own, indented by four blanks, and a line break inside a field is indented too.
-/

namespace Injection.Text

abbrev Field := String × String

/-- A field as it stands in a record. -/
def Field.text (field : Field) : String := field.1 ++ ": " ++ field.2

def record (name : String) : List Field → String
  | [] => name
  | fields => name ++ " \x7b " ++ ", ".intercalate (fields.map Field.text) ++ " \x7d"

/-- Every line of a text moved right by four blanks. -/
def indented (s : String) : String := "\n".intercalate ((s.splitOn "\n").map ("    " ++ ·))

def recordLines (name : String) : List Field → String
  | [] => name
  | fields =>
    name ++ " \x7b\n" ++ "".intercalate (fields.map fun field => indented (field.text ++ ",") ++ "\n") ++ "\x7d"

end Injection.Text
