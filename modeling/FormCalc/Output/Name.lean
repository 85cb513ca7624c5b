/-!
# Names and strings in JavaScript

How the names and string literals of a script are spelled in JavaScript.  A name that
starts with `!` is no JavaScript name and takes a prefix instead; a handful of names
stand for objects of the form.
-/

namespace FormCalc

/-- What stands for the `!` in front of a name. -/
def exclamationText : String := "pfm__excl__"

/-- A name where it is declared. -/
def declaredName (name : String) : String :=
  match name.toList with
  | '!' :: rest => exclamationText ++ String.ofList rest
  | _ => name

/-- The names that stand for objects of the form. -/
def objectNames : List (String × String) :=
  [("$", "this"), ("!", "xfa.datasets"), ("$data", "xfa.datasets.data"),
   ("$event", "xfa.event"), ("$form", "xfa.form"), ("$host", "xfa.host"),
   ("$layout", "xfa.layout"), ("$template", "xfa.template")]

/-- A name where it is used. -/
def referencedName (name : String) : String :=
  (objectNames.lookup name).getD (declaredName name)

/-- The inside of a string literal in JavaScript: a quote, which a script writes twice, is
escaped, a line feed is escaped, and a carriage return is dropped. -/
def escaped : List Char → List Char
  | [] => []
  | ['"'] => ['\\', '"']
  | '"' :: _ :: cs => '\\' :: '"' :: escaped cs
  | '\r' :: cs => escaped cs
  | '\n' :: cs => '\\' :: 'n' :: escaped cs
  | c :: cs => c :: escaped cs

/-- A string literal with its quotes.  The shortest ones hold nothing to escape. -/
def quotedText (raw : String) : String :=
  if raw.utf8ByteSize ≤ 2 then raw
  else "\"" ++ String.ofList (escaped (raw.toList.drop 1).dropLast) ++ "\""

end FormCalc
