import FormCalc.Fault

/-!
# Drafts

A draft is a list of instructions for a writer: text to be written, and the places at which
the writer goes a level down or up or has to watch its limits.  What a tree becomes is said
once, as a draft, and knows no limits; a writer that follows a draft knows nothing of trees.

* `Draft.descend`, `Draft.ascend`: one level down, and up again.
* `Draft.measure`: a place where the length of the text is checked.
* `Draft.scratch`: a part that is written on an empty sheet first, while the text so far is
  put aside, and whose text what follows may use any number of times.
* `Draft.write`: what a writer comes to by following a draft, or the first limit it breaks.
-/

namespace FormCalc

/-- Why no text can be written. -/
inductive OutputCause where
  | tooDeep (limit : Nat)
  | tooLarge (limit : Nat)
  /-- A call of something that is no built-in function. -/
  | unknownFunction (name : String)
  deriving DecidableEq, Repr

/-- How deep a draft may nest, and the length in bytes that its text must stay below. -/
structure OutputLimits where
  maxDepth : Nat := 5000
  maxLength : Nat := 256 * 1024 * 1024
  deriving DecidableEq, Repr

/-- A writer: the text so far, and how many levels down it is. -/
structure Writer where
  written : String := ""
  depth : Nat := 0

namespace Writer

/-- Refuses a writer that has gone below the limit on the depth. -/
def checkDepth (writer : Writer) (limits : OutputLimits) (span : Span) :
    Except (Fault OutputCause) Unit :=
  if limits.maxDepth < writer.depth then .error ⟨.tooDeep limits.maxDepth, span⟩ else .ok ()

/-- Refuses text that has reached the limit on its length. -/
def checkLength (writer : Writer) (limits : OutputLimits) (span : Span) :
    Except (Fault OutputCause) Unit :=
  if limits.maxLength ≤ writer.written.utf8ByteSize then
    .error ⟨.tooLarge limits.maxLength, span⟩
  else .ok ()

end Writer

/-- Instructions for a writer. -/
inductive Draft where
  | empty
  | text (s : String)
  | append (first second : Draft)
  | descend (span : Span)
  | ascend
  | measure (span : Span)
  | scratch (body : Draft) (use : String → Draft)
  /-- A call that cannot be written. -/
  | unknown (name : String) (span : Span)

namespace Draft

instance : Append Draft := ⟨append⟩

/-- A part one level deeper, whose length is checked once more behind it. -/
def node (span : Span) (body : Draft) : Draft := descend span ++ body ++ measure span ++ ascend

/-- Drafts with a separator between them. -/
def separated (separator : String) : List Draft → Draft
  | [] => empty
  | [only] => only
  | first :: second :: rest => first ++ text separator ++ separated separator (second :: rest)

/-- Follows a draft. -/
def write (limits : OutputLimits) : Draft → Writer → Except (Fault OutputCause) Writer
  | empty, writer => .ok writer
  | text s, writer => .ok { writer with written := writer.written ++ s }
  | append first second, writer => do
    let writer ← first.write limits writer
    second.write limits writer
  | descend span, writer => do
    let writer := { writer with depth := writer.depth + 1 }
    writer.checkDepth limits span
    writer.checkLength limits span
    return writer
  | ascend, writer => .ok { writer with depth := writer.depth - 1 }
  | measure span, writer => do
    writer.checkLength limits span
    return writer
  | scratch body use, writer => do
    let sheet ← body.write limits { writer with written := "" }
    (use sheet.written).write limits { sheet with written := writer.written }
  | unknown name span, _ => .error ⟨.unknownFunction name, span⟩

end Draft

end FormCalc
