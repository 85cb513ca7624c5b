import FormCalc.Compile
import FormCalc.Text.Utf8

/-!
# Scripts in files

A file holds a script as UTF-8, with or without a byte order mark, or as little-endian
UTF-16 behind the byte order mark of that encoding.

* `Script.decode`: the script in the bytes of a file.
* `Script.compile`: its JavaScript.
* `Script.shown`: the text in which errors are located.
-/

namespace FormCalc

/-- Why bytes hold no script. -/
inductive DecodeError where
  /-- The bytes behind the mark of UTF-16 do not come in pairs. -/
  | oddLength
  | notUtf8 (error : Text.Utf8.Error)
  deriving DecidableEq, Repr

/-- What is said about bytes that hold no script. -/
def DecodeError.message : DecodeError → String
  | .oddLength => "UTF-16 input has an odd number of bytes"
  | .notUtf8 error => "input is not valid UTF-8: " ++ error.message

/-- A script as a file holds it. -/
inductive Script where
  | text (text : String)
  | units (units : List UInt16)
  deriving DecidableEq, Repr

namespace Script

/-- Pairs of bytes as 16-bit units, the low byte first.  There are none if a byte is
left over. -/
def unitsOfBytes : List UInt8 → Option (List UInt16)
  | [] => some []
  | [_] => none
  | low :: high :: rest =>
    (unitsOfBytes rest).map ((high.toUInt16 <<< 8 ||| low.toUInt16) :: ·)

/-- The bytes behind the byte order mark of UTF-8, if there is one. -/
def withoutMark : List UInt8 → List UInt8
  | 0xEF :: 0xBB :: 0xBF :: rest => rest
  | bytes => bytes

/-- The script in the bytes of a file. -/
def decode : List UInt8 → Except DecodeError Script
  | 0xFF :: 0xFE :: rest =>
    match unitsOfBytes rest with
    | some us => .ok (.units us)
    | none => .error .oddLength
  | bytes =>
    match Text.Utf8.decode (withoutMark bytes) with
    | .ok s => .ok (.text s)
    | .error error => .error (.notUtf8 error)

/-- The JavaScript of a script. -/
def compile (options : Options) : Script → Except Error String
  | .text s => FormCalc.compile options s
  | .units us => compileUnits options us

/-- The script as text, in which errors are located.  A unit that is half of a pair shows
as the replacement character. -/
def shown : Script → String
  | .text s => s
  | .units us => Text.Utf16.lossy us

end Script

end FormCalc
