import FormCalc.Host.Helper
import FormCalc.Host.Table

/-!
# Built-in functions

The functions that a script may call.  A call may spell the name in any mixture of case;
the generated code uses the spelling below.
-/

namespace FormCalc.Host

/-- The built-in functions, sorted without regard to case. -/
def builtins : Array String :=
  #["Abs", "Apr", "At", "Avg", "Ceil", "Choose", "Concat", "Count", "Cterm", "Date",
    "Date2Num", "DateFmt", "Decode", "Encode", "Eval", "Exists", "Floor", "Format", "FV",
    "Get", "HasValue", "If", "Ipmt", "IsoDate2Num", "IsoTime2Num", "Left", "Len",
    "LocalDateFmt", "LocalTimeFmt", "Lower", "Ltrim", "Max", "Min", "Mod", "NPV", "Num2Date",
    "Num2GMTime", "Num2Time", "Oneof", "Parse", "Pmt", "Post", "PPmt", "Put", "PV", "Rate",
    "Ref", "Replace", "Right", "Round", "Rtrim", "Space", "Str", "Stuff", "Substr", "Sum",
    "Term", "Time", "Time2Num", "TimeFmt", "UnitType", "UnitValue", "Upper", "Uuid", "Within",
    "WordNum"]

/-- The length in bytes of the longest built-in name. -/
def maxBuiltinLength : Nat := 12

/-- The spelling of the built-in function that a name means, without regard to the case
of ASCII letters.  A name longer than any of them is not looked up. -/
def builtin? (name : String) : Option String :=
  if name.utf8ByteSize > maxBuiltinLength then none
  else search (fun entry => compareBy Char.toLower entry.toList name.toList) builtins

/-- Whether the host's object has a member of this name. -/
def isMember (name : String) : Bool :=
  Helper.all.any (·.name == name) || builtins.contains name

end FormCalc.Host
