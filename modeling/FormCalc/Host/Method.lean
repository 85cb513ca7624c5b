import FormCalc.Host.Table

/-!
# Methods of form objects

Methods take values, except for the arguments listed here, which they take as objects.
-/

namespace FormCalc.Host

/-- The methods that take objects, sorted by name.  Bit `i` of the mask stands for
argument `i`. -/
def methods : Array (String × Nat) :=
  #[("absPage", 0x01), ("absPageInBatch", 0x01), ("absPageSpan", 0x01), ("append", 0x01),
    ("clear", 0x01), ("formNodes", 0x01), ("h", 0x01), ("insert", 0x03),
    ("isRecordGroup", 0x01), ("page", 0x01), ("pageSpan", 0x01), ("remove", 0x01),
    ("saveFilteredXML", 0x01), ("setElement", 0x01), ("sheet", 0x01), ("sheetInBatch", 0x01),
    ("sign", 0x61), ("verify", 0x0d), ("w", 0x01), ("x", 0x01), ("y", 0x01)]

/-- The mask of a method, in which a method that is not listed has no bit set.  Names are
matched exactly. -/
def objectMask (name : String) : Nat :=
  match search (fun entry => compareBy id entry.1.toList name.toList) methods with
  | some entry => entry.2
  | none => 0

/-- Whether the method of this mask takes argument `i` as an object. -/
def takesObject (mask i : Nat) : Bool := mask.testBit i

end FormCalc.Host
