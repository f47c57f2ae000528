import SurfaceReport.Signature

/-!
# Outlines of types

An outline shows how a type is put together, from the outside in. Pointers to code, which nothing
declares, are told apart by the outline of what they give back. Only the beginning of an outline is
ever shown, so it is written no further than that can reach: what would be longer than the beginning
is left open.
-/

namespace SurfaceReport

namespace Image

def primitiveOutline : Primitive → String
  | .void => "Void"
  | .boolean => "Boolean"
  | .char => "Char"
  | .int8 => "I1"
  | .uint8 => "U1"
  | .int16 => "I2"
  | .uint16 => "U2"
  | .int32 => "I4"
  | .uint32 => "U4"
  | .int64 => "I8"
  | .uint64 => "U8"
  | .float32 => "R4"
  | .float64 => "R8"
  | .string => "String"
  | .object => "Object"
  | .intPtr => "I"
  | .uintPtr => "U"
  | .typedReference => "TypedByRef"

def markerOutline : Marker → String
  | .internal => "Internal"
  | .modifier => "Modifier"
  | .sentinel => "Sentinel"
  | .requiredModifier => "ModifiedRequired"
  | .optionalModifier => "ModifiedOptional"
  | .reserved => "Reserved"

/-- The outline of a type, or its beginning if that is long enough. -/
def outline : Signature → String
  | .primitive p => primitiveOutline p
  | .named .classType token => "Class(Token(" ++ token.text
  | .named .valueType token => "ValueType(Token(" ++ token.text
  | .typeParameter _ => "GenericParamType"
  | .methodParameter _ => "GenericParamMethod"
  | .vector _ => "SzArray(SignatureSzArray"
  | .array _ _ => "Array(SignatureArray"
  | .pointer _ => "Ptr(SignaturePointer"
  | .byRef target => "ByRef(" ++ outline target ++ ")"
  | .pinned target => "Pinned(" ++ outline target ++ ")"
  | .instantiation base _ => "GenericInst(" ++ outline base
  | .functionPointer _ _ _ => "FnPtr(SignatureMethod"
  | .marker m => markerOutline m

/-- How many characters of an outline are shown. -/
def outlineLimit : Nat := 16

/-- The beginning of a type's outline. -/
def shortOutline (s : Signature) : String :=
  .ofList ((outline s).toList.take outlineLimit)

end Image

end SurfaceReport
