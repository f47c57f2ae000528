import SurfaceReport.Image.Number

/-!
# The streams of metadata

Metadata begins with the version of the runtime that it is for and a list of named streams: one
with the rows of all tables, and heaps that the rows refer to by index. Every name has its meaning,
and no two streams share one. The rows have to be there; any heap may be missing, and then there is
nothing to refer to.
-/

namespace SurfaceReport

namespace Image

/-- The streams that a report needs. -/
structure Streams where
  tables : ByteArray
  texts : ByteArray := .empty
  /-- The texts that programs use, and no declaration. -/
  literals : ByteArray := .empty
  /-- Even index 0 stands for nothing in a heap that is not there. -/
  blobs? : Option ByteArray := none
  identifiers : ByteArray := .empty

namespace Streams

def blob? (s : Streams) (index : Nat) : Option Bytes := s.blobs?.bind (Image.blob? · index)

/-! ## Names -/

def tablesName : Bytes := Utf8.encode "#~"

/-- The name of rows that may stand in another order than their owners. -/
def unorderedTablesName : Bytes := Utf8.encode "#-"

def textsName : Bytes := Utf8.encode "#Strings"

def literalsName : Bytes := Utf8.encode "#US"

def identifiersName : Bytes := Utf8.encode "#GUID"

def blobsName : Bytes := Utf8.encode "#Blob"

def names : List Bytes :=
  [tablesName, unorderedTablesName, textsName, literalsName, identifiersName, blobsName]

/-- The heaps that begin with an empty entry, at index 0. -/
def zeroedHeaps : List Bytes := [textsName, literalsName, blobsName]

/-! ## The list of streams -/

/-- The named streams that are described one after the other from an offset on. A name is ended by
zeros, up to a multiple of four bytes. -/
def described? (metadata : ByteArray) (offset : Nat) :
    (count : Nat) → Option (List (Bytes × ByteArray))
  | 0 => some []
  | count + 1 => do
    let start ← word? metadata offset
    let size ← word? metadata (offset + 4)
    let name ← terminated? metadata (offset + 8)
    let content ← stretch? metadata start size
    let rest ← described? metadata (offset + 8 + 4 * (name.length / 4 + 1)) count
    return (name, content) :: rest

/-- The content of a stream can be what its name says. -/
def isSound (name : Bytes) (content : ByteArray) : Bool :=
  names.contains name &&
    (!zeroedHeaps.contains name || content[0]? == some 0) &&
    (name != identifiersName || identifierSize ≤ content.size)

/-- The first letter of a version. -/
def versionMark : UInt8 := 'v'.val.toUInt8

/-- The longest version, with the zeros behind it. -/
def versionLimit : Nat := 255

/-- Some bytes can be the version of a runtime: they begin with the letter, and are all ASCII. -/
def isVersion (bytes : Bytes) : Bool := bytes.head? == some versionMark && bytes.all (· < 0x80)

/-- The streams of some metadata. -/
def read? (metadata : ByteArray) : Option Streams := do
  guard ((← word? metadata 0) = 0x424A5342)
  let versionSize ← word? metadata 12
  guard (versionSize ≤ versionLimit)
  guard (isVersion (← stretch? metadata 16 versionSize).toList)
  let count ← half? metadata (16 + versionSize + 2)
  let all ← described? metadata (16 + versionSize + 4) count
  guard (all.all fun stream => isSound stream.1 stream.2)
  guard (all.map (·.1)).Nodup
  let find name := all.lookup name
  return {
    tables := ← find tablesName <|> find unorderedTablesName
    texts := (find textsName).getD .empty
    literals := (find literalsName).getD .empty
    blobs? := find blobsName
    identifiers := (find identifiersName).getD .empty }

end Streams

end Image

end SurfaceReport
