import SurfaceReport.Image.Container

/-!
# The parts that the directory of a file leads to

A report needs the managed part alone. Still, a file is taken for an executable file only if a
loader would find what its directory leads to: the parts that a loader itself reads have to be where
their entries say, and to begin as their kind asks. Parts that only a program reads are not looked
at.
-/

namespace SurfaceReport

namespace Image

/-- The parts that a loader reads. -/
inductive LoaderPart where
  | imports | resources | certificates | relocations | debugging | threadStorage | configuration
  | managed
  deriving DecidableEq, Repr, Inhabited

namespace LoaderPart

def all : List LoaderPart :=
  [imports, resources, certificates, relocations, debugging, threadStorage, configuration, managed]

def entry : LoaderPart → Nat
  | imports => 1
  | resources => 2
  | certificates => 4
  | relocations => 5
  | debugging => 6
  | threadStorage => 9
  | configuration => 10
  | managed => Container.managedEntry

end LoaderPart

namespace Container

variable (c : Container)

/-! ## Parts -/

/-- A part lies in the file, from an offset on. -/
def fits (offset size : Nat) : Bool := offset + size ≤ c.file.size

def words? (offset count : Nat) : Option (List Nat) :=
  (List.range count).mapM fun i => word? c.file (offset + 4 * i)

/-- The libraries that are imported are listed up to an entry of zeros. Each that has a name and a
table of addresses has them in the file. There are fewer than bytes. -/
def importsAreSound (offset : Nat) : (fuel : Nat) → Bool
  | 0 => false
  | fuel + 1 =>
    match c.words? offset 5 with
    | some [names, stamp, forwarder, name, addresses] =>
      if [names, stamp, forwarder, name, addresses].all (· == 0) then true
      else
        (name == 0 || addresses == 0 ||
          (c.place? name).any (isTextAt c.file) && (c.place? addresses).isSome) &&
        importsAreSound (offset + 20) fuel
    | _ => false

/-- The resources begin with two counts of entries, which have to have room. -/
def resourcesAreSound (offset size : Nat) : Bool :=
  c.fits offset size && 16 ≤ size &&
    match half? c.file (offset + 12), half? c.file (offset + 14) with
    | some named, some numbered => 16 + 8 * (named + numbered) ≤ size
    | _, _ => false

def certificateRevisions : List Nat := [0x100, 0x200]

def certificateKinds : List Nat := [1, 2, 3, 4]

/-- One certificate after the other, each with its size, revision and kind in front, and filled up
to a multiple of eight bytes. There are fewer than bytes. -/
def certificatesAreSound (offset behind : Nat) : (fuel : Nat) → Bool
  | 0 => false
  | fuel + 1 =>
    if behind ≤ offset then true
    else
      match word? c.file offset, half? c.file (offset + 4), half? c.file (offset + 6) with
      | some size, some revision, some kind =>
        certificateRevisions.contains revision && certificateKinds.contains kind &&
          c.fits offset size &&
          certificatesAreSound (roundUp 8 (offset + max 8 size)) behind fuel
      | _, _, _ => false

/-- An address at which the file will be loaded is none, or no lower than where the file begins. -/
def isLoaded (address : Nat) : Bool := address == 0 || c.base ≤ address

/-- The storage of a thread: its first contents, which have to be in the file if there are any, and
the addresses of what belongs to it. -/
def threadStorageIsSound (offset : Nat) : Bool :=
  let address? i := number? c.file (offset + c.kind.size * i) c.kind.size
  match address? 0, address? 1, address? 2, address? 3 with
  | some first, some behind, some index, some callbacks =>
    c.isLoaded index && c.isLoaded callbacks && c.fits (offset + 4 * c.kind.size) 8 &&
      (first == 0 || behind == 0 ||
        first ≤ behind && c.isLoaded first &&
          (c.place? (first - c.base)).any fun place => c.fits place (behind - first))
  | _, _, _, _ => false

/-! ## The directory -/

def debugEntrySize : Nat := 28

/-- A part of some kind is where its entry says. Certificates are not loaded, so that their entry
has an offset for an address. -/
def partIsSound (part : LoaderPart) (entry : Extent) : Bool :=
  match part with
  | .certificates =>
    c.fits entry.address entry.size &&
      c.certificatesAreSound entry.address (entry.address + entry.size) (c.file.size + 1)
  | part =>
    (c.place? entry.address).any fun offset =>
      match part with
      | .imports => c.importsAreSound offset (c.file.size + 1)
      | .resources => c.resourcesAreSound offset entry.size
      | .relocations => c.fits offset entry.size
      | .debugging => c.fits offset entry.size && entry.size % debugEntrySize == 0
      | .threadStorage => c.threadStorageIsSound offset
      | .certificates | .configuration | .managed => true

/-- Every part that a loader reads is where its entry says, if it has one. -/
def directoryIsSound : Bool :=
  LoaderPart.all.all fun part => (c.entry? part.entry).all (c.partIsSound part)

/-- The metadata of a file whose directory is sound. -/
def metadata? : Option ByteArray := do
  guard c.directoryIsSound
  let entry ← c.entry? managedEntry
  guard (entry.address ≠ 0)
  let header ← ManagedHeader.read? (← c.part? entry)
  c.part? header.metadata

end Container

end Image

end SurfaceReport
