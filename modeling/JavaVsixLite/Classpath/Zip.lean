import JavaVsixLite.Foundation.ByteLayout
import JavaVsixLite.Foundation.Tables
import JavaVsixLite.Foundation.Utf8

/-!
# The ZIP reader

Only the central directory is kept; the bytes of an entry are read on demand.  The
archive starts `base` bytes into the file.  Everything in it is untrusted, so sizes
are capped before they are used.
-/

namespace JavaVsixLite
namespace Classpath

open Foundation
open Foundation.ByteLayout

def maxUncompressed : Nat := 16 * 1024 * 1024

/-- Cap on the declared size of the central directory. -/
def maxCentralDirectorySize : Nat := 64 * 1024 * 1024

/-- Cap on the records of the central directory. -/
def maxCdEntries : Nat := 1000000

def eocdSig : Nat := 0x06054b50
def cdfhSig : Nat := 0x02014b50
def lfhSig : Nat := 0x04034b50
def zip64Sentinel : Nat := 0xFFFFFFFF

def methodStore : Nat := 0
def methodDeflate : Nat := 8

structure ZipEntry where
  method : Nat
  compSize : Nat
  uncompSize : Nat
  localOffset : Nat

structure ZipArchive where
  base : Nat
  entries : Table Text ZipEntry

def isUnsafeName (name : Text) : Bool :=
  name.head? == some '/' || name.contains '\\' ||
    (name.splitOn '/').any (fun seg => seg == ['.', '.'])

def findEocd (tail : List UInt8) : Option Nat :=
  if tail.length < 22 then none
  else
    (List.range (tail.length - 22 + 1)).reverse.find? (fun i => u32le tail i == some eocdSig)

/-!
# The central directory
-/

structure CentralHeader where
  entry : ZipEntry
  nameLen : Nat
  extraLen : Nat
  commentLen : Nat

def readCentralHeader (cd : List UInt8) (p : Nat) : Option CentralHeader := do
  let method <- u16le cd (p + 10)
  let compSize <- u32le cd (p + 20)
  let uncompSize <- u32le cd (p + 24)
  let nameLen <- u16le cd (p + 28)
  let extraLen <- u16le cd (p + 30)
  let commentLen <- u16le cd (p + 32)
  let localOffset <- u32le cd (p + 42)
  pure
    { entry :=
        { method := method
          compSize := compSize
          uncompSize := uncompSize
          localOffset := localOffset }
      nameLen := nameLen
      extraLen := extraLen
      commentLen := commentLen }

/-- Records of zip64 entries, of too large ones and of unsafe names are left out. -/
def indexed (name : Text) (entry : ZipEntry) : Bool :=
  entry.uncompSize != zip64Sentinel && entry.localOffset != zip64Sentinel &&
    entry.uncompSize ≤ maxUncompressed && entry.compSize ≤ maxUncompressed &&
    !isUnsafeName name

/-- `left` counts down from the cap on the records. -/
@[grind =] def parseCentralDirectoryFrom (cd : List UInt8) :
    Nat -> Nat -> Table Text ZipEntry -> Option (Table Text ZipEntry)
  | left, p, entries =>
    if p + 46 ≤ cd.length then
      if u32le cd p != some cdfhSig then some entries
      else
        match left with
        | 0 => none
        | left + 1 =>
          match readCentralHeader cd p with
          | none => some entries
          | some header =>
            let nameStart := p + 46
            let nameEnd := nameStart + header.nameLen
            if nameEnd > cd.length then some entries
            else
              let next := nameEnd + header.extraLen + header.commentLen
              match Utf8.fromUtf8? ((cd.drop nameStart).take header.nameLen) with
              | none => parseCentralDirectoryFrom cd left next entries
              | some name =>
                if indexed name header.entry then
                  parseCentralDirectoryFrom cd left next (entries.insert name header.entry)
                else parseCentralDirectoryFrom cd left next entries
    else some entries

def parseCentralDirectory (cd : List UInt8) : Option (Table Text ZipEntry) :=
  parseCentralDirectoryFrom cd maxCdEntries 0 ∅

/-!
# Opening and reading
-/

namespace ZipArchive

/-- `file` is the content of the file at the path. -/
def openAt (file : List UInt8) (base : Nat) : Option ZipArchive := do
  let tailLen := min file.length (22 + 0xFFFF)
  let tail <- readAt file (file.length - tailLen) tailLen
  let eocd <- findEocd tail
  let cdSize <- u32le tail (eocd + 12)
  let cdOffset <- u32le tail (eocd + 16)
  if cdOffset = zip64Sentinel then none
  else if cdSize > maxCentralDirectorySize then none
  else do
    let cd <- readAt file (base + cdOffset) cdSize
    let entries <- parseCentralDirectory cd
    pure { base := base, entries := entries }

/-- `inflate` is the decompressor with its limit on the output. -/
def read (inflate : List UInt8 -> Nat -> Option (List UInt8)) (archive : ZipArchive)
    (file : List UInt8) (name : Text) : Option (List UInt8) := do
  let entry <- archive.entries.lookup name
  let lfh <- readAt file (archive.base + entry.localOffset) 30
  let signature <- u32le lfh 0
  if signature != lfhSig then none
  else do
    -- The lengths of the local header, not those of the central directory.
    let nameLen <- u16le lfh 26
    let extraLen <- u16le lfh 28
    let dataPos := archive.base + entry.localOffset + 30 + nameLen + extraLen
    let compressed <- readAt file dataPos entry.compSize
    if entry.method = methodStore then
      if compressed.length = entry.uncompSize then some compressed else none
    else if entry.method = methodDeflate then do
      let out <- inflate compressed maxUncompressed
      if out.length ≤ maxUncompressed then some out else none
    else none

end ZipArchive

end Classpath
end JavaVsixLite
