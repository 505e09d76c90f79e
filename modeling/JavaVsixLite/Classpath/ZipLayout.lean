import JavaVsixLite.Classpath.CentralDirectory

/-!
# Archives as they are laid out

Local records one behind the other, the central directory, the end record and its
comment, behind a lead of zero or four bytes.  Bytes that the reader does not look at
are arbitrary; the local header has a name and an extra field of its own.
-/

namespace JavaVsixLite
namespace Classpath

open Foundation
open Foundation.ByteLayout
open Foundation.Endian (leBytes)

structure Member where
  name : Text
  data : List UInt8
  /-- Version, flags, method, time, checksum and sizes of the local header. -/
  localFields : List UInt8
  localName : List UInt8
  localExtra : List UInt8
  /-- What may stand between the data and the next record. -/
  descriptor : List UInt8
  /-- Versions and flags of the central header. -/
  versions : List UInt8
  /-- Time and checksum of the central header. -/
  stamps : List UInt8
  /-- Disk and attributes of the central header. -/
  attributes : List UInt8
  extra : List UInt8
  comment : List UInt8
  safeName : isUnsafeName name = false
  dataFits : data.length ≤ maxUncompressed
  nameFits : name.byteLen < 65536
  localNameFits : localName.length < 65536
  localExtraFits : localExtra.length < 65536
  extraFits : extra.length < 65536
  commentFits : comment.length < 65536
  localFieldsLength : localFields.length = 22
  versionsLength : versions.length = 6
  stampsLength : stamps.length = 8
  attributesLength : attributes.length = 8

namespace Member

def localHeader (m : Member) : List UInt8 :=
  leBytes 4 lfhSig ++ (m.localFields ++ (leBytes 2 m.localName.length ++
    leBytes 2 m.localExtra.length))

def localRecord (m : Member) : List UInt8 :=
  m.localHeader ++ (m.localName ++ (m.localExtra ++ (m.data ++ m.descriptor)))

def centralHeader (m : Member) (offset : Nat) : List UInt8 :=
  leBytes 4 cdfhSig ++ (m.versions ++ (leBytes 2 methodStore ++ (m.stamps ++
    (leBytes 4 m.data.length ++ (leBytes 4 m.data.length ++ (leBytes 2 m.name.byteLen ++
      (leBytes 2 m.extra.length ++ (leBytes 2 m.comment.length ++ (m.attributes ++
        leBytes 4 offset)))))))))

def centralRecord (m : Member) (offset : Nat) : List UInt8 :=
  m.centralHeader offset ++ (Utf8.encode m.name ++ (m.extra ++ m.comment))

def entry (m : Member) (offset : Nat) : ZipEntry where
  method := methodStore
  compSize := m.data.length
  uncompSize := m.data.length
  localOffset := offset

theorem length_localHeader (m : Member) : m.localHeader.length = 30 := by
  unfold localHeader
  simp only [List.length_append, Endian.length_leBytes, m.localFieldsLength]

theorem length_centralHeader (m : Member) (offset : Nat) :
    (m.centralHeader offset).length = 46 := by
  unfold centralHeader
  simp only [List.length_append, Endian.length_leBytes, m.versionsLength, m.stampsLength,
    m.attributesLength]

theorem length_centralRecord (m : Member) (offset : Nat) :
    (m.centralRecord offset).length =
      46 + m.name.byteLen + m.extra.length + m.comment.length := by
  unfold centralRecord
  simp only [List.length_append, m.length_centralHeader, Utf8.length_encode]
  omega

end Member

def placed : Nat -> List Member -> List (Nat × Member)
  | _, [] => []
  | offset, m :: ms => (offset, m) :: placed (offset + m.localRecord.length) ms

def localRecords (ms : List Member) : List UInt8 :=
  ms.flatMap Member.localRecord

def centralDirectory (directory : List (Nat × Member)) : List UInt8 :=
  directory.flatMap (fun placed => placed.2.centralRecord placed.1)

structure Layout where
  lead : List UInt8
  members : List Member
  /-- The order of the central directory is its own. -/
  directory : List (Nat × Member)
  comment : List UInt8

namespace Layout

def endRecord (l : Layout) : List UInt8 :=
  leBytes 4 eocdSig ++ ([0, 0, 0, 0] ++ (leBytes 2 l.directory.length ++
    (leBytes 2 l.directory.length ++ (leBytes 4 (centralDirectory l.directory).length ++
      (leBytes 4 (localRecords l.members).length ++ leBytes 2 l.comment.length)))))

def bytes (l : Layout) : List UInt8 :=
  l.lead ++ (localRecords l.members ++ (centralDirectory l.directory ++
    (l.endRecord ++ l.comment)))

def endStart (l : Layout) : Nat :=
  l.lead.length + (localRecords l.members).length + (centralDirectory l.directory).length

end Layout

/-- An archive without zip64 records whose last end signature is that of its end record. -/
structure Archive extends Layout where
  leadLength : lead.length = 0 ∨ lead.length = 4
  directoryPlaced : forall e, e ∈ directory -> e ∈ placed 0 members
  commentFits : comment.length < 65536
  countFits : directory.length < 65536
  directoryFits : (centralDirectory directory).length < zip64Sentinel
  offsetFits : (localRecords members).length < zip64Sentinel
  lastSignature : forall i, toLayout.endStart < i -> i + 22 ≤ toLayout.bytes.length ->
    u32le toLayout.bytes i ≠ some eocdSig

/-!
# Where the parts are
-/

namespace Layout

variable (l : Layout)

theorem length_endRecord : l.endRecord.length = 22 := by
  unfold endRecord
  simp only [List.length_append, Endian.length_leBytes]
  rfl

theorem length_bytes : l.bytes.length = l.endStart + 22 + l.comment.length := by
  unfold bytes endStart
  simp only [List.length_append, l.length_endRecord]
  omega

theorem holds_zip : HoldsAt l.bytes l.lead.length
    (localRecords l.members ++ (centralDirectory l.directory ++ (l.endRecord ++ l.comment))) := by
  have h := HoldsAt.refl l.bytes
  unfold bytes at h ⊢
  have hright := h.right
  rw [Nat.zero_add] at hright
  exact hright

theorem holds_directory :
    HoldsAt l.bytes (l.lead.length + (localRecords l.members).length)
      (centralDirectory l.directory) :=
  l.holds_zip.right.left

theorem holds_endRecord : HoldsAt l.bytes l.endStart l.endRecord :=
  l.holds_zip.right.right.left

end Layout

variable {offset : Nat} {m : Member}

theorem holdsAt_of_placed {ms : List Member} {start : Nat} (h : (offset, m) ∈ placed start ms) :
    start ≤ offset ∧ HoldsAt (localRecords ms) (offset - start) m.localRecord := by
  induction ms generalizing start with
  | nil => cases h
  | cons first rest ih =>
    unfold localRecords
    rw [List.flatMap_cons]
    rcases List.mem_cons.mp h with hfirst | hrest
    · cases hfirst
      rw [Nat.sub_self]
      exact ⟨Nat.le_refl _, (HoldsAt.refl _).left⟩
    · rcases ih hrest with ⟨hle, hholds⟩
      refine ⟨by omega, ?_⟩
      have hshift := (HoldsAt.refl (first.localRecord ++
        rest.flatMap Member.localRecord)).right.trans
        hholds
      have hpos : 0 + first.localRecord.length + (offset - (start + first.localRecord.length)) =
          offset - start := by omega
      rw [hpos] at hshift
      exact hshift

/-!
# Reading the central directory
-/

theorem indexed_entry (hoffset : offset < zip64Sentinel) :
    indexed m.name (m.entry offset) = true := by
  have hdata := m.dataFits
  have hcap : maxUncompressed < zip64Sentinel := by decide
  have hsize : m.data.length ≠ zip64Sentinel := by omega
  have hplace : offset ≠ zip64Sentinel := by omega
  simp [indexed, Member.entry, m.safeName, hdata, hsize, hplace]

def insertMember (entries : Table Text ZipEntry) (placed : Nat × Member) : Table Text ZipEntry :=
  entries.insert placed.2.name (placed.2.entry placed.1)

def Member.record (m : Member) (offset : Nat) (hoffset : offset < zip64Sentinel) :
    CentralRecord where
  versions := m.versions
  entry := m.entry offset
  stamps := m.stamps
  attributes := m.attributes
  name := Utf8.encode m.name
  extra := m.extra
  comment := m.comment
  versionsLength := m.versionsLength
  stampsLength := m.stampsLength
  attributesLength := m.attributesLength
  methodFits := Nat.zero_lt_of_lt (by decide : 0 < 65536)
  compSizeFits := Nat.lt_of_le_of_lt m.dataFits (by decide)
  uncompSizeFits := Nat.lt_of_le_of_lt m.dataFits (by decide)
  localOffsetFits := Nat.lt_trans hoffset (by decide)
  nameFits := by
    rw [Utf8.length_encode]
    exact m.nameFits
  extraFits := m.extraFits
  commentFits := m.commentFits

theorem Member.bytes_record (m : Member) (hoffset : offset < zip64Sentinel) :
    (m.record offset hoffset).bytes = m.centralRecord offset := by
  unfold CentralRecord.bytes CentralRecord.header Member.centralRecord Member.centralHeader
  simp only [Member.record, Utf8.length_encode]
  rfl

theorem Member.accepted_record (m : Member) (hoffset : offset < zip64Sentinel) :
    (m.record offset hoffset).accepted = some (m.name, m.entry offset) := by
  unfold CentralRecord.accepted
  simp only [Member.record, Utf8.fromUtf8?_encode, indexed_entry hoffset, if_true]

theorem parseCentralDirectoryFrom_record {cd : List UInt8} {left p : Nat}
    (h : HoldsAt cd p (m.centralRecord offset)) (hoffset : offset < zip64Sentinel)
    (entries : Table Text ZipEntry) :
    parseCentralDirectoryFrom cd (left + 1) p entries =
      parseCentralDirectoryFrom cd left (p + (m.centralRecord offset).length)
        (insertMember entries (offset, m)) := by
  rw [← m.bytes_record hoffset] at h ⊢
  rw [parseCentralDirectoryFrom_of_record h, insertAccepted, m.accepted_record hoffset]
  rfl

theorem parseCentralDirectoryFrom_of_holds {cd : List UInt8} {rest : List (Nat × Member)}
    (hrest : forall e, e ∈ rest -> e.1 < zip64Sentinel) {left p : Nat} (hleft : rest.length ≤ left)
    (h : HoldsAt cd p (centralDirectory rest))
    (hend : cd.length = p + (centralDirectory rest).length) (entries : Table Text ZipEntry) :
    parseCentralDirectoryFrom cd left p entries = some (rest.foldl insertMember entries) := by
  induction rest generalizing left p entries with
  | nil =>
    have hlen : cd.length = p := hend
    unfold parseCentralDirectoryFrom
    rw [if_neg (by omega)]
    rfl
  | cons e rest ih =>
    obtain ⟨offset, m⟩ := e
    cases left with
    | zero => cases hleft
    | succ left =>
      have hsplit : centralDirectory ((offset, m) :: rest) =
          m.centralRecord offset ++ centralDirectory rest := rfl
      rw [hsplit] at h hend
      rw [List.length_append, ← Nat.add_assoc] at hend
      rw [parseCentralDirectoryFrom_record h.left (hrest _ List.mem_cons_self)]
      exact ih (fun e he => hrest e (List.mem_cons_of_mem _ he))
        (Nat.le_of_succ_le_succ hleft) h.right hend _

theorem lookup_foldl_insertMember {before after : List (Nat × Member)}
    (hafter : forall e, e ∈ after -> e.2.name ≠ m.name) (entries : Table Text ZipEntry) :
    ((before ++ (offset, m) :: after).foldl insertMember entries).lookup m.name =
      some (m.entry offset) := by
  rw [List.foldl_append, List.foldl_cons]
  generalize before.foldl insertMember entries = table
  have hsome : (insertMember table (offset, m)).lookup m.name = some (m.entry offset) :=
    AList.lookup_insert _
  generalize insertMember table (offset, m) = table at hsome
  induction after generalizing table with
  | nil => exact hsome
  | cons e rest ih =>
    rw [List.foldl_cons]
    apply ih (fun e he => hafter e (List.mem_cons_of_mem _ he))
    unfold insertMember
    rw [AList.lookup_insert_ne (hafter e List.mem_cons_self).symm]
    exact hsome

/-!
# Opening
-/

namespace Archive

variable (a : Archive)

theorem endRecord_fields :
    u32le a.bytes a.endStart = some eocdSig ∧
      u32le a.bytes (a.endStart + 12) = some (centralDirectory a.directory).length ∧
      u32le a.bytes (a.endStart + 16) = some (localRecords a.members).length := by
  have hdirectory := a.directoryFits
  have hoffset := a.offsetFits
  unfold zip64Sentinel at hdirectory hoffset
  have h := a.holds_endRecord
  unfold Layout.endRecord at h
  have h4 := h.behind (Endian.length_leBytes 4 _)
  have h8 := h4.right
  have h10 := h8.behind (Endian.length_leBytes 2 _)
  have h12 := h10.behind (Endian.length_leBytes 2 _)
  have h16 := h12.behind (Endian.length_leBytes 4 _)
  exact ⟨h.left.u32le (by decide), h12.left.u32le (by omega), h16.left.u32le (by omega)⟩

def tailStart : Nat :=
  a.bytes.length - min a.bytes.length (22 + 0xFFFF)

theorem tailStart_le : a.tailStart ≤ a.endStart := by
  have hlength := a.length_bytes
  have hcomment := a.commentFits
  unfold tailStart
  omega

theorem readAt_tail :
    readAt a.bytes a.tailStart (min a.bytes.length (22 + 0xFFFF)) =
      some (a.bytes.drop a.tailStart) := by
  unfold readAt tailStart
  rw [if_neg (by omega), List.take_of_length_le]
  rw [List.length_drop]
  omega

theorem findEocd_tail :
    findEocd (a.bytes.drop a.tailStart) = some (a.endStart - a.tailStart) := by
  have hlength := a.length_bytes
  have hle := a.tailStart_le
  have htail : a.tailStart ≤ a.bytes.length := by omega
  have hfound : u32le (a.bytes.drop a.tailStart) (a.endStart - a.tailStart) = some eocdSig := by
    rw [u32le_drop htail, Nat.add_sub_cancel' hle]
    exact a.endRecord_fields.1
  unfold findEocd
  rw [if_neg (by rw [List.length_drop]; omega)]
  apply find?_reverse_range
  · rw [List.length_drop]
    omega
  · rw [hfound]
    decide
  · intro i hi hin
    rw [List.length_drop] at hin
    have hlater := a.lastSignature (a.tailStart + i) (by omega) (by omega)
    rw [u32le_drop htail]
    simpa using hlater

theorem offset_lt {e : Nat × Member} (h : e ∈ a.directory) : e.1 < zip64Sentinel := by
  have hbound := (holdsAt_of_placed (a.directoryPlaced e h)).2.bound
  have hoffset := a.offsetFits
  omega

theorem openAt_eq :
    ZipArchive.openAt a.bytes a.lead.length =
      if (centralDirectory a.directory).length > maxCentralDirectorySize then none
      else
        some
          { base := a.lead.length
            entries := a.directory.foldl insertMember ∅ } := by
  rcases a.endRecord_fields with ⟨_, hsize, hoffset⟩
  have hle := a.tailStart_le
  have hlength := a.length_bytes
  have htail : a.tailStart ≤ a.bytes.length := by omega
  have hsizeTail : u32le (a.bytes.drop a.tailStart) (a.endStart - a.tailStart + 12) =
      some (centralDirectory a.directory).length := by
    rw [u32le_drop htail, ← hsize]
    congr 1
    omega
  have hoffsetTail : u32le (a.bytes.drop a.tailStart) (a.endStart - a.tailStart + 16) =
      some (localRecords a.members).length := by
    rw [u32le_drop htail, ← hoffset]
    congr 1
    omega
  have hcd := a.holds_directory.readAt rfl
  have hnotSentinel : (localRecords a.members).length ≠ zip64Sentinel :=
    Nat.ne_of_lt a.offsetFits
  have hcount : a.directory.length ≤ maxCdEntries := by
    have hfits := a.countFits
    unfold maxCdEntries
    omega
  have hparse : parseCentralDirectory (centralDirectory a.directory) =
      some (a.directory.foldl insertMember ∅) :=
    parseCentralDirectoryFrom_of_holds (fun e he => a.offset_lt he) hcount (HoldsAt.refl _)
      (Nat.zero_add _).symm ∅
  have htailRead := a.readAt_tail
  unfold tailStart at htailRead hsizeTail hoffsetTail
  have hfind := a.findEocd_tail
  unfold tailStart at hfind
  unfold ZipArchive.openAt
  simp only [htailRead, hfind, hsizeTail, hoffsetTail, hcd, hparse, Option.bind_eq_bind,
    Option.bind_some, if_neg hnotSentinel]
  rfl

end Archive

/-!
# Reading a member
-/

variable {bytes : List UInt8} {m : Member}

theorem localHeader_fields {p : Nat} (h : HoldsAt bytes p m.localRecord) :
    exists header, readAt bytes p 30 = some header ∧ u32le header 0 = some lfhSig ∧
      u16le header 26 = some m.localName.length ∧ u16le header 28 = some m.localExtra.length := by
  unfold Member.localRecord at h
  refine ⟨m.localHeader, h.left.readAt m.length_localHeader, ?_⟩
  have h0 : HoldsAt m.localHeader 0 m.localHeader := HoldsAt.refl _
  unfold Member.localHeader at h0
  have h4 := h0.behind (Endian.length_leBytes 4 _)
  have h26 := h4.behind m.localFieldsLength
  have h28 := h26.behind (Endian.length_leBytes 2 _)
  exact ⟨h0.left.u32le (by decide), h26.left.u16le m.localNameFits, h28.u16le m.localExtraFits⟩

theorem data_of_holds {p : Nat} (h : HoldsAt bytes p m.localRecord) :
    readAt bytes (p + 30 + m.localName.length + m.localExtra.length) m.data.length =
      some m.data := by
  unfold Member.localRecord at h
  have hname := h.behind m.length_localHeader
  exact hname.right.right.left.readAt rfl

theorem read_of_holds (inflate : List UInt8 -> Nat -> Option (List UInt8)) {zip : ZipArchive}
    {offset : Nat} (hentry : zip.entries.lookup m.name = some (m.entry offset))
    (h : HoldsAt bytes (zip.base + offset) m.localRecord) :
    zip.read inflate bytes m.name = some m.data := by
  rcases localHeader_fields h with ⟨header, hheader, hsignature, hname, hextra⟩
  have hdata := data_of_holds h
  unfold ZipArchive.read
  simp [hentry, Member.entry, hheader, hsignature, hname, hextra, hdata]

/-- An archive whose central directory is not over the cap can be opened, and a name is read
as the bytes of the last member of that name in the central directory. -/
theorem Archive.opens_and_reads_last (inflate : List UInt8 -> Nat -> Option (List UInt8))
    (a : Archive) (h : (centralDirectory a.directory).length ≤ maxCentralDirectorySize) :
    exists zip, ZipArchive.openAt a.bytes a.lead.length = some zip ∧
      forall before offset m after, a.directory = before ++ (offset, m) :: after ->
        (forall e, e ∈ after -> e.2.name ≠ m.name) ->
        zip.read inflate a.bytes m.name = some m.data := by
  refine ⟨{ base := a.lead.length, entries := a.directory.foldl insertMember ∅ }, ?_, ?_⟩
  · rw [a.openAt_eq, if_neg (by omega)]
  · intro before offset m after hdirectory hafter
    have hmem : (offset, m) ∈ a.directory := by
      rw [hdirectory]
      exact List.mem_append_right before List.mem_cons_self
    have hplace := (holdsAt_of_placed (a.directoryPlaced _ hmem)).2
    have hentry : (a.directory.foldl insertMember ∅).lookup m.name = some (m.entry offset) := by
      rw [hdirectory]
      exact lookup_foldl_insertMember hafter ∅
    exact read_of_holds inflate hentry (a.holds_zip.left.trans hplace)

/-!
# Limits of the reader
-/

theorem length_placed (start : Nat) (ms : List Member) : (placed start ms).length = ms.length := by
  induction ms generalizing start with
  | nil => rfl
  | cons m rest ih => rw [placed, List.length_cons, List.length_cons, ih]

theorem length_localRecords_replicate (n : Nat) (m : Member) :
    (localRecords (List.replicate n m)).length = n * m.localRecord.length := by
  induction n with
  | zero => simp [localRecords]
  | succ n ih =>
    have hsplit : localRecords (List.replicate (n + 1) m) =
        m.localRecord ++ localRecords (List.replicate n m) := rfl
    rw [hsplit, List.length_append, ih, Nat.succ_mul, Nat.add_comm]

theorem length_centralDirectory_replicate (n : Nat) (m : Member) (start : Nat) :
    (centralDirectory (placed start (List.replicate n m))).length =
      n * (46 + m.name.byteLen + m.extra.length + m.comment.length) := by
  induction n generalizing start with
  | zero => simp [centralDirectory, placed]
  | succ n ih =>
    have hsplit : centralDirectory (placed start (List.replicate (n + 1) m)) =
        m.centralRecord start ++
          centralDirectory (placed (start + m.localRecord.length) (List.replicate n m)) := rfl
    rw [hsplit, List.length_append, m.length_centralRecord, ih, Nat.succ_mul, Nat.add_comm]

namespace Archives

/-- A stored member of one name, with a different extra field in each header. -/
def member (name : Char) (data extra comment : List UInt8)
    (safeName : isUnsafeName [name] = false) (nameFits : Text.byteLen [name] < 65536)
    (dataFits : data.length ≤ maxUncompressed) (extraFits : extra.length < 65536)
    (commentFits : comment.length < 65536) : Member where
  name := [name]
  data := data
  localFields := List.replicate 22 0
  localName := [0]
  localExtra := [9, 9, 9]
  descriptor := []
  versions := List.replicate 6 0
  stamps := List.replicate 8 0
  attributes := List.replicate 8 0
  extra := extra
  comment := comment
  safeName := safeName
  dataFits := dataFits
  nameFits := nameFits
  localNameFits := by decide
  localExtraFits := by decide
  extraFits := extraFits
  commentFits := commentFits
  localFieldsLength := by decide
  versionsLength := by decide
  stampsLength := by decide
  attributesLength := by decide

def one : Member :=
  member 'a' [1] [] [] (by decide) (by decide) (by decide) (by decide) (by decide)

def two : Member :=
  member 'a' [2] [7] [] (by decide) (by decide) (by decide) (by decide) (by decide)

def wide : Member :=
  member 'a' [] (List.replicate 65535 0) (List.replicate 65535 0) (by decide) (by decide)
    (by decide) (by rw [List.length_replicate]; decide) (by rw [List.length_replicate]; decide)

theorem length_wide_record :
    46 + wide.name.byteLen + wide.extra.length + wide.comment.length = 131117 := by
  have hextra : wide.extra.length = 65535 := List.length_replicate
  have hcomment : wide.comment.length = 65535 := List.length_replicate
  have hname : wide.name.byteLen = 1 := rfl
  omega

theorem lastSignature_of_no_comment {l : Layout} (h : l.comment = []) :
    forall i, l.endStart < i -> i + 22 ≤ l.bytes.length -> u32le l.bytes i ≠ some eocdSig := by
  intro i hi hin
  have hlength := l.length_bytes
  rw [h, List.length_nil] at hlength
  omega

def twice : Archive where
  lead := [0x4a, 0x4d, 1, 0]
  members := [one, two]
  directory := placed 0 [one, two]
  comment := []
  leadLength := by decide
  directoryPlaced := fun _ h => h
  commentFits := by decide
  countFits := by decide
  directoryFits := by decide
  offsetFits := by decide
  lastSignature := lastSignature_of_no_comment rfl

def crowded : Archive where
  lead := []
  members := List.replicate 512 wide
  directory := placed 0 (List.replicate 512 wide)
  comment := []
  leadLength := by decide
  directoryPlaced := fun _ h => h
  commentFits := by decide
  countFits := by
    rw [length_placed, List.length_replicate]
    decide
  directoryFits := by
    rw [length_centralDirectory_replicate, length_wide_record]
    decide
  offsetFits := by
    rw [length_localRecords_replicate]
    decide
  lastSignature := lastSignature_of_no_comment rfl

def noInflate : List UInt8 -> Nat -> Option (List UInt8) :=
  fun _ _ => none

theorem twice_reads_last :
    (ZipArchive.openAt twice.bytes twice.lead.length).bind
      (fun zip => zip.read noInflate twice.bytes ['a']) = some [2] := by
  rcases twice.opens_and_reads_last noInflate (by decide) with ⟨zip, hopen, hread⟩
  rw [hopen, Option.bind_some]
  exact hread [(0, one)] one.localRecord.length two [] rfl (by simp)

/-- The bytes of the first of two members are not read, and an archive over the cap is not
opened. -/
theorem first_member_lost_and_crowded_refused :
    ((0, one) ∈ twice.directory ∧
      (ZipArchive.openAt twice.bytes twice.lead.length).bind
        (fun zip => zip.read noInflate twice.bytes one.name) ≠ some one.data) ∧
    ZipArchive.openAt crowded.bytes crowded.lead.length = none := by
  refine ⟨⟨List.mem_cons_self, ?_⟩, ?_⟩
  · have hentry : (([(0, one)] ++ (one.localRecord.length, two) :: []).foldl insertMember ∅).lookup
        two.name = some (two.entry one.localRecord.length) :=
      lookup_foldl_insertMember (by simp) ∅
    have hplace := (holdsAt_of_placed (twice.directoryPlaced (one.localRecord.length, two)
      (List.mem_cons_of_mem _ List.mem_cons_self))).2
    have hread : ZipArchive.read noInflate
        { base := twice.lead.length, entries := twice.directory.foldl insertMember ∅ }
        twice.bytes two.name = some two.data :=
      read_of_holds noInflate hentry (twice.holds_zip.left.trans hplace)
    have hsame : one.name = two.name := rfl
    rw [twice.openAt_eq, if_neg (by decide), Option.bind_some, hsame, hread]
    decide
  · have hsize : (centralDirectory crowded.directory).length = 512 * 131117 := by
      rw [← length_wide_record]
      exact length_centralDirectory_replicate 512 wide 0
    rw [crowded.openAt_eq, if_pos (by rw [hsize]; decide)]

end Archives

end Classpath
end JavaVsixLite
