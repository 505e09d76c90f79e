import Mathlib.Data.List.Induction
import JavaVsixLite.Classpath.Zip

/-!
# The central directory

The walk over the central directory reads untrusted bytes.  None of its reads runs
past their end, whatever the lengths in them say, and it goes over the records the way
they are laid out: each header is followed by a name, an extra field and a comment of
the lengths it gives.
-/

namespace JavaVsixLite
namespace Classpath

open Foundation
open Foundation.ByteLayout
open Foundation.Endian (leBytes)

/-!
# Reads that would fail
-/

/-- A read past the end of the bytes. -/
inductive ReadFault where
  | pastEnd

def checked {α : Type} (read : Option α) : Except ReadFault α :=
  match read with
  | some v => .ok v
  | none => .error .pastEnd

@[simp] theorem checked_some_bind {α β : Type} (v : α) (f : α -> Except ReadFault β) :
    (checked (some v) >>= f) = f v := rfl

/-- The loop of `parseCentralDirectory`, where a read past the end is a fault. -/
def walkChecked (cd : List UInt8) :
    Nat -> Nat -> Table Text ZipEntry -> Except ReadFault (Option (Table Text ZipEntry))
  | left, p, entries =>
    if p + 46 ≤ cd.length then do
      let signature <- checked (u32le cd p)
      if signature != cdfhSig then pure (some entries)
      else
        match left with
        | 0 => pure none
        | left + 1 => do
            let header <- checked (readCentralHeader cd p)
            let nameStart := p + 46
            let nameEnd := nameStart + header.nameLen
            if nameEnd > cd.length then pure (some entries)
            else do
              let bytes <- checked (readAt cd nameStart header.nameLen)
              let next := nameEnd + header.extraLen + header.commentLen
              match Utf8.fromUtf8? bytes with
              | none => walkChecked cd left next entries
              | some name =>
                if indexed name header.entry then
                  walkChecked cd left next (entries.insert name header.entry)
                else walkChecked cd left next entries
    else pure (some entries)

theorem readAt_of_le {bytes : List UInt8} {pos len : Nat} (h : pos + len ≤ bytes.length) :
    readAt bytes pos len = some ((bytes.drop pos).take len) := by
  unfold readAt
  rw [if_neg (by omega)]

theorem u16le_of_le (bytes : List UInt8) (i : Nat) (h : i + 2 ≤ bytes.length) :
    exists v, u16le bytes i = some v := by
  unfold u16le
  rw [readAt_of_le h]
  exact ⟨_, rfl⟩

theorem u32le_of_le (bytes : List UInt8) (i : Nat) (h : i + 4 ≤ bytes.length) :
    exists v, u32le bytes i = some v := by
  unfold u32le
  rw [readAt_of_le h]
  exact ⟨_, rfl⟩

theorem readCentralHeader_of_le {cd : List UInt8} {p : Nat} (h : p + 46 ≤ cd.length) :
    exists header, readCentralHeader cd p = some header := by
  rcases u16le_of_le cd (p + 10) (by omega) with ⟨method, hmethod⟩
  rcases u32le_of_le cd (p + 20) (by omega) with ⟨compSize, hcomp⟩
  rcases u32le_of_le cd (p + 24) (by omega) with ⟨uncompSize, huncomp⟩
  rcases u16le_of_le cd (p + 28) (by omega) with ⟨nameLen, hname⟩
  rcases u16le_of_le cd (p + 30) (by omega) with ⟨extraLen, hextra⟩
  rcases u16le_of_le cd (p + 32) (by omega) with ⟨commentLen, hcomment⟩
  rcases u32le_of_le cd (p + 42) (by omega) with ⟨offset, hoffset⟩
  unfold readCentralHeader
  rw [hmethod, hcomp, huncomp, hname, hextra, hcomment, hoffset]
  exact ⟨_, rfl⟩

theorem walkChecked_eq (cd : List UInt8) (left p : Nat) (entries : Table Text ZipEntry) :
    walkChecked cd left p entries = .ok (parseCentralDirectoryFrom cd left p entries) := by
  induction left generalizing p entries with
  | zero =>
    unfold walkChecked parseCentralDirectoryFrom
    by_cases hroom : p + 46 ≤ cd.length
    · rcases u32le_of_le cd p (by omega) with ⟨signature, hsignature⟩
      rw [if_pos hroom, if_pos hroom, hsignature, checked_some_bind]
      by_cases hsig : signature = cdfhSig
      · simp [hsig, pure, Except.pure]
      · simp [hsig, pure, Except.pure]
    · rw [if_neg hroom, if_neg hroom]
      rfl
  | succ left ih =>
    unfold walkChecked parseCentralDirectoryFrom
    by_cases hroom : p + 46 ≤ cd.length
    · rcases u32le_of_le cd p (by omega) with ⟨signature, hsignature⟩
      rcases readCentralHeader_of_le hroom with ⟨header, hheader⟩
      rw [if_pos hroom, if_pos hroom, hsignature, checked_some_bind]
      by_cases hsig : signature = cdfhSig
      · simp only [hsig, bne_self_eq_false, Bool.false_eq_true, if_false, hheader,
          checked_some_bind]
        by_cases hname : p + 46 + header.nameLen > cd.length
        · rw [if_pos hname, if_pos hname]
          rfl
        · rw [if_neg hname, if_neg hname, readAt_of_le (by omega), checked_some_bind]
          cases Utf8.fromUtf8? ((cd.drop (p + 46)).take header.nameLen) with
          | none => exact ih _ _
          | some name =>
            simp only
            by_cases hindexed : indexed name header.entry = true
            · rw [if_pos hindexed, if_pos hindexed]
              exact ih _ _
            · rw [if_neg hindexed, if_neg hindexed]
              exact ih _ _
      · simp [hsig, pure, Except.pure]
    · rw [if_neg hroom, if_neg hroom]
      rfl

/-!
# What is kept
-/

def SafeName (name : Text) : Prop :=
  name.head? ≠ some '/' ∧ '\\' ∉ name ∧ ['.', '.'] ∉ name.splitOn '/'

structure SafeEntry (name : Text) (entry : ZipEntry) : Prop where
  name : SafeName name
  uncompSize : entry.uncompSize ≤ maxUncompressed ∧ entry.uncompSize ≠ zip64Sentinel
  compSize : entry.compSize ≤ maxUncompressed ∧ entry.compSize ≠ zip64Sentinel
  localOffset : entry.localOffset ≠ zip64Sentinel

theorem isUnsafeName_eq_false_iff {name : Text} : isUnsafeName name = false <-> SafeName name := by
  have hany : (name.splitOn '/').any (fun seg => seg == ['.', '.']) = false <->
      ['.', '.'] ∉ name.splitOn '/' := by
    rw [List.any_eq_false]
    constructor
    · intro h hmem
      exact h _ hmem (beq_self_eq_true _)
    · intro h seg hseg heq
      rw [beq_iff_eq] at heq
      rw [heq] at hseg
      exact h hseg
  unfold isUnsafeName SafeName
  rw [Bool.or_eq_false_iff, Bool.or_eq_false_iff, hany]
  simp [and_assoc]

theorem indexed_iff {name : Text} {entry : ZipEntry} :
    indexed name entry = true <-> SafeEntry name entry := by
  unfold indexed
  simp only [Bool.and_eq_true, bne_iff_ne, decide_eq_true_eq, Bool.not_eq_true']
  constructor
  · rintro ⟨⟨⟨⟨huncomp, hoffset⟩, huncompFits⟩, hcompFits⟩, hname⟩
    have hcap : maxUncompressed < zip64Sentinel := by decide
    constructor
    · exact isUnsafeName_eq_false_iff.mp hname
    · exact ⟨huncompFits, huncomp⟩
    · exact ⟨hcompFits, by omega⟩
    · exact hoffset
  · intro h
    exact ⟨⟨⟨⟨h.uncompSize.right, h.localOffset⟩, h.uncompSize.left⟩, h.compSize.left⟩,
      isUnsafeName_eq_false_iff.mpr h.name⟩

/-!
# One turn of the loop
-/

theorem parseCentralDirectoryFrom_zero (cd : List UInt8) (p : Nat)
    (entries : Table Text ZipEntry) :
    parseCentralDirectoryFrom cd 0 p entries = some entries ∨
      p + 46 ≤ cd.length ∧ parseCentralDirectoryFrom cd 0 p entries = none := by
  unfold parseCentralDirectoryFrom
  by_cases hroom : p + 46 ≤ cd.length
  · rw [if_pos hroom]
    split
    · exact .inl rfl
    · exact .inr ⟨hroom, rfl⟩
  · rw [if_neg hroom]
    exact .inl rfl

def Keeps (entries kept : Table Text ZipEntry) : Prop :=
  kept = entries ∨
    exists name entry, indexed name entry = true ∧ kept = entries.insert name entry

theorem parseCentralDirectoryFrom_succ (cd : List UInt8) (left p : Nat)
    (entries : Table Text ZipEntry) :
    parseCentralDirectoryFrom cd (left + 1) p entries = some entries ∨
      exists next kept, p + 46 ≤ next ∧ Keeps entries kept ∧
        parseCentralDirectoryFrom cd (left + 1) p entries =
          parseCentralDirectoryFrom cd left next kept := by
  generalize hresult : parseCentralDirectoryFrom cd (left + 1) p entries = result
  unfold parseCentralDirectoryFrom at hresult
  split at hresult
  · split at hresult
    · exact .inl hresult.symm
    · cases hheader : readCentralHeader cd p with
      | none =>
        simp only [hheader] at hresult
        exact .inl hresult.symm
      | some header =>
        simp only [hheader] at hresult
        split at hresult
        · exact .inl hresult.symm
        · right
          cases hname : Utf8.fromUtf8? ((cd.drop (p + 46)).take header.nameLen) with
          | none =>
            simp only [hname] at hresult
            exact ⟨_, entries, by omega, .inl rfl, hresult.symm⟩
          | some name =>
            simp only [hname] at hresult
            by_cases hindexed : indexed name header.entry = true
            · rw [if_pos hindexed] at hresult
              exact ⟨_, _, by omega, .inr ⟨name, _, hindexed, rfl⟩, hresult.symm⟩
            · rw [if_neg hindexed] at hresult
              exact ⟨_, entries, by omega, .inl rfl, hresult.symm⟩
  · exact .inl hresult.symm

def SafeIndex (entries : Table Text ZipEntry) : Prop :=
  forall name entry, entries.lookup name = some entry -> SafeEntry name entry

theorem SafeIndex.keeps {entries kept : Table Text ZipEntry} (h : SafeIndex entries)
    (hkeeps : Keeps entries kept) : SafeIndex kept := by
  rcases hkeeps with rfl | ⟨added, fields, hindexed, rfl⟩
  · exact h
  · intro name entry hlookup
    by_cases hname : name = added
    · rw [hname, AList.lookup_insert, Option.some.injEq] at hlookup
      rw [hname, ← hlookup]
      exact indexed_iff.mp hindexed
    · rw [AList.lookup_insert_ne hname] at hlookup
      exact h name entry hlookup

theorem safeIndex_of_parse {cd : List UInt8} {left p : Nat} {entries result : Table Text ZipEntry}
    (hsafe : SafeIndex entries) (h : parseCentralDirectoryFrom cd left p entries = some result) :
    SafeIndex result := by
  induction left generalizing p entries with
  | zero =>
    rcases parseCentralDirectoryFrom_zero cd p entries with hstop | ⟨_, hnone⟩
    · rw [hstop, Option.some.injEq] at h
      rw [← h]
      exact hsafe
    · rw [hnone] at h
      cases h
  | succ left ih =>
    rcases parseCentralDirectoryFrom_succ cd left p entries with
      hstop | ⟨next, kept, _, hkeeps, hgo⟩
    · rw [hstop, Option.some.injEq] at h
      rw [← h]
      exact hsafe
    · rw [hgo] at h
      exact ih (hsafe.keeps hkeeps) h

theorem room_of_parse_eq_none {cd : List UInt8} {left p : Nat} {entries : Table Text ZipEntry}
    (h : parseCentralDirectoryFrom cd left p entries = none) :
    p + 46 * (left + 1) ≤ cd.length := by
  induction left generalizing p entries with
  | zero =>
    rcases parseCentralDirectoryFrom_zero cd p entries with hstop | ⟨hroom, _⟩
    · rw [hstop] at h
      cases h
    · omega
  | succ left ih =>
    rcases parseCentralDirectoryFrom_succ cd left p entries with
      hstop | ⟨next, kept, hnext, _, hgo⟩
    · rw [hstop] at h
      cases h
    · rw [hgo] at h
      have hroom := ih h
      omega

/-!
# Records as they are laid out
-/

/-- A record of the central directory with the lengths that its fields have. -/
structure CentralRecord where
  /-- Versions and flags. -/
  versions : List UInt8
  entry : ZipEntry
  /-- Time and checksum. -/
  stamps : List UInt8
  /-- Disk and attributes. -/
  attributes : List UInt8
  name : List UInt8
  extra : List UInt8
  comment : List UInt8
  versionsLength : versions.length = 6
  stampsLength : stamps.length = 8
  attributesLength : attributes.length = 8
  methodFits : entry.method < 65536
  compSizeFits : entry.compSize < 4294967296
  uncompSizeFits : entry.uncompSize < 4294967296
  localOffsetFits : entry.localOffset < 4294967296
  nameFits : name.length < 65536
  extraFits : extra.length < 65536
  commentFits : comment.length < 65536

namespace CentralRecord

def header (r : CentralRecord) : List UInt8 :=
  leBytes 4 cdfhSig ++ (r.versions ++ (leBytes 2 r.entry.method ++ (r.stamps ++
    (leBytes 4 r.entry.compSize ++ (leBytes 4 r.entry.uncompSize ++ (leBytes 2 r.name.length ++
      (leBytes 2 r.extra.length ++ (leBytes 2 r.comment.length ++ (r.attributes ++
        leBytes 4 r.entry.localOffset)))))))))

def bytes (r : CentralRecord) : List UInt8 :=
  r.header ++ (r.name ++ (r.extra ++ r.comment))

def accepted (r : CentralRecord) : Option (Text × ZipEntry) :=
  match Utf8.fromUtf8? r.name with
  | none => none
  | some name => if indexed name r.entry then some (name, r.entry) else none

theorem length_header (r : CentralRecord) : r.header.length = 46 := by
  unfold header
  simp only [List.length_append, Endian.length_leBytes, r.versionsLength, r.stampsLength,
    r.attributesLength]

theorem length_bytes (r : CentralRecord) :
    r.bytes.length = 46 + r.name.length + r.extra.length + r.comment.length := by
  unfold bytes
  simp only [List.length_append, r.length_header]
  omega

theorem readCentralHeader_of_holds {cd : List UInt8} {p : Nat} {r : CentralRecord}
    (h : HoldsAt cd p r.header) :
    u32le cd p = some cdfhSig ∧
      readCentralHeader cd p =
        some
          { entry := r.entry
            nameLen := r.name.length
            extraLen := r.extra.length
            commentLen := r.comment.length } := by
  unfold header at h
  have h4 := h.behind (Endian.length_leBytes 4 _)
  have h10 := h4.behind r.versionsLength
  have h12 := h10.behind (Endian.length_leBytes 2 _)
  have h20 := h12.behind r.stampsLength
  have h24 := h20.behind (Endian.length_leBytes 4 _)
  have h28 := h24.behind (Endian.length_leBytes 4 _)
  have h30 := h28.behind (Endian.length_leBytes 2 _)
  have h32 := h30.behind (Endian.length_leBytes 2 _)
  have h34 := h32.behind (Endian.length_leBytes 2 _)
  have h42 := h34.behind r.attributesLength
  have hmethod : u16le cd (p + 10) = some r.entry.method := h10.left.u16le r.methodFits
  have hcomp : u32le cd (p + 20) = some r.entry.compSize := h20.left.u32le r.compSizeFits
  have huncomp : u32le cd (p + 24) = some r.entry.uncompSize := h24.left.u32le r.uncompSizeFits
  have hname : u16le cd (p + 28) = some r.name.length := h28.left.u16le r.nameFits
  have hextra : u16le cd (p + 30) = some r.extra.length := h30.left.u16le r.extraFits
  have hcomment : u16le cd (p + 32) = some r.comment.length := h32.left.u16le r.commentFits
  have hlocal : u32le cd (p + 42) = some r.entry.localOffset := h42.u32le r.localOffsetFits
  constructor
  · exact h.left.u32le (by decide)
  · unfold readCentralHeader
    rw [hmethod, hcomp, huncomp, hname, hextra, hcomment, hlocal]
    rfl

end CentralRecord

def insertAccepted (entries : Table Text ZipEntry) (r : CentralRecord) : Table Text ZipEntry :=
  match r.accepted with
  | none => entries
  | some (name, entry) => entries.insert name entry

theorem parseCentralDirectoryFrom_of_record {cd : List UInt8} {left p : Nat} {r : CentralRecord}
    (h : HoldsAt cd p r.bytes) (entries : Table Text ZipEntry) :
    parseCentralDirectoryFrom cd (left + 1) p entries =
      parseCentralDirectoryFrom cd left (p + r.bytes.length) (insertAccepted entries r) := by
  have hbound := h.bound
  have hlength := r.length_bytes
  unfold CentralRecord.bytes at h
  rcases CentralRecord.readCentralHeader_of_holds h.left with ⟨hsignature, hheader⟩
  have hname := (h.behind r.length_header).left.readAt rfl
  rw [readAt_of_le (by omega), Option.some.injEq] at hname
  have hnext : p + 46 + r.name.length + r.extra.length + r.comment.length =
      p + r.bytes.length := by omega
  rw [parseCentralDirectoryFrom, if_pos (by omega), hsignature, if_neg (by decide), hheader]
  simp only
  rw [if_neg (by omega), hname, hnext]
  unfold insertAccepted CentralRecord.accepted
  cases Utf8.fromUtf8? r.name with
  | none => rfl
  | some name =>
    simp only
    split
    · rfl
    · rfl

theorem parseCentralDirectoryFrom_of_records {cd : List UInt8} {records : List CentralRecord}
    {left p : Nat} (h : HoldsAt cd p (records.flatMap CentralRecord.bytes))
    (hend : cd.length = p + (records.flatMap CentralRecord.bytes).length)
    (entries : Table Text ZipEntry) :
    parseCentralDirectoryFrom cd left p entries =
      if records.length ≤ left then some (records.foldl insertAccepted entries) else none := by
  induction records generalizing left p entries with
  | nil =>
    rw [List.flatMap_nil, List.length_nil] at hend
    unfold parseCentralDirectoryFrom
    rw [if_neg (by omega)]
    rfl
  | cons r records ih =>
    rw [List.flatMap_cons] at h hend
    cases left with
    | zero =>
      have hlength := r.length_bytes
      have hheader := h.left
      unfold CentralRecord.bytes at hheader
      have hsignature := (CentralRecord.readCentralHeader_of_holds hheader.left).1
      rw [List.length_append] at hend
      unfold parseCentralDirectoryFrom
      rw [if_pos (by omega), hsignature, if_neg (by decide)]
      rfl
    | succ left =>
      rw [List.length_append, ← Nat.add_assoc] at hend
      rw [parseCentralDirectoryFrom_of_record h.left, ih h.right hend, List.length_cons,
        List.foldl_cons]
      simp only [Nat.add_le_add_iff_right]

/-!
# The last record of a name
-/

/-- A record whose name can be read and whose entry is safe under that name. -/
structure CentralRecord.Acceptable (r : CentralRecord) (name : Text) : Prop where
  readable : Utf8.fromUtf8? r.name = some name
  safe : SafeEntry name r.entry

/-- The entry is that of the last acceptable record of the name. -/
def LastAccepted (records : List CentralRecord) (name : Text) (entry : ZipEntry) : Prop :=
  exists before r after, records = before ++ r :: after ∧ r.Acceptable name ∧ r.entry = entry ∧
    forall later, later ∈ after -> ¬ later.Acceptable name

theorem CentralRecord.accepted_eq_some_iff {r : CentralRecord} {name : Text} {entry : ZipEntry} :
    r.accepted = some (name, entry) <-> r.Acceptable name ∧ r.entry = entry := by
  unfold CentralRecord.accepted
  cases hread : Utf8.fromUtf8? r.name with
  | none =>
    constructor
    · intro h
      cases h
    · intro h
      exact absurd (hread.symm.trans h.left.readable) (by simp)
  | some found =>
    constructor
    · intro h
      simp only at h
      split at h
      · rename_i hindexed
        cases h
        exact ⟨⟨hread, indexed_iff.mp hindexed⟩, rfl⟩
      · cases h
    · rintro ⟨h, rfl⟩
      cases Option.some.inj (hread.symm.trans h.readable)
      exact if_pos (indexed_iff.mpr h.safe)

theorem CentralRecord.not_acceptable_iff {r : CentralRecord} {name : Text} :
    ¬ r.Acceptable name <-> forall other, r.accepted ≠ some (name, other) := by
  constructor
  · intro h other haccepted
    exact h (accepted_eq_some_iff.mp haccepted).left
  · intro h hacceptable
    exact h r.entry (accepted_eq_some_iff.mpr ⟨hacceptable, rfl⟩)

theorem lastAccepted_append_iff {records : List CentralRecord} {r : CentralRecord} {name : Text}
    {entry : ZipEntry} :
    LastAccepted (records ++ [r]) name entry <->
      r.Acceptable name ∧ r.entry = entry ∨
        ¬ r.Acceptable name ∧ LastAccepted records name entry := by
  constructor
  · intro h
    rcases h with ⟨before, last, after, hrecords, hlast, hentry, hafter⟩
    rcases List.eq_nil_or_concat after with rfl | ⟨after, final, rfl⟩
    · rcases List.append_inj' hrecords rfl with ⟨rfl, hsame⟩
      cases hsame
      exact .inl ⟨hlast, hentry⟩
    · rw [List.concat_eq_append] at hafter
      rw [List.concat_eq_append, ← List.cons_append, ← List.append_assoc] at hrecords
      rcases List.append_inj' hrecords rfl with ⟨hfront, hsame⟩
      rw [List.cons.injEq] at hsame
      rw [← hsame.1] at hafter
      right
      constructor
      · exact hafter r (List.mem_append_right _ List.mem_cons_self)
      · exact ⟨before, last, after, hfront, hlast, hentry,
          fun later hlater => hafter later (List.mem_append_left _ hlater)⟩
  · intro h
    rcases h with ⟨hlast, hentry⟩ | ⟨hnot, before, last, after, rfl, hlast, hentry, hafter⟩
    · have hnone : forall later, later ∈ ([] : List CentralRecord) ->
          ¬ later.Acceptable name := by
        intro later hlater
        cases hlater
      exact ⟨records, r, [], rfl, hlast, hentry, hnone⟩
    · have hmore : forall later, later ∈ after ++ [r] ->
          ¬ later.Acceptable name := by
        intro later hlater
        rcases List.mem_append.mp hlater with hold | hnew
        · exact hafter later hold
        · rw [List.mem_singleton.mp hnew]
          exact hnot
      exact ⟨before, last, after ++ [r], by simp, hlast, hentry, hmore⟩

theorem lookup_foldl_insertAccepted (records : List CentralRecord) (name : Text)
    (entry : ZipEntry) :
    (records.foldl insertAccepted ∅).lookup name = some entry <->
      LastAccepted records name entry := by
  induction records using List.reverseRecOn with
  | nil => simp [LastAccepted]
  | append_singleton records r ih =>
    rw [List.foldl_append, List.foldl_cons, List.foldl_nil, lastAccepted_append_iff, ← ih,
      ← CentralRecord.accepted_eq_some_iff, CentralRecord.not_acceptable_iff]
    unfold insertAccepted
    cases haccepted : r.accepted with
    | none => simp
    | some found =>
      rcases found with ⟨added, fields⟩
      by_cases hname : name = added
      · subst hname
        simp
      · have hother : added ≠ name := Ne.symm hname
        simp [AList.lookup_insert_ne hname, hother]

/--
Reading a central directory never runs past the end of its bytes.  It gives up only
where there is room for more records than the limit, and otherwise every entry it keeps
is safe.  A sequence of records gives, for each name, the last of them that is acceptable.
-/
theorem central_directory_safe_and_exact (cd : List UInt8) :
    walkChecked cd maxCdEntries 0 ∅ = .ok (parseCentralDirectory cd) ∧
      (parseCentralDirectory cd = none -> 46 * (maxCdEntries + 1) ≤ cd.length) ∧
      (forall entries, parseCentralDirectory cd = some entries ->
        forall name entry, entries.lookup name = some entry -> SafeEntry name entry) ∧
      forall records : List CentralRecord, cd = records.flatMap CentralRecord.bytes ->
        records.length ≤ maxCdEntries ->
        exists entries, parseCentralDirectory cd = some entries ∧
          forall name entry,
            entries.lookup name = some entry <-> LastAccepted records name entry := by
  unfold parseCentralDirectory
  constructor
  · exact walkChecked_eq cd maxCdEntries 0 ∅
  · constructor
    · intro hnone
      have hroom := room_of_parse_eq_none hnone
      omega
    · constructor
      · intro entries hparse
        have hempty : SafeIndex ∅ := by
          intro name entry hlookup
          cases hlookup
        exact safeIndex_of_parse hempty hparse
      · intro records hcd hlimit
        exists records.foldl insertAccepted ∅
        constructor
        · have hholds : HoldsAt cd 0 (records.flatMap CentralRecord.bytes) := by
            rw [← hcd]
            exact HoldsAt.refl cd
          rw [parseCentralDirectoryFrom_of_records hholds (by rw [← hcd, Nat.zero_add]),
            if_pos hlimit]
        · exact lookup_foldl_insertAccepted records

end Classpath
end JavaVsixLite
