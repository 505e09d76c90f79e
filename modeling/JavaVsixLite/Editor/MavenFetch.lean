import JavaVsixLite.Editor.MavenCoordinates
import JavaVsixLite.Foundation.AtomicInstall
import JavaVsixLite.Foundation.Decimals

/-!
# Downloading an artifact

The POM file and the archive of a coordinate are downloaded and checked against a
published checksum.  Only when both are verified they are installed in the local
repository, one after the other.
-/

namespace JavaVsixLite
namespace Editor

open Foundation

abbrev Bytes := List UInt8

inductive FetchError where
  | httpStatus (statusCode : Nat) (message : Text)
  | noChecksum (message : Text)
  | checksumMismatch (message : Text)
  | other (message : Text)

inductive ChecksumAlgo where
  | sha512
  | sha256
  | sha1

def ChecksumAlgo.text : ChecksumAlgo -> Text
  | .sha512 => "sha512".toList
  | .sha256 => "sha256".toList
  | .sha1 => "sha1".toList

def checksumAlgos : List ChecksumAlgo :=
  [.sha512, .sha256, .sha1]

def maxChecksumBytes : Int :=
  4 * 1024

/-- The end of a request: it breaks down, or there is a status and a body. -/
inductive Response where
  | broken (message : Text)
  | answered (status : Nat) (body : Bytes)

/-- The answers of the network, and the hash functions in hexadecimal digits. -/
structure Network where
  respond : Text -> Response
  digest : ChecksumAlgo -> Bytes -> Text

def intText : Int -> Text
  | .ofNat n => decimal n
  | .negSucc n => '-' :: decimal (n + 1)

/-!
# Verified files
-/

def httpsGetBuffer (net : Network) (url : Text) (maxBytes : Int) : Except FetchError Bytes :=
  if !"https://".toList.isPrefixOf url then
    .error (.other ("refusing a non-HTTPS URL: ".toList ++ url))
  else
    match net.respond url with
    | .broken message => .error (.other message)
    | .answered status body =>
      if status ≠ 200 then
        .error (.httpStatus status
          ("HTTP ".toList ++ decimal status ++ " for ".toList ++ url))
      else if body ≠ [] ∧ maxBytes < body.length then
        .error (.other ("response for ".toList ++ url ++ " exceeded the ".toList ++
          intText maxBytes ++ "-byte cap".toList))
      else .ok body

def isHexByte (b : UInt8) : Bool :=
  (0x30 <= b && b <= 0x39) || (0x61 <= b && b <= 0x66) || (0x41 <= b && b <= 0x46)

def lowerHex (b : UInt8) : Char :=
  (Char.ofNat b.toNat).toLower

/--
The first run of hexadecimal digits that is long enough.  The text is read byte by
byte: decoding it keeps these digits and makes no others.
-/
def extractHex : Bytes -> Option Text
  | [] => none
  | b :: rest =>
    let digits := (b :: rest).takeWhile isHexByte
    if 32 ≤ digits.length then some ((digits.take 128).map lowerHex)
    else extractHex rest

structure VerifiedFile where
  data : Bytes
  algo : ChecksumAlgo

def coordText (coord : Coordinate) : Text :=
  coord.group ++ ':' :: (coord.artifact ++ ':' :: coord.version)

def checkSidecars (net : Network) (coord : Coordinate) (ext : ArtifactExt) (fileUrl : Text)
    (data : Bytes) : List ChecksumAlgo -> Except FetchError VerifiedFile
  | [] =>
    .error (.noChecksum ("no .sha512/.sha256/.sha1 checksum published for ".toList ++
      coordText coord ++ "'s ".toList ++ ext.text ++
      " — refusing to install an unverified download".toList))
  | algo :: rest =>
    match httpsGetBuffer net (fileUrl ++ '.' :: algo.text) maxChecksumBytes with
    | .error _ => checkSidecars net coord ext fileUrl data rest
    | .ok checksum =>
      match extractHex checksum with
      | none => checkSidecars net coord ext fileUrl data rest
      | some expected =>
        if net.digest algo data ≠ expected then
          .error (.checksumMismatch (ext.text ++ ' ' :: algo.text ++
            " checksum mismatch for ".toList ++ coordText coord ++
            " — discarding the download".toList))
        else .ok { data := data, algo := algo }

def fetchVerifiedFile (net : Network) (coord : Coordinate) (ext : ArtifactExt) (maxBytes : Int)
    (repoBase : Text) : Except FetchError VerifiedFile :=
  let fileUrl := artifactFileUrl coord ext repoBase
  match httpsGetBuffer net fileUrl maxBytes with
  | .error e => .error e
  | .ok data => checkSidecars net coord ext fileUrl data checksumAlgos

/-!
# Installation
-/

def baseName (path : List Component) : Text :=
  match path.getLast? with
  | some (.normal name) => name
  | _ => []

def temporaryPath (finalPath : List Component) (pid random : Text) : List Component :=
  finalPath.dropLast ++
    [.normal ('.' :: (baseName finalPath ++ ".tmp-".toList ++ pid ++ '-' :: random))]

/-- How the steps of both installations go, with the numbers in the temporary names. -/
structure InstallSteps where
  pid : Text
  random : ArtifactExt -> Text
  run : ArtifactExt -> InstallRun Bytes FetchError

abbrev RepositoryDisk := Disk (List Component) Bytes

def installVerifiedFile (steps : InstallSteps) (ext : ArtifactExt) (finalPath : List Component)
    (data : Bytes) (d : RepositoryDisk) : Option FetchError × RepositoryDisk :=
  install (steps.run ext) (temporaryPath finalPath steps.pid (steps.random ext)) finalPath data d

def installArtifact (P : Platform) (steps : InstallSteps) (m2Root : Text) (coord : Coordinate)
    (ext : ArtifactExt) (data : Bytes) (d : RepositoryDisk) :
    Option FetchError × RepositoryDisk :=
  match m2FilePath P m2Root coord ext with
  | none =>
    (some (.other ("refusing to build an m2 path for an unsafe coordinate: ".toList ++
      coordText coord)), d)
  | some finalPath => installVerifiedFile steps ext finalPath data d

inductive FetchOutcome where
  | downloaded (bytes : Nat)
  | failed (reason : Text)
deriving DecidableEq

def classifyError : FetchError -> Text
  | .httpStatus statusCode _ =>
    if statusCode = 404 then "not found in the configured repository".toList
    else "the repository returned HTTP ".toList ++ decimal statusCode
  | .noChecksum message => message
  | .checksumMismatch message => message
  | .other message => "network error: ".toList ++ message

def fetchAndInstallArtifact (P : Platform) (net : Network) (steps : InstallSteps)
    (coord : Coordinate) (m2Root : Text) (remainingBytesBudget : Int) (repoBase : Text)
    (d : RepositoryDisk) : FetchOutcome × RepositoryDisk :=
  if !isSafeCoordinate coord then
    (.failed "coordinate contains unsafe characters — refused".toList, d)
  else
    match fetchVerifiedFile net coord .pom remainingBytesBudget repoBase with
    | .error e => (.failed (classifyError e), d)
    | .ok pom =>
      let jarBudget := remainingBytesBudget - pom.data.length
      if jarBudget ≤ 0 then
        (.failed "would exceed this invocation's download size cap".toList, d)
      else
        match fetchVerifiedFile net coord .jar jarBudget repoBase with
        | .error e => (.failed (classifyError e), d)
        | .ok jar =>
          match installArtifact P steps m2Root coord .pom pom.data d with
          | (some e, d') => (.failed (classifyError e), d')
          | (none, d') =>
            match installArtifact P steps m2Root coord .jar jar.data d' with
            | (some e, d'') => (.failed (classifyError e), d'')
            | (none, d'') =>
              (.downloaded (pom.data.length + jar.data.length), d'')

/-!
# Both or neither
-/

def Published (net : Network) (coord : Coordinate) (ext : ArtifactExt) (repoBase : Text)
    (data : Bytes) : Prop :=
  exists algo checksum,
    httpsGetBuffer net (artifactFileUrl coord ext repoBase ++ '.' :: algo.text)
      maxChecksumBytes = .ok checksum ∧
    extractHex checksum = some (net.digest algo data)

def Downloaded (net : Network) (coord : Coordinate) (ext : ArtifactExt) (repoBase : Text)
    (data : Bytes) : Prop :=
  net.respond (artifactFileUrl coord ext repoBase) = .answered 200 data

def OldOrPublished (P : Platform) (net : Network) (coord : Coordinate) (m2Root repoBase : Text)
    (before f : Files (List Component) Bytes) : Prop :=
  forall ext place, m2FilePath P m2Root coord ext = some place ->
    f place = before place ∨
      exists data, Published net coord ext repoBase data ∧ f place = some data

/-- What is expected of the installation of an artifact. -/
structure BothOrNeither (P : Platform) (net : Network) (coord : Coordinate)
    (m2Root repoBase : Text) (before : Files (List Component) Bytes)
    (result : FetchOutcome × RepositoryDisk) : Prop where
  failed : forall reason, result.1 = .failed reason ->
    forall ext place, m2FilePath P m2Root coord ext = some place ->
      result.2.files place = before place
  downloaded : forall bytes, result.1 = .downloaded bytes ->
    forall ext, exists place data,
      m2FilePath P m2Root coord ext = some place ∧
      Downloaded net coord ext repoBase data ∧
      result.2.files place = some data
  always : result.2.Always (OldOrPublished P net coord m2Root repoBase before)

/--
Both files are verified and the first is installed, which changes its place, but
the installation of the second fails.
-/
def HalfInstalled (P : Platform) (net : Network) (steps : InstallSteps) (coord : Coordinate)
    (m2Root : Text) (remainingBytesBudget : Int) (repoBase : Text)
    (before : Files (List Component) Bytes) : Prop :=
  exists pom jar place,
    m2FilePath P m2Root coord .pom = some place ∧
    fetchVerifiedFile net coord .pom remainingBytesBudget repoBase = .ok pom ∧
    0 < remainingBytesBudget - pom.data.length ∧
    fetchVerifiedFile net coord .jar (remainingBytesBudget - pom.data.length) repoBase =
      .ok jar ∧
    (steps.run .pom).error = none ∧ (steps.run .jar).error ≠ none ∧
    before place ≠ some pom.data

/-!
# What a verified file is
-/

theorem httpsGetBuffer_ok {net : Network} {url : Text} {maxBytes : Int} {data : Bytes}
    (h : httpsGetBuffer net url maxBytes = .ok data) : net.respond url = .answered 200 data := by
  unfold httpsGetBuffer at h
  split at h
  · cases h
  · split at h
    · cases h
    · rename_i status body hrespond
      split at h
      · cases h
      · rename_i hstatus
        split at h
        · cases h
        · cases h
          rw [hrespond, Decidable.not_not.mp hstatus]

section

variable {net : Network} {coord : Coordinate} {ext : ArtifactExt} {repoBase : Text}

/-- A file that passes the check is the downloaded one, and a sidecar matches it. -/
theorem checkSidecars_ok {data : Bytes} {file : VerifiedFile} {algos : List ChecksumAlgo}
    (h : checkSidecars net coord ext (artifactFileUrl coord ext repoBase) data algos = .ok file) :
    file.data = data ∧ Published net coord ext repoBase data := by
  induction algos with
  | nil => cases h
  | cons algo rest ih =>
    rw [checkSidecars] at h
    split at h
    · exact ih h
    · rename_i checksum hchecksum
      split at h
      · exact ih h
      · rename_i expected hexpected
        split at h
        · cases h
        · rename_i hsame
          cases h
          have hdigest : net.digest algo data = expected := Decidable.not_not.mp hsame
          rw [← hdigest] at hexpected
          exact ⟨rfl, algo, checksum, hchecksum, hexpected⟩

theorem fetchVerifiedFile_ok {maxBytes : Int} {file : VerifiedFile}
    (h : fetchVerifiedFile net coord ext maxBytes repoBase = .ok file) :
    Downloaded net coord ext repoBase file.data ∧ Published net coord ext repoBase file.data := by
  unfold fetchVerifiedFile at h
  simp only at h
  split at h
  · cases h
  · rename_i data hdata
    have hchecked := checkSidecars_ok h
    rw [hchecked.1]
    exact ⟨httpsGetBuffer_ok hdata, hchecked.2⟩

end

/-!
# The places of one artifact
-/

theorem append_singleton_ne {xs ys : List Component} {name name' : Text}
    (h : name ≠ name') : xs ++ [Component.normal name] ≠ ys ++ [Component.normal name'] := by
  intro heq
  have hlast := congrArg List.getLast? heq
  rw [List.getLast?_concat, List.getLast?_concat] at hlast
  cases hlast
  exact h rfl

theorem baseName_concat (directory : List Component) (name : Text) :
    baseName (directory ++ [.normal name]) = name := by
  unfold baseName
  rw [List.getLast?_concat]

theorem length_fileName (coord : Coordinate) (ext ext' : ArtifactExt) :
    (fileName coord ext).length = (fileName coord ext').length := by
  have htext : ext.text.length = ext'.text.length := by
    cases ext <;> cases ext' <;> rfl
  simp [fileName, htext]

theorem fileName_injective {coord : Coordinate} {ext ext' : ArtifactExt}
    (h : fileName coord ext = fileName coord ext') : ext = ext' := by
  have htext : ext.text = ext'.text := by
    unfold fileName at h
    have hversion := List.append_cancel_left h
    have hafter := List.append_cancel_left (List.cons.inj hversion).2
    exact (List.cons.inj hafter).2
  cases ext <;> cases ext' <;> first | rfl | cases htext

section

variable {P : Platform} {coord : Coordinate} {m2Root : Text}

theorem place_injective (hsafe : isSafeCoordinate coord = true) {ext ext' : ArtifactExt}
    {place : List Component} (h : m2FilePath P m2Root coord ext = some place)
    (h' : m2FilePath P m2Root coord ext' = some place) : ext = ext' := by
  rw [m2FilePath_eq P m2Root hsafe] at h h'
  by_cases hname : fileName coord ext = fileName coord ext'
  · exact fileName_injective hname
  · have hsame := (Option.some.inj h).trans (Option.some.inj h').symm
    exact absurd hsame (append_singleton_ne hname)

theorem place_ne_temporaryPath (hsafe : isSafeCoordinate coord = true) {ext ext' : ArtifactExt}
    {place place' : List Component} (h : m2FilePath P m2Root coord ext = some place)
    (h' : m2FilePath P m2Root coord ext' = some place') (pid random : Text) :
    place' ≠ temporaryPath place pid random := by
  rw [m2FilePath_eq P m2Root hsafe] at h h'
  rw [← Option.some.inj h, ← Option.some.inj h']
  unfold temporaryPath
  apply append_singleton_ne
  intro hname
  have hlength := congrArg List.length hname
  rw [baseName_concat, length_fileName coord ext' ext] at hlength
  simp at hlength
  omega

variable {net : Network} {repoBase : Text} {before : Files (List Component) Bytes}
  {steps : InstallSteps} {d : RepositoryDisk} {data : Bytes} {ext : ArtifactExt}
  {place : List Component}

structure Installs (P : Platform) (net : Network) (coord : Coordinate) (m2Root repoBase : Text)
    (before : Files (List Component) Bytes) (place : List Component) (data : Bytes)
    (failure : Option FetchError) (d : RepositoryDisk)
    (result : Option FetchError × RepositoryDisk) : Prop where
  ends : result.1 = failure
  always : result.2.Always (OldOrPublished P net coord m2Root repoBase before)
  installed : failure = none -> result.2.files place = some data
  others : failure = none -> forall ext' place', m2FilePath P m2Root coord ext' = some place' ->
    place' ≠ place -> result.2.files place' = d.files place'
  kept : failure ≠ none -> forall ext' place', m2FilePath P m2Root coord ext' = some place' ->
    result.2.files place' = d.files place'

variable (steps) in
theorem installs_installArtifact (hsafe : isSafeCoordinate coord = true)
    (hplace : m2FilePath P m2Root coord ext = some place)
    (hpublished : Published net coord ext repoBase data)
    (hd : d.Always (OldOrPublished P net coord m2Root repoBase before)) :
    Installs P net coord m2Root repoBase before place data (steps.run ext).error d
      (installArtifact P steps m2Root coord ext data d) := by
  have hinstall : installArtifact P steps m2Root coord ext data d =
      install (steps.run ext) (temporaryPath place steps.pid (steps.random ext)) place data d := by
    unfold installArtifact installVerifiedFile
    rw [hplace]
  have htmp : forall ext' place', m2FilePath P m2Root coord ext' = some place' ->
      place' ≠ temporaryPath place steps.pid (steps.random ext) := by
    intro ext' place' hplace'
    exact place_ne_temporaryPath hsafe hplace hplace' _ _
  have hkeep : forall f,
      OldOrNew (temporaryPath place steps.pid (steps.random ext)) place data d.files f ->
      OldOrPublished P net coord m2Root repoBase before f := by
    intro f hf ext' place' hplace'
    cases hf place' (htmp ext' place' hplace') with
    | inl hold =>
      rw [hold]
      exact hd.1 ext' place' hplace'
    | inr hnew =>
      rw [hnew.1] at hplace'
      rw [place_injective hsafe hplace' hplace]
      exact Or.inr ⟨data, hpublished, hnew.2⟩
  have hspec := install_spec (steps.run ext) (htmp ext place hplace) hkeep hd
  rw [hinstall]
  constructor
  · exact install_error
  · exact hspec.1
  · intro herror
    exact (hspec.2.1 herror).1
  · intro herror ext' place' hplace' hne
    exact (hspec.2.1 herror).2 place' (htmp ext' place' hplace') hne
  · intro herror ext' place' hplace'
    exact hspec.2.2 herror place' (htmp ext' place' hplace')

end

/-!
# The whole call
-/

section

variable {P : Platform} {net : Network} {steps : InstallSteps} {coord : Coordinate}
  {m2Root : Text} {budget : Int} {repoBase : Text} {before : Files (List Component) Bytes}

theorem bothOrNeither_untouched (reason : Text) :
    BothOrNeither P net coord m2Root repoBase before
      (.failed reason, { files := before, past := [] }) := by
  constructor
  · intro _ _ ext place _
    rfl
  · intro bytes h
    cases h
  · constructor
    · intro ext place _
      exact Or.inl rfl
    · intro f hf
      cases hf

theorem always_start :
    ({ files := before, past := [] } : RepositoryDisk).Always
      (OldOrPublished P net coord m2Root repoBase before) := by
  constructor
  · intro ext place _
    exact Or.inl rfl
  · intro f hf
    cases hf

def installBoth (P : Platform) (steps : InstallSteps) (m2Root : Text) (coord : Coordinate)
    (pom jar : Bytes) (d : RepositoryDisk) : FetchOutcome × RepositoryDisk :=
  match installArtifact P steps m2Root coord .pom pom d with
  | (some e, d') => (.failed (classifyError e), d')
  | (none, d') =>
    match installArtifact P steps m2Root coord .jar jar d' with
    | (some e, d'') => (.failed (classifyError e), d'')
    | (none, d'') => (.downloaded (pom.length + jar.length), d'')

section

variable {pom jar : Bytes} {pomPlace jarPlace : List Component}
  {afterPom afterJar : Option FetchError × RepositoryDisk} {pomError jarError : Option FetchError}

theorem both_of_pom_error (e : FetchError) (hne : pomError ≠ none)
    (hfirst : Installs P net coord m2Root repoBase before pomPlace pom pomError
      { files := before, past := [] } afterPom) :
    BothOrNeither P net coord m2Root repoBase before
      (.failed (classifyError e), afterPom.2) := by
  constructor
  · intro _ _
    exact hfirst.kept hne
  · intro bytes h
    cases h
  · exact hfirst.always

/-- The second installation fails: the first one must not have changed anything. -/
theorem both_of_jar_error_iff {e : FetchError}
    (hpom : m2FilePath P m2Root coord .pom = some pomPlace)
    (hjar : m2FilePath P m2Root coord .jar = some jarPlace) (hne : jarPlace ≠ pomPlace)
    (hpomError : pomError = none) (hjarError : jarError ≠ none)
    (hfirst : Installs P net coord m2Root repoBase before pomPlace pom pomError
      { files := before, past := [] } afterPom)
    (hsecond : Installs P net coord m2Root repoBase before jarPlace jar jarError
      afterPom.2 afterJar) :
    BothOrNeither P net coord m2Root repoBase before (.failed (classifyError e), afterJar.2) <->
      before pomPlace = some pom := by
  have hpomFile : afterJar.2.files pomPlace = some pom := by
    rw [hsecond.kept hjarError .pom pomPlace hpom]
    exact hfirst.installed hpomError
  have hjarFile : afterJar.2.files jarPlace = before jarPlace := by
    rw [hsecond.kept hjarError .jar jarPlace hjar]
    exact hfirst.others hpomError .jar jarPlace hjar hne
  constructor
  · intro h
    rw [← h.failed _ rfl .pom pomPlace hpom]
    exact hpomFile
  · intro hsame
    constructor
    · intro _ _ ext place hplace
      cases ext with
      | pom =>
        rw [hpom] at hplace
        cases hplace
        exact hpomFile.trans hsame.symm
      | jar =>
        rw [hjar] at hplace
        cases hplace
        exact hjarFile
    · intro bytes h
      cases h
    · exact hsecond.always

theorem both_of_installed {bytes : Nat}
    (hpom : m2FilePath P m2Root coord .pom = some pomPlace)
    (hjar : m2FilePath P m2Root coord .jar = some jarPlace) (hne : pomPlace ≠ jarPlace)
    (hpomFile : Downloaded net coord .pom repoBase pom)
    (hjarFile : Downloaded net coord .jar repoBase jar)
    (hpomError : pomError = none) (hjarError : jarError = none)
    (hfirst : Installs P net coord m2Root repoBase before pomPlace pom pomError
      { files := before, past := [] } afterPom)
    (hsecond : Installs P net coord m2Root repoBase before jarPlace jar jarError
      afterPom.2 afterJar) :
    BothOrNeither P net coord m2Root repoBase before (.downloaded bytes, afterJar.2) := by
  constructor
  · intro reason h
    cases h
  · intro _ _ ext
    cases ext with
    | pom =>
      refine ⟨pomPlace, pom, hpom, hpomFile, ?_⟩
      show afterJar.2.files pomPlace = some pom
      rw [hsecond.others hjarError .pom pomPlace hpom hne]
      exact hfirst.installed hpomError
    | jar => exact ⟨jarPlace, jar, hjar, hjarFile, hsecond.installed hjarError⟩
  · exact hsecond.always

end

theorem installBoth_iff {pom jar : Bytes} {pomPlace jarPlace : List Component}
    (hsafe : isSafeCoordinate coord = true)
    (hpom : m2FilePath P m2Root coord .pom = some pomPlace)
    (hjar : m2FilePath P m2Root coord .jar = some jarPlace)
    (hpomFile : Downloaded net coord .pom repoBase pom ∧ Published net coord .pom repoBase pom)
    (hjarFile : Downloaded net coord .jar repoBase jar ∧
      Published net coord .jar repoBase jar) :
    BothOrNeither P net coord m2Root repoBase before
        (installBoth P steps m2Root coord pom jar { files := before, past := [] }) <->
      ¬ ((steps.run .pom).error = none ∧ (steps.run .jar).error ≠ none ∧
        before pomPlace ≠ some pom) := by
  have hne : pomPlace ≠ jarPlace := by
    intro heq
    rw [heq] at hpom
    cases place_injective hsafe hpom hjar
  have hstart : ({ files := before, past := [] } : RepositoryDisk).Always
      (OldOrPublished P net coord m2Root repoBase before) := always_start
  have hfirst := installs_installArtifact steps hsafe hpom hpomFile.2 hstart
  have hsecond := installs_installArtifact steps hsafe hjar hjarFile.2 hfirst.always
  unfold installBoth
  generalize hafterPom : installArtifact P steps m2Root coord .pom pom
    { files := before, past := [] } = afterPom at hfirst hsecond
  generalize hafterJar : installArtifact P steps m2Root coord .jar jar afterPom.2 = afterJar
    at hsecond
  cases hpomError : (steps.run .pom).error with
  | some e =>
    have he : afterPom.1 = some e := hfirst.ends.trans hpomError
    have hboth := both_of_pom_error e (by simp [hpomError]) hfirst
    rcases afterPom with ⟨error, d'⟩
    cases he
    simp only [reduceCtorEq, false_and, not_false_eq_true, iff_true]
    exact hboth
  | none =>
    have hnone : afterPom.1 = none := hfirst.ends.trans hpomError
    rcases afterPom with ⟨error, d'⟩
    cases hnone
    simp only at hafterJar
    simp only [hafterJar]
    cases hjarError : (steps.run .jar).error with
    | some e =>
      have he : afterJar.1 = some e := hsecond.ends.trans hjarError
      have hboth := both_of_jar_error_iff (e := e) hpom hjar hne.symm hpomError
        (by simp [hjarError]) hfirst hsecond
      rcases afterJar with ⟨error, d''⟩
      cases he
      simp only [ne_eq, reduceCtorEq, not_false_eq_true, true_and, Decidable.not_not]
      exact hboth
    | none =>
      have hdone : afterJar.1 = none := hsecond.ends.trans hjarError
      rcases afterJar with ⟨error, d''⟩
      cases hdone
      simp only [ne_eq, not_true_eq_false, false_and, and_false, not_false_eq_true, iff_true]
      exact both_of_installed hpom hjar hne hpomFile.1 hjarFile.1 hpomError hjarError
        hfirst hsecond

/-- Exactly when no coordinate is half installed, both files are installed or neither is. -/
theorem bothOrNeither_iff :
    BothOrNeither P net coord m2Root repoBase before
      (fetchAndInstallArtifact P net steps coord m2Root budget repoBase
        { files := before, past := [] }) <->
      ¬ HalfInstalled P net steps coord m2Root budget repoBase before := by
  have huntouched {reason : Text} {d : RepositoryDisk} (hd : d = { files := before, past := [] })
      (hnot : ¬ HalfInstalled P net steps coord m2Root budget repoBase before) :
      BothOrNeither P net coord m2Root repoBase before (.failed reason, d) <->
        ¬ HalfInstalled P net steps coord m2Root budget repoBase before := by
    rw [hd]
    exact iff_of_true (bothOrNeither_untouched reason) hnot
  unfold fetchAndInstallArtifact
  cases hsafe : isSafeCoordinate coord with
  | false =>
    apply huntouched rfl
    intro h
    rcases h with ⟨pom, jar, place, hplace, _⟩
    unfold m2FilePath at hplace
    simp [hsafe] at hplace
  | true =>
    cases hpom : fetchVerifiedFile net coord .pom budget repoBase with
    | error e =>
      apply huntouched rfl
      intro h
      rcases h with ⟨pom, jar, place, hplace, hpom', _⟩
      rw [hpom] at hpom'
      cases hpom'
    | ok pom =>
      by_cases hbudget : budget - pom.data.length ≤ 0
      · simp only [Bool.not_true, Bool.false_eq_true, if_false, if_pos hbudget]
        apply huntouched rfl
        intro h
        rcases h with ⟨pom', jar, place, hplace, hpom', hpositive, _⟩
        rw [hpom] at hpom'
        cases hpom'
        exact absurd hpositive (Int.not_lt.mpr hbudget)
      · simp only [Bool.not_true, Bool.false_eq_true, if_false, if_neg hbudget]
        cases hjar : fetchVerifiedFile net coord .jar (budget - pom.data.length) repoBase with
        | error e =>
          apply huntouched rfl
          intro h
          rcases h with ⟨pom', jar, place, hplace, hpom', hpositive, hjar', _⟩
          rw [hpom] at hpom'
          cases hpom'
          rw [hjar] at hjar'
          cases hjar'
        | ok jar =>
          have hplace := m2FilePath_eq P m2Root hsafe .pom
          have hhalf : HalfInstalled P net steps coord m2Root budget repoBase before <->
              (steps.run .pom).error = none ∧ (steps.run .jar).error ≠ none ∧
                before (m2Directory P m2Root coord ++
                  [Component.normal (fileName coord .pom)]) ≠ some pom.data := by
            constructor
            · intro h
              rcases h with ⟨pom', jar', place, hplace', hpom', _, _, hrest⟩
              rw [hplace] at hplace'
              rw [hpom] at hpom'
              cases hplace'
              cases hpom'
              exact hrest
            · intro h
              exact ⟨pom, jar, _, hplace, hpom, Int.not_le.mp hbudget, hjar, h⟩
          rw [hhalf]
          exact installBoth_iff hsafe hplace (m2FilePath_eq P m2Root hsafe .jar)
            (fetchVerifiedFile_ok hpom) (fetchVerifiedFile_ok hjar)

end

/-!
# A full disk
-/

def smallCoordinate : Coordinate where
  group := "g".toList
  artifact := "a".toList
  version := "1".toList

/-- A repository with two files of one byte and their oldest checksums. -/
def smallRepository : Network where
  respond := fun url =>
    if url = "https://r/g/a/1/a-1.pom".toList then .answered 200 [97]
    else if url = "https://r/g/a/1/a-1.jar".toList then .answered 200 [98]
    else if url = "https://r/g/a/1/a-1.pom.sha1".toList then
      .answered 200 ("86f7e437faa5a7fce15d1ddcb9eaeaea377667b8".toList.map
        (fun c => UInt8.ofNat c.toNat))
    else if url = "https://r/g/a/1/a-1.jar.sha1".toList then
      .answered 200 ("e9d71f5ee7c92d6dc9e92ffdad17b8bd49418f98".toList.map
        (fun c => UInt8.ofNat c.toNat))
    else .answered 404 []
  digest := fun _ data =>
    if data = [97] then "86f7e437faa5a7fce15d1ddcb9eaeaea377667b8".toList
    else "e9d71f5ee7c92d6dc9e92ffdad17b8bd49418f98".toList

def fullDisk : InstallSteps where
  pid := "7".toList
  random := fun _ => "00ff".toList
  run := fun ext =>
    { mkdir := none
      progress := []
      write := if ext = .jar then some (.other "ENOSPC".toList) else none
      rename := none
      unlinks := true }

def smallPomPlace : List Component :=
  [.root, .normal "m2".toList, .normal "g".toList, .normal "a".toList, .normal "1".toList,
    .normal "a-1.pom".toList]

/-- The call fails, and the first file is there. -/
theorem half_installed_on_fullDisk :
    m2FilePath .unix "/m2".toList smallCoordinate .pom = some smallPomPlace ∧
    (fetchAndInstallArtifact .unix smallRepository fullDisk smallCoordinate "/m2".toList 1000
      "https://r".toList { files := fun _ => none, past := [] }).1 =
        .failed "network error: ENOSPC".toList ∧
    (fetchAndInstallArtifact .unix smallRepository fullDisk smallCoordinate "/m2".toList 1000
      "https://r".toList { files := fun _ => none, past := [] }).2.files smallPomPlace =
        some [97] ∧
    ¬ BothOrNeither .unix smallRepository smallCoordinate "/m2".toList "https://r".toList
      (fun _ => none)
      (fetchAndInstallArtifact .unix smallRepository fullDisk smallCoordinate "/m2".toList 1000
        "https://r".toList { files := fun _ => none, past := [] }) := by
  have hplace : m2FilePath .unix "/m2".toList smallCoordinate .pom = some smallPomPlace := by
    decide +kernel
  have houtcome : (fetchAndInstallArtifact .unix smallRepository fullDisk smallCoordinate
      "/m2".toList 1000 "https://r".toList { files := fun _ => none, past := [] }).1 =
        .failed "network error: ENOSPC".toList := by
    decide +kernel
  have hfile : (fetchAndInstallArtifact .unix smallRepository fullDisk smallCoordinate
      "/m2".toList 1000 "https://r".toList { files := fun _ => none, past := [] }).2.files
        smallPomPlace = some [97] := by
    decide +kernel
  refine ⟨hplace, houtcome, hfile, ?_⟩
  intro h
  have hsame := h.failed _ houtcome .pom smallPomPlace hplace
  rw [hfile] at hsame
  cases hsame

end Editor
end JavaVsixLite
