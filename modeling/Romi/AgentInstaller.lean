import Romi.AgentCounters
import Romi.AgentDistribution

/-!
# Installing the agent a hub serves

The install script asks the hub for a description, scans it for the fields it
needs, downloads the binary from the path it names, compares size and digest,
runs it once for its version, gets a token and puts the binary under the
release directory of its version. An existing directory is kept if it holds a
runnable binary of the same digest.
-/

namespace Romi.AgentInstaller

open AgentCounters (splitOnce)
open AgentDistribution FieldScan
open MountTable (stripFront)

/-! ## The hub as the script reaches it -/

/-- What the script's requests bring; a status that is no success brings nothing. -/
structure Origin where
  /-- The description of a target. -/
  metadata : List Char → Option (List Char)
  /-- What is under a path. -/
  download : List Char → Option (List UInt8)
  /-- The answer to a registration key. -/
  register : List Char → Option (List Char)

/-- The router, on the paths the script asks for. -/
def origin (served : Option Distribution) (register : List Char → Option (List Char)) : Origin where
  register := register
  metadata target :=
    match agentDistribution served (some (String.ofList target)) with
    | .metadata members => some (object members)
    | _ => none
  download path := do
    let (version, target) ← (stripFront "/agent/v".toList path).bind (splitOnce '/')
    if '/' ∈ target then none
    else match agentBinary served (String.ofList version) (String.ofList target) with
      | .binary _ _ bytes => some bytes
      | _ => none

/-! ## The script -/

/-- What `die` prints. -/
abbrev Installing : Type → Type := Except (List Char)

/-- `die` unless the condition holds. -/
def dieUnless (condition : Prop) [Decidable condition] (text : List Char) : Installing Unit :=
  if condition then .ok () else .error text

/-- `|| die`. -/
def orDie {α : Type} (value : Option α) (text : List Char) : Installing α :=
  match value with
  | some a => .ok a
  | none => .error text

/-- What follows the first dot with a digit behind it. -/
def afterDot : List Char → Option (List Char)
  | [] => none
  | [_] => none
  | c :: d :: rest => if c = '.' && d.isDigit then some rest else afterDot (d :: rest)

/-- `[0-9]*.[0-9]*.[0-9]*`. -/
def isVersion : List Char → Bool
  | [] => false
  | c :: rest => c.isDigit && ((afterDot rest).bind afterDot).isSome

/-- A digit of a digest as the script takes it. -/
def isLowerHex (c : Char) : Bool := c.isDigit || ('a' ≤ c && c ≤ 'f')

/-- The machines an agent is built for. -/
def machines : List (List Char) := ["x86_64".toList, "aarch64".toList]

/-- `REQUEST_TARGET`. -/
def requestTarget (arch : List Char) (alpine : Bool) : List Char :=
  arch ++ "-unknown-linux-".toList ++ if alpine then "musl".toList else "gnu".toList

/-- The path of a binary. -/
def binaryPath (version target : List Char) : List Char :=
  "/agent/v".toList ++ version ++ '/' :: target

/-- Where the script gets the token from. -/
inductive TokenMode
  /-- `--register-key`, a key to exchange for a token. -/
  | registerKey (key : List Char)
  /-- `--token-stdin`, with what there is to read. -/
  | tokenStdin (input : List Char)
  /-- What is typed at the terminal, if there is one. -/
  | prompt (typed : Option (List Char))

/-- A release directory. -/
structure Release where
  /-- `romi-agent`, if it is there and may be executed. -/
  agent : Option (List UInt8)
  /-- `VERSION`. -/
  version : Option (List Char)
  /-- `release.json`. -/
  release : Option (List Char)

/-- The machine as the script finds it. -/
structure Machine where
  /-- `uname -m`. -/
  arch : List Char
  /-- `/etc/alpine-release` is there. -/
  alpine : Bool
  /-- What a program prints when it is run with `--version`, unless it fails. -/
  runs : List UInt8 → Option (List Char)
  /-- How the token is brought along. -/
  token : TokenMode
  /-- `OPT_RELEASES`. -/
  directory : List Char
  /-- The number of the script's process. -/
  process : List Char
  /-- Account, group and directories are there or can be made. -/
  prepared : Bool
  /-- The release directories, by version. -/
  releases : List Char → Option Release
  /-- Something has the temporary path of a version. -/
  staged : List Char → Bool
  /-- The temporary directory can be filled. -/
  writable : Bool
  /-- It can be moved to its place. -/
  movable : Bool

/-- What the script takes from the description. -/
structure Description where
  /-- The field `version`. -/
  version : List Char
  /-- The field `architecture`. -/
  architecture : List Char
  /-- The field `target`. -/
  target : List Char
  /-- The field `sha256`. -/
  sha256 : List Char
  /-- The field `size`, in digits. -/
  size : List Char
  /-- The field `download_path`. -/
  download : List Char

/-- `json_string_field` and `json_number_field`; what is not found is empty. -/
def scan (line : List Char) : Description where
  version := (textField "version".toList line).getD []
  architecture := (textField "architecture".toList line).getD []
  target := (textField "target".toList line).getD []
  sha256 := (textField "sha256".toList line).getD []
  size := (numberField "size".toList line).getD []
  download := (textField "download".toList line).getD []

/-- The checks of the description. -/
def checkDescription (arch target : List Char) (found : Description) : Installing Unit := do
  dieUnless (isVersion found.version = true)
    ("Hub advertises a malformed Agent version: ".toList ++ found.version)
  dieUnless (found.architecture = arch)
    ("Hub advertises unsupported architecture: ".toList ++ found.architecture)
  dieUnless (found.target = target)
    ("Hub advertises unsupported target: ".toList ++ found.target)
  dieUnless (found.sha256 ≠ [] ∧ found.sha256.all isLowerHex = true)
    "Hub distribution metadata carries an invalid SHA-256".toList
  dieUnless (found.sha256.length = 64) "Hub distribution metadata carries an invalid SHA-256".toList
  dieUnless (found.size ≠ [] ∧ found.size.all Char.isDigit = true)
    "Hub distribution metadata carries an invalid size".toList
  dieUnless (found.download = binaryPath found.version target)
    ("Hub distribution advertises an unexpected download path: ".toList ++ found.download)

/-- The checks of the binary. -/
def checkBinary (sha256sum : List UInt8 → String) (found : Description) (bytes : List UInt8) :
    Installing Unit := do
  dieUnless (Nat.toDigits 10 bytes.length = found.size)
    ("downloaded Agent has size ".toList ++ Nat.toDigits 10 bytes.length ++ ", expected ".toList ++
      found.size)
  dieUnless ((sha256sum bytes).toList = found.sha256)
    "downloaded Agent SHA-256 does not match Hub metadata".toList

/-- `$(…)`: what a command printed, without the line ends it stops with. -/
def substituted (output : List Char) : List Char :=
  (output.reverse.dropWhile (· = '\n')).reverse

/-- What a binary of this version says it is. -/
def reportOf (version : List Char) : List Char := "romi-agent ".toList ++ version

/-- The binary is run once before it is installed. -/
def checkVersion (m : Machine) (version : List Char) (bytes : List UInt8) : Installing Unit := do
  let output ← orDie (m.runs bytes) "downloaded Agent cannot execute".toList
  let reported := substituted output
  dieUnless (reported = reportOf version)
    ("downloaded Agent reports '".toList ++ reported ++ "', expected '".toList ++ reportOf version ++
      "'".toList)

/-- `[A-Za-z0-9._-]`. -/
def isTokenChar (c : Char) : Bool := c.isAlphanum || c = '.' || c = '_' || c = '-'

/-- `read`: a line fails without its end. -/
def readLine (input : List Char) : Option (List Char) := (splitOnce '\n' input).map Prod.fst

/-- The token from where it comes. -/
def fetchToken (hub : Origin) : TokenMode → Installing (List Char)
  | .registerKey key => do
    dieUnless (key ≠ []) "registration key is empty".toList
    dieUnless (key.all isTokenChar = true)
      "registration key contains unsupported characters".toList
    let response ← orDie (hub.register key)
      "registration key was refused or the Hub is unreachable".toList
    return substituted response
  | .tokenStdin input => orDie (readLine input) "no token on stdin".toList
  | .prompt none => .error "no token supplied; use --token-stdin or --register-key".toList
  | .prompt (some typed) => orDie (readLine typed) "no token entered".toList

/-- The checks of the token. -/
def checkToken (token : List Char) : Installing Unit := do
  dieUnless (token ≠ []) "node token is empty".toList
  dieUnless (token.all isTokenChar = true) "node token contains unsupported characters".toList

/-- `release.json`. -/
def releaseJson (version target sha256 : List Char) (size : Nat) : List Char :=
  "\x7b\"format\":1,\"project\":\"romi\",\"component\":\"agent\",\"version\":\"".toList ++ version ++
    "\",\"target\":\"".toList ++ target ++ "\",\"sha256\":\"".toList ++ sha256 ++
    "\",\"size\":".toList ++ Nat.toDigits 10 size ++ "\x7d\n".toList

/-- A new release directory. -/
def newRelease (version target sha256 : List Char) (bytes : List UInt8) : Release where
  agent := some bytes
  version := some (version ++ ['\n'])
  release := some (releaseJson version target sha256 bytes.length)

/-- The release directory: one that is there is kept if its binary is the same,
otherwise a new one is filled under a temporary name and moved. -/
def placeRelease (sha256sum : List UInt8 → String) (m : Machine) (found : Description)
    (target : List Char) (bytes : List UInt8) : Installing Release := do
  let place := m.directory ++ '/' :: found.version
  match m.releases found.version with
  | some release =>
    let installed ← orDie release.agent (place ++ " exists but has no runnable Agent".toList)
    dieUnless ((sha256sum installed).toList = found.sha256)
      (place ++ " contains a different binary; refusing to replace it".toList)
    return release
  | none =>
    let stage := m.directory ++ "/.".toList ++ found.version ++ ".tmp.".toList ++ m.process
    dieUnless (m.staged found.version = false)
      ("temporary release path already exists: ".toList ++ stage)
    -- `set -e` ends the script here without a word.
    dieUnless (m.writable = true) []
    dieUnless (m.movable = true) ("cannot install ".toList ++ place)
    return newRelease found.version target (sha256sum bytes).toList bytes

/-- What is installed: the version, its release directory and the node's token. -/
structure Installed where
  /-- The version. -/
  version : List Char
  /-- The release. -/
  release : Release
  /-- The token the agent signs in with. -/
  token : List Char

/-- The script from `uname -m` to the release directory. -/
def install (sha256sum : List UInt8 → String) (hub : Origin) (m : Machine) :
    Installing Installed := do
  dieUnless (m.arch = "x86_64".toList ∨ m.arch = "aarch64".toList)
    ("unsupported host architecture: ".toList ++ m.arch)
  let target := requestTarget m.arch m.alpine
  let line ← orDie (hub.metadata target)
    "cannot fetch the Hub Agent distribution metadata".toList
  let found := scan line
  checkDescription m.arch target found
  let bytes ← orDie (hub.download found.download) "cannot download the Agent binary".toList
  checkBinary sha256sum found bytes
  checkVersion m found.version bytes
  let token ← fetchToken hub m.token
  checkToken token
  dieUnless (m.prepared = true) []
  let release ← placeRelease sha256sum m found target bytes
  return ⟨found.version, release, token⟩

/-! ## What it reads -/

variable {tools : Tools} {x : Artifact}

/-- A digest needs no escapes. -/
theorem plain_of_hex {s : List Char} (h : s.all isHexDigit = true) : Plain s := by
  intro c hc
  have hdigit := List.all_eq_true.mp h c hc
  refine ⟨?_, ?_, ?_⟩
  · rintro rfl
    exact absurd hdigit (by decide)
  · rintro rfl
    exact absurd hdigit (by decide)
  · unfold isHexDigit at hdigit
    simp only [Bool.or_eq_true, Bool.and_eq_true, decide_eq_true_eq] at hdigit
    rcases hdigit with (⟨hlow, -⟩ | ⟨hlow, -⟩) | ⟨hlow, -⟩
    · exact le_trans (by decide) hlow
    · exact le_trans (by decide) hlow
    · exact le_trans (by decide) hlow

/-- What a hub says of a checked binary needs no escaping. -/
theorem metadata_plain (hx : x.Checked tools pkgVersion) : ∀ m ∈ x.metadata, PlainMember m := by
  have hplain : ∀ t ∈ targets, Plain t.toList ∧ Plain (architectureOf t).toList ∧
      Plain (downloadPathOf pkgVersion t).toList := by decide
  obtain ⟨htarget, harchitecture, hdownload⟩ := hplain x.target hx.target
  have htext : ∀ {key s : List Char}, Plain key → Plain s → PlainMember (key, .text s) := by
    intro key s hkey hs
    refine ⟨hkey, ?_⟩
    intro s' heq
    cases heq
    exact hs
  have hnumber : ∀ {key : List Char} {n : Nat}, Plain key → PlainMember (key, .number n) :=
    fun hkey => ⟨hkey, nofun⟩
  unfold Artifact.metadata
  rw [hx.architecture, hx.downloadPath, hx.version]
  simp only [List.forall_mem_cons, List.not_mem_nil, false_implies, implies_true, and_true]
  exact ⟨htext (by decide) harchitecture, htext (by decide) hdownload,
    htext (by decide) (by decide), hnumber (by decide), htext (by decide) (by decide),
    htext (by decide) (by decide), htext (by decide) (plain_of_hex hx.hexadecimal.2),
    hnumber (by decide), htext (by decide) htarget, htext (by decide) (by decide)⟩

/-- No field of a description is there twice. -/
theorem metadata_nodup (x : Artifact) : (x.metadata.map Prod.fst).Nodup := by
  change (["architecture".toList, "download".toList, "filename".toList, "format".toList,
    "kind".toList, "project".toList, "sha256".toList, "size".toList, "target".toList,
    "version".toList] : List (List Char)).Nodup
  decide

/-- The script reads the texts of the description as they are. -/
theorem textField_metadata (hx : x.Checked tools pkgVersion) {key : String} {s : List Char}
    (hkey : Named key.toList) (hmem : (key.toList, .text s) ∈ x.metadata) :
    (textField key.toList (object x.metadata)).getD [] = s := by
  rw [textField_object (metadata_plain hx) (metadata_nodup x) hkey hmem, Option.getD_some]

/-- What the script makes of the description of a checked binary. -/
theorem scan_metadata (hx : x.Checked tools pkgVersion) :
    scan (object x.metadata) =
      ⟨pkgVersion.toList, (architectureOf x.target).toList, x.target.toList, x.sha256.toList,
        Nat.toDigits 10 x.size, (downloadPathOf pkgVersion x.target).toList⟩ := by
  have hsize := numberField_object (metadata_plain hx) (metadata_nodup x)
    (show Named "size".toList by decide)
    (show ("size".toList, .number x.size) ∈ x.metadata by simp [Artifact.metadata])
  unfold scan
  rw [hsize, textField_metadata hx (show Named "version".toList by decide)
      (show ("version".toList, .text x.version.toList) ∈ x.metadata by simp [Artifact.metadata]),
    textField_metadata hx (show Named "architecture".toList by decide)
      (show ("architecture".toList, .text x.architecture.toList) ∈ x.metadata by
        simp [Artifact.metadata]),
    textField_metadata hx (show Named "target".toList by decide)
      (show ("target".toList, .text x.target.toList) ∈ x.metadata by simp [Artifact.metadata]),
    textField_metadata hx (show Named "sha256".toList by decide)
      (show ("sha256".toList, .text x.sha256.toList) ∈ x.metadata by simp [Artifact.metadata]),
    textField_metadata hx (show Named "download".toList by decide)
      (show ("download".toList, .text x.downloadPath.toList) ∈ x.metadata by
        simp [Artifact.metadata]),
    hx.version, hx.architecture, hx.downloadPath, hx.version, Option.getD_some]

/-! ## When it accepts -/

/-- Installing in two parts succeeds when both do. -/
theorem bind_ok_iff {α β : Type} {m : Installing α} {f : α → Installing β} {b : β} :
    m >>= f = .ok b ↔ ∃ a, m = .ok a ∧ f a = .ok b := by
  constructor
  · intro h
    cases m with
    | error e => cases h
    | ok a => exact ⟨a, rfl, h⟩
  · rintro ⟨a, rfl, h⟩
    exact h

/-- A check that passes was met. -/
theorem dieUnless_ok {condition : Prop} [Decidable condition] {text : List Char} {u : Unit} :
    dieUnless condition text = .ok u ↔ condition := by
  unfold dieUnless
  split
  · rename_i h
    exact ⟨fun _ => h, fun _ => rfl⟩
  · rename_i h
    exact ⟨nofun, fun hc => absurd hc h⟩

/-- What must be there was there. -/
theorem orDie_ok {α : Type} {value : Option α} {text : List Char} {a : α} :
    orDie value text = .ok a ↔ value = some a := by
  cases value with
  | none => exact ⟨nofun, nofun⟩
  | some b => simp [orDie]

/-- A hexadecimal digit is one byte. -/
theorem hex_range {c : Char} (h : isHexDigit c = true) : c.toNat < 128 := by
  unfold isHexDigit at h
  simp only [Bool.or_eq_true, Bool.and_eq_true, decide_eq_true_eq] at h
  rcases h with (⟨-, hhigh⟩ | ⟨-, hhigh⟩) | ⟨-, hhigh⟩
  · exact lt_of_le_of_lt (show c.toNat ≤ '9'.toNat from hhigh) (by decide)
  · exact lt_of_le_of_lt (show c.toNat ≤ 'f'.toNat from hhigh) (by decide)
  · exact lt_of_le_of_lt (show c.toNat ≤ 'F'.toNat from hhigh) (by decide)

/-- A digit of a digest is in lower case when the hub's lower case leaves it. -/
theorem toLower_iff {c : Char} (h : isHexDigit c = true) : c.toLower = c ↔ isLowerHex c = true := by
  have hall : ∀ n < 128, isHexDigit (Char.ofNat n) = true →
      ((Char.ofNat n).toLower = Char.ofNat n ↔ isLowerHex (Char.ofNat n) = true) := by decide
  have hc := hall c.toNat (hex_range h)
  rw [Char.ofNat_toNat] at hc
  exact hc h

/-- Hexadecimal digits are in small letters just when each is. -/
theorem lower_iff {s : String} (h : s.toList.all isHexDigit = true) :
    lower s = s ↔ s.toList.all isLowerHex = true := by
  have hlist : lower s = s ↔ s.toList.map Char.toLower = s.toList := by
    unfold lower
    rw [← String.toList_inj, String.toList_ofList]
  rw [hlist, List.all_eq_true]
  have hself : s.toList.map Char.toLower = s.toList ↔ ∀ c ∈ s.toList, c.toLower = c := by
    rw [← List.map_inj_left, List.map_id']
  rw [hself]
  exact forall₂_congr fun c hc => toLower_iff (List.all_eq_true.mp h c hc)

/-- Sixty-four bytes of hexadecimal digits are as many characters. -/
theorem length_of_hex {s : String} (hsize : s.utf8ByteSize = 64)
    (h : s.toList.all isHexDigit = true) : s.toList.length = 64 := by
  have hbytes : ∀ {l : List Char}, l.all isHexDigit = true → String.utf8Len l = l.length := by
    intro l
    induction l with
    | nil => exact fun _ => rfl
    | cons c rest ih =>
      intro hl
      rw [List.all_cons, Bool.and_eq_true] at hl
      have hone : c.utf8Size = 1 := Char.utf8Size_eq_one_iff.mpr (Nat.le_of_lt_succ (hex_range hl.1))
      rw [String.utf8Len_cons, ih hl.2, hone, List.length_cons]
  rw [← hbytes h, String.utf8Len_toList, hsize]

/-- For a target of this list the script and the hub mean the same. -/
theorem target_facts : ∀ t ∈ targets,
    (downloadPathOf pkgVersion t).toList = binaryPath pkgVersion.toList t.toList ∧
    (stripFront "/agent/v".toList (binaryPath pkgVersion.toList t.toList)).bind (splitOnce '/') =
      some (pkgVersion.toList, t.toList) ∧ '/' ∉ t.toList := by decide

/-- The target that is asked for has the machine's architecture. -/
theorem machine_facts : ∀ arch ∈ machines, ∀ alpine : Bool,
    (architectureOf (String.ofList (requestTarget arch alpine))).toList = arch := by decide

/-! ## The way to a machine -/

/-- The hub describes the agent it selects. -/
theorem metadata_of_select {d : Distribution} {register : List Char → Option (List Char)}
    {target : List Char} : (origin (some d) register).metadata target =
      (d.select (String.ofList target)).map fun x => object x.metadata := by
  unfold origin agentDistribution
  dsimp only [Option.getD_some]
  cases d.select (String.ofList target) <;> rfl

/-- What a binary's own path brings. -/
theorem download_of_select {d : Distribution} {register : List Char → Option (List Char)}
    (hx : x.Checked tools pkgVersion) (hselect : d.select x.target = some x) :
    (origin (some d) register).download (downloadPathOf pkgVersion x.target).toList = some x.binary := by
  obtain ⟨hpath, hsplit, hslash⟩ := target_facts x.target hx.target
  unfold origin
  dsimp only
  rw [hpath, hsplit, Option.bind_eq_bind, Option.bind_some]
  dsimp only
  rw [if_neg hslash, String.ofList_toList, String.ofList_toList]
  unfold agentBinary
  dsimp only
  rw [hselect]
  dsimp only
  rw [if_neg (not_not.mpr hx.version.symm)]

/-- The description of a checked binary passes the script's checks when its digest
is in lower case. -/
theorem checkDescription_ok (hx : x.Checked tools pkgVersion) {arch target : List Char} {u : Unit}
    (harch : (architectureOf x.target).toList = arch) (htarget : x.target.toList = target) :
    checkDescription arch target (scan (object x.metadata)) = .ok u ↔ lower x.sha256 = x.sha256 := by
  have hlength := length_of_hex hx.hexadecimal.1 hx.hexadecimal.2
  have hnonempty : x.sha256.toList ≠ [] := by
    intro hnil
    rw [hnil] at hlength
    cases hlength
  have hsize : (Nat.toDigits 10 x.size).all Char.isDigit = true :=
    List.all_eq_true.mpr fun c hc => digits_isDigit hc
  have hpath := (target_facts x.target hx.target).1
  have hversion : isVersion pkgVersion.toList = true := by decide
  rw [scan_metadata hx, lower_iff hx.hexadecimal.2]
  unfold checkDescription
  dsimp only
  simp only [bind_ok_iff, dieUnless_ok, exists_const]
  constructor
  · rintro ⟨-, -, -, ⟨-, hlower⟩, -⟩
    exact hlower
  · intro hlower
    exact ⟨hversion, harch, htarget, ⟨hnonempty, hlower⟩, hlength, ⟨Nat.toDigits_ne_nil, hsize⟩,
      htarget ▸ hpath⟩

/-- The bytes of a checked binary pass the script's checks when its digest is in
lower case. -/
theorem checkBinary_ok (hx : x.Checked tools pkgVersion) {u : Unit} :
    checkBinary tools.sha256 (scan (object x.metadata)) x.binary = .ok u ↔
      lower x.sha256 = x.sha256 := by
  rw [scan_metadata hx]
  unfold checkBinary
  dsimp only
  simp only [bind_ok_iff, dieUnless_ok, exists_const]
  rw [hx.size.1, ← hx.digest, String.toList_inj]
  exact and_iff_right rfl

/-- The release directory as the script leaves it for a binary of this digest: the
one that was there with a runnable binary of the same digest, or a new one. -/
def Placed (sha256sum : List UInt8 → String) (m : Machine) (x : Artifact) (release : Release) :
    Prop :=
  (m.releases x.version.toList = some release ∧
      ∃ installed, release.agent = some installed ∧ sha256sum installed = x.sha256) ∨
    (m.releases x.version.toList = none ∧ m.staged x.version.toList = false ∧ m.writable = true ∧
      m.movable = true ∧ release =
        newRelease x.version.toList (requestTarget m.arch m.alpine) x.sha256.toList x.binary)

/-- What the machine has to bring for a binary to be installed on it. -/
structure Accepts (sha256sum : List UInt8 → String) (hub : Origin) (m : Machine) (x : Artifact)
    (result : Installed) : Prop where
  /-- The agent is the one for this machine. -/
  target : x.target.toList = requestTarget m.arch m.alpine
  /-- The script knows digests in lower case only. -/
  lowered : lower x.sha256 = x.sha256
  /-- The binary runs there and names its version. -/
  runs : (m.runs x.binary).map substituted = some (reportOf x.version.toList)
  /-- The version is that of the agent. -/
  version : result.version = x.version.toList
  /-- The token is the one that was brought or given. -/
  token : fetchToken hub m.token = .ok result.token
  /-- It is not empty and has no odd characters. -/
  plain : result.token ≠ [] ∧ result.token.all isTokenChar = true
  /-- The account and the directories are there. -/
  prepared : m.prepared = true
  /-- The release is in place. -/
  placed : Placed sha256sum m x result.release

/-- The binary was run and names the version. -/
theorem checkVersion_ok {m : Machine} {version : List Char} {bytes : List UInt8} {u : Unit} :
    checkVersion m version bytes = .ok u ↔
      (m.runs bytes).map substituted = some (reportOf version) := by
  unfold checkVersion
  simp only [bind_ok_iff, orDie_ok, dieUnless_ok, Option.map_eq_some_iff]

/-- The token has no odd characters. -/
theorem checkToken_ok {token : List Char} {u : Unit} :
    checkToken token = .ok u ↔ token ≠ [] ∧ token.all isTokenChar = true := by
  unfold checkToken
  simp only [bind_ok_iff, dieUnless_ok, exists_const]

/-- The release directory of a checked binary is what it should be. -/
theorem placeRelease_ok (hx : x.Checked tools pkgVersion) (hlower : lower x.sha256 = x.sha256)
    {m : Machine} {release : Release} :
    placeRelease tools.sha256 m (scan (object x.metadata)) (requestTarget m.arch m.alpine)
      x.binary = .ok release ↔ Placed tools.sha256 m x release := by
  have hdigest : tools.sha256 x.binary = x.sha256 := hx.digest.symm.trans hlower
  rw [scan_metadata hx]
  unfold placeRelease Placed
  rw [hx.version, hdigest]
  dsimp only
  cases hthere : m.releases pkgVersion.toList with
  | some there =>
    simp only [bind_ok_iff, orDie_ok, dieUnless_ok, exists_const, String.toList_inj,
      Option.some.injEq, reduceCtorEq, false_and, or_false]
    constructor
    · rintro ⟨installed, hagent, hsame, hresult⟩
      cases hresult
      exact ⟨rfl, installed, hagent, hsame⟩
    · rintro ⟨rfl, installed, hagent, hsame⟩
      exact ⟨installed, hagent, hsame, rfl⟩
  | none =>
    simp only [bind_ok_iff, dieUnless_ok, exists_const, reduceCtorEq, false_and, false_or, true_and]
    constructor
    · rintro ⟨hstaged, hwritable, hmovable, hresult⟩
      cases hresult
      exact ⟨hstaged, hwritable, hmovable, rfl⟩
    · rintro ⟨hstaged, hwritable, hmovable, rfl⟩
      exact ⟨hstaged, hwritable, hmovable, rfl⟩

/-- What the script installs from a hub that serves a binary for the machine. -/
theorem install_of_select (hx : x.Checked tools pkgVersion) {d : Distribution}
    {register : List Char → Option (List Char)} {m : Machine} (harch : m.arch ∈ machines)
    (htarget : x.target.toList = requestTarget m.arch m.alpine) (hselect : d.select x.target = some x)
    {result : Installed} : install tools.sha256 (origin (some d) register) m = .ok result ↔
      Accepts tools.sha256 (origin (some d) register) m x result := by
  have harchitecture : (architectureOf x.target).toList = m.arch := by
    have h := machine_facts m.arch harch m.alpine
    rwa [← htarget, String.ofList_toList] at h
  have hdownload : (origin (some d) register).download (scan (object x.metadata)).download =
      some x.binary := by
    rw [scan_metadata hx]
    exact download_of_select hx hselect
  have hversion : (scan (object x.metadata)).version = x.version.toList := by
    rw [scan_metadata hx, hx.version]
  have hline : (origin (some d) register).metadata (requestTarget m.arch m.alpine) =
      some (object x.metadata) := by
    rw [metadata_of_select, ← htarget, String.ofList_toList, hselect, Option.map_some]
  unfold install
  dsimp only
  simp only [bind_ok_iff, dieUnless_ok, orDie_ok, exists_const, hline, Option.some.injEq,
    exists_eq_left', hdownload, checkDescription_ok hx harchitecture htarget, checkBinary_ok hx,
    hversion, checkVersion_ok, checkToken_ok]
  constructor
  · rintro ⟨-, hlower, -, hruns, token, htoken, hplain, hprepared, release, hplaced, hresult⟩
    cases hresult
    exact ⟨htarget, hlower, hruns, rfl, htoken, hplain, hprepared,
      (placeRelease_ok hx hlower).mp hplaced⟩
  · rintro ⟨-, hlower, hruns, hversion, htoken, hplain, hprepared, hplaced⟩
    refine ⟨List.mem_pair.mp harch, hlower, hlower, hruns, _, htoken, hplain, hprepared, _,
      (placeRelease_ok hx hlower).mpr hplaced, ?_⟩
    rw [← hversion]
    rfl

/-- A binary leaves the hub only under its own version, as it was checked when the
hub started, and the script gets a machine to a release exactly when the hub
serves a binary for it that runs there and names its version, a token comes, and
the directory of the version can be made or holds a binary of that digest. The
hub takes a digest in either case, the script only one in lower case. -/
theorem served_agents_verified {tools : Tools} {named : String} {a : Answers}
    {variant : String → Option Answers} {d : Distribution}
    (h : load tools named pkgVersion a variant = .ok d) :
    (∀ version target v sha256 bytes,
      agentBinary (some d) version target = .binary v sha256 bytes →
        ∃ x ∈ d.all, x.Checked tools pkgVersion ∧ x.target = target ∧ version = pkgVersion ∧
          v = pkgVersion ∧ sha256 = x.sha256 ∧ bytes = x.binary) ∧
    ∀ (register : List Char → Option (List Char)) (m : Machine) (result : Installed),
      m.arch ∈ machines → (install tools.sha256 (origin (some d) register) m = .ok result ↔
        ∃ x ∈ d.all, Accepts tools.sha256 (origin (some d) register) m x result) := by
  obtain ⟨hchecked, hnodup⟩ := load_checked h
  constructor
  · intro version target v sha256 bytes hanswer
    unfold agentBinary at hanswer
    dsimp only at hanswer
    split at hanswer
    · cases hanswer
    · rename_i x hselect
      obtain ⟨hx, htarget⟩ := (select_eq_some hnodup).mp hselect
      have hversion := (hchecked x hx).version
      split at hanswer
      · cases hanswer
      · rename_i hsame
        cases hanswer
        exact ⟨x, hx, hchecked x hx, htarget, (not_not.mp hsame).trans hversion, hversion, rfl, rfl⟩
  · intro register m result harch
    constructor
    · intro hinstall
      have hrun := hinstall
      unfold install at hrun
      dsimp only at hrun
      simp only [bind_ok_iff, orDie_ok] at hrun
      obtain ⟨-, -, line, hline, -⟩ := hrun
      rw [metadata_of_select] at hline
      obtain ⟨x, hselect, -⟩ := Option.map_eq_some_iff.mp hline
      obtain ⟨hx, htarget⟩ := (select_eq_some hnodup).mp hselect
      have htarget : x.target.toList = requestTarget m.arch m.alpine := by
        rw [htarget, String.toList_ofList]
      have hself := (select_eq_some hnodup).mpr ⟨hx, rfl⟩
      exact ⟨x, hx, (install_of_select (hchecked x hx) harch htarget hself).mp hinstall⟩
    · rintro ⟨x, hx, haccepts⟩
      have hself := (select_eq_some hnodup).mpr ⟨hx, rfl⟩
      exact (install_of_select (hchecked x hx) harch haccepts.target hself).mpr haccepts

/-! ## One distribution -/

/-- A program for 64-bit Intel machines that prints its name and version and ends:
a header, one segment, two system calls and the text. -/
def smallBinary : List UInt8 :=
  [0x7f, 0x45, 0x4c, 0x46, 2, 1, 1, 0, 0, 0, 0, 0, 0, 0, 0, 0, 2, 0, 0x3e, 0, 1, 0, 0, 0,
    0x78, 0, 0x40, 0, 0, 0, 0, 0, 0x40, 0, 0, 0, 0, 0, 0, 0, 0, 0, 0, 0, 0, 0, 0, 0, 0, 0, 0, 0,
    0x40, 0, 0x38, 0, 1, 0, 0, 0, 0, 0, 0, 0] ++
  [1, 0, 0, 0, 5, 0, 0, 0, 0, 0, 0, 0, 0, 0, 0, 0, 0, 0, 0x40, 0, 0, 0, 0, 0,
    0, 0, 0x40, 0, 0, 0, 0, 0, 0xa7, 0, 0, 0, 0, 0, 0, 0, 0xa7, 0, 0, 0, 0, 0, 0, 0,
    0, 0x10, 0, 0, 0, 0, 0, 0] ++
  [0xb8, 1, 0, 0, 0, 0x89, 0xc7, 0x48, 0x8d, 0x35, 0x10, 0, 0, 0, 0xba, 0x11, 0, 0, 0, 0x0f, 5,
    0xb8, 0x3c, 0, 0, 0, 0x31, 0xff, 0x0f, 5] ++
  [0x72, 0x6f, 0x6d, 0x69, 0x2d, 0x61, 0x67, 0x65, 0x6e, 0x74, 0x20, 0x30, 0x2e, 0x32, 0x2e, 0x30,
    0x0a]

/-- Its digest. -/
def smallDigest : String := "b361c036488b535ba15d2c868d6805006f94014285d45ecba207e2564ab971a8"

/-- The file that describes it. -/
def smallText : String :=
  "\x7b\"format\":1,\"project\":\"romi\",\"kind\":\"agent-distribution\",\"version\":\"0.2.0\"," ++
  "\"target\":\"x86_64-unknown-linux-gnu\",\"architecture\":\"x86_64\"," ++
  "\"filename\":\"romi-agent\",\"sha256\":\"" ++ smallDigest ++ "\",\"size\":167\x7d"

/-- What the file says. -/
def smallDescription : JsonValue.Json :=
  .obj [("format", .int 1), ("project", .str "romi"), ("kind", .str "agent-distribution"),
    ("version", .str "0.2.0"), ("target", .str "x86_64-unknown-linux-gnu"),
    ("architecture", .str "x86_64"), ("filename", .str "romi-agent"), ("sha256", .str smallDigest),
    ("size", .int 167)]

/-- A parser and a digest for one description. -/
def smallTools : Tools where
  parse text := if text = smallText then some smallDescription else none
  sha256 bytes := if bytes = smallBinary then smallDigest else ""

/-- A directory with a small agent. -/
def smallAnswers : Answers where
  directory := some ["srv", "agent"]
  metadataKind := some .file
  metadataLength := some 246
  metadataText := some smallText
  binaryKind := some .file
  binaryPath := some ["srv", "agent", "romi-agent"]
  binaryLength := some 167
  binaryBytes := some smallBinary

/-- The small agent. -/
def smallArtifact : Artifact :=
  ⟨"0.2.0", "x86_64-unknown-linux-gnu", "x86_64", smallDigest, 167,
    "/agent/v0.2.0/x86_64-unknown-linux-gnu", smallBinary⟩

set_option maxRecDepth 4000 in
/-- The hub loads it. -/
theorem load_small :
    load smallTools "/srv/agent" pkgVersion smallAnswers (fun _ => none) =
      .ok ⟨smallArtifact, []⟩ := by
  rfl

/-- A machine with nothing of the agent on it, and a token on the script's input. -/
def freshMachine (arch : String) (alpine : Bool) : Machine where
  arch := arch.toList
  alpine := alpine
  runs bytes := if bytes = smallBinary then some "romi-agent 0.2.0\n".toList else none
  token := .tokenStdin "4f1a\n".toList
  directory := "/opt/romi/agent/releases".toList
  process := "812".toList
  prepared := true
  releases _ := none
  staged _ := false
  writable := true
  movable := true

/-- The machine the binary is for installs it, one of another kind nothing. -/
theorem served_agents_verified_small :
    install smallTools.sha256 (origin (some ⟨smallArtifact, []⟩) fun _ => none)
        (freshMachine "x86_64" false) =
      .ok ⟨"0.2.0".toList, newRelease "0.2.0".toList "x86_64-unknown-linux-gnu".toList
        smallDigest.toList smallBinary, "4f1a".toList⟩ ∧
    ∀ result, install smallTools.sha256 (origin (some ⟨smallArtifact, []⟩) fun _ => none)
      (freshMachine "aarch64" true) ≠ .ok result := by
  have hinstall := (served_agents_verified load_small).2 fun _ => none
  have hruns : (freshMachine "x86_64" false).runs smallBinary = some "romi-agent 0.2.0\n".toList := by
    simp only [freshMachine, if_true]
  have htarget : "x86_64-unknown-linux-gnu".toList = requestTarget "x86_64".toList false := by decide
  constructor
  · refine (hinstall (freshMachine "x86_64" false) _ (by decide)).mpr
      ⟨smallArtifact, List.mem_singleton_self _, ?_⟩
    exact {
      target := htarget
      lowered := by decide
      runs := (congrArg (Option.map substituted) hruns).trans (by decide)
      version := rfl
      token := by decide
      plain := by decide
      prepared := rfl
      placed := .inr ⟨rfl, rfl, rfl, rfl, congrArg (fun target =>
        newRelease "0.2.0".toList target smallDigest.toList smallBinary) htarget⟩ }
  · intro result hresult
    obtain ⟨x, hx, haccepts⟩ := (hinstall (freshMachine "aarch64" true) result (by decide)).mp hresult
    have htarget := haccepts.target
    rw [List.mem_singleton.mp hx] at htarget
    exact absurd htarget (by decide)

end Romi.AgentInstaller
