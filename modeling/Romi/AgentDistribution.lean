import Mathlib.Data.List.Nodup
import Mathlib.Data.String.Basic
import Romi.FieldScan
import Romi.JsonValue

/-!
# The agent a hub serves

A directory holds an agent's binary and a file that describes it. A hub checks
one against the other when it starts and from then on serves what it read. The
directory may change between any two of its calls, so every call has an answer
of its own.
-/

namespace Romi.AgentDistribution

open FieldScan (Value)
open JsonValue

/-- `TARGETS`. -/
def targets : List String :=
  ["x86_64-unknown-linux-gnu", "aarch64-unknown-linux-gnu", "x86_64-unknown-linux-musl",
    "aarch64-unknown-linux-musl"]

/-- `MAX_AGENT_BYTES`. -/
def maxAgentBytes : Nat := 16 * 1024 * 1024

/-- The largest description that is read. -/
def maxMetadataBytes : Nat := 64 * 1024

/-- `CARGO_PKG_VERSION` of the hub. -/
def pkgVersion : String := "0.2.0"

/-! ## The directory -/

/-- What `symlink_metadata` tells. -/
inductive FileKind
  /-- A regular file. -/
  | file
  /-- A symbolic link. -/
  | symlink
  /-- Anything else. -/
  | other

/-- A canonical path, from the root. -/
abbrev Path : Type := List String

/-- `display` of a canonical path. -/
def display (path : Path) : String := "/" ++ "/".intercalate path

/-- The answers of the calls that load one directory, in their order; a call
that fails has none. -/
structure Answers where
  /-- The canonical path of the directory. -/
  directory : Option Path
  /-- What the description is in the file system. -/
  metadataKind : Option FileKind
  /-- How long it is. -/
  metadataLength : Option Nat
  /-- Its text. -/
  metadataText : Option String
  /-- What the binary is in the file system. -/
  binaryKind : Option FileKind
  /-- Its canonical path. -/
  binaryPath : Option Path
  /-- How long it is. -/
  binaryLength : Option Nat
  /-- Its bytes. -/
  binaryBytes : Option (List UInt8)

/-- Why a hub does not start. -/
inductive LoadError
  /-- A text of the program. -/
  | said (text : String)
  /-- An error of the file system, as it is. -/
  | io
  deriving DecidableEq

/-- What loading returns. -/
abbrev Loading : Type → Type := Except LoadError

/-- `bail!`. -/
def bail {α : Type} (text : String) : Loading α := .error (.said text)

/-- `bail!` if the condition holds. -/
def bailIf (condition : Prop) [Decidable condition] (text : String) : Loading Unit :=
  if condition then bail text else .ok ()

/-- `with_context`. -/
def orSay {α : Type} (value : Option α) (text : String) : Loading α :=
  match value with
  | some a => .ok a
  | none => bail text

/-- `?` on an error of the file system. -/
def orIo {α : Type} (value : Option α) : Loading α :=
  match value with
  | some a => .ok a
  | none => .error .io

/-- `reject_symlink`. -/
def rejectSymlink (path : Path) (kind : Option FileKind) : Loading Unit :=
  match kind with
  | none => bail s!"cannot stat {display path}"
  | some .symlink => bail s!"{display path} must not be a symlink"
  | some .other => bail s!"{display path} must be a regular file"
  | some .file => .ok ()

/-! ## One distribution -/

/-- `Distribution`, without the others it carries. -/
structure Artifact where
  /-- The version of the agent. -/
  version : String
  /-- The target it is built for. -/
  target : String
  /-- The architecture of that target. -/
  architecture : String
  /-- The digest of the binary. -/
  sha256 : String
  /-- How long the binary is. -/
  size : Nat
  /-- Where it is fetched from. -/
  downloadPath : String
  /-- The binary. -/
  binary : List UInt8

/-- `as_u64`. -/
def asU64 (v : Json) : Option Nat :=
  match v with
  | .int i => if 0 ≤ i ∧ i ≤ 18446744073709551615 then some i.toNat else none
  | _ => none

/-- `is_ascii_hexdigit`. -/
def isHexDigit (c : Char) : Bool :=
  ('0' ≤ c && c ≤ '9') || ('a' ≤ c && c ≤ 'f') || ('A' ≤ c && c ≤ 'F')

/-- `to_ascii_lowercase`. -/
def lower (text : String) : String := String.ofList (text.toList.map Char.toLower)

/-- The part of a target before its first dash. -/
def architectureOf (target : String) : String :=
  String.ofList (target.toList.takeWhile fun c => c ≠ '-')

/-- `is_elf`. -/
def isElf (data : List UInt8) (architecture : String) : Bool :=
  data.take 4 = [0x7f, 0x45, 0x4c, 0x46] && data[4]? = some 2 && data[5]? = some 1 &&
    data[18]? = some (if architecture = "aarch64" then 0xb7 else 0x3e) && data[19]? = some 0

/-- The path a binary is offered under. -/
def downloadPathOf (version target : String) : String := s!"/agent/v{version}/{target}"

/-- What a hub uses of other libraries: the reading of JSON and the digest in
hexadecimal. -/
structure Tools where
  /-- A text as JSON. -/
  parse : String → Option Json
  /-- The digest of bytes, in small letters. -/
  sha256 : List UInt8 → String

/-- `field`. -/
def field (path : Path) (metadata : Json) (name : String) : Loading String :=
  orSay ((metadata.get name).bind Json.asStr)
    s!"{display path} is missing string field \"{name}\""

/-- `load_one`, of a directory that is named so. -/
def loadOne (tools : Tools) (named expectedVersion : String) (a : Answers) : Loading Artifact := do
  let directory ← orSay a.directory s!"distribution directory {named} is not readable"
  let metadataPath := directory ++ ["distribution.json"]
  rejectSymlink metadataPath a.metadataKind
  bailIf (maxMetadataBytes < (← orIo a.metadataLength)) "distribution metadata is too large"
  let text ← orSay a.metadataText s!"cannot read {display metadataPath}"
  let metadata ← orSay (tools.parse text) s!"{display metadataPath} is not valid JSON"
  bailIf ((metadata.get "format").bind asU64 ≠ some 1)
    s!"{display metadataPath}: unsupported distribution format"
  let project ← field metadataPath metadata "project"
  bailIf (project ≠ "romi") s!"{display metadataPath}: not a romi agent distribution"
  let kind ← field metadataPath metadata "kind"
  bailIf (kind ≠ "agent-distribution") s!"{display metadataPath}: not a romi agent distribution"
  let version ← field metadataPath metadata "version"
  bailIf (version ≠ expectedVersion)
    s!"{display metadataPath}: distribution version {version} does not match running romi {expectedVersion}"
  let target ← field metadataPath metadata "target"
  bailIf (target ∉ targets) s!"{display metadataPath}: unsupported target {target}"
  let architecture ← field metadataPath metadata "architecture"
  bailIf (architecture ≠ architectureOf target)
    s!"{display metadataPath}: unsupported architecture {architecture}"
  let filename ← field metadataPath metadata "filename"
  bailIf (filename ≠ "romi-agent")
    s!"{display metadataPath}: expected filename romi-agent, got {repr filename}"
  let sha256 ← field metadataPath metadata "sha256"
  bailIf (sha256.utf8ByteSize ≠ 64 ∨ sha256.toList.all isHexDigit = false)
    s!"{display metadataPath}: sha256 must be 64 hexadecimal characters"
  let size ← orSay ((metadata.get "size").bind asU64)
    s!"{display metadataPath} is missing integer field size"
  bailIf (size = 0 ∨ maxAgentBytes < size)
    s!"{display metadataPath}: size must be between 1 and {maxAgentBytes}"
  let joined := directory ++ [filename]
  rejectSymlink joined a.binaryKind
  let binaryPath ← orSay a.binaryPath s!"cannot resolve {display joined}"
  bailIf (directory.isPrefixOf binaryPath = false)
    s!"{display binaryPath}: binary escapes the distribution directory"
  bailIf ((← orIo a.binaryLength) ≠ size) "Agent size does not match metadata"
  let bytes ← orSay a.binaryBytes s!"cannot read {display binaryPath}"
  bailIf (bytes.length ≠ size)
    s!"{display binaryPath}: binary is {bytes.length} bytes, metadata says {size}"
  bailIf (tools.sha256 bytes ≠ lower sha256)
    s!"{display binaryPath}: binary SHA-256 does not match distribution metadata"
  bailIf (isElf bytes architecture = false)
    s!"{display binaryPath}: binary ELF architecture does not match {architecture}"
  return ⟨version, target, architecture, sha256, size, downloadPathOf version target, bytes⟩

/-! ## The whole distribution -/

/-- `Distribution`. -/
structure Distribution where
  /-- The agent of the hub's own architecture. -/
  main : Artifact
  /-- Those of other architectures. -/
  variants : List Artifact

/-- The loop of `load` over the targets; a directory that is there has answers. -/
def loadVariants (tools : Tools) (named expectedVersion : String)
    (variant : String → Option Answers) (main : Artifact) : List String → Loading (List Artifact)
  | [] => .ok []
  | target :: rest =>
    if target = main.target then loadVariants tools named expectedVersion variant main rest
    else match variant target with
      | none => loadVariants tools named expectedVersion variant main rest
      | some a => do
        let loaded ← loadOne tools (named ++ "/" ++ target) expectedVersion a
        bailIf (loaded.target ≠ target)
          s!"distribution directory {target} contains {loaded.target}"
        return loaded :: (← loadVariants tools named expectedVersion variant main rest)

/-- `load`. -/
def load (tools : Tools) (named expectedVersion : String) (a : Answers)
    (variant : String → Option Answers) : Loading Distribution := do
  let main ← loadOne tools named expectedVersion a
  return ⟨main, ← loadVariants tools named expectedVersion variant main targets⟩

/-- `select`. -/
def Distribution.select (d : Distribution) (target : String) : Option Artifact :=
  if target = d.main.target then some d.main else d.variants.find? fun v => v.target = target

/-- Everything a hub serves. -/
def Distribution.all (d : Distribution) : List Artifact := d.main :: d.variants

/-! ## What was checked -/

/-- The description and the bytes agree. -/
structure Artifact.Checked (tools : Tools) (expectedVersion : String) (a : Artifact) : Prop where
  /-- It is the hub's version. -/
  version : a.version = expectedVersion
  /-- Its target is one that is known. -/
  target : a.target ∈ targets
  /-- Its architecture is that of the target. -/
  architecture : a.architecture = architectureOf a.target
  /-- Its digest is that of the binary. -/
  digest : lower a.sha256 = tools.sha256 a.binary
  /-- And it is written as a digest is. -/
  hexadecimal : a.sha256.utf8ByteSize = 64 ∧ a.sha256.toList.all isHexDigit = true
  /-- Its size is that of the binary, not zero and not too large. -/
  size : a.binary.length = a.size ∧ 0 < a.size ∧ a.size ≤ maxAgentBytes
  /-- The binary is an executable of the architecture. -/
  elf : isElf a.binary a.architecture = true
  /-- It is fetched from where the hub serves it. -/
  downloadPath : a.downloadPath = downloadPathOf a.version a.target

/-- Loading in two parts succeeds when both do. -/
theorem bind_ok {α β : Type} {x : Loading α} {f : α → Loading β} {b : β} (h : x >>= f = .ok b) :
    ∃ a, x = .ok a ∧ f a = .ok b := by
  cases x with
  | error e => cases h
  | ok a => exact ⟨a, rfl, h⟩

/-- A check that passes did not bail. -/
theorem bailIf_ok {condition : Prop} [Decidable condition] {text : String} {u : Unit}
    (h : bailIf condition text = .ok u) : ¬ condition := by
  intro hcondition
  rw [bailIf, if_pos hcondition] at h
  cases h

variable {tools : Tools} {named expectedVersion : String}

/-- What loads was checked, whatever the directory held at each call. -/
theorem loadOne_checked {a : Answers} {loaded : Artifact}
    (h : loadOne tools named expectedVersion a = .ok loaded) :
    loaded.Checked tools expectedVersion := by
  unfold loadOne at h
  obtain ⟨directory, -, h⟩ := bind_ok h
  obtain ⟨-, -, h⟩ := bind_ok h
  obtain ⟨metadataLength, -, h⟩ := bind_ok h
  obtain ⟨-, -, h⟩ := bind_ok h
  obtain ⟨text, -, h⟩ := bind_ok h
  obtain ⟨metadata, -, h⟩ := bind_ok h
  obtain ⟨-, -, h⟩ := bind_ok h
  obtain ⟨project, -, h⟩ := bind_ok h
  obtain ⟨-, -, h⟩ := bind_ok h
  obtain ⟨kind, -, h⟩ := bind_ok h
  obtain ⟨-, -, h⟩ := bind_ok h
  obtain ⟨version, -, h⟩ := bind_ok h
  obtain ⟨_, hversion, h⟩ := bind_ok h
  obtain ⟨target, -, h⟩ := bind_ok h
  obtain ⟨_, htarget, h⟩ := bind_ok h
  obtain ⟨architecture, -, h⟩ := bind_ok h
  obtain ⟨_, harchitecture, h⟩ := bind_ok h
  obtain ⟨filename, -, h⟩ := bind_ok h
  obtain ⟨-, -, h⟩ := bind_ok h
  obtain ⟨sha256, -, h⟩ := bind_ok h
  obtain ⟨_, hsha256, h⟩ := bind_ok h
  obtain ⟨size, -, h⟩ := bind_ok h
  obtain ⟨_, hsize, h⟩ := bind_ok h
  obtain ⟨-, -, h⟩ := bind_ok h
  obtain ⟨binaryPath, -, h⟩ := bind_ok h
  obtain ⟨-, -, h⟩ := bind_ok h
  obtain ⟨binaryLength, -, h⟩ := bind_ok h
  obtain ⟨-, -, h⟩ := bind_ok h
  obtain ⟨bytes, -, h⟩ := bind_ok h
  obtain ⟨_, hlength, h⟩ := bind_ok h
  obtain ⟨_, hdigest, h⟩ := bind_ok h
  obtain ⟨_, helf, h⟩ := bind_ok h
  cases h
  have hsha256 := not_or.mp (bailIf_ok hsha256)
  have hsize := not_or.mp (bailIf_ok hsize)
  exact {
    version := not_not.mp (bailIf_ok hversion)
    target := not_not.mp (bailIf_ok htarget)
    architecture := not_not.mp (bailIf_ok harchitecture)
    digest := (not_not.mp (bailIf_ok hdigest)).symm
    hexadecimal := ⟨not_not.mp hsha256.1, Bool.eq_true_of_not_eq_false hsha256.2⟩
    size := ⟨not_not.mp (bailIf_ok hlength), Nat.pos_of_ne_zero hsize.1, not_lt.mp hsize.2⟩
    elf := Bool.eq_true_of_not_eq_false (bailIf_ok helf)
    downloadPath := rfl }

/-- The variants were checked too, and each is for a target of its own. -/
theorem loadVariants_checked {variant : String → Option Answers} {main : Artifact}
    {rest : List String} {loaded : List Artifact}
    (h : loadVariants tools named expectedVersion variant main rest = .ok loaded) :
    (∀ a ∈ loaded, a.Checked tools expectedVersion) ∧
      (loaded.map Artifact.target).Sublist (rest.filter fun t => t ≠ main.target) := by
  induction rest generalizing loaded with
  | nil =>
    cases h
    exact ⟨fun a ha => absurd ha List.not_mem_nil, .slnil⟩
  | cons target rest ih =>
    unfold loadVariants at h
    split at h
    · rename_i hsame
      obtain ⟨hall, hsub⟩ := ih h
      refine ⟨hall, ?_⟩
      rwa [List.filter_cons_of_neg (by simpa using hsame)]
    · rename_i hother
      rw [List.filter_cons_of_pos (by simpa using hother)]
      split at h
      · obtain ⟨hall, hsub⟩ := ih h
        exact ⟨hall, hsub.cons target⟩
      · obtain ⟨one, hone, h⟩ := bind_ok h
        obtain ⟨_, htarget, h⟩ := bind_ok h
        obtain ⟨others, hothers, h⟩ := bind_ok h
        cases h
        obtain ⟨hall, hsub⟩ := ih hothers
        constructor
        · intro a ha
          rcases List.mem_cons.mp ha with rfl | ha
          · exact loadOne_checked hone
          · exact hall a ha
        · rw [List.map_cons, not_not.mp (bailIf_ok htarget)]
          exact hsub.cons_cons target

/-- What a hub serves was checked, and no target is served twice. -/
theorem load_checked {a : Answers} {variant : String → Option Answers} {d : Distribution}
    (h : load tools named expectedVersion a variant = .ok d) :
    (∀ x ∈ d.all, x.Checked tools expectedVersion) ∧ (d.all.map Artifact.target).Nodup := by
  unfold load at h
  obtain ⟨main, hmain, h⟩ := bind_ok h
  obtain ⟨variants, hvariants, h⟩ := bind_ok h
  cases h
  obtain ⟨hall, hsub⟩ := loadVariants_checked hvariants
  constructor
  · intro x hx
    rcases List.mem_cons.mp hx with rfl | hx
    · exact loadOne_checked hmain
    · exact hall x hx
  · have hnodup : (targets.filter fun t => t ≠ main.target).Nodup :=
      (show targets.Nodup by decide).filter _
    refine List.nodup_cons.mpr ⟨?_, hnodup.sublist hsub⟩
    intro hmem
    have hother := (List.mem_filter.mp (hsub.subset hmem)).2
    simp at hother

/-- A target selects what is served for it. -/
theorem select_eq_some {d : Distribution} (hnodup : (d.all.map Artifact.target).Nodup)
    {target : String} {x : Artifact} :
    d.select target = some x ↔ x ∈ d.all ∧ x.target = target := by
  have hmain := (List.nodup_cons.mp hnodup).1
  have hvariants := (List.nodup_cons.mp hnodup).2
  unfold Distribution.select Distribution.all
  constructor
  · intro h
    split at h
    · rename_i hsame
      cases h
      exact ⟨List.mem_cons_self, hsame.symm⟩
    · have htarget := List.find?_some h
      exact ⟨List.mem_cons_of_mem _ (List.mem_of_find?_eq_some h), by simpa using htarget⟩
  · rintro ⟨hx, rfl⟩
    rcases List.mem_cons.mp hx with rfl | hx
    · exact if_pos rfl
    · have hne : x.target ≠ d.main.target := by
        intro heq
        exact hmain (heq ▸ List.mem_map_of_mem hx)
      rw [if_neg hne]
      have hsome : (d.variants.find? fun v => v.target = x.target).isSome :=
        List.find?_isSome.mpr ⟨x, hx, by simp⟩
      obtain ⟨y, hy⟩ := Option.isSome_iff_exists.mp hsome
      have htarget := List.find?_some hy
      rw [hy, Option.some.injEq]
      exact List.inj_on_of_nodup_map hvariants (List.mem_of_find?_eq_some hy) hx
        (by simpa using htarget)

/-! ## The routes -/

/-- What a hub answers on these routes. -/
inductive Response
  /-- The hub has no agents to hand out. -/
  | unavailable
  /-- It has none for this target. -/
  | notFound (text : String)
  /-- A description is sent. -/
  | metadata (members : List (List Char × Value))
  /-- Headers that name a version and a digest, and the bytes. -/
  | binary (version sha256 : String) (bytes : List UInt8)

/-- `metadata`, in the order of the keys. -/
def Artifact.metadata (a : Artifact) : List (List Char × Value) :=
  [("architecture".toList, .text a.architecture.toList),
    ("download".toList, .text a.downloadPath.toList), ("filename".toList, .text "romi-agent".toList),
    ("format".toList, .number 1), ("kind".toList, .text "agent-distribution".toList),
    ("project".toList, .text "romi".toList), ("sha256".toList, .text a.sha256.toList),
    ("size".toList, .number a.size), ("target".toList, .text a.target.toList),
    ("version".toList, .text a.version.toList)]

/-- `agent_distribution`. -/
def agentDistribution (served : Option Distribution) (target : Option String) : Response :=
  match served with
  | none => .unavailable
  | some d => match d.select (target.getD d.main.target) with
    | none => .notFound "no such romi Agent target"
    | some a => .metadata a.metadata

/-- `agent_binary`. -/
def agentBinary (served : Option Distribution) (version target : String) : Response :=
  match served with
  | none => .unavailable
  | some d => match d.select target with
    | none => .notFound "no such romi Agent target"
    | some a =>
      if version ≠ a.version then .notFound "no such romi Agent artifact"
      else .binary a.version a.sha256 a.binary

end Romi.AgentDistribution
