import Romi.BackupArchive

/-!
# Unpacking an archive nobody vouches for

The decoder hands out one entry after another: any name, any kind, any declared
size, and reads that return some bytes and may fail. Everything that is decided
about an entry is decided before its file is created, and every read is counted
before it is written, so whatever happens later the work directory holds
nothing but known members within their limits. Only then is the manifest read.
-/

namespace Romi.ArchiveExtraction

open ArchiveTables BackupArchive CachedTransactions StoreSchema

/-! ## What is decoded and where it goes -/

/-- The bytes of a file. -/
abbrev Bytes : Type := List UInt8

/-- One entry as the decoder hands it out. -/
structure TarEntry where
  /-- `entry.path()`. -/
  path : Except Failure String
  /-- A regular file, not a link or a directory. -/
  isFile : Bool
  /-- `entry.size()`. -/
  declared : Nat
  /-- What successive reads return. -/
  chunks : List Bytes
  /-- Why the read after them failed, if it did. -/
  broken : Option Failure
  /-- A read that returns nothing is the end. -/
  proper : ∀ c ∈ chunks, c ≠ []

/-- A file under inspection. -/
structure Stream where
  /-- The size of the file, zero where it has none. -/
  compressed : Nat
  /-- `File::open` and `archive.entries()`. -/
  opens : Except Failure Unit
  /-- The entries, as far as they come. -/
  entries : List TarEntry
  /-- The error that comes instead of a further entry, if one does. -/
  broken : Option Failure

/-- What the filesystem refuses, by member. -/
structure DiskFaults where
  /-- Which files cannot be created. -/
  create : String → Option Failure
  /-- A write that fails may have stored some bytes. -/
  write : String → Nat → Option (Nat × Failure)
  /-- Which cannot be flushed. -/
  flush : String → Option Failure
  /-- Which cannot be read back. -/
  read : String → Option Failure
  /-- Which cannot be asked for their length. -/
  metadata : String → Option Failure

/-- The members of an archive, the manifest first. -/
def memberNames : List String := manifestName :: backupTables.map parquetName

/-- The loop over an archive, with the files it has created in the work
directory under their member names. -/
structure Progress where
  /-- How many files have come. -/
  count : Nat
  /-- Their names. -/
  members : List String
  /-- How long they are together. -/
  expanded : Nat
  /-- The files. -/
  files : List (String × Bytes)

section Unpacking

variable (limits : ArchiveLimits) (faults : DiskFaults)

/-! ## Unpacking -/

/-- The loop that copies a member; with its outcome it returns what the file
then holds. -/
def copyChunks (name : String) (broken : Option Failure) :
    Nat → List Bytes → Nat → Nat → Bytes → Except Failure (Nat × Nat) × Bytes
  | _, [], written, expanded, out =>
    match broken with
    | some e => (.error e, out)
    | none => (.ok (written, expanded), out)
  | k, c :: rest, written, expanded, out =>
    let check := do
      require (written + c.length ≤ limits.limitOf name) s!"{name} 超过单个成员上限"
      require (expanded + c.length ≤ u64Max) "备份展开总量溢出"
      require (expanded + c.length ≤ limits.total)
        s!"备份展开总量超过 {limits.total / 1024 / 1024} MiB 的上限"
    match check with
    | .error e => (.error e, out)
    | .ok () =>
      match faults.write name k with
      | some (n, e) => (.error e, out ++ c.take n)
      | none =>
        copyChunks name broken (k + 1) rest (written + c.length) (expanded + c.length) (out ++ c)

/-- What is checked of an entry before anything is created for it. -/
def checkEntry (s : Progress) (e : TarEntry) : Except Failure String := do
  require (s.count ≤ limits.members) s!"备份成员数超过上限 {limits.members}"
  let name ← e.path
  require (e.isFile = true) s!"备份包含非普通文件成员：{name}"
  require (SafePath name) s!"备份成员路径不安全：{name}"
  require (name = manifestName ∨ name ∈ backupTables.map parquetName) s!"备份包含未知成员：{name}"
  require (name ∉ s.members) s!"备份包含重复成员：{name}"
  require (e.declared ≤ limits.limitOf name) s!"{name} 超过单个成员上限"
  pure name

/-- One round of the loop over the entries. -/
def unpackEntry (s : Progress) (e : TarEntry) : Except Failure Unit × Progress :=
  let s := { s with count := s.count + 1 }
  match checkEntry limits s e with
  | .error err => (.error err, s)
  | .ok name =>
    match faults.create name with
    | some err => (.error err, s)
    | none =>
      let (copied, out) := copyChunks limits faults name e.broken 0 e.chunks 0 s.expanded []
      let s := { s with files := s.files ++ [(name, out)] }
      match copied with
      | .error err => (.error err, s)
      | .ok (written, expanded) =>
        let s := { s with expanded := expanded }
        if written = e.declared then
          match faults.flush name with
          | some err => (.error err, s)
          | none => (.ok (), { s with members := s.members ++ [name] })
        else (.error (.declined s!"{name} 的实际大小与归档记录不符"), s)

/-- The loop over the entries. -/
def unpackEntries (broken : Option Failure) : List TarEntry → Progress →
    Except Failure Unit × Progress
  | [], s =>
    match broken with
    | some e => (.error e, s)
    | none => (.ok (), s)
  | e :: rest, s =>
    match unpackEntry limits faults s e with
    | (.error err, s) => (.error err, s)
    | (.ok (), s) => unpackEntries broken rest s

/-! ## Checking -/

variable (sha256 : Bytes → String) (parse : Bytes → Option Manifest)

/-- A file of the work directory, unless reading it fails. -/
def fileOf (fault : String → Option Failure) (files : List (String × Bytes)) (name : String) :
    Except Failure Bytes :=
  match fault name, files.lookup name with
  | some e, _ => .error e
  | none, some data => .ok data
  | none, none => .error (.declined "No such file or directory")

/-- One table's data file against the manifest; the rows it claims. -/
def checkTable (manifest : Manifest) (s : Progress) (t : TableName) :
    Except Failure (String × Int) := do
  require (parquetName t ∈ s.members) s!"备份缺少 {t.sql}.parquet"
  match manifest.tables.lookup t.sql with
  | none => .error (.declined s!"manifest 里没有 {t.sql} 的记录")
  | some member => do
    let data ← fileOf faults.read s.files (parquetName t)
    require (member.sha256 = sha256 data) s!"{t.sql}.parquet 的摘要与 manifest 不符"
    let data ← fileOf faults.metadata s.files (parquetName t)
    require (member.bytes = data.length) s!"{t.sql}.parquet 的大小与 manifest 不符"
    pure (t.sql, member.rows)

/-- The second pass, over the files in the work directory. -/
def validate (compressed : Nat) (s : Progress) : Except Failure (BackupReport × Nat) := do
  require (manifestName ∈ s.members) "备份缺少 manifest.json"
  let size ← fileOf faults.metadata s.files manifestName
  require (size.length ≤ limits.manifest) "manifest 过大"
  let text ← fileOf faults.read s.files manifestName
  match parse text with
  | none => .error (.declined "manifest.json 无法解析")
  | some manifest => do
    checkManifest manifest
    let rows ← backupTables.mapM (checkTable faults sha256 manifest s)
    pure (⟨manifest.format, manifest.kind, manifest.schema, manifest.engine, manifest.createdAt,
      compressed, rows, true⟩, s.expanded)

/-- `extract_and_validate_with`: the report and the expanded size, or an error;
and what the work directory holds then. -/
def extractAndValidate (src : Stream) :
    Except Failure (BackupReport × Nat) × List (String × Bytes) :=
  let check := do
    require (src.compressed ≤ limits.compressed)
      s!"备份文件 {src.compressed / 1024 / 1024} 超过 {limits.compressed / 1024 / 1024} MiB 的上传上限"
    src.opens
  match check with
  | .error e => (.error e, [])
  | .ok () =>
    match unpackEntries limits faults src.broken src.entries ⟨0, [], 0, []⟩ with
    | (.error e, s) => (.error e, s.files)
    | (.ok (), s) => (validate limits faults sha256 parse src.compressed s, s.files)

end Unpacking

/-! ## Nothing else is written -/

section Bounds

variable {limits : ArchiveLimits} {faults : DiskFaults}

/-- The bytes in the work directory. -/
def stored (files : List (String × Bytes)) : Nat := (files.map fun f => f.2.length).sum

/-- Only known members are there, each once, within their limits. -/
structure Contained (limits : ArchiveLimits) (files : List (String × Bytes)) : Prop where
  /-- Every file is one a backup has. -/
  known : ∀ f ∈ files, f.1 ∈ memberNames
  /-- None is there twice. -/
  once : (files.map Prod.fst).Nodup
  /-- None is too long. -/
  member : ∀ f ∈ files, f.2.length ≤ limits.limitOf f.1
  /-- Nor are they together. -/
  total : stored files ≤ limits.total

/-- One more file. -/
theorem stored_append (files : List (String × Bytes)) (f : String × Bytes) :
    stored (files ++ [f]) = stored files + f.2.length := by
  rw [stored, List.map_append, List.sum_append]
  simp [stored]

/-- A copy never writes past the limits, and when it succeeds it has counted
what it wrote. -/
theorem copyChunks_bounded {name : String} {broken : Option Failure} {k : Nat} {chunks : List Bytes}
    {written expanded base : Nat} {out : Bytes} (hout : out.length = written)
    (hexpanded : expanded = base + written) (hmember : written ≤ limits.limitOf name)
    (htotal : expanded ≤ limits.total) :
    (copyChunks limits faults name broken k chunks written expanded out).2.length ≤
        limits.limitOf name ∧
      base + (copyChunks limits faults name broken k chunks written expanded out).2.length ≤
        limits.total ∧
      ∀ w x, (copyChunks limits faults name broken k chunks written expanded out).1 = .ok (w, x) →
        w = (copyChunks limits faults name broken k chunks written expanded out).2.length ∧
          x = base + w := by
  induction chunks generalizing k written expanded out with
  | nil =>
    unfold copyChunks
    cases broken with
    | some e =>
      dsimp only
      exact ⟨by omega, by omega, nofun⟩
    | none =>
      dsimp only
      refine ⟨by omega, by omega, ?_⟩
      intro w x h
      cases h
      exact ⟨hout.symm, hexpanded⟩
  | cons c rest ih =>
    unfold copyChunks
    dsimp only
    split
    · dsimp only
      exact ⟨by omega, by omega, nofun⟩
    · rename_i hcheck
      obtain ⟨_, hfits, hcheck⟩ := bind_eq_ok.mp hcheck
      obtain ⟨_, -, hwhole⟩ := bind_eq_ok.mp hcheck
      have hfits := require_ok hfits
      have hwhole := require_ok hwhole
      split
      · rename_i n e _
        have htake : (c.take n).length ≤ c.length := by
          rw [List.length_take]
          exact Nat.min_le_right n c.length
        dsimp only
        rw [List.length_append]
        exact ⟨by omega, by omega, nofun⟩
      · refine ih ?_ ?_ hfits hwhole
        · rw [List.length_append, hout]
        · omega

/-- The names an entry may have. -/
theorem checkEntry_ok {s : Progress} {e : TarEntry} {name : String}
    (h : checkEntry limits s e = .ok name) :
    e.path = .ok name ∧ e.isFile = true ∧ name ∈ memberNames ∧ name ∉ s.members ∧
      e.declared ≤ limits.limitOf name ∧ s.count ≤ limits.members := by
  obtain ⟨_, hcount, h⟩ := bind_eq_ok.mp h
  obtain ⟨path, hpath, h⟩ := bind_eq_ok.mp h
  obtain ⟨_, hfile, h⟩ := bind_eq_ok.mp h
  obtain ⟨_, -, h⟩ := bind_eq_ok.mp h
  obtain ⟨_, hknown, h⟩ := bind_eq_ok.mp h
  obtain ⟨_, hfresh, h⟩ := bind_eq_ok.mp h
  obtain ⟨_, hsize, h⟩ := bind_eq_ok.mp h
  cases h
  refine ⟨hpath, require_ok hfile, ?_, require_ok hfresh, require_ok hsize, require_ok hcount⟩
  rcases require_ok hknown with rfl | hmem
  · exact List.mem_cons_self
  · exact List.mem_cons_of_mem _ hmem

/-- What the loop keeps as long as nothing fails. -/
structure Sound (limits : ArchiveLimits) (s : Progress) : Prop where
  /-- What was unpacked is contained. -/
  contained : Contained limits s.files
  /-- The names are those of the files. -/
  members : s.members = s.files.map Prod.fst
  /-- Their length is counted. -/
  expanded : s.expanded = stored s.files

/-- One round leaves a contained directory, and after a success the loop is sound. -/
theorem unpackEntry_sound {s : Progress} (h : Sound limits s) (e : TarEntry) :
    Contained limits (unpackEntry limits faults s e).2.files ∧
      ((unpackEntry limits faults s e).1 = .ok () →
        Sound limits (unpackEntry limits faults s e).2) := by
  unfold unpackEntry
  dsimp only
  split
  · exact ⟨h.contained, nofun⟩
  · rename_i name hname
    obtain ⟨-, -, hknown, hfresh, -⟩ := checkEntry_ok hname
    have hbase : s.expanded ≤ limits.total := by
      rw [h.expanded]
      exact h.contained.total
    have hcopy := @copyChunks_bounded limits faults name e.broken 0 e.chunks 0 s.expanded s.expanded []
      rfl rfl (Nat.zero_le _) hbase
    split
    · exact ⟨h.contained, nofun⟩
    · generalize copyChunks limits faults name e.broken 0 e.chunks 0 s.expanded [] = copied at hcopy
      obtain ⟨outcome, out⟩ := copied
      obtain ⟨hmember, htotal, hcounted⟩ := hcopy
      dsimp only at hmember htotal hcounted ⊢
      have hcontained : Contained limits (s.files ++ [(name, out)]) := by
        refine ⟨?_, ?_, ?_, ?_⟩
        · intro f hf
          rcases List.mem_append.mp hf with hf | hf
          · exact h.contained.known f hf
          · rw [List.mem_singleton.mp hf]
            exact hknown
        · rw [List.map_append, List.map_cons, List.map_nil]
          refine List.nodup_append.mpr ⟨h.contained.once, List.nodup_singleton name, ?_⟩
          intro n hn m hm hnm
          have hname : n = name := hnm.trans (List.mem_singleton.mp hm)
          change name ∉ s.members at hfresh
          rw [h.members, ← hname] at hfresh
          exact hfresh hn
        · intro f hf
          rcases List.mem_append.mp hf with hf | hf
          · exact h.contained.member f hf
          · rw [List.mem_singleton.mp hf]
            exact hmember
        · rw [stored_append, ← h.expanded]
          exact htotal
      cases outcome with
      | error err => exact ⟨hcontained, nofun⟩
      | ok done =>
        obtain ⟨written, expanded⟩ := done
        obtain ⟨rfl, rfl⟩ := hcounted written expanded rfl
        dsimp only
        split
        · split
          · exact ⟨hcontained, nofun⟩
          · refine ⟨hcontained, fun _ => ⟨hcontained, ?_, ?_⟩⟩
            · dsimp only
              rw [List.map_append, h.members]
              rfl
            · dsimp only
              rw [stored_append, h.expanded]
        · exact ⟨hcontained, nofun⟩

/-- Whatever the entries are, what was unpacked is contained. -/
theorem unpackEntries_contained {broken : Option Failure} {entries : List TarEntry} {s : Progress}
    (h : Sound limits s) : Contained limits (unpackEntries limits faults broken entries s).2.files := by
  induction entries generalizing s with
  | nil =>
    unfold unpackEntries
    cases broken with
    | some e => exact h.contained
    | none => exact h.contained
  | cons e rest ih =>
    obtain ⟨hcontained, hsound⟩ := @unpackEntry_sound limits faults s h e
    unfold unpackEntries
    generalize unpackEntry limits faults s e = result at hcontained hsound
    obtain ⟨outcome, s'⟩ := result
    cases outcome with
    | error err => exact hcontained
    | ok u => exact ih (hsound rfl)

/-- Whatever the archive holds and whatever fails, the work directory ends up
with known members within their limits and nothing else. -/
theorem extract_contained (sha256 : Bytes → String) (parse : Bytes → Option Manifest) (src : Stream) :
    Contained limits (extractAndValidate limits faults sha256 parse src).2 := by
  have hstart : Sound limits ⟨0, [], 0, []⟩ :=
    ⟨⟨nofun, List.nodup_nil, nofun, Nat.zero_le _⟩, rfl, rfl⟩
  unfold extractAndValidate
  dsimp only
  split
  · exact hstart.contained
  · have hcontained := @unpackEntries_contained limits faults src.broken src.entries _ hstart
    generalize unpackEntries limits faults src.broken src.entries ⟨0, [], 0, []⟩ = result at hcontained
    obtain ⟨outcome, s⟩ := result
    cases outcome with
    | error e => exact hcontained
    | ok u => exact hcontained

end Bounds

end Romi.ArchiveExtraction
