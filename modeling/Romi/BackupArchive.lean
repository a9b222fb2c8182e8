import Romi.ArchiveTables
import Romi.CachedTransactions

/-!
# Writing and checking an archive

A backup exports every persistent table under its own columns and adds a
manifest with row counts, digests and sizes. Checking an archive reads it
member by member under limits before the manifest is trusted at all. The
Parquet, JSON, tar and digest code is `Libraries`; `Faithful` is what those
libraries promise: what they wrote is read back.
-/

namespace Romi.BackupArchive

open ArchiveTables CachedTransactions KeyedTable StoreSchema

/-! ## Members -/

/-- The data file of one table: named, typed columns and rows in no order. -/
structure Relation where
  /-- The columns, each with its type. -/
  columns : List (String × String)
  /-- The rows, in no order. -/
  rows : Multiset (List Cell)

/-- What the manifest says about one data file. -/
structure Member where
  /-- How many rows the file holds. -/
  rows : Int
  /-- The digest of its bytes. -/
  sha256 : String
  /-- How long it is. -/
  bytes : Nat
  deriving DecidableEq

/-- `manifest.json`. -/
structure Manifest where
  /-- The format of the archive. -/
  format : Int
  /-- What the archive says it is. -/
  kind : String
  /-- The schema its tables have. -/
  schema : Int
  /-- The engine that wrote it. -/
  engine : String
  /-- When it was written. -/
  createdAt : Int
  /-- What is said of the file of each table. -/
  tables : List (String × Member)
  deriving DecidableEq

/-- `BackupReport`. -/
structure BackupReport where
  /-- The format of the archive. -/
  format : Int
  /-- What the archive says it is. -/
  kind : String
  /-- The schema its tables have. -/
  schema : Int
  /-- The engine that wrote it. -/
  engine : String
  /-- When it was written. -/
  createdAt : Int
  /-- How long the archive is. -/
  bytes : Nat
  /-- How many rows each table has. -/
  rows : List (String × Int)
  /-- Whether this build would accept the archive back. -/
  restorable : Bool
  deriving DecidableEq

/-- One entry of a tar archive as it is read. -/
structure Entry (β : Type) where
  /-- The path in the archive. -/
  name : String
  /-- A regular file, not a link or a directory. -/
  isFile : Bool
  /-- The size in the header. -/
  declared : Nat
  /-- What is stored under it. -/
  data : β

/-- The libraries around an archive, over their bytes. -/
structure Libraries (β : Type) where
  /-- How many bytes a file has. -/
  size : β → Nat
  /-- How many bytes successive reads of a member return. -/
  reads : β → List Nat
  /-- The digest of a file. -/
  sha256 : β → String
  /-- `COPY .. TO`. -/
  writeParquet : Relation → β
  /-- What the engine reads back. -/
  readParquet : β → Option Relation
  /-- The manifest as text. -/
  writeJson : Manifest → β
  /-- What is read back of it. -/
  readJson : β → Option Manifest
  /-- A gzipped tar of named regular files. -/
  pack : List (String × β) → β
  /-- The entries of an archive. -/
  unpack : β → Option (List (Entry β))

/-- What was written is read back. -/
structure Libraries.Faithful {β : Type} (lib : Libraries β) : Prop where
  /-- The pieces a file is read in are all of it. -/
  reads : ∀ b, (lib.reads b).sum = lib.size b
  /-- A table is read as it was written. -/
  parquet : ∀ r, lib.readParquet (lib.writeParquet r) = some r
  /-- So is a manifest. -/
  json : ∀ m, lib.readJson (lib.writeJson m) = some m
  /-- So is an archive. -/
  pack : ∀ files, lib.unpack (lib.pack files) =
    some (files.map fun f => ⟨f.1, true, lib.size f.2, f.2⟩)

/-- Files that carry what was written into them. -/
inductive Wrapped
  /-- A table. -/
  | parquet (r : Relation)
  /-- A manifest. -/
  | json (m : Manifest)
  /-- An archive of such files. -/
  | tar (files : List (String × Wrapped))

/-- Libraries that wrap what they are given; every file is one byte long. -/
def wrapping : Libraries Wrapped where
  size _ := 1
  reads _ := [1]
  sha256 _ := ""
  writeParquet := .parquet
  readParquet
    | .parquet r => some r
    | _ => none
  writeJson := .json
  readJson
    | .json m => some m
    | _ => none
  pack := .tar
  unpack
    | .tar files => some (files.map fun f => ⟨f.1, true, 1, f.2⟩)
    | _ => none

/-- Files that are what they hold are read as they were written. -/
theorem wrapping_faithful : wrapping.Faithful where
  reads _ := rfl
  parquet _ := rfl
  json _ := rfl
  pack _ := rfl

/-! ## Constants -/

/-- `BACKUP_FORMAT`. -/
def backupFormat : Int := 3

/-- `KIND`. -/
def kind : String := "romi-duckdb-backup"

/-- `MAX_ARCHIVE`. -/
def maxArchive : Nat := 256 * 1024 * 1024

/-- `ArchiveLimits`. -/
structure ArchiveLimits where
  /-- The bytes of an archive as it is sent. -/
  compressed : Nat
  /-- How many files it may have. -/
  members : Nat
  /-- The bytes of a file of it. -/
  member : Nat
  /-- The bytes of all of them. -/
  total : Nat
  /-- The bytes of the manifest. -/
  manifest : Nat

/-- `DEFAULT_ARCHIVE_LIMITS`. -/
def defaultArchiveLimits : ArchiveLimits where
  compressed := maxArchive
  members := backupTables.length + 1
  member := 256 * 1024 * 1024
  total := 1024 * 1024 * 1024
  manifest := 1024 * 1024

/-- The member a table is stored under. -/
def parquetName (t : TableName) : String := t.sql ++ ".parquet"

/-- The member the manifest is stored under. -/
def manifestName : String := "manifest.json"

section Writing

variable {β : Type} (lib : Libraries β)

/-! ## Writing -/

/-- `native_columns`: names and types in declaration order. -/
def nativeColumns (t : TableName) : List (String × String) :=
  (layout t).columns.map fun c => (c.name, c.kind)

/-- `COPY (SELECT … FROM table)`. -/
def exportTable (db : Store) (t : TableName) : Relation :=
  ⟨nativeColumns t, (table db t).rows.val.map (layout t).cells⟩

/-- The data file of one table. -/
def tableData (db : Store) (t : TableName) : β := lib.writeParquet (exportTable db t)

/-- `SELECT COUNT(*) FROM table`. -/
def countRows (db : Store) (t : TableName) : Int := (table db t).rows.card

/-- The manifest's entry for one table. -/
def memberOf (db : Store) (t : TableName) : Member :=
  ⟨countRows db t, lib.sha256 (tableData lib db t), lib.size (tableData lib db t)⟩

/-- The manifest of an archive written at `now`. -/
def manifestOf (now : Int) (db : Store) : Manifest where
  format := backupFormat
  kind := kind
  schema := schemaVersion
  engine := engineVersion
  createdAt := now
  tables := backupTables.map fun t => (t.sql, memberOf lib db t)

/-- The members of an archive, the manifest last. -/
def archiveFiles (now : Int) (db : Store) : List (String × β) :=
  (backupTables.map fun t => (parquetName t, tableData lib db t)) ++
    [(manifestName, lib.writeJson (manifestOf lib now db))]

/-- `write_archive`: the archive of one snapshot and the report on it. -/
def writeArchive (now : Int) (db : Store) : β × BackupReport :=
  let archive := lib.pack (archiveFiles lib now db)
  (archive,
    { format := backupFormat, kind := kind, schema := schemaVersion, engine := engineVersion
      createdAt := now, bytes := lib.size archive
      rows := backupTables.map fun t => (t.sql, countRows db t)
      restorable := lib.size archive ≤ maxArchive })

end Writing

/-! ## Checking -/

/-- `ensure!`. -/
def require (p : Prop) [Decidable p] (text : String) : Except Failure Unit :=
  if p then .ok () else .error (.declined text)

/-- A check that is met. -/
@[simp] theorem require_of {p : Prop} [Decidable p] (h : p) (text : String) :
    require p text = .ok () := if_pos h

/-- A check that passed was met. -/
theorem require_ok {p : Prop} [Decidable p] {text : String} {u : Unit}
    (h : require p text = .ok u) : p := by
  by_contra hp
  rw [require, if_neg hp] at h
  cases h

/-- A sequence succeeds when both halves do. -/
theorem bind_eq_ok {α γ : Type} {x : Except Failure α} {f : α → Except Failure γ} {c : γ} :
    x >>= f = .ok c ↔ ∃ a, x = .ok a ∧ f a = .ok c := by
  cases x with
  | error e => exact ⟨nofun, fun ⟨_, h, _⟩ => nomatch h⟩
  | ok a => exact ⟨fun h => ⟨a, rfl, h⟩, fun ⟨_, h, hf⟩ => by cases h; exact hf⟩

/-- A check of every element succeeds when each does. -/
theorem forM_ok_iff {α : Type} {l : List α} {f : α → Except Failure Unit} :
    l.forM f = .ok () ↔ ∀ x ∈ l, f x = .ok () := by
  induction l with
  | nil => exact ⟨fun _ => nofun, fun _ => rfl⟩
  | cons a l ih =>
    have hcons : (a :: l).forM f = f a >>= fun _ => l.forM f := rfl
    rw [hcons, bind_eq_ok, List.forall_mem_cons]
    constructor
    · rintro ⟨_, ha, hl⟩
      exact ⟨ha, ih.mp hl⟩
    · rintro ⟨ha, hl⟩
      exact ⟨(), ha, ih.mpr hl⟩

/-- So does a list of results. -/
theorem mapM_ok_iff {α γ : Type} {l : List α} {f : α → Except Failure γ} :
    (∃ ys, l.mapM f = .ok ys) ↔ ∀ x ∈ l, ∃ y, f x = .ok y := by
  induction l with
  | nil => exact ⟨fun _ => nofun, fun _ => ⟨[], rfl⟩⟩
  | cons a l ih =>
    rw [List.mapM_cons, List.forall_mem_cons, ← ih]
    constructor
    · rintro ⟨ys, h⟩
      obtain ⟨y, hy, h⟩ := bind_eq_ok.mp h
      obtain ⟨rest, hrest, -⟩ := bind_eq_ok.mp h
      exact ⟨⟨y, hy⟩, rest, hrest⟩
    · rintro ⟨⟨y, hy⟩, rest, hrest⟩
      exact ⟨y :: rest, bind_eq_ok.mpr ⟨y, hy, bind_eq_ok.mpr ⟨rest, hrest, rfl⟩⟩⟩

/-- Two dots in a row. -/
def hasDotDot : List Char → Bool
  | '.' :: '.' :: _ => true
  | _ :: rest => hasDotDot rest
  | [] => false

/-- A member path that stays inside the working directory. -/
def SafePath (name : String) : Prop :=
  name.toList.head? ≠ some '/' ∧ hasDotDot name.toList = false ∧ '\\' ∉ name.toList

instance (name : String) : Decidable (SafePath name) := inferInstanceAs (Decidable (_ ∧ _))

/-- `u64::MAX`. -/
def u64Max : Nat := 2 ^ 64 - 1

/-- The copy loop of one member: how much it wrote and the new total. -/
def copyMember (name : String) (memberLimit total : Nat) :
    List Nat → Nat → Nat → Except Failure (Nat × Nat)
  | [], written, expanded => pure (written, expanded)
  | n :: rest, written, expanded => do
    require (written + n ≤ memberLimit) s!"{name} 超过单个成员上限"
    require (expanded + n ≤ u64Max) "备份展开总量溢出"
    require (expanded + n ≤ total) s!"备份展开总量超过 {total / 1024 / 1024} MiB 的上限"
    copyMember name memberLimit total rest (written + n) (expanded + n)

/-- What has been unpacked so far. -/
structure Unpacked (β : Type) where
  /-- The files so far. -/
  files : List (String × β)
  /-- How long they are together. -/
  expanded : Nat

/-- The size one member may have. -/
def ArchiveLimits.limitOf (limits : ArchiveLimits) (name : String) : Nat :=
  if name = manifestName then limits.manifest else limits.member

section Checking

variable {β : Type} (lib : Libraries β)

/-- One round of the unpacking loop. -/
def unpackEntry (limits : ArchiveLimits) (u : Unpacked β) (e : Entry β) :
    Except Failure (Unpacked β) := do
  require (u.files.length + 1 ≤ limits.members) s!"备份成员数超过上限 {limits.members}"
  require (e.isFile = true) s!"备份包含非普通文件成员：{e.name}"
  require (SafePath e.name) s!"备份成员路径不安全：{e.name}"
  require (e.name = manifestName ∨ e.name ∈ backupTables.map parquetName) s!"备份包含未知成员：{e.name}"
  require (e.name ∉ u.files.map Prod.fst) s!"备份包含重复成员：{e.name}"
  require (e.declared ≤ limits.limitOf e.name) s!"{e.name} 超过单个成员上限"
  let (written, expanded) ←
    copyMember e.name (limits.limitOf e.name) limits.total (lib.reads e.data) 0 u.expanded
  require (written = e.declared) s!"{e.name} 的实际大小与归档记录不符"
  pure ⟨u.files ++ [(e.name, e.data)], expanded⟩

/-- One table's data file against the manifest; the rows it claims. -/
def checkMember (manifest : Manifest) (files : List (String × β)) (t : TableName) :
    Except Failure (String × Int) := do
  match files.lookup (parquetName t) with
  | none => .error (.declined s!"备份缺少 {t.sql}.parquet")
  | some data =>
    match manifest.tables.lookup t.sql with
    | none => .error (.declined s!"manifest 里没有 {t.sql} 的记录")
    | some member => do
      require (member.sha256 = lib.sha256 data) s!"{t.sql}.parquet 的摘要与 manifest 不符"
      require (member.bytes = lib.size data) s!"{t.sql}.parquet 的大小与 manifest 不符"
      pure (t.sql, member.rows)

/-- What an archive turned out to hold. -/
structure Extracted (β : Type) where
  /-- What the panel is shown. -/
  report : BackupReport
  /-- The files that were unpacked. -/
  files : List (String × β)
  /-- How long they are together. -/
  expanded : Nat

/-- The manifest itself: a format, a kind and a schema this build reads. -/
def checkManifest (manifest : Manifest) : Except Failure Unit := do
  require (manifest.format = backupFormat) s!"不支持的备份格式 {manifest.format}"
  require (manifest.kind = kind) "这不是 romi 的备份"
  require (manifest.schema ≤ schemaVersion)
    s!"备份来自更新的 romi（schema {manifest.schema}，本版本读取 {schemaVersion}）；请先升级"
  manifest.tables.forM fun entry =>
    require (entry.1 ∈ backupTables.map TableName.sql) s!"manifest 提到未知表 {entry.1}"

/-- `extract_and_validate_with`. -/
def extractAndValidateWith (limits : ArchiveLimits) (archive : β) :
    Except Failure (Extracted β) := do
  require (lib.size archive ≤ limits.compressed)
    s!"备份文件 {lib.size archive / 1024 / 1024} 超过 {limits.compressed / 1024 / 1024} MiB 的上传上限"
  match lib.unpack archive with
  | none => .error (.declined "this file is not a gzipped tar archive")
  | some entries => do
    let unpacked ← entries.foldlM (unpackEntry lib limits) ⟨[], 0⟩
    match unpacked.files.lookup manifestName with
    | none => .error (.declined "备份缺少 manifest.json")
    | some text => do
      require (lib.size text ≤ limits.manifest) "manifest 过大"
      match lib.readJson text with
      | none => .error (.declined "manifest.json 无法解析")
      | some manifest => do
        checkManifest manifest
        let rows ← backupTables.mapM (checkMember lib manifest unpacked.files)
        pure {
          report := ⟨manifest.format, manifest.kind, manifest.schema, manifest.engine,
            manifest.createdAt, lib.size archive, rows, true⟩
          files := unpacked.files
          expanded := unpacked.expanded }

end Checking

/-! ## An archive of this build is accepted -/

/-- The sizes an archive must keep to be restorable. -/
structure WithinLimits {β : Type} (lib : Libraries β) (limits : ArchiveLimits) (archive : β)
    (files : List (String × β)) : Prop where
  /-- The archive is short enough. -/
  compressed : lib.size archive ≤ limits.compressed
  /-- So is each file of it. -/
  member : ∀ f ∈ files, lib.size f.2 ≤ limits.limitOf f.1
  /-- So are all of them together. -/
  total : (files.map fun f => lib.size f.2).sum ≤ limits.total

/-- A file within both limits is copied whole. -/
theorem copyMember_ok {name : String} {memberLimit total : Nat} (htotal : total ≤ u64Max)
    {reads : List Nat} {written expanded : Nat} (hm : written + reads.sum ≤ memberLimit)
    (ht : expanded + reads.sum ≤ total) :
    copyMember name memberLimit total reads written expanded =
      .ok (written + reads.sum, expanded + reads.sum) := by
  induction reads generalizing written expanded with
  | nil => rfl
  | cons n rest ih =>
    rw [List.sum_cons] at hm ht ⊢
    have hw : written + n ≤ memberLimit := by omega
    have he : expanded + n ≤ total := by omega
    have hmax : expanded + n ≤ u64Max := he.trans htotal
    rw [copyMember, require_of hw, require_of hmax, require_of he]
    have hrest := @ih (written + n) (expanded + n) (by omega) (by omega)
    rw [show written + (n + rest.sum) = written + n + rest.sum by omega,
      show expanded + (n + rest.sum) = expanded + n + rest.sum by omega]
    exact hrest

/-- The names of the backup are safe paths. -/
theorem known_safe {name : String}
    (h : name = manifestName ∨ name ∈ backupTables.map parquetName) : SafePath name := by
  have hall : ∀ n ∈ manifestName :: backupTables.map parquetName, SafePath n := by decide
  rcases h with rfl | h
  · exact hall _ List.mem_cons_self
  · exact hall _ (List.mem_cons_of_mem _ h)

/-- A round that succeeds passed the checks and kept the member. -/
theorem unpacked_entry {β : Type} {lib : Libraries β} {limits : ArchiveLimits} {u u' : Unpacked β}
    {e : Entry β} (h : unpackEntry lib limits u e = .ok u') :
    e.declared ≤ limits.limitOf e.name ∧ u'.files = u.files ++ [(e.name, e.data)] ∧
      ∃ written, copyMember e.name (limits.limitOf e.name) limits.total (lib.reads e.data) 0
        u.expanded = .ok (written, u'.expanded) := by
  obtain ⟨_, -, h⟩ := bind_eq_ok.mp h
  obtain ⟨_, -, h⟩ := bind_eq_ok.mp h
  obtain ⟨_, -, h⟩ := bind_eq_ok.mp h
  obtain ⟨_, -, h⟩ := bind_eq_ok.mp h
  obtain ⟨_, -, h⟩ := bind_eq_ok.mp h
  obtain ⟨_, hsize, h⟩ := bind_eq_ok.mp h
  obtain ⟨⟨written, expanded⟩, hcopy, h⟩ := bind_eq_ok.mp h
  obtain ⟨_, -, h⟩ := bind_eq_ok.mp h
  cases h
  exact ⟨require_ok hsize, rfl, written, hcopy⟩

section Accepting

variable {β : Type} {lib : Libraries β} (hlib : lib.Faithful) {limits : ArchiveLimits}
  (hmax : limits.total ≤ u64Max)

include hlib hmax

/-- Known members with distinct names and sizes within the limits unpack. -/
theorem unpack_ok {files : List (String × β)} {u : Unpacked β}
    (hcount : u.files.length + files.length ≤ limits.members)
    (hknown : ∀ f ∈ files, f.1 = manifestName ∨ f.1 ∈ backupTables.map parquetName)
    (hnodup : ((u.files ++ files).map Prod.fst).Nodup)
    (hmember : ∀ f ∈ files, lib.size f.2 ≤ limits.limitOf f.1)
    (htotal : u.expanded + (files.map fun f => lib.size f.2).sum ≤ limits.total) :
    (files.map fun f => (⟨f.1, true, lib.size f.2, f.2⟩ : Entry β)).foldlM
        (unpackEntry lib limits) u =
      .ok ⟨u.files ++ files, u.expanded + (files.map fun f => lib.size f.2).sum⟩ := by
  induction files generalizing u with
  | nil =>
    rw [List.append_nil]
    rfl
  | cons f rest ih =>
    rw [List.length_cons] at hcount
    simp only [List.map_cons, List.sum_cons] at htotal ⊢
    have hf := hknown f List.mem_cons_self
    have hsize := hmember f List.mem_cons_self
    have hfresh : f.1 ∉ u.files.map Prod.fst := by
      rw [List.map_append, List.map_cons] at hnodup
      intro hmem
      exact (List.nodup_append.mp hnodup).2.2 _ hmem _ List.mem_cons_self rfl
    have hcopy : copyMember f.1 (limits.limitOf f.1) limits.total (lib.reads f.2) 0 u.expanded =
        .ok (lib.size f.2, u.expanded + lib.size f.2) := by
      have hsum := hlib.reads f.2
      have h := @copyMember_ok f.1 (limits.limitOf f.1) limits.total hmax (lib.reads f.2) 0
        u.expanded (by omega) (by omega)
      rwa [hsum, Nat.zero_add] at h
    have hone : unpackEntry lib limits u ⟨f.1, true, lib.size f.2, f.2⟩ =
        .ok ⟨u.files ++ [f], u.expanded + lib.size f.2⟩ := by
      have hlen : u.files.length + 1 ≤ limits.members := by omega
      simp only [unpackEntry, require_of hlen, require_of (known_safe hf), require_of hf,
        require_of hfresh, require_of hsize, hcopy, require_of, bind, Except.bind, pure, Except.pure]
    rw [List.foldlM_cons, hone]
    have hrest := ih (u := ⟨u.files ++ [f], u.expanded + lib.size f.2⟩)
      (by rw [List.length_append, List.length_singleton]; omega)
      (fun x hx => hknown x (List.mem_cons_of_mem f hx))
      (by rwa [List.append_assoc, List.singleton_append])
      (fun x hx => hmember x (List.mem_cons_of_mem f hx)) (by dsimp only; omega)
    rw [List.append_assoc, List.singleton_append, Nat.add_assoc] at hrest
    exact hrest

end Accepting

/-- A name looked up among entries that carry it once. -/
theorem lookup_map_append {ι α : Type} {f : ι → String} {g : ι → α} {l : List ι}
    (rest : List (String × α)) {i : ι} (hf : ∀ a ∈ l, f a = f i → a = i) (hi : i ∈ l) :
    ((l.map fun a => (f a, g a)) ++ rest).lookup (f i) = some (g i) := by
  induction l with
  | nil => cases hi
  | cons a l ih =>
    rw [List.map_cons, List.cons_append, List.lookup_cons]
    by_cases h : f i = f a
    · have hai := hf a List.mem_cons_self h.symm
      rw [h, beq_self_eq_true, hai]
    · rw [beq_false_of_ne h]
      have hmem : i ∈ l := (List.mem_cons.mp hi).resolve_left fun hia => h (by rw [hia])
      exact ih (fun x hx => hf x (List.mem_cons_of_mem a hx)) hmem

/-- Each table has a name of its own. -/
theorem sql_injective {t u : TableName} (h : t.sql = u.sql) : t = u := by
  revert h
  cases t <;> cases u <;> decide

/-- So has its file. -/
theorem parquetName_injective {t u : TableName} (h : parquetName t = parquetName u) : t = u := by
  revert h
  cases t <;> cases u <;> decide

/-- No table's file is taken for the manifest. -/
theorem parquetName_ne_manifest (t : TableName) : parquetName t ≠ manifestName := by
  cases t <;> decide

section Accepted

variable {β : Type} (lib : Libraries β) (schema : Int) (engine : String) (now : Int)
  (rels : TableName → Relation)

/-- The manifest's entry for a data file. -/
def memberFor (rel : Relation) : Member :=
  ⟨rel.rows.card, lib.sha256 (lib.writeParquet rel), lib.size (lib.writeParquet rel)⟩

/-- The manifest over some data files, by a hub of some schema version. -/
def manifestFor : Manifest where
  format := backupFormat
  kind := kind
  schema := schema
  engine := engine
  createdAt := now
  tables := backupTables.map fun t => (t.sql, memberFor lib (rels t))

/-- Their archive, the manifest last. -/
def filesFor : List (String × β) :=
  (backupTables.map fun t => (parquetName t, lib.writeParquet (rels t))) ++
    [(manifestName, lib.writeJson (manifestFor lib schema engine now rels))]

/-- The files of a backup, in this order. -/
theorem names_filesFor : (filesFor lib schema engine now rels).map Prod.fst =
    backupTables.map parquetName ++ [manifestName] := by
  rw [filesFor, List.map_append, List.map_map]
  rfl

/-- The manifest of a backup is among its files. -/
theorem lookup_manifest : (filesFor lib schema engine now rels).lookup manifestName =
    some (lib.writeJson (manifestFor lib schema engine now rels)) := by
  have hskip : ∀ l : List TableName, ((l.map fun t => (parquetName t, lib.writeParquet (rels t))) ++
      [(manifestName, lib.writeJson (manifestFor lib schema engine now rels))]).lookup manifestName =
        some (lib.writeJson (manifestFor lib schema engine now rels)) := by
    intro l
    induction l with
    | nil => exact List.lookup_cons_self
    | cons t l ih =>
      rw [List.map_cons, List.cons_append, List.lookup_cons,
        beq_false_of_ne (parquetName_ne_manifest t).symm]
      exact ih
  exact hskip backupTables

/-- So is the file of each table. -/
theorem lookup_table {t : TableName} (ht : t ∈ backupTables) :
    (filesFor lib schema engine now rels).lookup (parquetName t) = some (lib.writeParquet (rels t)) :=
  lookup_map_append _ (fun _ _ h => parquetName_injective h) ht

/-- The manifest tells of each table. -/
theorem lookup_member {t : TableName} (ht : t ∈ backupTables) :
    (manifestFor lib schema engine now rels).tables.lookup t.sql = some (memberFor lib (rels t)) := by
  have h := lookup_map_append (f := TableName.sql) (g := fun t => memberFor lib (rels t)) []
    (fun _ _ h => sql_injective h) ht
  rwa [List.append_nil] at h

/-- The manifest of a backup passes its check. -/
theorem checkManifest_ok (hschema : schema ≤ schemaVersion) :
    checkManifest (manifestFor lib schema engine now rels) = .ok () := by
  have hformat : (manifestFor lib schema engine now rels).format = backupFormat := rfl
  have hkind : (manifestFor lib schema engine now rels).kind = kind := rfl
  have hversion : (manifestFor lib schema engine now rels).schema ≤ schemaVersion := hschema
  rw [checkManifest, require_of hformat, require_of hkind, require_of hversion]
  refine forM_ok_iff.mpr ?_
  intro e he
  obtain ⟨t, ht, rfl⟩ := List.mem_map.mp he
  exact require_of (List.mem_map_of_mem ht) _

/-- So do its files. -/
theorem checkMembers_ok :
    backupTables.mapM (checkMember lib (manifestFor lib schema engine now rels)
        (filesFor lib schema engine now rels)) =
      .ok (backupTables.map fun t => (t.sql, ((rels t).rows.card : Int))) := by
  have hone : ∀ t ∈ backupTables,
      checkMember lib (manifestFor lib schema engine now rels)
          (filesFor lib schema engine now rels) t =
        .ok (t.sql, ((rels t).rows.card : Int)) := by
    intro t ht
    rw [checkMember, lookup_table lib schema engine now rels ht]
    dsimp only
    rw [lookup_member lib schema engine now rels ht]
    dsimp only
    rw [require_of (show (memberFor lib (rels t)).sha256 = lib.sha256 (lib.writeParquet (rels t))
        from rfl),
      require_of (show (memberFor lib (rels t)).bytes = lib.size (lib.writeParquet (rels t))
        from rfl)]
    rfl
  have hall : ∀ l : List TableName, (∀ t ∈ l, t ∈ backupTables) →
      l.mapM (checkMember lib (manifestFor lib schema engine now rels)
          (filesFor lib schema engine now rels)) =
        .ok (l.map fun t => (t.sql, ((rels t).rows.card : Int))) := by
    intro l hl
    induction l with
    | nil => rfl
    | cons t l ih =>
      rw [List.mapM_cons, hone t (hl t List.mem_cons_self),
        ih fun x hx => hl x (List.mem_cons_of_mem t hx)]
      rfl
  exact hall backupTables fun _ ht => ht

/-- Checking an archive of some tables finds the members that were packed. -/
theorem extract_filesFor (hlib : lib.Faithful) (hschema : schema ≤ schemaVersion)
    (hw : WithinLimits lib defaultArchiveLimits (lib.pack (filesFor lib schema engine now rels))
      (filesFor lib schema engine now rels)) :
    extractAndValidateWith lib defaultArchiveLimits (lib.pack (filesFor lib schema engine now rels)) =
      .ok {
        report := ⟨backupFormat, kind, schema, engine, now,
          lib.size (lib.pack (filesFor lib schema engine now rels)),
          backupTables.map fun t => (t.sql, ((rels t).rows.card : Int)), true⟩
        files := filesFor lib schema engine now rels
        expanded := ((filesFor lib schema engine now rels).map fun f => lib.size f.2).sum } := by
  have hunpack := hlib.pack (filesFor lib schema engine now rels)
  have hnames := names_filesFor lib schema engine now rels
  have hfold := unpack_ok hlib (by decide)
    (u := ⟨[], 0⟩)
    (by
      have hlen := congrArg List.length hnames
      rw [List.length_map] at hlen
      rw [List.length_nil, Nat.zero_add, hlen]
      decide)
    (by
      intro f hf
      have hmem : f.1 ∈ backupTables.map parquetName ++ [manifestName] := by
        rw [← hnames]
        exact List.mem_map_of_mem hf
      rcases List.mem_append.mp hmem with h | h
      · exact .inr h
      · exact .inl (List.mem_singleton.mp h))
    (by
      rw [List.nil_append, hnames]
      decide)
    hw.member
    (by
      rw [Nat.zero_add]
      exact hw.total)
  rw [List.nil_append, Nat.zero_add] at hfold
  have hmanifest : lib.size (lib.writeJson (manifestFor lib schema engine now rels)) ≤
      defaultArchiveLimits.manifest :=
    hw.member (manifestName, lib.writeJson (manifestFor lib schema engine now rels))
      (List.mem_append_right _ (List.mem_singleton.mpr rfl))
  rw [extractAndValidateWith, require_of hw.compressed, hunpack]
  simp only [bind, Except.bind, hfold, lookup_manifest, require_of hmanifest, hlib.json,
    checkManifest_ok lib schema engine now rels hschema, checkMembers_ok, pure, Except.pure]
  rfl

variable (db : Store)

/-- What is told of a table is told of the file that was written. -/
theorem memberOf_eq (t : TableName) : memberOf lib db t = memberFor lib (exportTable db t) := by
  rw [memberOf, memberFor, countRows, exportTable, Multiset.card_map]
  rfl

/-- What this build writes is the archive of its tables under their own columns. -/
theorem archiveFiles_eq :
    archiveFiles lib now db = filesFor lib schemaVersion engineVersion now (exportTable db) := by
  have hmembers : (backupTables.map fun t => (t.sql, memberOf lib db t)) =
      backupTables.map fun t => (t.sql, memberFor lib (exportTable db t)) :=
    List.map_congr_left fun t _ => congrArg (Prod.mk t.sql) (memberOf_eq lib db t)
  rw [archiveFiles, filesFor, manifestOf, hmembers]
  rfl

/-- Checking what this build wrote finds the members it wrote. -/
theorem extract_writeArchive (hlib : lib.Faithful)
    (hw : WithinLimits lib defaultArchiveLimits (writeArchive lib now db).1
      (archiveFiles lib now db)) :
    extractAndValidateWith lib defaultArchiveLimits (writeArchive lib now db).1 = .ok {
      report := ⟨backupFormat, kind, schemaVersion, engineVersion, now,
        lib.size (writeArchive lib now db).1,
        backupTables.map fun t => (t.sql, countRows db t), true⟩
      files := archiveFiles lib now db
      expanded := ((archiveFiles lib now db).map fun f => lib.size f.2).sum } := by
  have hpacked : (writeArchive lib now db).1 =
      lib.pack (filesFor lib schemaVersion engineVersion now (exportTable db)) := by
    rw [← archiveFiles_eq]
    rfl
  have hcounts : (backupTables.map fun t => (t.sql, countRows db t)) =
      backupTables.map fun t => (t.sql, ((exportTable db t).rows.card : Int)) :=
    List.map_congr_left fun t _ => congrArg (Prod.mk t.sql)
      (congrArg Nat.cast (Multiset.card_map _ _).symm)
  rw [hpacked, archiveFiles_eq] at hw ⊢
  rw [hcounts]
  exact extract_filesFor lib schemaVersion engineVersion now (exportTable db) hlib le_rfl hw

end Accepted

end Romi.BackupArchive
