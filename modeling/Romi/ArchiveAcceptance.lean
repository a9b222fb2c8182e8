import Romi.ArchiveExtraction

/-!
# Which archives are accepted

An archive is accepted exactly when its entries decode to the manifest and the
nine data files, each once and as a regular file of the declared size, all of it
within the limits, and the manifest agrees with them. The loop over the entries
is described by the files it has decoded so far; nothing else of its state
matters to what it does next.
-/

namespace Romi.ArchiveAcceptance

open ArchiveExtraction ArchiveTables CachedTransactions StoreSchema
open BackupArchive hiding unpackEntry

/-! ## Acceptable archives -/

/-- The entry is a regular file, read to its declared end. -/
structure Decodes (e : TarEntry) (f : String × Bytes) : Prop where
  /-- Its path can be read. -/
  path : e.path = .ok f.1
  /-- It is a regular file. -/
  isFile : e.isFile = true
  /-- It is not cut short. -/
  whole : e.broken = none
  /-- Its pieces together. -/
  data : e.chunks.flatten = f.2
  /-- Its header tells its length. -/
  declared : e.declared = f.2.length

/-- The manifest is one this build reads, names the nine tables and no other,
and agrees with the data files. -/
structure Matches (sha256 : Bytes → String) (files : List (String × Bytes)) (m : Manifest) : Prop where
  /-- The format is the program's. -/
  format : m.format = backupFormat
  /-- It is a backup. -/
  kind : m.kind = BackupArchive.kind
  /-- Its schema is not newer than the program's. -/
  schema : m.schema ≤ schemaVersion
  /-- It tells of each table and of nothing else. -/
  names : ∀ name, name ∈ m.tables.map Prod.fst ↔ name ∈ backupTables.map TableName.sql
  /-- What it tells of a table is true of its file. -/
  tables : ∀ t ∈ backupTables, ∀ data, files.lookup (parquetName t) = some data →
    ∃ member, m.tables.lookup t.sql = some member ∧ member.sha256 = sha256 data ∧
      member.bytes = data.length

/-- The archive decodes to these files, and they are a backup. -/
structure Acceptable (limits : ArchiveLimits) (sha256 : Bytes → String)
    (parse : Bytes → Option Manifest) (src : Stream) (files : List (String × Bytes)) : Prop where
  /-- It is short enough as it was sent. -/
  compressed : src.compressed ≤ limits.compressed
  /-- It can be opened. -/
  opens : src.opens = .ok ()
  /-- It is not cut short. -/
  whole : src.broken = none
  /-- Its entries are these files. -/
  entries : List.Forall₂ Decodes src.entries files
  /-- The manifest and the nine data files, each once. -/
  names : (files.map Prod.fst).Perm memberNames
  /-- They are not too many. -/
  count : files.length ≤ limits.members
  /-- None is too long. -/
  member : ∀ f ∈ files, f.2.length ≤ limits.limitOf f.1
  /-- Nor are they together. -/
  total : stored files ≤ limits.total
  /-- The running total is a `u64`. -/
  counter : stored files ≤ u64Max
  /-- Its manifest can be read and is true. -/
  manifest : ∃ text m, files.lookup manifestName = some text ∧ parse text = some m ∧
    Matches sha256 files m

/-- Nothing fails while the entry is stored. -/
structure Stores (faults : DiskFaults) (e : TarEntry) (f : String × Bytes) : Prop where
  /-- The file can be created. -/
  create : faults.create f.1 = none
  /-- Each piece can be written. -/
  write : ∀ i < e.chunks.length, faults.write f.1 i = none
  /-- The file can be flushed. -/
  flush : faults.flush f.1 = none

/-- The filesystem does what it is asked. -/
structure DiskWorks (faults : DiskFaults) (src : Stream) (files : List (String × Bytes)) : Prop where
  /-- Every file can be stored. -/
  entries : List.Forall₂ (Stores faults) src.entries files
  /-- Every stored file can be read back. -/
  read : ∀ name ∈ memberNames, faults.read name = none
  /-- And its length be asked for. -/
  metadata : ∀ name ∈ memberNames, faults.metadata name = none

section Loop

variable {limits : ArchiveLimits} {faults : DiskFaults}

/-! ## One member -/

/-- A member is copied when all of it fits, all of it could be read and all of
it could be written. -/
theorem copyChunks_ok_iff {name : String} {broken : Option Failure} {k : Nat} {chunks : List Bytes}
    {written expanded : Nat} {out : Bytes} (hmember : written ≤ limits.limitOf name)
    (hcounter : expanded ≤ u64Max) (htotal : expanded ≤ limits.total) (w x : Nat) :
    (copyChunks limits faults name broken k chunks written expanded out).1 = .ok (w, x) ↔
      broken = none ∧ (∀ i < chunks.length, faults.write name (k + i) = none) ∧
      w = written + chunks.flatten.length ∧ x = expanded + chunks.flatten.length ∧
      w ≤ limits.limitOf name ∧ x ≤ u64Max ∧ x ≤ limits.total := by
  induction chunks generalizing k written expanded out with
  | nil =>
    unfold copyChunks
    cases broken with
    | some e => exact ⟨fun h => (by cases h), fun h => by cases h.1⟩
    | none =>
      dsimp only
      simp only [Except.ok.injEq, Prod.mk.injEq, List.flatten_nil, List.length_nil, Nat.add_zero,
        Nat.not_lt_zero, false_imp_iff, implies_true, true_and]
      constructor
      · rintro ⟨rfl, rfl⟩
        exact ⟨rfl, rfl, hmember, hcounter, htotal⟩
      · rintro ⟨rfl, rfl, -⟩
        exact ⟨rfl, rfl⟩
  | cons c rest ih =>
    rw [List.flatten_cons, List.length_append]
    unfold copyChunks
    dsimp only
    split
    · rename_i err hcheck
      refine ⟨fun h => (by cases h), ?_⟩
      rintro ⟨-, -, rfl, rfl, hfits, hcount, hwhole⟩
      rw [require_of (by omega), require_of (by omega), require_of (by omega)] at hcheck
      cases hcheck
    · rename_i hcheck
      obtain ⟨_, hfits, hcheck⟩ := bind_eq_ok.mp hcheck
      obtain ⟨_, hcount, hwhole⟩ := bind_eq_ok.mp hcheck
      have hfits := require_ok hfits
      have hcount := require_ok hcount
      have hwhole := require_ok hwhole
      split
      · rename_i n e hwrite
        refine ⟨fun h => (by cases h), ?_⟩
        rintro ⟨-, hwrites, -⟩
        have hzero := hwrites 0 (Nat.succ_pos _)
        rw [Nat.add_zero, hwrite] at hzero
        cases hzero
      · rename_i hwrite
        rw [ih hfits hcount hwhole, Nat.add_assoc, Nat.add_assoc]
        refine and_congr_right fun _ => and_congr_left fun _ => ?_
        constructor
        · intro hwrites i hi
          cases i with
          | zero => exact hwrite
          | succ i =>
            have hlater := hwrites i (Nat.lt_of_succ_lt_succ hi)
            rwa [Nat.add_assoc, Nat.add_comm 1] at hlater
        · intro hwrites i hi
          have hlater := hwrites (i + 1) (Nat.succ_lt_succ hi)
          rwa [Nat.add_assoc, Nat.add_comm 1]

/-- Then the file holds it. -/
theorem copyChunks_out {name : String} {broken : Option Failure} {k : Nat} {chunks : List Bytes}
    {written expanded : Nat} {out : Bytes} {done : Nat × Nat}
    (h : (copyChunks limits faults name broken k chunks written expanded out).1 = .ok done) :
    (copyChunks limits faults name broken k chunks written expanded out).2 =
      out ++ chunks.flatten := by
  induction chunks generalizing k written expanded out with
  | nil =>
    unfold copyChunks
    cases broken <;> exact (List.append_nil out).symm
  | cons c rest ih =>
    unfold copyChunks at h ⊢
    dsimp only at h ⊢
    split at h
    · cases h
    · split at h
      · cases h
      · rw [ih h, List.append_assoc, List.flatten_cons]

/-! ## The loop over the entries -/

/-- The loop after it has decoded these files. -/
def progressOf (done : List (String × Bytes)) : Progress :=
  ⟨done.length, done.map Prod.fst, stored done, done⟩

/-- One more file is unpacked. -/
theorem progressOf_append (done : List (String × Bytes)) (f : String × Bytes) :
    progressOf (done ++ [f]) =
      ⟨done.length + 1, done.map Prod.fst ++ [f.1], stored done + f.2.length, done ++ [f]⟩ := by
  rw [progressOf, stored_append, List.map_append, List.length_append]
  rfl

/-- Files that the loop can have decoded. -/
structure Fits (limits : ArchiveLimits) (files : List (String × Bytes)) : Prop where
  /-- Every file is one a backup has. -/
  known : ∀ f ∈ files, f.1 ∈ memberNames
  /-- None is there twice. -/
  once : (files.map Prod.fst).Nodup
  /-- They are not too many. -/
  count : files.length ≤ limits.members
  /-- None is too long. -/
  member : ∀ f ∈ files, f.2.length ≤ limits.limitOf f.1
  /-- Nor are they together. -/
  total : stored files ≤ limits.total
  /-- Their length can be counted. -/
  counter : stored files ≤ u64Max

/-- No files at all fit. -/
theorem fits_nil (limits : ArchiveLimits) : Fits limits [] :=
  ⟨nofun, List.nodup_nil, Nat.zero_le _, nofun, Nat.zero_le _, Nat.zero_le _⟩

/-- Two lists of files are as long as both. -/
theorem stored_left (files more : List (String × Bytes)) :
    stored (files ++ more) = stored files + stored more := by
  rw [stored, List.map_append, List.sum_append]
  rfl

/-- So could the loop have before the last of them. -/
theorem Fits.left {files more : List (String × Bytes)} (h : Fits limits (files ++ more)) :
    Fits limits files := by
  have hsum := stored_left files more
  have hlength := @List.length_append _ files more
  have hcount := h.count
  have htotal := h.total
  have hcounter := h.counter
  refine ⟨?_, ?_, by omega, ?_, by omega, by omega⟩
  · intro f hf
    exact h.known f (List.mem_append_left more hf)
  · have honce := h.once
    rw [List.map_append] at honce
    exact (List.nodup_append.mp honce).1
  · intro f hf
    exact h.member f (List.mem_append_left more hf)

/-- What is checked before a file is created. -/
theorem checkEntry_ok_iff {done : List (String × Bytes)} {e : TarEntry} {name : String} :
    checkEntry limits { progressOf done with count := done.length + 1 } e = .ok name ↔
      e.path = .ok name ∧ e.isFile = true ∧ name ∈ memberNames ∧ name ∉ done.map Prod.fst ∧
        e.declared ≤ limits.limitOf name ∧ done.length + 1 ≤ limits.members := by
  refine ⟨checkEntry_ok, ?_⟩
  rintro ⟨hpath, hfile, hknown, hfresh, hsize, hcount⟩
  have hknown' : name = manifestName ∨ name ∈ backupTables.map parquetName :=
    List.mem_cons.mp hknown
  rw [checkEntry, require_of hcount, hpath]
  simp only [bind, Except.bind]
  rw [require_of hfile]
  dsimp only
  rw [require_of (known_safe hknown'), require_of hknown']
  dsimp only
  rw [require_of (show name ∉ (progressOf done).members from hfresh), require_of hsize]
  rfl

/-- What the last of some files has to meet. -/
theorem fits_last {done : List (String × Bytes)} {f : String × Bytes} (h : Fits limits done) :
    Fits limits (done ++ [f]) ↔ f.1 ∈ memberNames ∧ f.1 ∉ done.map Prod.fst ∧
      done.length + 1 ≤ limits.members ∧ f.2.length ≤ limits.limitOf f.1 ∧
      stored done + f.2.length ≤ limits.total ∧ stored done + f.2.length ≤ u64Max := by
  have hstored := stored_append done f
  have hlength : (done ++ [f]).length = done.length + 1 := List.length_append
  have hlast : f ∈ done ++ [f] := List.mem_append_right done (List.mem_singleton.mpr rfl)
  constructor
  · intro hfits
    have hcount := hfits.count
    have htotal := hfits.total
    have hcounter := hfits.counter
    refine ⟨hfits.known f hlast, ?_, by omega, hfits.member f hlast, by omega, by omega⟩
    intro hmem
    have honce := hfits.once
    rw [List.map_append, List.map_cons, List.map_nil] at honce
    exact (List.nodup_append.mp honce).2.2 f.1 hmem f.1 (List.mem_singleton.mpr rfl) rfl
  · rintro ⟨hknown, hfresh, hcount, hmember, htotal, hcounter⟩
    refine ⟨?_, ?_, by omega, ?_, by omega, by omega⟩
    · intro x hx
      rcases List.mem_append.mp hx with hx | hx
      · exact h.known x hx
      · rw [List.mem_singleton.mp hx]
        exact hknown
    · rw [List.map_append, List.map_cons, List.map_nil]
      refine List.nodup_append.mpr ⟨h.once, List.nodup_singleton f.1, ?_⟩
      intro n hn m hm hnm
      rw [List.mem_singleton.mp hm] at hnm
      rw [hnm] at hn
      exact hfresh hn
    · intro x hx
      rcases List.mem_append.mp hx with hx | hx
      · exact h.member x hx
      · rw [List.mem_singleton.mp hx]
        exact hmember

/-- A round that succeeds has decoded one more file. -/
theorem unpackEntry_ok {done : List (String × Bytes)} (h : Fits limits done) {e : TarEntry}
    (hok : (unpackEntry limits faults (progressOf done) e).1 = .ok ()) :
    ∃ f, Decodes e f ∧ Stores faults e f ∧ Fits limits (done ++ [f]) ∧
      (unpackEntry limits faults (progressOf done) e).2 = progressOf (done ++ [f]) := by
  unfold unpackEntry at hok ⊢
  dsimp only at hok ⊢
  split at hok
  · cases hok
  · rename_i name hname
    obtain ⟨hpath, hfile, hknown, hfresh, hsize, hcount⟩ := checkEntry_ok_iff.mp hname
    split at hok
    · cases hok
    · rename_i hcreate
      have hout := @copyChunks_out limits faults name e.broken 0 e.chunks 0 (stored done) []
      have hcopy := @copyChunks_ok_iff limits faults name e.broken 0 e.chunks 0 (stored done) []
        (Nat.zero_le _) h.counter h.total
      change (_ : Except Failure Unit × Progress).1 = _ at hok
      generalize hcopied : copyChunks limits faults name e.broken 0 e.chunks 0
        (progressOf done).expanded [] = copied at hok
      change copyChunks limits faults name e.broken 0 e.chunks 0 (stored done) [] = copied at hcopied
      rw [hcopied] at hout hcopy
      obtain ⟨outcome, out⟩ := copied
      cases outcome with
      | error err => cases hok
      | ok counted =>
        obtain ⟨written, expanded⟩ := counted
        obtain ⟨hwhole, hwrites, hwritten, hexpanded, hmember, hcounter, htotal⟩ :=
          (hcopy written expanded).mp rfl
        have hdata := hout rfl
        dsimp only at hok hdata
        split at hok
        · rename_i hdeclared
          split at hok
          · cases hok
          · rename_i hflush
            rw [List.nil_append] at hdata
            simp only [Nat.zero_add] at hwritten hwrites
            refine ⟨(name, e.chunks.flatten), ⟨hpath, hfile, hwhole, rfl, ?_⟩,
              ⟨hcreate, hwrites, hflush⟩, ?_, ?_⟩
            · exact hdeclared.symm.trans hwritten
            · refine (fits_last h).mpr ⟨hknown, hfresh, hcount, ?_, ?_, ?_⟩
              · exact hwritten ▸ hmember
              · exact hexpanded ▸ htotal
              · exact hexpanded ▸ hcounter
            · dsimp only
              rw [if_pos hdeclared, hdata, hexpanded]
              exact (progressOf_append done (name, e.chunks.flatten)).symm
        · cases hok

/-- A round that can decode its entry does. -/
theorem unpackEntry_of {done : List (String × Bytes)} (h : Fits limits done) {e : TarEntry}
    {f : String × Bytes} (hdecodes : Decodes e f) (hstores : Stores faults e f)
    (hfits : Fits limits (done ++ [f])) :
    unpackEntry limits faults (progressOf done) e = (.ok (), progressOf (done ++ [f])) := by
  obtain ⟨hknown, hfresh, hcount, hmember, htotal, hcounter⟩ := (fits_last h).mp hfits
  have hcheck : checkEntry limits { progressOf done with count := done.length + 1 } e = .ok f.1 :=
    checkEntry_ok_iff.mpr ⟨hdecodes.path, hdecodes.isFile, hknown, hfresh,
      hdecodes.declared ▸ hmember, hcount⟩
  have hcopy := (@copyChunks_ok_iff limits faults f.1 e.broken 0 e.chunks 0 (stored done) []
    (Nat.zero_le _) h.counter h.total f.2.length (stored done + f.2.length)).mpr (by
      rw [hdecodes.data, Nat.zero_add]
      refine ⟨hdecodes.whole, ?_, rfl, rfl, hmember, hcounter, htotal⟩
      intro i hi
      rw [Nat.zero_add]
      exact hstores.write i hi)
  have hout := copyChunks_out hcopy
  rw [List.nil_append, hdecodes.data] at hout
  have hcopied : copyChunks limits faults f.1 e.broken 0 e.chunks 0 (progressOf done).expanded [] =
      (.ok (f.2.length, stored done + f.2.length), f.2) := Prod.ext hcopy hout
  unfold unpackEntry
  dsimp only
  have hentry : checkEntry limits { progressOf done with count := (progressOf done).count + 1 } e
      = .ok f.1 := hcheck
  rw [hentry]
  dsimp only
  rw [hstores.create]
  dsimp only
  rw [hcopied]
  dsimp only
  rw [if_pos hdecodes.declared.symm, hstores.flush]
  exact congrArg _ (progressOf_append done f).symm

/-- The loop succeeds on entries that decode, and only on them. -/
theorem unpackEntries_ok {broken : Option Failure} {entries : List TarEntry}
    {done : List (String × Bytes)} (h : Fits limits done)
    (hok : (unpackEntries limits faults broken entries (progressOf done)).1 = .ok ()) :
    broken = none ∧ ∃ files, List.Forall₂ Decodes entries files ∧
      List.Forall₂ (Stores faults) entries files ∧ Fits limits (done ++ files) ∧
      (unpackEntries limits faults broken entries (progressOf done)).2 = progressOf (done ++ files) := by
  induction entries generalizing done with
  | nil =>
    unfold unpackEntries at hok ⊢
    cases broken with
    | some e => cases hok
    | none => exact ⟨rfl, [], .nil, .nil, (List.append_nil done).symm ▸ h, by rw [List.append_nil]⟩
  | cons e rest ih =>
    have hround := @unpackEntry_ok limits faults done h e
    unfold unpackEntries at hok ⊢
    generalize unpackEntry limits faults (progressOf done) e = result at hround hok
    obtain ⟨outcome, s⟩ := result
    cases outcome with
    | error err => cases hok
    | ok u =>
      obtain ⟨f, hdecodes, hstores, hfits, hs⟩ := hround rfl
      dsimp only at hs hok
      subst hs
      obtain ⟨hwhole, files, hall, hstored, hfiles, hend⟩ := ih hfits hok
      rw [List.append_assoc] at hfiles hend
      exact ⟨hwhole, f :: files, .cons hdecodes hall, .cons hstores hstored, hfiles, hend⟩

/-- Entries that decode, can be stored and fit are all unpacked. -/
theorem unpackEntries_of {entries : List TarEntry} {files done : List (String × Bytes)}
    (hdecodes : List.Forall₂ Decodes entries files)
    (hstores : List.Forall₂ (Stores faults) entries files) (h : Fits limits (done ++ files)) :
    unpackEntries limits faults none entries (progressOf done) =
      (.ok (), progressOf (done ++ files)) := by
  induction hdecodes generalizing done with
  | nil => rw [unpackEntries, List.append_nil]
  | @cons e f rest files hdecode hrest ih =>
    cases hstores with
    | cons hstore hstores =>
      have happend : done ++ f :: files = done ++ [f] ++ files := by
        rw [List.append_assoc, List.singleton_append]
      rw [happend] at h ⊢
      rw [unpackEntries, unpackEntry_of h.left.left hdecode hstore h.left]
      exact ih hstores h

end Loop

/-! ## The second pass -/

section Checks

variable {limits : ArchiveLimits} {faults : DiskFaults} {sha256 : Bytes → String}
  {parse : Bytes → Option Manifest}

/-- A file is read where it was stored and the disk does not fail. -/
theorem fileOf_ok_iff {fault : String → Option Failure} {files : List (String × Bytes)}
    {name : String} {data : Bytes} :
    fileOf fault files name = .ok data ↔ fault name = none ∧ files.lookup name = some data := by
  unfold fileOf
  cases fault name with
  | some e => exact ⟨nofun, fun h => nomatch h.1⟩
  | none =>
    cases files.lookup name with
    | none => exact ⟨nofun, fun h => nomatch h.2⟩
    | some d => simp only [Except.ok.injEq, Option.some.injEq, true_and]

/-- What the check of the manifest asks for. -/
theorem checkManifest_ok_iff {m : Manifest} : checkManifest m = .ok () ↔
    m.format = backupFormat ∧ m.kind = BackupArchive.kind ∧ m.schema ≤ schemaVersion ∧
      ∀ entry ∈ m.tables, entry.1 ∈ backupTables.map TableName.sql := by
  constructor
  · intro h
    obtain ⟨_, hformat, h⟩ := bind_eq_ok.mp h
    obtain ⟨_, hkind, h⟩ := bind_eq_ok.mp h
    obtain ⟨_, hschema, h⟩ := bind_eq_ok.mp h
    refine ⟨require_ok hformat, require_ok hkind, require_ok hschema, ?_⟩
    intro entry hentry
    exact require_ok (forM_ok_iff.mp h entry hentry)
  · rintro ⟨hformat, hkind, hschema, hnames⟩
    rw [checkManifest, require_of hformat, require_of hkind, require_of hschema]
    exact forM_ok_iff.mpr fun entry hentry => require_of (hnames entry hentry) _

/-- One data file agrees with the manifest. -/
def Agrees (sha256 : Bytes → String) (files : List (String × Bytes)) (m : Manifest)
    (t : TableName) : Prop :=
  ∃ data member, files.lookup (parquetName t) = some data ∧
    m.tables.lookup t.sql = some member ∧ member.sha256 = sha256 data ∧ member.bytes = data.length

/-- A file that is found is one of them. -/
theorem lookup_mem {files : List (String × Bytes)} {name : String} {data : Bytes}
    (h : files.lookup name = some data) : (name, data) ∈ files := by
  obtain ⟨before, after, rfl, -⟩ := List.lookup_eq_some_iff.mp h
  exact List.mem_append_right before List.mem_cons_self

/-- And its name is among theirs. -/
theorem lookup_name {files : List (String × Bytes)} {name : String} {data : Bytes}
    (h : files.lookup name = some data) : name ∈ files.map Prod.fst :=
  List.mem_map_of_mem (lookup_mem h)

/-- What the check of a table asks for. -/
theorem checkTable_ok_iff {m : Manifest} {files : List (String × Bytes)} {t : TableName} :
    (∃ row, checkTable faults sha256 m (progressOf files) t = .ok row) ↔
      faults.read (parquetName t) = none ∧ faults.metadata (parquetName t) = none ∧
        Agrees sha256 files m t := by
  constructor
  · rintro ⟨row, h⟩
    obtain ⟨_, -, h⟩ := bind_eq_ok.mp h
    split at h
    · cases h
    · rename_i member hmember
      obtain ⟨data, hdata, h⟩ := bind_eq_ok.mp h
      obtain ⟨_, hdigest, h⟩ := bind_eq_ok.mp h
      obtain ⟨again, hagain, h⟩ := bind_eq_ok.mp h
      obtain ⟨_, hbytes, -⟩ := bind_eq_ok.mp h
      obtain ⟨hread, hdata⟩ := fileOf_ok_iff.mp hdata
      obtain ⟨hmetadata, hagain⟩ := fileOf_ok_iff.mp hagain
      obtain rfl : data = again := Option.some.inj (hdata.symm.trans hagain)
      exact ⟨hread, hmetadata, data, member, hdata, hmember, require_ok hdigest, require_ok hbytes⟩
  · rintro ⟨hread, hmetadata, data, member, hdata, hmember, hdigest, hbytes⟩
    refine ⟨(t.sql, member.rows), ?_⟩
    rw [checkTable, require_of (show parquetName t ∈ (progressOf files).members from lookup_name hdata),
      hmember]
    refine bind_eq_ok.mpr ⟨(), rfl, ?_⟩
    refine bind_eq_ok.mpr ⟨data, fileOf_ok_iff.mpr ⟨hread, hdata⟩, ?_⟩
    refine bind_eq_ok.mpr ⟨(), require_of hdigest _, ?_⟩
    refine bind_eq_ok.mpr ⟨data, fileOf_ok_iff.mpr ⟨hmetadata, hdata⟩, ?_⟩
    exact bind_eq_ok.mpr ⟨(), require_of hbytes _, rfl⟩

/-- The second pass succeeds when the ten files are there and agree. -/
theorem validate_ok_iff {compressed : Nat} {files : List (String × Bytes)} (h : Fits limits files) :
    (∃ r, validate limits faults sha256 parse compressed (progressOf files) = .ok r) ↔
      (∃ text m, files.lookup manifestName = some text ∧ parse text = some m ∧
        checkManifest m = .ok () ∧ ∀ t ∈ backupTables, Agrees sha256 files m t) ∧
      (∀ name ∈ memberNames, faults.read name = none) ∧
      ∀ name ∈ memberNames, faults.metadata name = none := by
  have hmembers : ∀ {p : String → Prop}, (∀ name ∈ memberNames, p name) ↔
      p manifestName ∧ ∀ t ∈ backupTables, p (parquetName t) := by
    intro p
    rw [memberNames, List.forall_mem_cons, List.forall_mem_map]
  rw [hmembers, hmembers]
  constructor
  · rintro ⟨r, hok⟩
    obtain ⟨_, -, hok⟩ := bind_eq_ok.mp hok
    obtain ⟨size, hsize, hok⟩ := bind_eq_ok.mp hok
    obtain ⟨_, -, hok⟩ := bind_eq_ok.mp hok
    obtain ⟨text, htext, hok⟩ := bind_eq_ok.mp hok
    obtain ⟨hmetadata, -⟩ := fileOf_ok_iff.mp hsize
    obtain ⟨hread, htext⟩ := fileOf_ok_iff.mp htext
    split at hok
    · cases hok
    · rename_i m hm
      obtain ⟨_, hcheck, hok⟩ := bind_eq_ok.mp hok
      obtain ⟨rows, hrows, -⟩ := bind_eq_ok.mp hok
      have htables := mapM_ok_iff.mp ⟨rows, hrows⟩
      refine ⟨⟨text, m, htext, hm, hcheck, ?_⟩, ⟨hread, ?_⟩, hmetadata, ?_⟩
      · intro t ht
        exact (checkTable_ok_iff.mp (htables t ht)).2.2
      · intro t ht
        exact (checkTable_ok_iff.mp (htables t ht)).1
      · intro t ht
        exact (checkTable_ok_iff.mp (htables t ht)).2.1
  · rintro ⟨⟨text, m, htext, hm, hcheck, hagrees⟩, ⟨hread, hreads⟩, hmetadata, hmetadatas⟩
    obtain ⟨rows, hrows⟩ := mapM_ok_iff.mpr fun t ht =>
      checkTable_ok_iff.mpr ⟨hreads t ht, hmetadatas t ht, hagrees t ht⟩
    have hname := lookup_name htext
    have hsize : text.length ≤ limits.manifest := by
      have hlimit := h.member (manifestName, text) (lookup_mem htext)
      rwa [ArchiveLimits.limitOf, if_pos rfl] at hlimit
    refine ⟨(⟨m.format, m.kind, m.schema, m.engine, m.createdAt, compressed, rows, true⟩,
      (progressOf files).expanded), ?_⟩
    refine bind_eq_ok.mpr ⟨(), require_of hname _, ?_⟩
    refine bind_eq_ok.mpr ⟨text, fileOf_ok_iff.mpr ⟨hmetadata, htext⟩, ?_⟩
    refine bind_eq_ok.mpr ⟨(), require_of hsize _, ?_⟩
    refine bind_eq_ok.mpr ⟨text, fileOf_ok_iff.mpr ⟨hread, htext⟩, ?_⟩
    rw [hm]
    refine bind_eq_ok.mpr ⟨(), hcheck, ?_⟩
    exact bind_eq_ok.mpr ⟨rows, hrows, rfl⟩

/-- Ten files with known names, each once and all of them there. -/
theorem names_perm {files : List (String × Bytes)} (h : Fits limits files) :
    (files.map Prod.fst).Perm memberNames ↔ ∀ name ∈ memberNames, name ∈ files.map Prod.fst := by
  have hnodup : memberNames.Nodup := by decide
  rw [List.perm_ext_iff_of_nodup h.once hnodup]
  constructor
  · intro hperm name hname
    exact (hperm name).mpr hname
  · intro hall name
    refine ⟨?_, hall name⟩
    intro hname
    obtain ⟨f, hf, rfl⟩ := List.mem_map.mp hname
    exact h.known f hf

/-- The manifest's own checks and those of the tables, taken together. -/
theorem matches_iff {files : List (String × Bytes)} {m : Manifest} :
    (checkManifest m = .ok () ∧ ∀ t ∈ backupTables, Agrees sha256 files m t) ↔
      Matches sha256 files m ∧ ∀ t ∈ backupTables, parquetName t ∈ files.map Prod.fst := by
  rw [checkManifest_ok_iff]
  constructor
  · rintro ⟨⟨hformat, hkind, hschema, hnames⟩, hagrees⟩
    refine ⟨⟨hformat, hkind, hschema, ?_, ?_⟩, ?_⟩
    · intro name
      constructor
      · intro hname
        obtain ⟨entry, hentry, rfl⟩ := List.mem_map.mp hname
        exact hnames entry hentry
      · intro hname
        obtain ⟨t, ht, rfl⟩ := List.mem_map.mp hname
        obtain ⟨-, member, -, hmember, -⟩ := hagrees t ht
        obtain ⟨before, after, htables, -⟩ := List.lookup_eq_some_iff.mp hmember
        rw [htables, List.map_append, List.map_cons]
        exact List.mem_append_right _ List.mem_cons_self
    · intro t ht data hdata
      obtain ⟨data', member, hdata', hmember, hdigest, hbytes⟩ := hagrees t ht
      obtain rfl : data = data' := Option.some.inj (hdata.symm.trans hdata')
      exact ⟨member, hmember, hdigest, hbytes⟩
    · intro t ht
      obtain ⟨data, member, hdata, -⟩ := hagrees t ht
      exact lookup_name hdata
  · rintro ⟨h, hpresent⟩
    refine ⟨⟨h.format, h.kind, h.schema, ?_⟩, ?_⟩
    · intro entry hentry
      exact (h.names entry.1).mp (List.mem_map_of_mem hentry)
    · intro t ht
      obtain ⟨f, hf, hname⟩ := List.mem_map.mp (hpresent t ht)
      have hsome : (files.lookup (parquetName t)).isSome :=
        List.lookup_isSome_iff.mpr ⟨f, hf, beq_iff_eq.mpr hname.symm⟩
      obtain ⟨data, hdata⟩ := Option.isSome_iff_exists.mp hsome
      obtain ⟨member, hmember, hdigest, hbytes⟩ := h.tables t ht data hdata
      exact ⟨data, member, hdata, hmember, hdigest, hbytes⟩

/-- An archive is accepted exactly when it is a backup and the filesystem does
what it is asked; and whatever the archive is and whatever fails, nothing but
known members within their limits has been written. -/
theorem extraction_exact (limits : ArchiveLimits) (faults : DiskFaults) (sha256 : Bytes → String)
    (parse : Bytes → Option Manifest) (src : Stream) :
    ((∃ r, (extractAndValidate limits faults sha256 parse src).1 = .ok r) ↔
      ∃ files, Acceptable limits sha256 parse src files ∧ DiskWorks faults src files) ∧
    Contained limits (extractAndValidate limits faults sha256 parse src).2 := by
  refine ⟨?_, extract_contained sha256 parse src⟩
  have hmanifest : manifestName ∈ memberNames := List.mem_cons_self
  have htable : ∀ t ∈ backupTables, parquetName t ∈ memberNames := fun t ht =>
    List.mem_cons_of_mem _ (List.mem_map_of_mem ht)
  have hstart : (⟨0, [], 0, []⟩ : Progress) = progressOf [] := rfl
  unfold extractAndValidate
  rw [hstart]
  dsimp only
  constructor
  · rintro ⟨r, hok⟩
    split at hok
    · cases hok
    · rename_i hcheck
      obtain ⟨_, hcompressed, hopens⟩ := bind_eq_ok.mp hcheck
      have hloop := @unpackEntries_ok limits faults src.broken src.entries [] (fits_nil limits)
      generalize unpackEntries limits faults src.broken src.entries (progressOf []) = result at hloop hok
      obtain ⟨outcome, s⟩ := result
      cases outcome with
      | error e => cases hok
      | ok u =>
        obtain ⟨hwhole, files, hdecodes, hstores, hfits, hs⟩ := hloop rfl
        rw [List.nil_append] at hfits hs
        dsimp only at hs hok
        subst hs
        obtain ⟨⟨text, m, htext, hm, hagrees⟩, hread, hmetadata⟩ :=
          (validate_ok_iff hfits).mp ⟨r, hok⟩
        obtain ⟨hmatches, htables⟩ := matches_iff.mp hagrees
        refine ⟨files, ⟨require_ok hcompressed, hopens, hwhole, hdecodes, ?_, hfits.count,
          hfits.member, hfits.total, hfits.counter, text, m, htext, hm, hmatches⟩,
          hstores, hread, hmetadata⟩
        refine (names_perm hfits).mpr ?_
        rw [memberNames, List.forall_mem_cons, List.forall_mem_map]
        exact ⟨lookup_name htext, htables⟩
  · rintro ⟨files, hfiles, hdisk⟩
    obtain ⟨text, m, htext, hm, hmatches⟩ := hfiles.manifest
    have hfits : Fits limits files := by
      refine ⟨?_, ?_, hfiles.count, hfiles.member, hfiles.total, hfiles.counter⟩
      · intro f hf
        exact hfiles.names.mem_iff.mp (List.mem_map_of_mem hf)
      · have hnodup : memberNames.Nodup := by decide
        exact hfiles.names.nodup_iff.mpr hnodup
    have hpresent : ∀ t ∈ backupTables, parquetName t ∈ files.map Prod.fst := fun t ht =>
      hfiles.names.mem_iff.mpr (htable t ht)
    obtain ⟨r, hr⟩ := (@validate_ok_iff limits faults sha256 parse src.compressed files hfits).mpr
      ⟨⟨text, m, htext, hm, matches_iff.mpr ⟨hmatches, hpresent⟩⟩, hdisk.read, hdisk.metadata⟩
    have hloop := @unpackEntries_of limits faults src.entries files [] hfiles.entries hdisk.entries
      hfits
    refine ⟨r, ?_⟩
    rw [require_of hfiles.compressed, hfiles.opens, hfiles.whole, hloop, List.nil_append]
    exact hr

end Checks

/-! ## Archives that were packed -/

/-- A disk that refuses nothing. -/
def noFaults : DiskFaults :=
  ⟨fun _ => none, fun _ _ => none, fun _ => none, fun _ => none, fun _ => none⟩

/-- The decoder hands out an entry as it was packed. -/
structure HandsOut (lib : Libraries Bytes) (e : TarEntry) (x : Entry Bytes) : Prop where
  /-- Under this path. -/
  path : e.path = .ok x.name
  /-- As a file or not. -/
  isFile : e.isFile = x.isFile
  /-- With this length in its header. -/
  declared : e.declared = x.declared
  /-- Not cut short. -/
  whole : e.broken = none
  /-- These bytes. -/
  data : e.chunks.flatten = x.data
  /-- In the pieces the library reads them in. -/
  reads : e.chunks.map List.length = lib.reads x.data

/-- The stream of an archive that unpacks. -/
structure StreamOf (lib : Libraries Bytes) (archive : Bytes) (entries : List (Entry Bytes))
    (src : Stream) : Prop where
  /-- It is as long as the archive. -/
  compressed : src.compressed = lib.size archive
  /-- It can be opened. -/
  opens : src.opens = .ok ()
  /-- The library finds these entries in it. -/
  unpacks : lib.unpack archive = some entries
  /-- The stream hands out just these. -/
  entries : List.Forall₂ (HandsOut lib) src.entries entries
  /-- It is not cut short. -/
  whole : src.broken = none

section Agreement

variable {lib : Libraries Bytes} (limits : ArchiveLimits)

/-- On a disk that does not fail the bounds decide, as they do over lengths alone. -/
theorem copyChunks_copyMember {name : String} {k : Nat} {chunks : List Bytes}
    {written expanded : Nat} {out : Bytes} :
    (copyChunks limits noFaults name none k chunks written expanded out).1 =
      copyMember name (limits.limitOf name) limits.total (chunks.map List.length) written
        expanded := by
  induction chunks generalizing k written expanded out with
  | nil => rfl
  | cons c rest ih =>
    rw [List.map_cons]
    unfold copyChunks copyMember
    dsimp only
    by_cases hfits : written + c.length ≤ limits.limitOf name
    · rw [require_of hfits]
      by_cases hcount : expanded + c.length ≤ u64Max
      · rw [require_of hcount]
        by_cases hwhole : expanded + c.length ≤ limits.total
        · rw [require_of hwhole]
          exact ih
        · rw [require, if_neg hwhole]
          rfl
      · rw [require, if_neg hcount]
        rfl
    · rw [require, if_neg hfits]
      rfl

/-- Both descriptions of a round check the same things in the same order. -/
theorem packedEntry_eq {e : TarEntry} {x : Entry Bytes} (h : HandsOut lib e x)
    (u : Unpacked Bytes) :
    BackupArchive.unpackEntry lib limits u x =
      checkEntry limits { progressOf u.files with count := u.files.length + 1 } e >>= fun name =>
        copyMember name (limits.limitOf name) limits.total (lib.reads x.data) 0 u.expanded >>=
          fun copied => require (copied.1 = x.declared) s!"{name} 的实际大小与归档记录不符" >>=
            fun _ => pure ⟨u.files ++ [(name, x.data)], copied.2⟩ := by
  rw [BackupArchive.unpackEntry, checkEntry, h.path, h.isFile, h.declared]
  simp only [bind_assoc]
  rfl

/-- A round does what it does to the packed entry. -/
theorem unpackEntry_agrees {e : TarEntry} {x : Entry Bytes} (h : HandsOut lib e x)
    {done : List (String × Bytes)} (hdone : Fits limits done) :
    BackupArchive.unpackEntry lib limits ⟨done, stored done⟩ x =
      (unpackEntry limits noFaults (progressOf done) e).1.map fun _ =>
        ⟨done ++ [(x.name, x.data)], stored (done ++ [(x.name, x.data)])⟩ := by
  rw [packedEntry_eq limits h]
  unfold unpackEntry
  dsimp only
  change checkEntry limits { progressOf done with count := done.length + 1 } e >>= _ = Except.map _
    (_ : Except Failure Unit × Progress).1
  generalize hcheck : checkEntry limits { progressOf done with count := done.length + 1 } e = check
  change checkEntry limits { progressOf done with count := (progressOf done).count + 1 } e =
    check at hcheck
  rw [hcheck]
  cases check with
  | error err => rfl
  | ok name =>
    obtain ⟨hpath, -⟩ := checkEntry_ok_iff.mp hcheck
    obtain rfl : x.name = name := Except.ok.inj (h.path.symm.trans hpath)
    have hcopied := @copyChunks_copyMember limits x.name 0 e.chunks 0 (stored done) []
    have hcounted := @copyChunks_ok_iff limits noFaults x.name none 0 e.chunks 0 (stored done) []
      (Nat.zero_le _) hdone.counter hdone.total
    have hexpanded : (progressOf done).expanded = stored done := rfl
    have hcreate : noFaults.create x.name = none := rfl
    have hflush : noFaults.flush x.name = none := rfl
    rw [h.reads] at hcopied
    rw [h.data] at hcounted
    simp only [bind, Except.bind, hcreate, hflush, hexpanded, h.whole]
    rw [← hcopied]
    generalize copyChunks limits noFaults x.name none 0 e.chunks 0 (stored done) [] = copied
      at hcounted
    obtain ⟨outcome, out⟩ := copied
    cases outcome with
    | error err => rfl
    | ok counted =>
      obtain ⟨written, expanded⟩ := counted
      obtain ⟨-, -, -, rfl, -⟩ := (hcounted written expanded).mp rfl
      dsimp only
      by_cases hdeclared : written = x.declared
      · rw [if_pos (hdeclared.trans h.declared.symm), require_of hdeclared, stored_append]
        rfl
      · rw [if_neg (fun hw => hdeclared (hw.trans h.declared)), require, if_neg hdeclared]
        rfl

/-- So does the loop. -/
theorem unpackEntries_agrees {entries : List TarEntry} {packed : List (Entry Bytes)}
    (h : List.Forall₂ (HandsOut lib) entries packed) {done : List (String × Bytes)}
    (hdone : Fits limits done) :
    packed.foldlM (BackupArchive.unpackEntry lib limits) ⟨done, stored done⟩ =
      (unpackEntries limits noFaults none entries (progressOf done)).1.map fun _ =>
        ⟨(unpackEntries limits noFaults none entries (progressOf done)).2.files,
          (unpackEntries limits noFaults none entries (progressOf done)).2.expanded⟩ := by
  induction h generalizing done with
  | nil => rfl
  | @cons e x rest packed he hrest ih =>
    have hround := unpackEntry_agrees limits he hdone
    have hok := @unpackEntry_ok limits noFaults done hdone e
    rw [List.foldlM_cons, hround, unpackEntries]
    generalize unpackEntry limits noFaults (progressOf done) e = result at hok
    obtain ⟨outcome, s⟩ := result
    cases outcome with
    | error err => rfl
    | ok u =>
      obtain ⟨f, hdecodes, -, hfits, hs⟩ := hok rfl
      obtain rfl : f = (x.name, x.data) := Prod.ext
        (Except.ok.inj (hdecodes.path.symm.trans he.path)) (hdecodes.data.symm.trans he.data)
      dsimp only at hs
      rw [hs]
      exact ih hfits

/-- A file that is not found was not unpacked. -/
theorem lookup_absent {files : List (String × Bytes)} {name : String}
    (h : files.lookup name = none) : name ∉ (progressOf files).members := by
  intro hmem
  obtain ⟨f, hf, rfl⟩ := List.mem_map.mp hmem
  exact bne_iff_ne.mp (List.lookup_eq_none_iff.mp h f hf) rfl

/-- And so do the checks after it. -/
theorem checkTable_agrees (hsize : ∀ b, lib.size b = b.length) {m : Manifest}
    {files : List (String × Bytes)} {t : TableName} :
    checkMember lib m files t = checkTable noFaults lib.sha256 m (progressOf files) t := by
  unfold checkMember checkTable
  cases hdata : files.lookup (parquetName t) with
  | none =>
    rw [require, if_neg (lookup_absent hdata)]
    rfl
  | some data =>
    have hfile : fileOf noFaults.metadata (progressOf files).files (parquetName t) = .ok data :=
      fileOf_ok_iff.mpr ⟨rfl, hdata⟩
    rw [require_of (show parquetName t ∈ (progressOf files).members from lookup_name hdata)]
    cases m.tables.lookup t.sql with
    | none => rfl
    | some member =>
      dsimp only
      rw [show fileOf noFaults.read (progressOf files).files (parquetName t) = .ok data from hfile,
        hfile, hsize data]
      rfl

/-- On an archive that was packed, with a disk that refuses nothing, checking
the stream is checking the archive: the same report or the same refusal. -/
theorem extraction_agrees (hsize : ∀ b, lib.size b = b.length) {archive : Bytes}
    {packed : List (Entry Bytes)} {src : Stream} (h : StreamOf lib archive packed src) :
    (extractAndValidate limits noFaults lib.sha256 lib.readJson src).1 =
      (extractAndValidateWith lib limits archive).map fun x => (x.report, x.expanded) := by
  have hloop := unpackEntries_agrees limits h.entries (fits_nil limits)
  have hok := @unpackEntries_ok limits noFaults none src.entries [] (fits_nil limits)
  have hstart : (⟨0, [], 0, []⟩ : Progress) = progressOf [] := rfl
  have hzero : stored [] = 0 := rfl
  rw [hzero] at hloop
  unfold extractAndValidate extractAndValidateWith
  rw [hstart, h.compressed, h.opens, h.unpacks, h.whole]
  by_cases hcompressed : lib.size archive ≤ limits.compressed
  · rw [require_of hcompressed]
    dsimp only [bind, Except.bind]
    rw [hloop]
    generalize unpackEntries limits noFaults none src.entries (progressOf []) = result at hok
    obtain ⟨outcome, s⟩ := result
    cases outcome with
    | error e => rfl
    | ok u =>
      obtain ⟨-, files, -, -, -, hs⟩ := hok rfl
      rw [List.nil_append] at hs
      dsimp only at hs ⊢
      rw [hs]
      have htables : ∀ m, checkTable noFaults lib.sha256 m (progressOf files) =
          checkMember lib m files := fun m => funext fun t => (checkTable_agrees hsize).symm
      have hfiles : (progressOf files).files = files := rfl
      rw [hfiles, validate, hfiles]
      dsimp only [Except.map, bind, Except.bind]
      cases hmanifest : files.lookup manifestName with
      | none =>
        rw [require, if_neg (lookup_absent hmanifest)]
      | some text =>
        have hread : fileOf noFaults.read files manifestName = .ok text :=
          fileOf_ok_iff.mpr ⟨rfl, hmanifest⟩
        have hmetadata : fileOf noFaults.metadata files manifestName = .ok text := hread
        rw [require_of (show manifestName ∈ (progressOf files).members from lookup_name hmanifest),
          hread, hmetadata]
        dsimp only
        rw [hsize text]
        by_cases hmax : text.length ≤ limits.manifest
        · rw [require_of hmax]
          cases lib.readJson text with
          | none => rfl
          | some m =>
            dsimp only
            rw [htables]
            cases checkManifest m with
            | error e => rfl
            | ok u =>
              dsimp only
              cases backupTables.mapM (checkMember lib m files) with
              | error e => rfl
              | ok rows => rfl
        · rw [require, if_neg hmax]
  · rw [require, if_neg hcompressed]
    rfl

end Agreement

end Romi.ArchiveAcceptance
