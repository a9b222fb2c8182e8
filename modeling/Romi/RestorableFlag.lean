import Romi.BackupArchive
import Romi.Base64
import Romi.StoreJobs

/-!
# What the restorable flag promises

The writer of an archive says whether this build would take it back. Reading
it back enforces three limits, on the packed file, on every member and on all
of them together; the writer looks at the first one only. So the flag is right
about exactly the databases whose members fit whenever the packed file does.
-/

namespace Romi.RestorableFlag

open ArchiveTables BackupArchive CachedTransactions KeyedTable StoreSchema

/-- `inspect`. -/
def inspect {β : Type} (lib : Libraries β) (archive : β) : Except Failure BackupReport :=
  (extractAndValidateWith lib defaultArchiveLimits archive).map Extracted.report

/-! ## What is accepted is within the limits -/

/-- A copy that succeeds has counted all it read, within the total. -/
theorem copyMember_counted {name : String} {memberLimit total : Nat} {reads : List Nat}
    {written expanded w x : Nat} (htotal : expanded ≤ total)
    (h : copyMember name memberLimit total reads written expanded = .ok (w, x)) :
    w = written + reads.sum ∧ x = expanded + reads.sum ∧ x ≤ total := by
  induction reads generalizing written expanded with
  | nil =>
    cases h
    exact ⟨rfl, rfl, htotal⟩
  | cons n rest ih =>
    obtain ⟨_, -, h⟩ := bind_eq_ok.mp h
    obtain ⟨_, -, h⟩ := bind_eq_ok.mp h
    obtain ⟨_, hwhole, h⟩ := bind_eq_ok.mp h
    obtain ⟨hw, hx, hle⟩ := ih (require_ok hwhole) h
    rw [List.sum_cons]
    exact ⟨by omega, by omega, hle⟩

section Reading

variable {β : Type} {lib : Libraries β} (hlib : lib.Faithful) {limits : ArchiveLimits}

include hlib

/-- One round that succeeds on a packed file. -/
theorem unpackEntry_within {f : String × β} {u u' : Unpacked β} (htotal : u.expanded ≤ limits.total)
    (h : unpackEntry lib limits u ⟨f.1, true, lib.size f.2, f.2⟩ = .ok u') :
    lib.size f.2 ≤ limits.limitOf f.1 ∧ u'.expanded = u.expanded + lib.size f.2 ∧
      u'.expanded ≤ limits.total := by
  obtain ⟨hsize, -, written, hcopy⟩ := unpacked_entry h
  obtain ⟨-, hx, hle⟩ := copyMember_counted htotal hcopy
  rw [hlib.reads] at hx
  exact ⟨hsize, hx, hle⟩

/-- Files that unpack are within the limits. -/
theorem unpack_within {files : List (String × β)} {u u' : Unpacked β}
    (htotal : u.expanded ≤ limits.total)
    (h : (files.map fun f => (⟨f.1, true, lib.size f.2, f.2⟩ : Entry β)).foldlM
      (unpackEntry lib limits) u = .ok u') :
    (∀ f ∈ files, lib.size f.2 ≤ limits.limitOf f.1) ∧
      u.expanded + (files.map fun f => lib.size f.2).sum ≤ limits.total := by
  induction files generalizing u with
  | nil => exact ⟨nofun, htotal⟩
  | cons f rest ih =>
    rw [List.map_cons, List.foldlM_cons] at h
    obtain ⟨mid, hone, hrest⟩ := bind_eq_ok.mp h
    obtain ⟨hsize, hmid, hle⟩ := unpackEntry_within hlib htotal hone
    obtain ⟨hsizes, hsum⟩ := ih hle hrest
    rw [List.map_cons, List.sum_cons]
    refine ⟨?_, by omega⟩
    intro x hx
    rcases List.mem_cons.mp hx with rfl | hx
    · exact hsize
    · exact hsizes x hx

/-- Inspecting what this build wrote succeeds exactly within the limits. -/
theorem inspect_ok_iff (now : Int) (db : Store) :
    (∃ report, inspect lib (writeArchive lib now db).1 = .ok report) ↔
      WithinLimits lib defaultArchiveLimits (writeArchive lib now db).1 (archiveFiles lib now db) := by
  constructor
  · rintro ⟨report, h⟩
    obtain ⟨x, hx, -⟩ : ∃ x, extractAndValidateWith lib defaultArchiveLimits
        (writeArchive lib now db).1 = .ok x ∧ x.report = report := by
      unfold inspect at h
      cases hx : extractAndValidateWith lib defaultArchiveLimits (writeArchive lib now db).1 with
      | error e =>
        rw [hx] at h
        cases h
      | ok x =>
        rw [hx] at h
        exact ⟨x, rfl, Except.ok.inj h⟩
    have hunpack : lib.unpack (writeArchive lib now db).1 = some ((archiveFiles lib now db).map
        fun f => (⟨f.1, true, lib.size f.2, f.2⟩ : Entry β)) := hlib.pack _
    obtain ⟨_, hcompressed, hx⟩ := bind_eq_ok.mp hx
    rw [hunpack] at hx
    obtain ⟨unpacked, hunpacked, -⟩ := bind_eq_ok.mp hx
    obtain ⟨hmember, htotal⟩ := unpack_within hlib (Nat.zero_le _) hunpacked
    rw [Nat.zero_add] at htotal
    exact ⟨require_ok hcompressed, hmember, htotal⟩
  · intro hw
    rw [inspect, extract_writeArchive lib now db hlib hw]
    exact ⟨_, rfl⟩

end Reading

/-! ## The flag -/

/-- The flag is set only on archives that are accepted, and never on one that
some limit refuses. -/
structure TellsTruth {β : Type} (lib : Libraries β) (now : Int) (db : Store) : Prop where
  /-- What it calls restorable can be read back. -/
  accepted : (writeArchive lib now db).2.restorable = true →
    ∃ report, inspect lib (writeArchive lib now db).1 = .ok report
  /-- What some limit refuses, it does not call restorable. -/
  refused : ¬ WithinLimits lib defaultArchiveLimits (writeArchive lib now db).1
    (archiveFiles lib now db) → (writeArchive lib now db).2.restorable = false

/-- The bytes in which the engine exports one table of a database. -/
def exportBytes {β : Type} (lib : Libraries β) (db : Store) (t : TableName) : Nat :=
  lib.size (lib.writeParquet (exportTable db t))

/-- The database is small enough to come back: no table of it exports to more
than 256 MiB, its manifest is no longer than 1 MiB, and all of them together
are no more than 1 GiB. -/
structure ExportsFit {β : Type} (lib : Libraries β) (now : Int) (db : Store) : Prop where
  /-- Every table by itself. -/
  table : ∀ t ∈ backupTables, exportBytes lib db t ≤ 268435456
  /-- What describes them. -/
  manifest : lib.size (lib.writeJson (manifestOf lib now db)) ≤ 1048576
  /-- All of it together. -/
  together : (backupTables.map (exportBytes lib db)).sum +
    lib.size (lib.writeJson (manifestOf lib now db)) ≤ 1073741824

/-- The bytes of the database's exports and their manifest in one gzipped tar. -/
def packedBytes {β : Type} (lib : Libraries β) (now : Int) (db : Store) : Nat :=
  lib.size (lib.pack ((backupTables.map fun t =>
    (parquetName t, lib.writeParquet (exportTable db t))) ++
      [(manifestName, lib.writeJson (manifestOf lib now db))]))

/-- Only the manifest has a limit of its own. -/
theorem limitOf_parquet (t : TableName) :
    defaultArchiveLimits.limitOf (parquetName t) = 268435456 := by
  cases t <;> decide

/-- The exports fit exactly when the members of the archive do. -/
theorem exportsFit_iff {β : Type} (lib : Libraries β) (now : Int) (db : Store) :
    ExportsFit lib now db ↔
      (∀ f ∈ archiveFiles lib now db, lib.size f.2 ≤ defaultArchiveLimits.limitOf f.1) ∧
        ((archiveFiles lib now db).map fun f => lib.size f.2).sum ≤ defaultArchiveLimits.total := by
  have hmanifest : defaultArchiveLimits.limitOf manifestName = 1048576 := by decide
  have hsum : ((archiveFiles lib now db).map fun f => lib.size f.2).sum =
      (backupTables.map (exportBytes lib db)).sum +
        lib.size (lib.writeJson (manifestOf lib now db)) := by
    rw [archiveFiles, List.map_append, List.sum_append, List.map_map]
    rfl
  rw [hsum]
  constructor
  · intro h
    refine ⟨?_, h.together⟩
    intro f hf
    rcases List.mem_append.mp hf with hf | hf
    · obtain ⟨t, ht, rfl⟩ := List.mem_map.mp hf
      rw [limitOf_parquet]
      exact h.table t ht
    · rw [List.mem_singleton] at hf
      rw [hf, hmanifest]
      exact h.manifest
  · rintro ⟨hmember, htotal⟩
    refine ⟨?_, ?_, htotal⟩
    · intro t ht
      have hlimit := hmember (parquetName t, tableData lib db t)
        (List.mem_append_left _ (List.mem_map_of_mem ht))
      rwa [limitOf_parquet] at hlimit
    · have hlimit := hmember (manifestName, lib.writeJson (manifestOf lib now db))
        (List.mem_append_right _ List.mem_cons_self)
      rwa [hmanifest] at hlimit

/-- The bytes of a text in UTF-8. -/
def utf8Bytes (s : String) : Nat := (s.toList.map Char.utf8Size).sum

/-- The bytes of a value in the plain encoding of Parquet: a length of four
bytes before a text, eight for a number. -/
def plainBytes : Cell → Nat
  | .null => 0
  | .text s => 4 + utf8Bytes s
  | .int _ | .real _ => 8
  | .bool _ => 1

/-- The bytes of a table's values. -/
def valueBytes (r : Relation) : Nat := (r.rows.map fun row => (row.map plainBytes).sum).sum

/-- Libraries with the sizes that random characters of a base 64 alphabet lead
to. The codec of the data files looks for repetitions and finds none, so a file
is as long as its values; gzip codes characters of six bits in eight, and at its
fastest level four fifths is more than it needs. A manifest of nine tables has
about 1,600 bytes. Page headers and footers, a few kilobytes, are left out. -/
def plain : Libraries Wrapped where
  __ := wrapping
  size := fileBytes
  reads w := [fileBytes w]
  unpack
    | .tar files => some (files.map fun f => ⟨f.1, true, fileBytes f.2, f.2⟩)
    | _ => none
where
  /-- The bytes of a file. -/
  fileBytes : Wrapped → Nat
    | .parquet r => valueBytes r
    | .json _ => 1600
    | .tar files => 4 * (files.map fun f => memberBytes f.2).sum / 5
  /-- The bytes of a file inside an archive. -/
  memberBytes : Wrapped → Nat
    | .parquet r => valueBytes r
    | _ => 1600

/-- The plain libraries read back what they wrote. -/
theorem plain_faithful : plain.Faithful where
  reads b := Nat.add_zero (plain.size b)
  parquet _ := rfl
  json _ := rfl
  pack _ := rfl

/-- One step of a linear congruential generator of 64 bits. -/
def scramble (x : Nat) : Nat :=
  (6364136223846793005 * x + 1442695040888963407) % 18446744073709551616

/-- Characters of an alphabet drawn with it, by the upper bits of its states. -/
def noise (letters : List Char) : Nat → Nat → List Char
  | 0, _ => []
  | n + 1, x =>
    letters.getD (scramble x * letters.length / 18446744073709551616) '0' ::
      noise letters n (scramble x)

/-- The digits of a digest. -/
def hexDigits : List Char := "0123456789abcdef".toList

/-- A node with this token digest and this remark. -/
def remarkRow (id : Int) (digest remark : String) (sort : Int) : NodeRow :=
  StoreJobs.newNodeRow id ⟨"node", true, 0, "USD", "monthly", none, remark, 0, "sum", 1, 0, "GB", 0,
    0, true, false⟩ digest sort 0

/-- A node whose remark is this many random characters. -/
def remarkNode (length i : Nat) : NodeRow :=
  remarkRow (i + 1) (String.ofList (noise hexDigits 64 i))
    (String.ofList (noise Base64.alphabet length i)) i

/-- A hub with so many such nodes, whose agents have not reported yet. -/
def remarksOf (nodes length : Nat) : Store :=
  { Store.fresh "romi" 0 with
    node := ⟨(Finset.range nodes).image (remarkNode length), by
      intro r hr s hs hkey
      obtain ⟨a, -, rfl⟩ := Finset.mem_image.mp hr
      obtain ⟨b, -, rfl⟩ := Finset.mem_image.mp hs
      have hid : (a : Int) + 1 = b + 1 := hkey
      rw [show a = b by omega]⟩ }

/-- Noise of the length asked for. -/
theorem length_noise (letters : List Char) (n x : Nat) : (noise letters n x).length = n := by
  induction n generalizing x with
  | zero => rfl
  | succ n ih => rw [noise, List.length_cons, ih]

/-- Made of the letters given, and noughts. -/
theorem mem_noise {letters : List Char} {n x : Nat} {c : Char} (h : c ∈ noise letters n x) :
    c ∈ '0' :: letters := by
  induction n generalizing x with
  | zero => cases h
  | succ n ih =>
    rcases List.mem_cons.mp h with rfl | h
    · rw [List.getD_eq_getElem?_getD]
      cases hget : letters[scramble x * letters.length / 18446744073709551616]? with
      | none => exact List.mem_cons_self
      | some c => exact List.mem_cons_of_mem _ (List.mem_of_getElem? hget)
    · exact ih h

/-- Characters of one byte make as many bytes. -/
theorem utf8Bytes_noise {letters : List Char} (hletters : ∀ c ∈ '0' :: letters, c.utf8Size = 1)
    (n x : Nat) : utf8Bytes (String.ofList (noise letters n x)) = n := by
  have hone : (noise letters n x).map Char.utf8Size = List.replicate n 1 := by
    refine List.eq_replicate_iff.mpr ⟨by rw [List.length_map, length_noise], ?_⟩
    intro k hk
    obtain ⟨c, hc, rfl⟩ := List.mem_map.mp hk
    exact hletters c (mem_noise hc)
  rw [utf8Bytes, String.toList_ofList, hone, List.sum_replicate, Nat.nsmul_eq_mul, Nat.mul_one]

/-- Characters below 128 are one byte long. -/
theorem size_of_all {letters : List Char}
    (h : ('0' :: letters).all (fun c => decide (c.toNat < 128)) = true) :
    ∀ c ∈ '0' :: letters, c.utf8Size = 1 := by
  intro c hc
  rw [Char.utf8Size_eq_one_iff, UInt32.le_iff_toNat_le]
  exact Nat.le_of_lt_succ (of_decide_eq_true (List.all_eq_true.mp h c hc))

/-- A letter of the alphabet is one byte. -/
theorem alphabet_size : ∀ c ∈ '0' :: Base64.alphabet, c.utf8Size = 1 :=
  size_of_all (by decide +kernel)

/-- So is a hexadecimal digit. -/
theorem hexDigits_size : ∀ c ∈ '0' :: hexDigits, c.utf8Size = 1 :=
  size_of_all (by decide +kernel)

/-- A row is little longer than its remark. -/
theorem remarkNode_bytes (length i : Nat) :
    (((layout .node).cells (remarkNode length i)).map plainBytes).sum = length + 287 := by
  have hdigest := utf8Bytes_noise hexDigits_size 64 i
  have hremark := utf8Bytes_noise alphabet_size length i
  simp only [layout, nodeLayout, remarkNode, remarkRow, StoreJobs.newNodeRow, plainBytes,
    Cell.ofText?, List.map_cons, List.map_nil, List.sum_cons, List.sum_nil, hdigest, hremark]
  have hempty : utf8Bytes "" = 0 := by decide
  have hname : utf8Bytes "node" = 4 := by decide
  have hcurrency : utf8Bytes "USD" = 3 := by decide
  have hcycle : utf8Bytes "monthly" = 7 := by decide
  have hmode : utf8Bytes "sum" = 3 := by decide
  have hunit : utf8Bytes "GB" = 2 := by decide
  rw [hempty, hname, hcurrency, hcycle, hmode, hunit]
  omega

/-- Nodes of different ids are different rows. -/
theorem remarkNode_injective (length : Nat) : Function.Injective (remarkNode length) := by
  intro a b h
  have hid : (a : Int) + 1 = b + 1 := congrArg NodeRow.id h
  omega

/-- The bytes of a table, summed over its rows. -/
theorem valueBytes_map {ρ : Type} (columns : List (String × String)) (rows : Finset ρ)
    (cells : ρ → List Cell) : valueBytes ⟨columns, rows.val.map cells⟩ =
      rows.sum fun r => ((cells r).map plainBytes).sum :=
  congrArg Multiset.sum (Multiset.map_map _ _ _)

/-- The data file of the nodes is little longer than their remarks. -/
theorem node_bytes (nodes length : Nat) :
    exportBytes plain (remarksOf nodes length) .node = nodes * (length + 287) := by
  have hexport : exportBytes plain (remarksOf nodes length) .node =
      ((Finset.range nodes).image (remarkNode length)).sum fun r =>
        (((layout .node).cells r).map plainBytes).sum :=
    valueBytes_map (nativeColumns .node) ((Finset.range nodes).image (remarkNode length))
      (layout .node).cells
  rw [hexport, Finset.sum_image fun a _ b _ h => remarkNode_injective length h,
    Finset.sum_congr rfl fun i _ => remarkNode_bytes length i, Finset.sum_const,
    Finset.card_range, Nat.nsmul_eq_mul]

/-- The other tables of that hub are empty. -/
theorem other_bytes (nodes length : Nat) {t : TableName} (ht : t ∈ backupTables)
    (hnode : t ≠ .node) : exportBytes plain (remarksOf nodes length) t = 0 := by
  cases t with
  | node => exact absurd rfl hnode
  | session => exact absurd ht (by decide)
  | _ => rfl

/-- The bytes of all the exports of the store of remarks. -/
theorem exports_sum (nodes length : Nat) :
    (backupTables.map (exportBytes plain (remarksOf nodes length))).sum =
      nodes * (length + 287) := by
  have hother := fun t ht hnode => @other_bytes nodes length t ht hnode
  simp only [backupTables, List.map_cons, List.map_nil, List.sum_cons, List.sum_nil, node_bytes,
    hother .setting (by decide) nofun, hother .traffic (by decide) nofun,
    hother .metric (by decide) nofun, hother .metricHour (by decide) nofun,
    hother .pingTask (by decide) nofun, hother .pingNode (by decide) nofun,
    hother .pingRecord (by decide) nofun, hother .pingHour (by decide) nofun]
  omega

/-- What they make once packed. -/
theorem packed_plain (now : Int) (db : Store) : packedBytes plain now db =
    4 * ((backupTables.map (exportBytes plain db)).sum + 1600) / 5 := by
  have hpack : ∀ files, plain.size (plain.pack files) =
      4 * (files.map fun f => plain.memberBytes f.2).sum / 5 := fun _ => rfl
  rw [packedBytes, hpack, List.map_append, List.sum_append, List.map_map]
  rfl

end Romi.RestorableFlag
