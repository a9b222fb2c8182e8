import Romi.AgentCounters

/-!
# The mounts an agent counts

`parse_mounts` goes through the mount table in order and drops a row when a
later one covers its path, when its type is not real storage or when the
filesystem behind it has been counted. What is left has one path for each
filesystem that can still be reached.
-/

namespace Romi.MountTable

open AgentCounters

/-! ## The table -/

/-- A row of the table: source, mount point and type. -/
structure MountRow where
  /-- The device. -/
  dev : List Char
  /-- Where it is mounted, escaped as the kernel writes it. -/
  mount : List Char
  /-- The kind of file system. -/
  fstype : List Char
  deriving DecidableEq

/-- The row of one line, which needs three words. -/
def mountRow (line : List Char) : Option MountRow :=
  match splitWhitespace line with
  | dev :: mount :: fstype :: _ => some ⟨dev, mount, fstype⟩
  | _ => none

/-- `mount_rows`. -/
def mountRows (text : List Char) : List MountRow := (lines text).filterMap mountRow

/-- `SKIP_FSTYPES`. -/
def skipFstypes : List String :=
  ["tmpfs", "devtmpfs", "proc", "sysfs", "cgroup", "cgroup2", "devpts", "mqueue", "hugetlbfs",
    "debugfs", "tracefs", "securityfs", "pstore", "bpf", "configfs", "fusectl", "binfmt_misc",
    "autofs", "squashfs", "ramfs", "efivarfs", "nsfs", "overlay", "ecryptfs", "fuse", "rpc_pipefs",
    "nfs", "nfs4", "cifs", "smb3", "ceph", "glusterfs", "9p"]

/-- `str::strip_prefix`. -/
def stripFront : List Char → List Char → Option (List Char)
  | [], text => some text
  | _ :: _, [] => none
  | c :: front, d :: text => if c = d then stripFront front text else none

/-- `skip_fstype`. -/
def skipFstype (fstype : List Char) : Bool :=
  skipFstypes.any fun s => fstype = s.toList ||
    (stripFront s.toList fstype).any fun rest => rest.head? = some '.'

/-- The source is a path, or the type is one that names no device. -/
def sourceCounts (row : MountRow) : Bool :=
  row.dev.head? = some '/' || row.fstype = "zfs".toList || row.fstype = "btrfs".toList

/-- What a filesystem is told apart by: the pool for zfs, else the source. -/
def storageKey (row : MountRow) : List Char :=
  if row.fstype = "zfs".toList then row.dev.takeWhile (· ≠ '/') else row.dev

/-- `replace("\\040", " ")`. -/
def unescape : List Char → List Char
  | '\\' :: '0' :: '4' :: '0' :: rest => ' ' :: unescape rest
  | c :: rest => c :: unescape rest
  | [] => []

/-- The loop of `parse_mounts`: the keys seen and the paths found so far. -/
def select (seen out : List (List Char)) : List MountRow → List (List Char)
  | [] => out
  | row :: rest =>
    if rest.any (fun later => later.mount = row.mount) then select seen out rest
    else if skipFstype row.fstype then select seen out rest
    else if !sourceCounts row then select seen out rest
    else if seen.contains (storageKey row) then select seen out rest
    else select (seen ++ [storageKey row]) (out ++ [unescape row.mount]) rest

/-- `parse_mounts`. -/
def parseMounts (text : List Char) : List (List Char) := select [] [] (mountRows text)

/-! ## What is to be counted -/

/-- The type is real storage. -/
def Eligible (row : MountRow) : Prop := skipFstype row.fstype = false ∧ sourceCounts row = true

instance (row : MountRow) : Decidable (Eligible row) :=
  inferInstanceAs (Decidable (skipFstype row.fstype = false ∧ sourceCounts row = true))

/-- The last row of a path, which is the one a lookup of it comes to. -/
def lastRow (rows : List MountRow) (path : List Char) : Option MountRow :=
  rows.reverse.find? fun row => unescape row.mount = path

/-- A later row hides an earlier one. -/
theorem lastRow_cons (row : MountRow) (rest : List MountRow) (path : List Char) :
    lastRow (row :: rest) path =
      (lastRow rest path).or (if unescape row.mount = path then some row else none) := by
  unfold lastRow
  rw [List.reverse_cons, List.find?_append]
  congr 1
  by_cases h : unescape row.mount = path
  · rw [if_pos h, List.find?_cons_of_pos (by simp [h])]
  · rw [if_neg h, List.find?_cons_of_neg (by simp [h]), List.find?_nil]

/-! ## Paths -/

/-- No word holds the character the text is split on. -/
theorem mem_splitOnPPrepend {p : Char → Bool} {text acc word : List Char}
    (hacc : ∀ c ∈ acc, p c = false) (h : word ∈ List.splitOnPPrepend p text acc) :
    ∀ c ∈ word, p c = false := by
  induction text generalizing acc with
  | nil =>
    rw [List.splitOnPPrepend_nil, List.mem_singleton] at h
    rw [h]
    exact fun c hc => hacc c (List.mem_reverse.mp hc)
  | cons d text ih =>
    cases hd : p d with
    | true =>
      rw [List.splitOnPPrepend_cons_pos hd, List.mem_cons] at h
      rcases h with rfl | h
      · exact fun c hc => hacc c (List.mem_reverse.mp hc)
      · exact ih (by simp) h
    | false =>
      rw [List.splitOnPPrepend_cons_neg hd] at h
      refine ih ?_ h
      intro c hc
      rcases List.mem_cons.mp hc with rfl | hc
      · exact hd
      · exact hacc c hc

/-- The words of a line hold no blank. -/
theorem splitWhitespace_space {text word : List Char} (h : word ∈ splitWhitespace text) :
    ' ' ∉ word := by
  intro hspace
  have hword := List.mem_of_mem_filter h
  have hblank := mem_splitOnPPrepend (by simp) hword ' ' hspace
  revert hblank
  decide

/-- The mount point of a row holds no blank. -/
theorem mountRows_space {text : List Char} {row : MountRow} (h : row ∈ mountRows text) :
    ' ' ∉ row.mount := by
  obtain ⟨line, -, hline⟩ := List.mem_filterMap.mp h
  unfold mountRow at hline
  split at hline
  · rename_i dev mount fstype rest hwords
    cases hline
    refine @splitWhitespace_space line mount ?_
    rw [hwords]
    simp
  · cases hline

/-- What `unescape` undoes. -/
def escape : List Char → List Char
  | [] => []
  | c :: rest => if c = ' ' then '\\' :: '0' :: '4' :: '0' :: escape rest else c :: escape rest

/-- A mount point read from a row is escaped back to itself. -/
theorem escape_unescape (path : List Char) (h : ' ' ∉ path) : escape (unescape path) = path := by
  fun_induction unescape path with
  | case1 rest ih =>
    simp only [List.mem_cons, not_or] at h
    rw [escape, if_pos rfl, ih h.2.2.2.2]
  | case2 c rest _ ih =>
    simp only [List.mem_cons, not_or] at h
    rw [escape, if_neg fun hc => h.1 hc.symm, ih h.2]
  | case3 => rfl

/-- Two paths of the table that read alike are the same. -/
theorem unescape_injective {a b : List Char} (ha : ' ' ∉ a) (hb : ' ' ∉ b)
    (h : unescape a = unescape b) : a = b := by
  rw [← escape_unescape a ha, h, escape_unescape b hb]

/-- A later row of the same path comes last. -/
theorem covered_iff {row : MountRow} {rest : List MountRow} (hrow : ' ' ∉ row.mount)
    (hrest : ∀ r ∈ rest, ' ' ∉ r.mount) :
    rest.any (fun later => later.mount = row.mount) = false ↔
      lastRow rest (unescape row.mount) = none := by
  unfold lastRow
  rw [List.any_eq_false, List.find?_eq_none]
  constructor
  · intro h r hr
    have hmem := List.mem_reverse.mp hr
    have hne := h r hmem
    simp only [decide_eq_true_eq] at hne ⊢
    exact fun heq => hne (unescape_injective (hrest r hmem) hrow heq)
  · intro h r hr
    have hne := h r (List.mem_reverse.mpr hr)
    simp only [decide_eq_true_eq] at hne ⊢
    exact fun heq => hne (congrArg unescape heq)

/-! ## The rows that are counted -/

/-- The rows whose paths the loop finds. -/
def picked (seen : List (List Char)) : List MountRow → List MountRow
  | [] => []
  | row :: rest =>
    if rest.any (fun later => later.mount = row.mount) = false ∧ Eligible row ∧
        storageKey row ∉ seen then row :: picked (seen ++ [storageKey row]) rest
    else picked seen rest

/-- The loop adds the rows it picks to those it has. -/
theorem select_eq (seen out : List (List Char)) (rows : List MountRow) :
    select seen out rows = out ++ (picked seen rows).map fun row => unescape row.mount := by
  induction rows generalizing seen out with
  | nil => simp [select, picked]
  | cons row rest ih =>
    unfold select picked
    by_cases hcovered : rest.any (fun later => later.mount = row.mount) = true
    · rw [if_pos hcovered, if_neg (by simp [hcovered]), ih]
    · rw [if_neg hcovered]
      by_cases hskip : skipFstype row.fstype = true
      · rw [if_pos hskip, if_neg (by simp [Eligible, hskip]), ih]
      · rw [if_neg hskip]
        by_cases hsource : sourceCounts row = true
        · rw [if_neg (by simp [hsource])]
          by_cases hseen : storageKey row ∈ seen
          · rw [if_pos (by simpa using hseen), if_neg (by simp [hseen]), ih]
          · have hpicked : rest.any (fun later => later.mount = row.mount) = false ∧ Eligible row ∧
                storageKey row ∉ seen :=
              ⟨Bool.eq_false_iff.mpr hcovered, ⟨Bool.eq_false_iff.mpr hskip, hsource⟩, hseen⟩
            rw [if_neg (by simpa using hseen), if_pos hpicked, ih, List.map_cons,
              List.append_assoc]
            rfl
        · rw [if_pos (by simp [hsource]), if_neg (by simp [Eligible, hsource]), ih]

variable {rows : List MountRow} {seen : List (List Char)}

/-- A row picked is the last of its path, eligible and new. -/
theorem picked_sound (hspace : ∀ r ∈ rows, ' ' ∉ r.mount) {row : MountRow}
    (h : row ∈ picked seen rows) :
    lastRow rows (unescape row.mount) = some row ∧ Eligible row ∧ storageKey row ∉ seen := by
  induction rows generalizing seen with
  | nil => cases h
  | cons first rest ih =>
    have hfirst := hspace first List.mem_cons_self
    have hrest : ∀ r ∈ rest, ' ' ∉ r.mount := fun r hr => hspace r (List.mem_cons_of_mem first hr)
    rw [lastRow_cons]
    unfold picked at h
    split at h
    · rename_i hpicked
      obtain ⟨huncovered, heligible, hnew⟩ := hpicked
      rcases List.mem_cons.mp h with rfl | h
      · rw [(covered_iff hfirst hrest).mp huncovered, if_pos rfl]
        exact ⟨rfl, heligible, hnew⟩
      · obtain ⟨hlast, heligible', hnew'⟩ := ih hrest h
        rw [hlast]
        refine ⟨rfl, heligible', fun hmem => hnew' ?_⟩
        exact List.mem_append_left _ hmem
    · obtain ⟨hlast, heligible, hnew⟩ := ih hrest h
      rw [hlast]
      exact ⟨rfl, heligible, hnew⟩

/-- No two rows picked share their storage. -/
theorem picked_nodup (hspace : ∀ r ∈ rows, ' ' ∉ r.mount) :
    ((picked seen rows).map storageKey).Nodup := by
  induction rows generalizing seen with
  | nil => exact List.nodup_nil
  | cons first rest ih =>
    have hrest : ∀ r ∈ rest, ' ' ∉ r.mount := fun r hr => hspace r (List.mem_cons_of_mem first hr)
    unfold picked
    split
    · rw [List.map_cons, List.nodup_cons]
      refine ⟨?_, ih hrest⟩
      intro hmem
      obtain ⟨row, hrow, hkey⟩ := List.mem_map.mp hmem
      obtain ⟨-, -, hnew⟩ := picked_sound hrest hrow
      exact hnew (by simp [hkey])
    · exact ih hrest

/-- The storage of an eligible row that comes last has been seen or is picked. -/
theorem picked_complete (hspace : ∀ r ∈ rows, ' ' ∉ r.mount) {path : List Char} {row : MountRow}
    (hlast : lastRow rows path = some row) (heligible : Eligible row) :
    storageKey row ∈ seen ∨ storageKey row ∈ (picked seen rows).map storageKey := by
  induction rows generalizing seen with
  | nil => cases hlast
  | cons first rest ih =>
    have hfirst := hspace first List.mem_cons_self
    have hrest : ∀ r ∈ rest, ' ' ∉ r.mount := fun r hr => hspace r (List.mem_cons_of_mem first hr)
    rw [lastRow_cons] at hlast
    unfold picked
    cases hlater : lastRow rest path with
    | some later =>
      rw [hlater, Option.some_or] at hlast
      rw [hlast] at hlater
      split
      · rw [List.map_cons, List.mem_cons]
        rcases ih hrest hlater with hmem | hmem
        · rcases List.mem_append.mp hmem with hmem | hmem
          · exact .inl hmem
          · exact .inr (.inl (List.mem_singleton.mp hmem))
        · exact .inr (.inr hmem)
      · exact ih hrest hlater
    | none =>
      rw [hlater, Option.none_or] at hlast
      split at hlast
      · rename_i hpath
        rw [← Option.some.inj hlast] at heligible ⊢
        have huncovered := (covered_iff hfirst hrest).mpr (by rw [hpath]; exact hlater)
        by_cases hseen : storageKey first ∈ seen
        · exact .inl hseen
        · rw [if_pos ⟨huncovered, heligible, hseen⟩, List.map_cons]
          exact .inr List.mem_cons_self
      · cases hlast

/-- The rows behind the paths that `parse_mounts` returns. -/
def counted (text : List Char) : List MountRow :=
  (parseMounts text).filterMap (lastRow (mountRows text))

/-- The mounts are those of the rows picked. -/
theorem parseMounts_eq (text : List Char) :
    parseMounts text = (picked [] (mountRows text)).map fun row => unescape row.mount :=
  select_eq [] [] (mountRows text)

/-- And these are the rows counted. -/
theorem counted_eq (text : List Char) : counted text = picked [] (mountRows text) := by
  have hlast : ∀ row ∈ picked [] (mountRows text),
      lastRow (mountRows text) (unescape row.mount) = some row := fun row hrow =>
    (picked_sound (fun r => mountRows_space) hrow).1
  rw [counted, parseMounts_eq, List.filterMap_map]
  exact (List.filterMap_congr hlast).trans List.filterMap_some

/-- Every path returned is that of the row which comes last for it, and that row
is of real storage; no storage is behind two of them, and whatever real storage
is behind the last row of some path is behind exactly one. -/
theorem mounts_counted_once (text : List Char) :
    (∀ path ∈ parseMounts text, ∃ row, lastRow (mountRows text) path = some row ∧ Eligible row) ∧
      ((counted text).map storageKey).Nodup ∧
      ∀ path row, lastRow (mountRows text) path = some row → Eligible row →
        ((counted text).map storageKey).count (storageKey row) = 1 := by
  have hspace : ∀ r ∈ mountRows text, ' ' ∉ r.mount := fun r => mountRows_space
  have hnodup : ((counted text).map storageKey).Nodup := by
    rw [counted_eq]
    exact picked_nodup hspace
  refine ⟨?_, hnodup, ?_⟩
  · intro path hpath
    rw [parseMounts_eq] at hpath
    obtain ⟨row, hrow, rfl⟩ := List.mem_map.mp hpath
    obtain ⟨hlast, heligible, -⟩ := picked_sound hspace hrow
    exact ⟨row, hlast, heligible⟩
  · intro path row hlast heligible
    refine List.count_eq_one_of_mem hnodup ?_
    rw [counted_eq]
    rcases @picked_complete _ [] hspace path row hlast heligible with hseen | hmem
    · cases hseen
    · exact hmem

example : parseMounts "/dev/a / ext4\n/dev/b /h xfs\ntmpfs /h tmpfs\nt/1 /t zfs\nt/2 /u zfs".toList =
    ["/".toList, "/t".toList] := by decide

end Romi.MountTable
