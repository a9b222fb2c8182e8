import Mathlib.Data.Rat.Floor
import Mathlib.Data.String.Basic
import Romi.AgentCounters
import Romi.JsonObjects
import Romi.MountTable

/-!
# What an agent reads off its machine

Every reading of a report comes from a text of the kernel, which may be missing
or malformed; the collector keeps the processor times and the counters of the
sample before for its two rates.
-/

namespace Romi.MachineReadings

open AgentCounters DoublePrecision JsonObjects JsonValue MountTable SaturatingSum

/-- Arithmetic on `u64` as the release build does it. -/
def wrap64 (n : Nat) : Nat := n % (u64Max + 1)

/-- Largest unsigned 32-bit integer. -/
def u32Max : Nat := 4294967295

/-- Arithmetic on `u32`. -/
def wrap32 (n : Nat) : Nat := n % (u32Max + 1)

/-- What `parse` makes of a text as a float; reading and rounding it is left to
the standard library. -/
abbrev FloatParser : Type := List Char → Option Double

/-! ## Memory -/

/-- The fields of `/proc/meminfo`, in bytes. -/
abbrev MemInfo : Type := List (List Char × Nat)

/-- `parse_meminfo`. -/
def parseMeminfo (text : String) : MemInfo :=
  (lines text.toList).filterMap fun line => do
    let (key, rest) ← splitOnce ':' line
    let word ← (splitWhitespace rest).head?
    let kb ← parseNat word
    return (key, wrap64 (kb * 1024))

/-- The value under a key, the last of several. -/
def MemInfo.find (m : MemInfo) (key : String) : Option Nat := m.reverse.lookup key.toList

/-- `mem_used`. -/
def memUsed (m : MemInfo) : Nat × Nat :=
  let g (key : String) : Nat := (m.find key).getD 0
  let total := g "MemTotal"
  if total = 0 then (0, 0)
  else
    let available := (m.find "MemAvailable").getD
      (wrap64 (wrap64 (g "MemFree" + g "Buffers") + g "Cached"))
    (total, total - available)

/-- `swap_used`. -/
def swapUsed (m : MemInfo) : Nat × Nat :=
  let g (key : String) : Nat := (m.find key).getD 0
  (g "SwapTotal", g "SwapTotal" - g "SwapFree")

/-- No more is used than there is. -/
theorem memUsed_le (m : MemInfo) : (memUsed m).2 ≤ (memUsed m).1 := by
  unfold memUsed
  dsimp only
  split
  · exact le_rfl
  · exact Nat.sub_le _ _

/-- No more swap is in use than there is. -/
theorem swapUsed_le (m : MemInfo) : (swapUsed m).2 ≤ (swapUsed m).1 := Nat.sub_le _ _

/-! ## Swap by its sources -/

/-- `SwapSources`. -/
structure SwapSources where
  /-- Bytes in use on compressed memory. -/
  zramUsed : Nat
  /-- Bytes such devices hold. -/
  zramTotal : Nat
  /-- How many of them there are. -/
  zramDevices : Nat
  /-- Bytes in use anywhere else. -/
  swapDiskUsed : Nat
  /-- Bytes there are anywhere else. -/
  swapDiskTotal : Nat
  /-- Bytes in use in files. -/
  swapfileUsed : Nat
  /-- Bytes in use on partitions. -/
  swapPartitionUsed : Nat

/-- `SwapSources::default`. -/
def SwapSources.empty : SwapSources := ⟨0, 0, 0, 0, 0, 0, 0⟩

/-- An entry of `/sys/block`; what cannot be read is missing. -/
structure BlockDevice where
  /-- The name of the device. -/
  name : List Char
  /-- Its file `disksize`. -/
  disksize : Option String
  /-- Its file `mm_stat`. -/
  mmStat : Option String

/-- What the sources of swap are read from. -/
structure SwapFiles where
  /-- The entries of `/sys/block`; one that is not text cannot be read. -/
  block : Option (List (Option BlockDevice))
  /-- `/proc/swaps`. -/
  swaps : Option String
  /-- The name sysfs has for the block device at a path. -/
  device : List Char → Option String

/-- `checked_add`. -/
def checkedAdd (a b : Nat) : Option Nat := if a + b ≤ u64Max then some (a + b) else none

/-- `checked_mul`. -/
def checkedMul (a b : Nat) : Option Nat := if a * b ≤ u64Max then some (a * b) else none

/-- The name is `zram` and a number. -/
def isZram (name : List Char) : Bool :=
  match stripFront "zram".toList name with
  | some digits => digits ≠ [] && digits.all Char.isDigit
  | none => false

/-- One turn over the block devices. -/
def addZram (out : SwapSources) (entry : Option BlockDevice) : Option SwapSources := do
  let device ← entry
  if isZram device.name then
    let size ← parseNat (trim (← device.disksize).toList)
    if size = 0 then return out
    let word ← (splitWhitespace (← device.mmStat).toList)[2]?
    let used ← checkedAdd out.zramUsed (← parseNat word)
    let total ← checkedAdd out.zramTotal size
    return { out with zramUsed := used, zramTotal := total, zramDevices := out.zramDevices + 1 }
  else return out

/-- `replace` of one escape, from the left. -/
def replaceEscape (escape : List Char) (c' : Char) : List Char → List Char
  | [] => []
  | c :: rest =>
    if escape.isPrefixOf (c :: rest) then c' :: replaceEscape escape c' (rest.drop (escape.length - 1))
    else c :: replaceEscape escape c' rest
termination_by text => text.length

/-- The path of a row of `/proc/swaps`. -/
def swapPath (column : List Char) : List Char :=
  replaceEscape "\\134".toList '\\' (replaceEscape "\\011".toList '\t'
    (replaceEscape "\\040".toList ' ' column))

/-- `is_zram` of a row. -/
def rowIsZram (files : SwapFiles) (name kind : List Char) : Option Bool :=
  if kind = "partition".toList then
    (files.device (swapPath name)).map fun n => "zram".toList.isPrefixOf n.toList
  else some false

/-- One turn over the rows of `/proc/swaps`. -/
def addSwap (files : SwapFiles) (out : SwapSources) (line : List Char) : Option SwapSources := do
  match splitWhitespace line with
  | [name, kind, size, used, _] =>
    let size ← checkedMul (← parseNat size) 1024
    let used ← checkedMul (← parseNat used) 1024
    let zram ← rowIsZram files name kind
    if zram then return out
    let total ← checkedAdd out.swapDiskTotal size
    let sum ← checkedAdd out.swapDiskUsed used
    let out := { out with swapDiskTotal := total, swapDiskUsed := sum }
    if kind = "file".toList then
      return { out with swapfileUsed := ← checkedAdd out.swapfileUsed used }
    else if kind = "partition".toList then
      return { out with swapPartitionUsed := ← checkedAdd out.swapPartitionUsed used }
    else none
  | _ => none

/-- `swap_sources`. -/
def swapSources (files : SwapFiles) : Option SwapSources := do
  let zram ← (← files.block).foldlM addZram SwapSources.empty
  ((lines (← files.swaps).toList).drop 1).foldlM (addSwap files) zram

/-- A sum that fits is the sum. -/
theorem checkedAdd_eq_some {a b n : Nat} (h : checkedAdd a b = some n) : n = a + b := by
  unfold checkedAdd at h
  split at h
  · cases h
    rfl
  · cases h

/-- The swap on disk is told apart by files and partitions. -/
def SwapSources.Split (out : SwapSources) : Prop :=
  out.swapDiskUsed = out.swapfileUsed + out.swapPartitionUsed

/-- A device of compressed memory keeps the parts of the disks whole. -/
theorem split_addZram {out out' : SwapSources} {entry : Option BlockDevice} (hs : out.Split)
    (h : addZram out entry = some out') : out'.Split := by
  unfold addZram at h
  obtain ⟨device, -, h⟩ := Option.bind_eq_some_iff.mp h
  split at h
  · obtain ⟨disksize, -, h⟩ := Option.bind_eq_some_iff.mp h
    obtain ⟨size, -, h⟩ := Option.bind_eq_some_iff.mp h
    split at h
    · cases h
      exact hs
    · obtain ⟨stat, -, h⟩ := Option.bind_eq_some_iff.mp h
      obtain ⟨word, -, h⟩ := Option.bind_eq_some_iff.mp h
      obtain ⟨n, -, h⟩ := Option.bind_eq_some_iff.mp h
      obtain ⟨used, -, h⟩ := Option.bind_eq_some_iff.mp h
      obtain ⟨total, -, h⟩ := Option.bind_eq_some_iff.mp h
      cases h
      exact hs
  · cases h
    exact hs

/-- A line of the list of swaps adds to a part and to the whole. -/
theorem split_addSwap {files : SwapFiles} {out out' : SwapSources} {line : List Char}
    (hs : out.Split) (h : addSwap files out line = some out') : out'.Split := by
  unfold addSwap at h
  split at h
  · obtain ⟨sizeKb, -, h⟩ := Option.bind_eq_some_iff.mp h
    obtain ⟨size, -, h⟩ := Option.bind_eq_some_iff.mp h
    obtain ⟨usedKb, -, h⟩ := Option.bind_eq_some_iff.mp h
    obtain ⟨used, -, h⟩ := Option.bind_eq_some_iff.mp h
    obtain ⟨zram, -, h⟩ := Option.bind_eq_some_iff.mp h
    split at h
    · cases h
      exact hs
    · obtain ⟨total, -, h⟩ := Option.bind_eq_some_iff.mp h
      obtain ⟨sum, hsum, h⟩ := Option.bind_eq_some_iff.mp h
      have hsum := checkedAdd_eq_some hsum
      unfold SwapSources.Split at hs ⊢
      split at h
      · obtain ⟨file, hfile, h⟩ := Option.bind_eq_some_iff.mp h
        have hfile := checkedAdd_eq_some hfile
        cases h
        dsimp only at hfile ⊢
        omega
      · split at h
        · obtain ⟨partition, hpartition, h⟩ := Option.bind_eq_some_iff.mp h
          have hpartition := checkedAdd_eq_some hpartition
          cases h
          dsimp only at hpartition ⊢
          omega
        · cases h
  · cases h

/-- What one turn of a loop that may give up keeps, the whole loop keeps. -/
theorem foldlM_keeps {α β : Type} {f : β → α → Option β} {P : β → Prop}
    (hstep : ∀ b a b', P b → f b a = some b' → P b') {l : List α} {b b' : β} (hb : P b)
    (h : l.foldlM f b = some b') : P b' := by
  induction l generalizing b with
  | nil =>
    cases h
    exact hb
  | cons a rest ih =>
    rw [List.foldlM_cons] at h
    obtain ⟨c, hc, h⟩ := Option.bind_eq_some_iff.mp h
    exact ih (hstep b a c hb hc) h

/-- So files and partitions are all there is besides compressed memory. -/
theorem swapSources_split {files : SwapFiles} {out : SwapSources} (h : swapSources files = some out) :
    out.Split := by
  unfold swapSources at h
  obtain ⟨block, -, h⟩ := Option.bind_eq_some_iff.mp h
  obtain ⟨zram, hzram, h⟩ := Option.bind_eq_some_iff.mp h
  obtain ⟨text, -, h⟩ := Option.bind_eq_some_iff.mp h
  have hempty : SwapSources.empty.Split := rfl
  have hsplit : zram.Split := foldlM_keeps (fun _ _ _ => split_addZram) hempty hzram
  exact foldlM_keeps (fun _ _ _ => split_addSwap) hsplit h

/-! ## The processor -/

/-- `parse_cpu_jiffies`: all time and idle time. -/
def parseCpuJiffies (text : String) : Option (Nat × Nat) := do
  let line ← (lines text.toList).head?
  let rest ← stripFront "cpu ".toList line
  let v := (splitWhitespace rest).filterMap parseNat
  if v.length < 5 then none
  else return (wrap64 (v.take 8).sum, wrap64 (v.getD 3 0 + v.getD 4 0))

/-- `clamp`. -/
def clamp (low high q : Rat) : Rat := max low (min high q)

/-- `busy_percent`. -/
def busyPercent (prev now : Nat × Nat) : Rat :=
  if now.1 ≤ prev.1 then 0
  else
    let dt : Rat := ((now.1 - prev.1 : Nat) : Rat)
    let di : Rat := ((now.2 - prev.2 : Nat) : Rat)
    clamp 0 100 ((dt - di) / dt * 100)

/-- A share is one of a hundred. -/
theorem busyPercent_range (prev now : Nat × Nat) :
    0 ≤ busyPercent prev now ∧ busyPercent prev now ≤ 100 := by
  unfold busyPercent clamp
  split
  · exact ⟨le_rfl, by norm_num⟩
  · exact ⟨le_max_left _ _, max_le (by norm_num) (min_le_left _ _)⟩

/-! ## Load, uptime, sockets and processes -/

/-- One figure of `/proc/loadavg`. -/
def loadFigure (parse : FloatParser) (text : String) (i : Nat) : Double :=
  ((splitWhitespace text.toList)[i]?.bind parse).getD (.finite 0)

/-- `uptime`. -/
def uptime (parse : FloatParser) (text : Option String) : Nat :=
  ((text.bind fun t => (splitWhitespace t.toList).head?.bind parse).getD (.finite 0)).toU64

/-- The word after a key. -/
def wordAfter (key : String) : List (List Char) → Option (List Char)
  | [] => none
  | word :: rest => if word = key.toList then rest.head? else wordAfter key rest

/-- `stat` of `parse_sockstat`. -/
def socketStat (text front key : String) : Nat :=
  ((lines text.toList).findSome? fun line => do
    let rest ← stripFront front.toList line
    let word ← wordAfter key (splitWhitespace rest)
    (parseNat word).filter fun n => n ≤ u32Max).getD 0

/-- `parse_sockstat`. -/
def parseSockstat (v4 v6 : String) : Nat × Nat :=
  (wrap32 (wrap32 (socketStat v4 "TCP:" "inuse" + socketStat v4 "TCP:" "tw") +
      socketStat v6 "TCP6:" "inuse"),
    wrap32 (socketStat v4 "UDP:" "inuse" + socketStat v6 "UDP6:" "inuse"))

/-- `proc_count`, over the names in `/proc`. -/
def procCount (names : List (List Char)) : Nat :=
  wrap32 (names.filter fun name => name.all Char.isDigit).length

/-! ## Disks -/

/-- `statvfs`. -/
structure Statvfs where
  /-- `f_blocks`. -/
  blocks : Nat
  /-- `f_bfree`. -/
  free : Nat
  /-- `f_frsize`. -/
  frsize : Nat
  /-- `f_bsize`. -/
  bsize : Nat

/-- Saturating arithmetic on `u64`. -/
def saturatingMul (a b : Nat) : Nat := min u64Max (a * b)

/-- `disk_usage`: a mount that does not answer is passed over. -/
def diskUsage (statvfs : List Char → Option Statvfs) (mounts : List (List Char)) : Nat × Nat :=
  mounts.foldl (fun sum mount =>
    match statvfs mount with
    | none => sum
    | some s =>
      let bs := if s.frsize > 0 then s.frsize else s.bsize
      (capAdd u64Max sum.1 (saturatingMul s.blocks bs),
        capAdd u64Max sum.2 (saturatingMul (s.blocks - s.free) bs))) (0, 0)

/-! ## A collection -/

/-- What one collection reads. -/
structure Machine where
  /-- `/proc/meminfo`. -/
  meminfo : String
  /-- What tells of its swap. -/
  swap : SwapFiles
  /-- The table of mounts. -/
  mounts : String
  /-- What `statvfs` tells of a path. -/
  statvfs : List Char → Option Statvfs
  /-- The operator's choice, sysfs, `/proc/net/dev` and the boot id. -/
  network : Sample
  /-- The monotonic clock, in nanoseconds. -/
  instant : Nat
  /-- `/proc/net/sockstat`. -/
  sockstat : String
  /-- `/proc/net/sockstat6`. -/
  sockstat6 : String
  /-- `/proc/uptime`. -/
  uptime : Option String
  /-- `/proc/stat`. -/
  stat : Option String
  /-- `/proc/loadavg`. -/
  loadavg : String
  /-- The names under `/proc`. -/
  procs : List (List Char)

/-- `Collector`: what is kept of the sample before. -/
structure Collector where
  /-- The last idle and total time of the processor. -/
  prevCpu : Option (Nat × Nat)
  /-- When the interfaces were last read. -/
  prevNetAt : Option Nat
  /-- What they said then. -/
  prevNet : List (String × (Nat × Nat))

/-- `Collector::new`. -/
def Collector.new : Collector := ⟨none, none, []⟩

/-- What the counted interfaces climbed by since the sample before. -/
def climbs (prevNet : List (String × (Nat × Nat))) (rows : List NetDevRow) : List (Nat × Nat) :=
  rows.filterMap fun row =>
    (prevNet.reverse.lookup row.name).map fun p => (row.rx - p.1, row.tx - p.2)

/-- Their sum. -/
def climbed (prevNet : List (String × (Nat × Nat))) (rows : List NetDevRow) : Nat × Nat :=
  (climbs prevNet rows).foldl
    (fun sum climb => (capAdd u64Max sum.1 climb.1, capAdd u64Max sum.2 climb.2)) (0, 0)

/-- `as_secs_f64` of so many nanoseconds. -/
def asSecs (nanos : Nat) : Double :=
  (ofRat (nanos / 1000000000 : Nat)).add
    ((ofRat (nanos % 1000000000 : Nat)).div (.finite 1000000000))

/-- `<= 0.0`. -/
def notPositive : Double → Bool
  | .nan => false
  | .infinite negative => negative
  | .finite q => decide (q ≤ 0)

/-- A rate per second, of bytes in so many nanoseconds. -/
def perSecond (bytes nanos : Nat) : Nat :=
  if notPositive (asSecs nanos) then 0 else ((ofRat bytes).div (asSecs nanos)).toU64

/-- `net_rate`. -/
def Collector.netRate (c : Collector) (rows : List NetDevRow) (now : Nat) : (Nat × Nat) × Collector :=
  let rate := match c.prevNetAt with
    | some t =>
      let sum := climbed c.prevNet rows
      (perSecond sum.1 (now - t), perSecond sum.2 (now - t))
    | none => (0, 0)
  (rate, { c with
    prevNetAt := some now
    prevNet := rows.map fun row => (row.name, row.rx, row.tx) })

/-- `cpu_percent`. -/
def Collector.cpuPercent (c : Collector) (stat : Option String) : Rat × Collector :=
  match stat.bind parseCpuJiffies with
  | none => (0, c)
  | some now => ((c.prevCpu.map fun prev => busyPercent prev now).getD 0, { c with prevCpu := some now })

/-- `Metrics`; the sources of swap are read together or not at all. -/
structure Metrics extends AgentCounters.Metrics where
  /-- Seconds since the boot. -/
  uptime : Nat
  /-- The load of the processor in percent. -/
  cpu : Rat
  /-- The three load averages. -/
  load : Double × Double × Double
  /-- The memory in bytes. -/
  memTotal : Nat
  /-- How much of it is in use. -/
  memUsed : Nat
  /-- The swap in bytes. -/
  swapTotal : Nat
  /-- How much of it is in use. -/
  swapUsed : Nat
  /-- Where the swap is, if that is known. -/
  swap : Option SwapSources
  /-- The bytes the disks hold. -/
  diskTotal : Nat
  /-- How many of them are in use. -/
  diskUsed : Nat
  /-- The rate of what is received. -/
  netRx : Nat
  /-- The rate of what is sent. -/
  netTx : Nat
  /-- How many TCP connections there are. -/
  tcp : Nat
  /-- How many UDP sockets. -/
  udp : Nat
  /-- How many processes. -/
  procs : Nat

/-- `collect`. -/
def Collector.collect (parse32 parse64 : FloatParser) (c : Collector) (m : Machine) :
    Metrics × Collector :=
  let mem := parseMeminfo m.meminfo
  let disk := MachineReadings.diskUsage m.statvfs (parseMounts m.mounts.toList)
  let (rate, c) := c.netRate m.network.rows m.instant
  let sockets := parseSockstat m.sockstat m.sockstat6
  let (cpu, c) := c.cpuPercent m.stat
  ({ AgentCounters.collect m.network with
    uptime := MachineReadings.uptime parse64 m.uptime
    cpu := cpu
    load := (loadFigure parse32 m.loadavg 0, loadFigure parse32 m.loadavg 1,
      loadFigure parse32 m.loadavg 2)
    memTotal := (MachineReadings.memUsed mem).1
    memUsed := (MachineReadings.memUsed mem).2
    swapTotal := (MachineReadings.swapUsed mem).1
    swapUsed := (MachineReadings.swapUsed mem).2
    swap := swapSources m.swap
    diskTotal := disk.1
    diskUsed := disk.2
    netRx := rate.1
    netTx := rate.2
    tcp := sockets.1
    udp := sockets.2
    procs := procCount m.procs }, c)

/-! ## The report -/

/-- A number that may be missing. -/
def optionalJson (n : Option Nat) : Json := (n.map fun n => .int n).getD .null

/-- The fields of a report, in the order of `Metrics`. -/
def Metrics.fields (m : Metrics) : List (String × Json) :=
  [("boot_id", .str m.bootId), ("uptime", .int m.uptime), ("cpu", .float m.cpu),
    ("load", .arr [.ofDouble m.load.1, .ofDouble m.load.2.1, .ofDouble m.load.2.2]),
    ("mem_total", .int m.memTotal), ("mem_used", .int m.memUsed),
    ("swap_total", .int m.swapTotal), ("swap_used", .int m.swapUsed),
    ("zram_used", optionalJson (m.swap.map SwapSources.zramUsed)),
    ("zram_total", optionalJson (m.swap.map SwapSources.zramTotal)),
    ("zram_devices", optionalJson (m.swap.map SwapSources.zramDevices)),
    ("swap_disk_used", optionalJson (m.swap.map SwapSources.swapDiskUsed)),
    ("swap_disk_total", optionalJson (m.swap.map SwapSources.swapDiskTotal)),
    ("swapfile_used", optionalJson (m.swap.map SwapSources.swapfileUsed)),
    ("swap_partition_used", optionalJson (m.swap.map SwapSources.swapPartitionUsed)),
    ("disk_total", .int m.diskTotal), ("disk_used", .int m.diskUsed),
    ("net_rx_total", .int m.netRxTotal), ("net_tx_total", .int m.netTxTotal),
    ("net_rx", .int m.netRx), ("net_tx", .int m.netTx), ("tcp", .int m.tcp), ("udp", .int m.udp),
    ("procs", .int m.procs)]

/-- The report as an object, whose members are in order once it is decoded. -/
def Metrics.report (m : Metrics) : Members :=
  m.fields.foldl (fun members f => members.insert f.1 f.2) ⟨[], ascending_nil⟩

end Romi.MachineReadings
