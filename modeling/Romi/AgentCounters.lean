import Romi.TrafficFold
import Mathlib.Data.String.Basic
import Mathlib.Data.List.Sort

/-!
# The counters an agent reports

What `collect_selected` makes of one text of `/proc/net/dev`: the rows that
parse, those of the counted interfaces, their saturating sums, and the epoch
that names the machine's boot and the exact set summed. The hub reads the two
sums back from the report's JSON.
-/

namespace Romi.AgentCounters

open JsonValue SaturatingSum TrafficFold

/-! ## Text -/

/-- `char::is_whitespace`. -/
def isWhitespace (c : Char) : Bool :=
  let n := c.toNat
  (9 ≤ n && n ≤ 13) || n = 32 || n = 133 || n = 160 || n = 5760 || (8192 ≤ n && n ≤ 8202) ||
    n = 8232 || n = 8233 || n = 8239 || n = 8287 || n = 12288

/-- A line without the carriage return before its line feed. -/
def dropReturn (line : List Char) : List Char :=
  if line.getLast? = some '\r' then line.dropLast else line

/-- `str::lines`, with the part of the current line already read. -/
def linesFrom (line : List Char) : List Char → List (List Char)
  | [] => if line = [] then [] else [line]
  | c :: rest => if c = '\n' then dropReturn line :: linesFrom [] rest else linesFrom (line ++ [c]) rest

/-- `str::lines`. -/
def lines (text : List Char) : List (List Char) := linesFrom [] text

/-- `str::split_once` at a character. -/
def splitOnce (sep : Char) : List Char → Option (List Char × List Char)
  | [] => none
  | c :: rest =>
    if c = sep then some ([], rest) else (splitOnce sep rest).map fun p => (c :: p.1, p.2)

/-- `str::split_whitespace`. -/
def splitWhitespace (text : List Char) : List (List Char) :=
  (text.splitOnP isWhitespace).filter fun word => word ≠ []

/-- `str::trim`. -/
def trim (text : List Char) : List Char :=
  ((text.dropWhile isWhitespace).reverse.dropWhile isWhitespace).reverse

/-- Largest unsigned 64-bit integer. -/
def u64Max : Nat := 18446744073709551615

/-- `str::parse::<u64>`. -/
def parseNat (text : List Char) : Option Nat :=
  let digits := match text with
    | '+' :: rest => rest
    | _ => text
  if digits ≠ [] ∧ digits.all Char.isDigit = true then
    let n := digits.foldl (fun n c => n * 10 + (c.toNat - 48)) 0
    if n ≤ u64Max then some n else none
  else none

/-- No line holds a line feed. -/
theorem newline_not_mem_linesFrom {text line : List Char} (hline : '\n' ∉ line) :
    ∀ l ∈ linesFrom line text, '\n' ∉ l := by
  induction text generalizing line with
  | nil =>
    intro l hl
    rw [linesFrom] at hl
    split at hl
    · cases hl
    · rw [List.mem_singleton] at hl
      rw [hl]
      exact hline
  | cons c rest ih =>
    rw [linesFrom]
    split
    · intro l hl
      rcases List.mem_cons.mp hl with rfl | hl
      · unfold dropReturn
        split
        · exact fun h => hline (List.dropLast_subset line h)
        · exact hline
      · exact ih (by simp) l hl
    · rename_i hc
      refine ih ?_
      rw [List.mem_append, List.mem_singleton]
      rintro (h | h)
      · exact hline h
      · exact hc h.symm

/-- The first part of a text is of the text. -/
theorem mem_of_splitOnce {sep : Char} {text : List Char} {p : List Char × List Char}
    (h : splitOnce sep text = some p) : ∀ c ∈ p.1, c ∈ text := by
  induction text generalizing p with
  | nil => cases h
  | cons c rest ih =>
    rw [splitOnce] at h
    split at h
    · cases h
      exact fun c hc => by cases hc
    · obtain ⟨q, hq, rfl⟩ := Option.map_eq_some_iff.mp h
      intro d hd
      rcases List.mem_cons.mp hd with rfl | hd
      · exact List.mem_cons_self
      · exact List.mem_cons_of_mem c (ih hq d hd)

/-- So is what is left without blanks. -/
theorem mem_of_trim {text : List Char} : ∀ c ∈ trim text, c ∈ text := by
  intro c hc
  rw [trim, List.mem_reverse] at hc
  have h := (List.dropWhile_sublist isWhitespace).subset hc
  rw [List.mem_reverse] at h
  exact (List.dropWhile_sublist isWhitespace).subset h

/-! ## Interfaces -/

/-- One row of `/proc/net/dev` that parsed. -/
structure NetDevRow where
  /-- The interface. -/
  name : String
  /-- The bytes it received. -/
  rx : Nat
  /-- The bytes it sent. -/
  tx : Nat
  deriving DecidableEq

/-- One line of `net_dev`: the first and the ninth field are the bytes
received and sent, and neither may fail to parse. -/
def netDevLine (line : List Char) : Option NetDevRow := do
  let (name, rest) ← splitOnce ':' line
  let fields := (splitWhitespace rest).map parseNat
  let rx ← (fields[0]?).bind id
  let tx ← (fields[8]?).bind id
  pure ⟨String.ofList (trim name), rx, tx⟩

/-- `net_dev`. -/
def netDev (text : String) : List NetDevRow := ((lines text.toList).drop 2).filterMap netDevLine

/-- `SKIP_IFACES`. -/
def skipIfaces : List String :=
  ["lo", "docker", "veth", "br-", "virbr", "tap", "tun", "wg", "tailscale", "cni", "flannel",
    "podman", "fwbr", "fwpr", "fwln", "ifb", "gretap", "erspan", "kube", "cali", "nerdctl", "lxc",
    "cilium", "zt"]

/-- `skip_iface`. -/
def skipIface (name : String) : Bool := skipIfaces.any fun p => p.toList.isPrefixOf name.toList

/-- `is_stacked`. -/
def isStacked (name : String) : Bool :=
  name.toList.contains '.' ||
    ["bond", "br", "vlan", "vmbr", "pppoe-"].any fun p => p.toList.isPrefixOf name.toList

/-- What sysfs tells about one interface; a file that cannot be read is empty. -/
structure SysDevice where
  /-- Text of `uevent`. -/
  uevent : String
  /-- Text of `type`. -/
  type : String
  /-- Names in the interface's directory that could be listed. -/
  entries : List String
  /-- Whether `device` exists. -/
  hasDevice : Bool
  /-- Whether `brport` exists. -/
  hasBrport : Bool

/-- `TUNNEL_TYPES`. -/
def tunnelTypes : List String := ["65534", "768", "769", "776", "778", "823"]

/-- `TUNNEL_DEVTYPES`. -/
def tunnelDevtypes : List String := ["DEVTYPE=vxlan", "DEVTYPE=geneve"]

/-- `STACKED_DEVTYPES`. -/
def stackedDevtypes : List String := ["DEVTYPE=bridge", "DEVTYPE=bond"]

/-- `counted_elsewhere`. -/
def countedElsewhere (dev : SysDevice) : Bool :=
  let devtype := fun set : List String =>
    (lines dev.uevent.toList).any fun line => set.contains (String.ofList line)
  if devtype stackedDevtypes || dev.entries.any fun e => "lower_".toList.isPrefixOf e.toList then true
  else if dev.hasDevice then false
  else dev.hasBrport || tunnelTypes.contains (String.ofList (trim dev.type.toList)) ||
    devtype tunnelDevtypes

/-- The interfaces an operator named. -/
structure Ifaces where
  /-- The interfaces that are counted, where they are named. -/
  only : List String
  /-- The interfaces that are not. -/
  skip : List String

/-- `Ifaces::counts`. -/
def Ifaces.counts (f : Ifaces) (sys : String → SysDevice) (name : String) : Bool :=
  if f.skip.contains name then false
  else if f.only ≠ [] then f.only.contains name
  else !skipIface name && !isStacked name && !countedElsewhere (sys name)

/-- `Collector::counted`. -/
def counted (f : Ifaces) (sys : String → SysDevice) (dev : String) : List NetDevRow :=
  (netDev dev).filter fun row => f.counts sys row.name

/-- `totals`. -/
def totals (rows : List NetDevRow) : Nat × Nat :=
  rows.foldl (fun t row => (capAdd u64Max t.1 row.rx, capAdd u64Max t.2 row.tx)) (0, 0)

/-! ## The epoch -/

/-- The names in byte order, one to a line. -/
def joined (names : List String) : List Char :=
  ['\n'].intercalate ((names.insertionSort (· ≤ ·)).map String.toList)

/-- The digest of an interface set: FNV-1a over the joined names. -/
def digest (text : List Char) : UInt64 :=
  (text.flatMap String.utf8EncodeChar).foldl (fun h b => (h ^^^ b.toUInt64) * 0x100000001b3)
    0xcbf29ce484222325

/-- One hexadecimal digit. -/
def hexDigit (n : Nat) : Char := if n < 10 then Char.ofNat (48 + n) else Char.ofNat (87 + n)

/-- The last `width` hexadecimal digits. -/
def hexDigits : Nat → Nat → List Char
  | 0, _ => []
  | width + 1, n => hexDigits width (n / 16) ++ [hexDigit (n % 16)]

/-- `epoch`. -/
def epoch (bootId : String) (names : List String) : String :=
  bootId ++ "/" ++ String.ofList (hexDigits 16 (digest (joined names)).toNat)

/-- Each digit is its own. -/
theorem hexDigit_injective {m n : Nat} (hm : m < 16) (hn : n < 16) (h : hexDigit m = hexDigit n) :
    m = n := by
  have hall : ∀ m < 16, ∀ n < 16, hexDigit m = hexDigit n → m = n := by decide
  exact hall m hm n hn h

/-- A number is written in as many digits as asked for. -/
theorem hexDigits_length (width n : Nat) : (hexDigits width n).length = width := by
  induction width generalizing n with
  | zero => rfl
  | succ width ih => rw [hexDigits, List.length_append, ih, List.length_singleton]

/-- Each number in its own. -/
theorem hexDigits_injective {width m n : Nat} (hm : m < 16 ^ width) (hn : n < 16 ^ width)
    (h : hexDigits width m = hexDigits width n) : m = n := by
  induction width generalizing m n with
  | zero =>
    rw [pow_zero] at hm hn
    omega
  | succ width ih =>
    obtain ⟨hhigh, hlow⟩ := List.append_inj' h rfl
    have hmod := hexDigit_injective (Nat.mod_lt m (by decide)) (Nat.mod_lt n (by decide))
      (List.singleton_inj.mp hlow)
    rw [pow_succ] at hm hn
    have hdiv := ih (by omega) (by omega) hhigh
    omega

/-- Equal epochs carry equal digests, whatever the boots are. -/
theorem digest_of_epoch {boot boot' : String} {names names' : List String}
    (h : epoch boot names = epoch boot' names') :
    digest (joined names) = digest (joined names') := by
  have htext := congrArg String.toList h
  simp only [epoch, String.toList_append, String.toList_ofList] at htext
  have hlen : (hexDigits 16 (digest (joined names)).toNat).length =
      (hexDigits 16 (digest (joined names')).toNat).length := by
    rw [hexDigits_length, hexDigits_length]
  have hhex := (List.append_inj' htext hlen).2
  have hlt : ∀ d : UInt64, d.toNat < 16 ^ 16 := fun d => d.toNat_lt
  exact UInt64.toNat_inj.mp (hexDigits_injective (hlt _) (hlt _) hhex)

/-- An epoch is never empty. -/
theorem epoch_ne_empty (boot : String) (names : List String) : epoch boot names ≠ "" := by
  intro h
  have htext := congrArg String.toList h
  simp [epoch] at htext

/-- A name that can be told apart in a joined text. -/
def Nameable (name : String) : Prop := name ≠ "" ∧ '\n' ∉ name.toList

/-- Names that were joined are taken apart, in order. -/
theorem splitOn_joined {names : List String} (hn : ∀ n ∈ names, Nameable n) (hne : names ≠ []) :
    (joined names).splitOn '\n' = (names.insertionSort (· ≤ ·)).map String.toList := by
  refine List.splitOn_intercalate _ ?_ ?_
  · intro l hl
    obtain ⟨n, hmem, rfl⟩ := List.mem_map.mp hl
    exact (hn n ((List.mem_insertionSort _).mp hmem)).2
  · intro hnil
    have hlen := congrArg List.length hnil
    rw [List.length_map, List.length_insertionSort, List.length_nil] at hlen
    exact hne (List.length_eq_zero_iff.mp hlen)

/-- No names and some names never join to the same text. -/
theorem joined_ne_nil {names : List String} (hn : ∀ n ∈ names, Nameable n) (hne : names ≠ []) :
    joined names ≠ joined [] := by
  intro h
  have hsplit := splitOn_joined hn hne
  rw [h] at hsplit
  have hmem : ([] : List Char) ∈ (names.insertionSort (· ≤ ·)).map String.toList := by
    rw [← hsplit]
    exact List.mem_singleton.mpr rfl
  obtain ⟨n, hmem, hempty⟩ := List.mem_map.mp hmem
  exact (hn n ((List.mem_insertionSort _).mp hmem)).1 (String.toList_eq_nil_iff.mp hempty)

/-- A joined text tells which names it joins. -/
theorem perm_of_joined {names names' : List String} (hn : ∀ n ∈ names, Nameable n)
    (hn' : ∀ n ∈ names', Nameable n) (h : joined names = joined names') : names.Perm names' := by
  by_cases he : names = []
  · by_cases he' : names' = []
    · rw [he, he']
    · rw [he] at h
      exact absurd h.symm (joined_ne_nil hn' he')
  · by_cases he' : names' = []
    · rw [he'] at h
      exact absurd h (joined_ne_nil hn he)
    · have hmap : (names.insertionSort (· ≤ ·)).map String.toList =
          (names'.insertionSort (· ≤ ·)).map String.toList := by
        rw [← splitOn_joined hn he, ← splitOn_joined hn' he', h]
      have hinj : Function.Injective String.toList := fun _ _ => String.toList_inj.mp
      have hsorted := List.map_injective_iff.mpr hinj hmap
      have hperm := List.perm_insertionSort (· ≤ ·) names
      rw [hsorted] at hperm
      exact hperm.symm.trans (List.perm_insertionSort (· ≤ ·) names')

/-- The names of parsed rows hold no line feed. -/
theorem newline_not_mem_name {dev : String} {row : NetDevRow} (h : row ∈ netDev dev) :
    '\n' ∉ row.name.toList := by
  obtain ⟨line, hline, hrow⟩ := List.mem_filterMap.mp h
  have hno : '\n' ∉ line :=
    newline_not_mem_linesFrom (by simp) line (List.mem_of_mem_drop hline)
  unfold netDevLine at hrow
  obtain ⟨p, hp, hrow⟩ := Option.bind_eq_some_iff.mp hrow
  obtain ⟨rx, -, hrow⟩ := Option.bind_eq_some_iff.mp hrow
  obtain ⟨tx, -, hrow⟩ := Option.bind_eq_some_iff.mp hrow
  cases hrow
  rw [String.toList_ofList]
  intro hmem
  exact hno (mem_of_splitOnce hp _ (mem_of_trim _ hmem))

/-! ## The report -/

/-- The fields of `Metrics` that the hub's traffic reads. -/
structure Metrics where
  /-- The epoch. -/
  bootId : String
  /-- The bytes received in it. -/
  netRxTotal : Nat
  /-- The bytes sent in it. -/
  netTxTotal : Nat

/-- What a collection looks at: the operator's choice, sysfs, the texts of
`/proc/net/dev` and of the kernel's boot id; a text that cannot be read is empty. -/
structure Sample where
  /-- What is counted. -/
  ifaces : Ifaces
  /-- What is known of each device. -/
  sys : String → SysDevice
  /-- `/proc/net/dev`. -/
  dev : String
  /-- The boot. -/
  boot : String

/-- The rows a sample counts. -/
def Sample.rows (s : Sample) : List NetDevRow := counted s.ifaces s.sys s.dev

/-- The names a sample counts. -/
def Sample.names (s : Sample) : List String := s.rows.map NetDevRow.name

/-- `collect_selected`, as far as the traffic goes. -/
def collect (s : Sample) : Metrics :=
  let t := totals s.rows
  ⟨epoch (String.ofList (trim s.boot.toList)) s.names, t.1, t.2⟩

/-- The report as it is sent. -/
def Metrics.toJson (m : Metrics) : Json :=
  .obj [("boot_id", .str m.bootId), ("net_rx_total", .int m.netRxTotal),
    ("net_tx_total", .int m.netTxTotal)]

/-- `boot_id` as the hub reads it from a report. -/
def bootIdOf (metrics : Json) : String :=
  (((metrics.get "boot_id").bind Json.asStr).filter fun b => b ≠ "").getD "-"

/-- A counter as the hub reads it: anything but a non-negative i64 is no reading. -/
def counterOf (metrics : Json) (key : String) : Option Int :=
  ((metrics.get key).bind Json.asInt).filter fun n => 0 ≤ n

/-- `report` down to the call of `accumulate`. -/
def reportOf (metrics : Json) (clock : Clock) : Report :=
  ⟨bootIdOf metrics,
    (counterOf metrics "net_rx_total").bind fun rx =>
      (counterOf metrics "net_tx_total").map fun tx => (rx, tx), clock⟩

/-- The sum of one direction of some rows. -/
def sumOf (dir : Direction) (rows : List NetDevRow) : Nat :=
  (rows.map fun row => dir.of (row.rx, row.tx)).sum

/-- Both totals are summed side by side. -/
theorem foldl_totals (rows : List NetDevRow) (t : Nat × Nat) :
    rows.foldl (fun t row => (capAdd u64Max t.1 row.rx, capAdd u64Max t.2 row.tx)) t =
      ((rows.map NetDevRow.rx).foldl (capAdd u64Max) t.1,
        (rows.map NetDevRow.tx).foldl (capAdd u64Max) t.2) := by
  induction rows generalizing t with
  | nil => rfl
  | cons row rest ih => exact ih _

/-- The totals are the sums, up to the largest u64. -/
theorem totals_eq (dir : Direction) (rows : List NetDevRow) :
    dir.of (totals rows) = min u64Max (sumOf dir rows) := by
  have hfold := foldl_totals rows (0, 0)
  rw [foldl_capAdd _ (fun _ _ => Nat.zero_le _) 0 (Nat.zero_le _),
    foldl_capAdd _ (fun _ _ => Nat.zero_le _) 0 (Nat.zero_le _), zero_add, zero_add] at hfold
  rw [totals, hfold]
  cases dir <;> rfl

/-- A counter that is read is within range. -/
theorem counterOf_int {metrics : Json} {key : String} {n : Nat} {c : Int}
    (hkey : metrics.get key = some (.int n)) (h : counterOf metrics key = some c) :
    c = n ∧ Counted c := by
  rw [counterOf, hkey, Option.bind_some, Json.asInt] at h
  split at h
  · rename_i hrange
    rw [Option.filter_eq_some_iff] at h
    obtain ⟨hc, -⟩ := h
    cases hc
    exact ⟨rfl, by simp, hrange.2⟩
  · cases h

/-- The hub reads the agent's epoch. -/
theorem reportOf_bootId (s : Sample) (clock : Clock) :
    (reportOf (collect s).toJson clock).bootId =
      epoch (String.ofList (trim s.boot.toList)) s.names := by
  have hne : (collect s).bootId ≠ "" := epoch_ne_empty _ s.names
  change ((some (collect s).bootId).filter _).getD "-" = (collect s).bootId
  rw [Option.filter_some_pos (by simpa using hne), Option.getD_some]

/-- A reading that reaches the hub is the exact sum over the counted rows. -/
theorem reportOf_counter {s : Sample} {clock : Clock} {dir : Direction} {c : Int}
    (h : ((reportOf (collect s).toJson clock).lane dir).counter = some c) :
    c = sumOf dir s.rows ∧ Counted c := by
  obtain ⟨p, hp, rfl⟩ := Option.map_eq_some_iff.mp h
  obtain ⟨rx, hrx, hp⟩ := Option.bind_eq_some_iff.mp hp
  obtain ⟨tx, htx, rfl⟩ := Option.map_eq_some_iff.mp hp
  have hexact : ∀ {c : Int} {n : Nat}, c = (min u64Max n : Nat) ∧ Counted c → c = n ∧ Counted c := by
    rintro c n ⟨hc, hcount⟩
    refine ⟨?_, hcount⟩
    have hle := hcount.2
    unfold i64Max at hle
    unfold u64Max at hc
    omega
  cases dir with
  | rx =>
    refine hexact ?_
    rw [← totals_eq .rx]
    exact counterOf_int rfl hrx
  | tx =>
    refine hexact ?_
    rw [← totals_eq .tx]
    exact counterOf_int rfl htx

end Romi.AgentCounters
