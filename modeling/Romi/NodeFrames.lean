import Romi.JsonObjects
import Romi.NotifySweep

/-!
# The nodes frame

One view per node, put together from the stored row, the report a connected
session last published and the traffic the hub has booked. The panel's frame
and the visitor's frame come from the same builder, which takes the audience
as a flag.
-/

namespace Romi.NodeFrames

open JsonObjects JsonValue KeyedTable NotifySweep StoreSchema TrafficFold

/-- `PUBLIC_METRICS`: what a report may show on the public page. -/
def publicMetrics : List String :=
  ["zram_used", "zram_total", "swap_disk_used", "swap_disk_total", "swapfile_used",
    "swap_partition_used", "zram_devices", "uptime", "cpu", "load", "mem_total", "mem_used",
    "swap_total", "swap_used", "disk_total", "disk_used", "net_rx", "net_tx", "tcp", "udp",
    "procs", "total_rx", "total_tx", "month_rx", "month_tx"]

/-- A session's metrics: null until a report arrives, an object from then on. -/
def Metrics : Json → Prop
  | .null => True
  | .obj members => Ascending members
  | _ => False

/-- What a session has published: its latest report and when that arrived. -/
structure Published where
  /-- The report of the agent, as it sent it. -/
  metrics : Json
  /-- When it came. -/
  seen : Int
  /-- Which is one of the machine. -/
  reading : Metrics metrics

/-- A session that has not reported yet. -/
def Published.silent : Published := ⟨.null, 0, trivial⟩

/-- `live`: a capacity from the report, else the stored one. -/
def live (current : Option Published) (key : String) (stored : Int) : Int :=
  ((current.bind fun p => p.metrics.get key).bind Json.asInt).getD stored

/-- The report's own stamp once there is one, else the stored stamp. -/
def lastSeen (current : Option Published) (stored : Int) : Int :=
  ((current.map Published.seen).filter fun t => 0 < t).getD stored

/-- A null or a text. -/
def textOrNull : Option String → Json
  | some s => .str s
  | none => .null

/-- The fields of the view up to the report. -/
def leadingFields (node : NodeRow) (current : Option Published) : List (String × Json) :=
  [("id", .int node.id), ("name", .str node.name), ("country", .str node.country),
    ("sort", .int node.sort), ("priority", .int node.priority),
    ("traffic_unit", .str node.trafficUnit), ("bandwidth_up", .float node.bandwidthUp),
    ("bandwidth_down", .float node.bandwidthDown), ("has_ipv4", .bool node.hasIpv4),
    ("has_ipv6", .bool node.hasIpv6), ("online_since", .int node.onlineSince),
    ("public", .bool node.isPublic), ("online", .bool current.isSome),
    ("last_seen", .int (lastSeen current node.lastSeen))]

/-- The fields of the view after the report. -/
def trailingFields (node : NodeRow) (current : Option Published) (traffic : Traffic) :
    List (String × Json) :=
  [("os", .str node.os), ("kernel", .str node.kernel), ("arch", .str node.arch),
    ("virt", .str node.virt), ("cpu_name", .str node.cpuName), ("cpu_cores", .int node.cpuCores),
    ("mem_total", .int (live current "mem_total" node.memTotal)),
    ("swap_total", .int (live current "swap_total" node.swapTotal)),
    ("disk_total", .int (live current "disk_total" node.diskTotal)),
    ("agent_version", .str node.agentVersion), ("price", .float node.price),
    ("currency", .str node.currency), ("billing_cycle", .str node.billingCycle),
    ("expires_at", textOrNull node.expiresAt), ("traffic_limit", .int node.trafficLimit),
    ("traffic_mode", .str node.trafficMode),
    ("traffic_reset_day", .int (max 0 (min node.trafficResetDay 4294967295))),
    ("total_rx", .int traffic.totalRx), ("total_tx", .int traffic.totalTx),
    ("month_rx", .int traffic.monthRx), ("month_tx", .int traffic.monthTx),
    ("month_start", .str traffic.monthStart), ("day_rx", .int traffic.dayRx),
    ("day_tx", .int traffic.dayTx)]

/-- The metrics of the view: the report as it was published. -/
def metricsOf (current : Option Published) : Json := (current.map Published.metrics).getD .null

/-- The view before the audience is considered. -/
def sharedView (node : NodeRow) (current : Option Published) (traffic : Traffic) : Json :=
  collect (leadingFields node current ++ ("metrics", metricsOf current) ::
    trailingFields node current traffic)

/-- The allowlist: an object keeps the public keys. -/
def retainPublic : Json → Json
  | .obj members => .obj (members.filter fun m => publicMetrics.contains m.1)
  | other => other

/-- What a visitor's view holds back of the report. -/
def restrict (view : Json) : Json :=
  match view.get "metrics" with
  | some metrics => setMember view "metrics" (retainPublic metrics)
  | none => view

/-- The fields only the panel sees. -/
def privateFields (node : NodeRow) : List (String × Json) :=
  [("created_at", .int node.createdAt), ("hostname", .str node.hostname), ("ip", .str node.ip),
    ("ipv4", .str node.ipv4), ("ipv6", .str node.ipv6), ("remark", .str node.remark),
    ("notify", .bool node.notify)]

/-- `node_view`. -/
def nodeView (node : NodeRow) (current : Option Published) (traffic : Traffic) (full : Bool) :
    Json :=
  let view := sharedView node current traffic
  let view := if full then view else restrict view
  if full then (privateFields node).foldl (fun v f => setMember v f.1 f.2) view else view

/-- Everything a frame is built from: the database, the connected sessions and
the local date. -/
structure Hub where
  /-- The store. -/
  store : Store
  /-- The report of each agent connected. -/
  agents : Int → Option Published
  /-- The day, and the time of it. -/
  today : Clock

/-- Which reads fail while a frame is built. -/
structure FrameFaults where
  /-- `nodes`. -/
  nodes : Bool
  /-- `all_traffic`. -/
  traffic : Bool
  /-- The grace setting, read again for every row. -/
  grace : Int → Bool

/-- Nothing fails. -/
def FrameFaults.none : FrameFaults := ⟨false, false, fun _ => false⟩

/-- `Traffic::default`. -/
def Traffic.none : Traffic := ⟨0, 0, 0, 0, "", 0, 0⟩

/-- A node's booked traffic as the frame shows it. -/
def trafficOf (faults : FrameFaults) (hub : Hub) (id : Int) : Traffic :=
  (if faults.traffic then Option.none else allTraffic hub.today hub.store id).getD Traffic.none

/-- `get`. -/
def storedSetting (db : Store) (key : String) : Option String :=
  (db.setting.find? key).map SettingRow.value

/-- How long an absence may last before the page shows it, in minutes. -/
def graceMinutes (faults : FrameFaults) (hub : Hub) (id : Int) : Int :=
  ((if faults.grace id then Option.none else storedSetting hub.store "online_grace_minutes").bind
    parseI64).getD 5

/-- One row of the frame. -/
def row (faults : FrameFaults) (hub : Hub) (full : Bool) (node : NodeRow) : Json :=
  setMember (nodeView node (hub.agents node.id) (trafficOf faults hub node.id) full)
    "online_grace_minutes" (.int (graceMinutes faults hub node.id))

/-- `visible_nodes`. -/
def visibleNodes (faults : FrameFaults) (hub : Hub) (full : Bool) : Option (List Json) :=
  if faults.nodes then Option.none
  else some (((nodes hub.store).filter fun n => full || n.isPublic).map (row faults hub full))

/-- The payload of a stream and of the node list: a failed read shows no node. -/
def frame (faults : FrameFaults) (hub : Hub) (full : Bool) : Json :=
  collect [("nodes", .arr ((visibleNodes faults hub full).getD [])), ("admin", .bool full)]

/-! ## What the audience changes -/

/-- An object collected from fields answers with the last of each key. -/
theorem lookup_collect (fields : List (String × Json)) (k : String) :
    (collect fields).get k = fields.reverse.lookup k ∧ Ordered (collect fields) := by
  have hgeneral : ∀ (fields members : List (String × Json)), Ascending members →
      (fields.foldl (fun m f => insertMember f.1 f.2 m) members).lookup k =
        (fields.reverse.lookup k).or (members.lookup k) ∧
      Ascending (fields.foldl (fun m f => insertMember f.1 f.2 m) members) := by
    intro fields
    induction fields with
    | nil =>
      intro members h
      exact ⟨rfl, h⟩
    | cons f rest ih =>
      intro members h
      obtain ⟨hlookup, hasc⟩ := ih (insertMember f.1 f.2 members) (h.insertMember f.1 f.2)
      refine ⟨?_, hasc⟩
      rw [List.foldl_cons, hlookup, lookup_insertMember h, List.reverse_cons, List.lookup_append,
        List.lookup_cons]
      by_cases hk : k = f.1
      · simp only [hk, if_true, beq_self_eq_true, Option.or_assoc, Option.some_or]
      · simp only [if_neg hk, beq_false_of_ne hk, List.lookup_nil, Option.or_none]
  obtain ⟨hlookup, hasc⟩ := hgeneral fields [] ascending_nil
  refine ⟨?_, hasc⟩
  show (fields.foldl (fun m f => insertMember f.1 f.2 m) []).lookup k = _
  rw [hlookup, List.lookup_nil, Option.or_none]

/-- A key is answered by its field when no later field has it. -/
theorem get_collect {before after : List (String × Json)} {key : String} (v : Json)
    (h : key ∉ after.map Prod.fst) :
    (collect (before ++ (key, v) :: after)).get key = some v := by
  have hafter : after.reverse.lookup key = none := by
    rw [List.lookup_eq_none_iff]
    intro m hm
    rw [bne_iff_ne]
    intro heq
    exact h (List.mem_map.mpr ⟨m, List.mem_reverse.mp hm, heq.symm⟩)
  rw [(lookup_collect _ key).1, List.reverse_append, List.reverse_cons, List.lookup_append,
    List.lookup_append, hafter, Option.none_or, List.lookup_cons, beq_self_eq_true, Option.some_or]

/-- Setting a member an object was collected with is collecting it with that member. -/
theorem setMember_collect {before after : List (String × Json)} {key : String} (v w : Json)
    (h : key ∉ after.map Prod.fst) :
    setMember (collect (before ++ (key, v) :: after)) key w =
      collect (before ++ (key, w) :: after) := by
  have hordered := fun u : Json => (lookup_collect (before ++ (key, u) :: after) key).2
  refine congrArg Json.obj (ascending_ext ((hordered v).insertMember key w) (hordered w) ?_)
  intro k
  rw [lookup_insertMember (hordered v)]
  by_cases hk : k = key
  · subst hk
    rw [if_pos rfl]
    exact (get_collect w h).symm
  · have hv := (lookup_collect (before ++ (key, v) :: after) k).1
    have hw := (lookup_collect (before ++ (key, w) :: after) k).1
    rw [List.reverse_append, List.reverse_cons, List.lookup_append, List.lookup_append,
      List.lookup_cons, beq_false_of_ne hk] at hv hw
    rw [if_neg hk]
    exact hv.trans hw.symm

/-- The report is not among the members that end a frame. -/
theorem metrics_not_trailing (node : NodeRow) (current : Option Published) (traffic : Traffic) :
    "metrics" ∉ (trailingFields node current traffic).map Prod.fst := by
  simp [trailingFields]

/-- The shared view carries the report under its own key. -/
theorem sharedView_metrics (node : NodeRow) (current : Option Published) (traffic : Traffic) :
    (sharedView node current traffic).get "metrics" = some (metricsOf current) :=
  get_collect _ (metrics_not_trailing node current traffic)

/-- A visitor's view is the shared view with the filtered report in it. -/
theorem nodeView_visitor (node : NodeRow) (current : Option Published) (traffic : Traffic) :
    nodeView node current traffic false =
      collect (leadingFields node current ++ ("metrics", retainPublic (metricsOf current)) ::
        trailingFields node current traffic) := by
  simp only [nodeView, Bool.false_eq_true, if_false]
  rw [restrict, sharedView_metrics]
  simp only [sharedView]
  rw [setMember_collect _ _ (metrics_not_trailing node current traffic)]

/-- A visitor's row shows the filtered report of the node's session. -/
theorem row_metrics (faults : FrameFaults) (hub : Hub) (n : NodeRow) :
    (row faults hub false n).get "metrics" =
      some (retainPublic (metricsOf (hub.agents n.id))) := by
  unfold row
  rw [nodeView_visitor]
  have hordered := fun v : Json => (lookup_collect (leadingFields n (hub.agents n.id) ++
    ("metrics", v) :: trailingFields n (hub.agents n.id) (trafficOf faults hub n.id)) "").2
  have hget := get_setMember (hordered (retainPublic (metricsOf (hub.agents n.id))))
    "online_grace_minutes" "metrics" (.int (graceMinutes faults hub n.id))
  rw [if_neg (by decide)] at hget
  exact hget.trans (get_collect _ (metrics_not_trailing n _ _))

end Romi.NodeFrames
