import Mathlib
import Romi.StoreJobs

/-!
# One pass of the notification watch

A sweep compares the connected sessions with the node table, records who went
away for long enough and who came back, and gathers what to announce. What it
carries from one pass to the next is in `Watch`; what must survive a restart
is the column `down_since`, written node by node while the pass goes on.
-/

namespace Romi.NotifySweep

open CachedTransactions KeyedTable StoreJobs StoreSchema TrafficFold

/-! ## Settings -/

/-- What a sweep takes from outside the store. -/
structure SweepHost where
  /-- Hub-local time with its offset. -/
  clock : Int → String
  /-- GiB with two decimals. -/
  gib : Int → String
  /-- The local date, for billing periods. -/
  today : Clock

/-- Which operations of the database fail during one sweep. -/
structure SweepFaults where
  /-- `nodes`. -/
  nodes : Option Failure
  /-- Reading a setting. -/
  get : String → Bool
  /-- `set_down_since` for a node. -/
  write : Int → Option Failure
  /-- `all_traffic`. -/
  traffic : Bool

/-- Nothing fails. -/
def SweepFaults.none : SweepFaults := ⟨.none, fun _ => false, fun _ => .none, false⟩

/-- `str::parse::<i64>`. -/
def parseI64 (text : String) : Option Int :=
  let (negative, digits) := match text.toList with
    | '-' :: rest => (true, rest)
    | '+' :: rest => (false, rest)
    | all => (false, all)
  if digits ≠ [] ∧ digits.all Char.isDigit = true then
    let magnitude : Int := digits.foldl (fun n c => n * 10 + (c.toNat - 48 : Nat)) 0
    let n := if negative then -magnitude else magnitude
    if JsonValue.i64Min ≤ n ∧ n ≤ JsonValue.i64Max then some n else none
  else none

/-- `get`: a failed read is an absent setting. -/
def get (faults : SweepFaults) (db : Store) (key : String) : Option String :=
  if faults.get key then none else (db.setting.find? key).map SettingRow.value

/-- A numeric setting with its range and its default. -/
structure NumberSetting where
  /-- The key of the setting. -/
  key : String
  /-- The least it may be. -/
  min : Int
  /-- The most it may be. -/
  max : Int
  /-- What it is where it is not set. -/
  default : Int

/-- `FLAP_WINDOW`. -/
def flapWindow : Int := 3600

/-- `FLAP_GRACE`. -/
def flapGrace : Int := 1800

/-- `NUMBERS`. -/
def numbers : List NumberSetting :=
  [⟨"notify_grace", 1, flapGrace / 60, 3⟩, ⟨"notify_traffic", 0, 100, 80⟩,
    ⟨"notify_expiry", 0, 365, 7⟩]

/-- `number`: the stored value where it is in range, else the default. -/
def number (faults : SweepFaults) (db : Store) (key : String) : Int :=
  match numbers.find? fun n => n.key == key with
  | some n =>
    (((get faults db key).bind parseI64).filter fun v => n.min ≤ v ∧ v ≤ n.max).getD n.default
  | none => 0

/-- `setting`: an empty value counts as absent. -/
def setting (faults : SweepFaults) (db : Store) (key : String) : Option String :=
  (get faults db key).filter fun v => v ≠ ""

/-- Where alerts go. -/
inductive Channel
  /-- A chat, through a bot. -/
  | telegram (token chat text : String)
  /-- An address that is posted to. -/
  | webhook (url headers body : String)

/-- `DEFAULT_TEXT`. -/
def defaultText : String := "\x7b\x7btitle\x7d\x7d\n\x7b\x7bmessage\x7d\x7d"

/-- `DEFAULT_BODY`. -/
def defaultBody : String :=
  "\x7b\"event\":\"\x7b\x7bevent\x7d\x7d\",\"node\":\"\x7b\x7bnode\x7d\x7d\",\"title\":\"\x7b\x7btitle\x7d\x7d\",\"message\":\"\x7b\x7bmessage\x7d\x7d\"\x7d"

/-- `channels`. -/
def channels (faults : SweepFaults) (db : Store) : List Channel :=
  let telegram := match setting faults db "notify_telegram_token",
      setting faults db "notify_telegram_chat" with
    | some token, some chat =>
      [.telegram token chat ((setting faults db "notify_telegram_text").getD defaultText)]
    | _, _ => []
  let webhook := match setting faults db "notify_webhook_url" with
    | some url => [.webhook url ((get faults db "notify_webhook_headers").getD "")
      ((setting faults db "notify_webhook_body").getD defaultBody)]
    | none => []
  telegram ++ webhook

/-- The grace before an absence is reported, in seconds. -/
def grace (faults : SweepFaults) (db : Store) : Int := number faults db "notify_grace" * 60

/-- Whatever is stored, the grace is positive and at most `FLAP_GRACE`. -/
theorem grace_bounds (faults : SweepFaults) (db : Store) :
    0 < grace faults db ∧ grace faults db ≤ flapGrace := by
  have hrange : ∀ o : Option Int, 1 ≤ (o.filter fun v => (1 : Int) ≤ v ∧ v ≤ flapGrace / 60).getD 3 ∧
      (o.filter fun v => (1 : Int) ≤ v ∧ v ≤ flapGrace / 60).getD 3 ≤ 30 := by
    intro o
    cases o with
    | none => decide
    | some v =>
      have hmax : flapGrace / 60 = 30 := by decide
      rw [Option.filter_some, hmax]
      by_cases hv : (1 : Int) ≤ v ∧ v ≤ 30
      · rw [if_pos (decide_eq_true hv), Option.getD_some]
        exact hv
      · rw [if_neg (by simpa using hv), Option.getD_none]
        decide
  have hnumber := hrange ((get faults db "notify_grace").bind parseI64)
  have hfound : grace faults db =
      (((get faults db "notify_grace").bind parseI64).filter fun v =>
        (1 : Int) ≤ v ∧ v ≤ flapGrace / 60).getD 3 * 60 := rfl
  have hcap : flapGrace = 1800 := rfl
  rw [hfound, hcap]
  rw [hcap] at hnumber
  omega

/-! ## Notes -/

/-- One alert. -/
structure Note where
  /-- What kind of note it is. -/
  event : String
  /-- The names of the nodes it concerns. -/
  node : String
  /-- Its title. -/
  title : String
  /-- Its text. -/
  message : String
  /-- Stamped when queued. -/
  time : Int
  deriving DecidableEq

/-- `LISTED`. -/
def listed : Nat := 20

/-- A node to announce with what there is to say about it. -/
structure Item where
  /-- The node. -/
  node : NodeRow
  /-- What is said of it. -/
  detail : String

/-- `batch`: several nodes in one alert, `none` when there is nothing to say. -/
def batch (event mark what : String) (items : List Item) : Option Note :=
  let node := ", ".intercalate (items.map fun i => i.node.name)
  match items with
  | [] => none
  | [i] => some ⟨event, node, s!"{mark} {i.node.name} {what}", i.detail, 0⟩
  | _ =>
    let lines := (items.take listed).map fun i => s!"{i.node.name} · {i.detail}"
    let lines := if items.length > listed then
      lines ++ [s!"……另外 {items.length - listed} 台"] else lines
    some ⟨event, node, s!"{mark} {items.length} 台节点{what}", "\n".intercalate lines, 0⟩

/-- `span`. -/
def span (seconds : Int) : String :=
  let minutes := max seconds 0 / 60
  let days := minutes / 1440
  let hours := minutes / 60 % 24
  if days = 0 ∧ hours = 0 then s!"{minutes % 60} 分钟"
  else if days = 0 then s!"{hours} 小时 {minutes % 60} 分钟"
  else s!"{days} 天 {hours} 小时"

/-! ## Presence -/

/-- `nodes`: every node, in panel order. -/
def nodes (db : Store) : List NodeRow :=
  ((db.node.rows.image fun r => toLex (r.sort, r.id)).sort (· ≤ ·)).filterMap fun k =>
    db.node.find? (ofLex k).2

/-- Sweep state that need not outlive the process. -/
structure Watch where
  /-- Set after the first sweep. -/
  primed : Bool
  /-- The billing period and the traffic step last announced in it. -/
  traffic : Int → Option (String × Int)
  /-- When a sweep first found an absent node absent. -/
  absent : Int → Option Int
  /-- When a node last returned from an absence longer than the grace. -/
  returned : Int → Option Int

/-- `Watch::default`. -/
def Watch.fresh : Watch := ⟨false, fun _ => none, fun _ => none, fun _ => none⟩

/-- `retain` on the three maps. -/
def Watch.retain (ids : List Int) (w : Watch) : Watch where
  primed := w.primed
  traffic id := if id ∈ ids then w.traffic id else none
  absent id := if id ∈ ids then w.absent id else none
  returned id := if id ∈ ids then w.returned id else none

/-- The two kinds of transition a sweep records. -/
inductive Side
  | down | up
  deriving DecidableEq

/-- A transition to record and announce. -/
structure Due where
  /-- Whether it is gone or back. -/
  side : Side
  /-- The new `down_since`. -/
  since : Int
  /-- What is said of it. -/
  detail : String

/-- What one sweep knows before it looks at a node. -/
structure Round where
  /-- What is not the hub's own. -/
  host : SweepHost
  /-- Who is connected. -/
  online : Int → Bool
  /-- How long a node may be away, in seconds. -/
  grace : Int
  /-- Whether there is a channel. -/
  armed : Bool
  /-- The time of the sweep. -/
  now : Int

/-- When the current absence of a node was first seen. -/
def Round.since (r : Round) (w : Watch) (id : Int) : Int := (w.absent id).getD r.now

/-- The absence began within `FLAP_WINDOW` of the last return. -/
def Round.flapping (r : Round) (w : Watch) (id : Int) : Bool :=
  match w.returned id with
  | some back => decide (r.since w id - back < flapWindow)
  | none => false

/-- How long an absence has to last to be reported. -/
def Round.wait (r : Round) (w : Watch) (id : Int) : Int :=
  if r.flapping w id then flapGrace else r.grace

/-- An absence is to be reported. -/
def Round.Overdue (r : Round) (w : Watch) (node : NodeRow) : Prop :=
  r.armed = true ∧ node.notify = true ∧ node.downSince = 0 ∧
    r.now - r.since w node.id ≥ r.wait w node.id

instance (r : Round) (w : Watch) (node : NodeRow) : Decidable (r.Overdue w node) :=
  inferInstanceAs (Decidable (_ ∧ _ ∧ _ ∧ _))

/-- The returns after seeing a node back: an absence shorter than the grace
does not count. -/
def Round.comeBack (r : Round) (w : Watch) (id : Int) : Int → Option Int :=
  match w.absent id with
  | some since =>
    if r.now - since ≥ r.grace then Function.update w.returned id (some r.now) else w.returned
  | none => w.returned

/-- What the loop does with one node, up to the write. -/
def visit (r : Round) (node : NodeRow) (w : Watch) : Watch × Option Due :=
  if r.online node.id then
    ({ w with
        absent := Function.update w.absent node.id none
        returned := r.comeBack w node.id },
      if node.downSince > 0 then some ⟨.up, 0, s!"离线 {span (r.now - node.downSince)}"⟩ else none)
  else if node.lastSeen = 0 then (w, none)
  else
    ({ w with absent := Function.update w.absent node.id (some (r.since w node.id)) },
      if r.Overdue w node then
        some ⟨.down, node.lastSeen, s!"最后上报 {r.host.clock node.lastSeen}"⟩ else none)

/-- A node that is there is not absent any more. -/
theorem visit_online {r : Round} {node : NodeRow} (h : r.online node.id = true) (w : Watch) :
    visit r node w = ({ w with
        absent := Function.update w.absent node.id none
        returned := r.comeBack w node.id },
      if node.downSince > 0 then some ⟨.up, 0, s!"离线 {span (r.now - node.downSince)}"⟩
      else none) := by
  rw [visit, if_pos h]

/-- A node that never reported is not missed. -/
theorem visit_unseen {r : Round} {node : NodeRow} (h : r.online node.id = false)
    (hseen : node.lastSeen = 0) (w : Watch) : visit r node w = (w, none) := by
  rw [visit, if_neg (by rw [h]; nofun), if_pos hseen]

/-- A node that is away is absent since it was last seen. -/
theorem visit_absent {r : Round} {node : NodeRow} (h : r.online node.id = false)
    (hseen : node.lastSeen ≠ 0) (w : Watch) :
    visit r node w =
      ({ w with absent := Function.update w.absent node.id (some (r.since w node.id)) },
        if r.Overdue w node then
          some ⟨.down, node.lastSeen, s!"最后上报 {r.host.clock node.lastSeen}"⟩ else none) := by
  rw [visit, if_neg (by rw [h]; nofun), if_neg hseen]

/-- When a node went down is no matter of its id. -/
theorem downSince_id (ts : Int) (r : NodeRow) : ({ r with downSince := ts } : NodeRow).id = r.id :=
  rfl

/-- `set_down_since` on the tables. -/
def setDown (id ts : Int) (db : Store) : Store :=
  updateNodeRow id (fun r => { r with downSince := ts }) (downSince_id ts) db

/-- The write a sweep makes is the job of that name. -/
theorem setDownSince_eq (id ts : Int) : setDownSince id ts = Job.execute (setDown id ts) := rfl

/-- What a loop over nodes leaves behind, also where it returned early. -/
structure Passage (α : Type) where
  /-- The watch so far. -/
  watch : Watch
  /-- The store so far. -/
  db : Store
  /-- What the sweep has found, or how it failed. -/
  result : Except Failure α

/-- The nodes that went down and those that came back. -/
structure Lists where
  /-- Who is gone. -/
  down : List Item
  /-- Who is back. -/
  up : List Item

/-- One more node in its list. -/
def Lists.push (l : Lists) (side : Side) (item : Item) : Lists :=
  match side with
  | .down => { l with down := item :: l.down }
  | .up => { l with up := item :: l.up }

/-- The first loop of `sweep`: the first write that fails ends it. -/
def presence (r : Round) (fails : Int → Option Failure) :
    List NodeRow → Watch → Store → Passage Lists
  | [], w, db => ⟨w, db, .ok ⟨[], []⟩⟩
  | node :: rest, w, db =>
    match visit r node w with
    | (w, none) => presence r fails rest w db
    | (w, some due) =>
      match fails node.id with
      | some e => ⟨w, db, .error e⟩
      | none =>
        let p := presence r fails rest w (setDown node.id due.since db)
        { p with result := p.result.map fun l => l.push due.side ⟨node, due.detail⟩ }

/-! ## Traffic -/

/-- `all_traffic`: what has been used in the current period. -/
def allTraffic (today : Clock) (db : Store) (id : Int) : Option Traffic := do
  let t ← db.traffic.find? id
  let n ← db.node.find? id
  let period := (today.periodStart n.trafficResetDay).toText
  let day := today.day.toText
  let (monthRx, monthTx) := if t.monthStart = period then (t.monthRx, t.monthTx) else (0, 0)
  let (dayRx, dayTx) := if t.dayStart = day then (t.dayRx, t.dayTx) else (0, 0)
  pure ⟨t.totalRx, t.totalTx, monthRx, monthTx, period, dayRx, dayTx⟩

/-- The bytes a node's allowance is measured by. -/
def usedOf (mode : String) (t : Traffic) : Int :=
  if mode = "up" then t.monthTx
  else if mode = "down" then t.monthRx
  else if mode = "max" then max t.monthRx t.monthTx
  else saturatingAdd t.monthRx t.monthTx

/-- How a mode is called in an alert. -/
def modeName (mode : String) : String :=
  if mode = "up" then "仅上行"
  else if mode = "down" then "仅下行"
  else if mode = "max" then "取较大值"
  else "上下行相加"

/-- The second loop of `sweep`. -/
def meter (host : SweepHost) (percent : Int) (traffic : Int → Option Traffic) :
    List NodeRow → Watch → Watch × List Item
  | [], w => (w, [])
  | node :: rest, w =>
    match traffic node.id with
    | none => meter host percent traffic rest w
    | some t =>
      let used := usedOf node.trafficMode t
      let reached (p : Int) : Bool := used * 100 ≥ node.trafficLimit * p
      let step : Int := if reached 100 then 100 else if reached percent then percent else 0
      let told : Bool := match w.traffic node.id with
        | some (period, last) => decide (period = t.monthStart ∧ last ≥ step)
        | none => false
      let w := { w with traffic := Function.update w.traffic node.id (some (t.monthStart, step)) }
      let (after, items) := meter host percent traffic rest w
      if step = 0 ∨ told ∨ !w.primed then (after, items)
      else
        let share := (used * 100).tdiv node.trafficLimit
        (after, ⟨node, s!"已用 {share}%，{host.gib used} / {host.gib node.trafficLimit}（{modeName node.trafficMode}），本期自 {t.monthStart} 起"⟩ :: items)

/-! ## The sweep -/

/-- The round a sweep at `now` makes. -/
def roundAt (host : SweepHost) (faults : SweepFaults) (online : Int → Bool) (now : Int)
    (db : Store) : Round :=
  ⟨host, online, grace faults db, !(channels faults db).isEmpty, now⟩

/-- The notes on presence. -/
def presenceNotes (l : Lists) : List Note :=
  [batch "offline" "🔴" "离线" l.down, batch "online" "🟢" "恢复在线" l.up].filterMap id

/-- The notes on traffic and the watch after a pass that got that far. -/
def trafficNotes (host : SweepHost) (faults : SweepFaults) (before after : Store) (armed : Bool)
    (w : Watch) : Watch × List Note :=
  let percent := number faults after "notify_traffic"
  let traffic := if 0 < percent ∧ armed ∧ !faults.traffic then allTraffic host.today after
    else fun _ => none
  let (w, metered) := meter host percent traffic
    ((nodes before).filter fun n => 0 < n.trafficLimit) w
  ({ w with primed := true }, (batch "traffic" "⚠️" "流量提醒" metered).toList)

/-- `sweep`. -/
def sweep (host : SweepHost) (faults : SweepFaults) (online : Int → Bool) (now : Int) (w : Watch)
    (db : Store) : Passage (List Note) :=
  match faults.nodes with
  | some e => ⟨w, db, .error e⟩
  | none =>
    let all := nodes db
    let r := roundAt host faults online now db
    let p := presence r faults.write all (w.retain (all.map NodeRow.id)) db
    match p.result with
    | .error e => ⟨p.watch, p.db, .error e⟩
    | .ok lists =>
      let (w, metered) := trafficNotes host faults db p.db r.armed p.watch
      ⟨w, p.db, .ok (presenceNotes lists ++ metered)⟩

/-- What `watch` sends after a sweep. -/
def sent (p : Passage (List Note)) : List Note :=
  match p.result with
  | .ok notes => notes
  | .error _ => []

end Romi.NotifySweep
