import Romi.CivilDate
import Romi.JsonHoles
import Romi.NotifySweep

/-!
# Templates of webhook bodies

A template is accepted when it is JSON once it is filled with one sample. That
keeps the placeholders inside strings, but not out of an escape the template
has begun: the sample's event is `test`, and a backslash before it is a tab.
An accepted template is safe for every alert when no placeholder stands right
after an unfinished escape, and only then.
-/

namespace Romi.WebhookBodies

open CivilDate JsonHoles JsonText
open NotifySweep (Note)

/-! ## Values -/

/-- A moment as a clock shows it. -/
structure LocalTime where
  /-- The day at the hub. -/
  date : NaiveDate
  /-- The hour of the day. -/
  hour : Nat
  /-- The minute of the hour. -/
  minute : Nat
  /-- Minutes east of UTC. -/
  offset : Int

/-- `%m-%d %H:%M %:z`. -/
def LocalTime.format (t : LocalTime) : List Char :=
  digits 2 t.date.month ++ '-' :: digits 2 t.date.day ++ ' ' :: digits 2 t.hour ++
    ':' :: digits 2 t.minute ++ ' ' :: (if t.offset < 0 then '-' else '+') ::
    digits 2 (t.offset.natAbs / 60) ++ ':' :: digits 2 (t.offset.natAbs % 60)

variable (localTime : Int → Option LocalTime)

/-- `clock`: empty for a moment outside the calendar. -/
def clock (ts : Int) : List Char := ((localTime ts).map LocalTime.format).getD []

/-- The placeholders. -/
inductive Field
  /-- What happened. -/
  | event
  /-- To which node. -/
  | node
  /-- The heading. -/
  | title
  /-- The sentence under it. -/
  | message
  /-- The name of the hub. -/
  | site
  /-- The time at the hub. -/
  | time
  deriving DecidableEq

/-- The placeholders in the order they are tried. -/
def Field.all : List Field := [.event, .node, .title, .message, .site, .time]

/-- What stands between the braces. -/
def Field.name : Field → String
  | .event => "event"
  | .node => "node"
  | .title => "title"
  | .message => "message"
  | .site => "site"
  | .time => "time"

/-- How a placeholder is written. -/
def Field.key (f : Field) : List Char := '{' :: '{' :: f.name.toList ++ ['}', '}']

/-- What a placeholder stands for. -/
def valueOf (note : Note) (site : String) : Field → List Char
  | .event => note.event.toList
  | .node => note.node.toList
  | .title => note.title.toList
  | .message => note.message.toList
  | .site => site.toList
  | .time => clock localTime note.time

/-! ## Rendering -/

/-- Where two opening braces stand first. -/
def findBraces : List Char → Option Nat
  | [] => none
  | c :: rest => if ['{', '{'].isPrefixOf (c :: rest) then some 0 else (findBraces rest).map (· + 1)

/-- `Value::from(value).to_string()`. -/
def quoted (value : List Char) : List Char := '"' :: (escaped value ++ ['"'])

/-- What is put in for a placeholder. -/
def inserted (json : Bool) (value : List Char) : List Char :=
  if json then ((quoted value).drop 1).dropLast else value

/-- The loop of `render`, for so many turns at most. -/
def renderLoop (values : Field → List Char) (json : Bool) : Nat → List Char → List Char
  | 0, rest => rest
  | fuel + 1, rest =>
    match findBraces rest with
    | none => rest
    | some k =>
      match Field.all.find? fun f => f.key.isPrefixOf (rest.drop k) with
      | some f => rest.take k ++ inserted json (values f) ++
          renderLoop values json fuel ((rest.drop k).drop f.key.length)
      | none => rest.take k ++ ['{', '{'] ++ renderLoop values json fuel ((rest.drop k).drop 2)

/-- `render`. -/
def render (template : List Char) (note : Note) (site : String) (json : Bool) : List Char :=
  renderLoop (valueOf localTime note site) json template.length template

/-! ## Acceptance -/

/-- `DEFAULT_BODY`. -/
def defaultBody : List Char :=
  "\x7b\"event\":\"".toList ++ Field.event.key ++ "\",\"node\":\"".toList ++ Field.node.key ++
    "\",\"title\":\"".toList ++ Field.title.key ++ "\",\"message\":\"".toList ++
    Field.message.key ++ "\"\x7d".toList

/-- `sample`. -/
def sample : Note where
  event := "test"
  node := "a\"b\\c"
  title := "\x7b\x7bmessage\x7d\x7d"
  message := "line\nline"
  time := 0

/-- The name of the site a template is tried with. -/
def sampleSite : String := "s\"i\\te"

variable (inRange : List Char → Bool)

/-- `setting_error` of `notify_webhook_body`. -/
def bodyError (value : List Char) : Option String :=
  if value = [] then none
  else if (parse inRange (render localTime value sample sampleSite true)).isNone then
    some "webhook body must be valid JSON once filled in; keep each placeholder inside quotes"
  else none

/-- `template`: the body an accepted value stands for. -/
def bodyTemplate (value : List Char) : List Char := if value = [] then defaultBody else value

/-! ## Holes -/

/-- The template with its placeholders as holes. -/
def piecesLoop : Nat → List Char → List (Piece Field)
  | 0, rest => rest.map .inl
  | fuel + 1, rest =>
    match findBraces rest with
    | none => rest.map .inl
    | some k =>
      match Field.all.find? fun f => f.key.isPrefixOf (rest.drop k) with
      | some f => (rest.take k).map .inl ++ [.inr f] ++
          piecesLoop fuel ((rest.drop k).drop f.key.length)
      | none => (rest.take k ++ ['{', '{']).map .inl ++ piecesLoop fuel ((rest.drop k).drop 2)

/-- The template with its placeholders as holes. -/
def pieces (template : List Char) : List (Piece Field) := piecesLoop template.length template

/-- Every alert makes a document of the template's structure, with each value as literal text in
the string its placeholder stands in. -/
def Safe (template : List Char) : Prop :=
  ∃ d, parsePieces inRange (pieces template) = some d ∧ ∀ note site,
    parse inRange (render localTime template note site true)
      = some (d.fill (valueOf localTime note site)) ∧
    Literal inRange (valueOf localTime note site) (pieces template)

/-- Two braces stand where they are found. -/
theorem findBraces_length {rest : List Char} {k : Nat} (h : findBraces rest = some k) :
    k + 2 ≤ rest.length := by
  induction rest generalizing k with
  | nil => cases h
  | cons c rest ih =>
    unfold findBraces at h
    split_ifs at h with hbraces
    · cases h
      have hlength := (List.isPrefixOf_iff_prefix.1 hbraces).length_le
      simpa using hlength
    · obtain ⟨j, hj, rfl⟩ := Option.map_eq_some_iff.1 h
      have hlength := ih hj
      rw [List.length_cons]
      omega

/-- The loop never needs more turns than the text has characters. -/
theorem renderLoop_turns (values : Field → List Char) (json : Bool) {fuel fuel' : Nat}
    {rest : List Char} (h : rest.length ≤ fuel) (h' : rest.length ≤ fuel') :
    renderLoop values json fuel rest = renderLoop values json fuel' rest := by
  induction fuel generalizing fuel' rest with
  | zero =>
    obtain rfl := List.eq_nil_of_length_eq_zero (Nat.le_zero.1 h)
    cases fuel' <;> rfl
  | succ fuel ih =>
    cases fuel' with
    | zero =>
      obtain rfl := List.eq_nil_of_length_eq_zero (Nat.le_zero.1 h')
      rfl
    | succ fuel' =>
      unfold renderLoop
      cases hfind : findBraces rest with
      | none => rfl
      | some k =>
        have hlength := findBraces_length hfind
        dsimp only
        cases Field.all.find? fun f => f.key.isPrefixOf (rest.drop k) with
        | some f =>
          have hkey : 0 < f.key.length := by cases f <;> decide
          dsimp only
          rw [@ih fuel' ((rest.drop k).drop f.key.length) (by simp; omega) (by simp; omega)]
        | none =>
          dsimp only
          rw [@ih fuel' ((rest.drop k).drop 2) (by simp; omega) (by simp; omega)]

/-- A quoted text without its quotes. -/
theorem inserted_json (value : List Char) : inserted true value = escaped value := by
  rw [inserted, if_pos rfl, quoted, List.drop_one, List.tail_cons, List.dropLast_concat]

/-- Characters are written as they are. -/
theorem written_chars {φ : Type} (v : φ → List Char) (text : List Char) :
    written v (text.map .inl) = text := by
  induction text with
  | nil => rfl
  | cons c text ih =>
    have hcons : written v (.inl c :: text.map .inl) = c :: written v (text.map .inl) := rfl
    rw [List.map_cons, hcons, ih]

/-- The loop writes the pieces. -/
theorem renderLoop_eq (values : Field → List Char) (fuel : Nat) (rest : List Char) :
    renderLoop values true fuel rest = written values (piecesLoop fuel rest) := by
  induction fuel generalizing rest with
  | zero => exact (written_chars values rest).symm
  | succ fuel ih =>
    unfold renderLoop piecesLoop
    cases findBraces rest with
    | none => exact (written_chars values rest).symm
    | some k =>
      dsimp only
      cases Field.all.find? fun f => f.key.isPrefixOf (rest.drop k) with
      | some f =>
        have hone : written values [.inr f] = escaped (values f) := List.append_nil _
        dsimp only
        rw [written_append, written_append, written_chars, hone, inserted_json, ih]
      | none =>
        dsimp only
        rw [written_append, written_chars, ih]

/-- The rendered body is the template with its holes filled. -/
theorem render_eq (template : List Char) (note : Note) (site : String) :
    render localTime template note site true
      = written (valueOf localTime note site) (pieces template) :=
  renderLoop_eq (valueOf localTime note site) template.length template

/-- A template that is a document with holes is safe. -/
theorem safe_of_parsed {template : List Char} {d : Doc Field}
    (h : parsePieces inRange (pieces template) = some d) : Safe localTime inRange template := by
  refine ⟨d, h, fun note site => ⟨?_, literal_of_parsePieces inRange _ h⟩⟩
  rw [render_eq]
  exact parsePieces_fill inRange _ h

/-! ## The samples -/

/-- A decimal digit is written as it is. -/
theorem escapeChar_digit (n : Nat) : isDigit (digit n) = true ∧ escapeChar (digit n) = [digit n] := by
  have hall : ∀ k < 10, isDigit (Char.ofNat (48 + k)) = true ∧
      escapeChar (Char.ofNat (48 + k)) = [Char.ofNat (48 + k)] := by decide
  exact hall (n % 10) (Nat.mod_lt n (by decide))

/-- A moment begins with the two digits of its month and a hyphen. -/
theorem escaped_format (t : LocalTime) : ∃ d₁ d₂ rest, isDigit d₁ = true ∧ isDigit d₂ = true ∧
    escaped t.format = d₁ :: d₂ :: '-' :: rest := by
  obtain ⟨h₁, hwritten₁⟩ := escapeChar_digit (t.date.month / 10)
  obtain ⟨h₂, hwritten₂⟩ := escapeChar_digit t.date.month
  have hhyphen : escapeChar '-' = ['-'] := by decide
  obtain ⟨tail, htail⟩ : ∃ tail, t.format
      = digit (t.date.month / 10) :: digit t.date.month :: '-' :: tail := ⟨_, rfl⟩
  refine ⟨_, _, escaped tail, h₁, h₂, ?_⟩
  rw [htail, escaped, List.flatMap_cons, List.flatMap_cons, List.flatMap_cons, hwritten₁, hwritten₂,
    hhyphen]
  rfl

/-- Every sample is read as literal text or not at all, unless it completes an escape. -/
theorem telling_sample (hepoch : (localTime 0).isSome = true) (f : Field) :
    Telling inRange (escaped (valueOf localTime sample sampleSite f)) := by
  cases f with
  | event =>
    have htext : escaped "test".toList = 't' :: 'e' :: ['s', 't'] := by decide
    show Telling inRange (escaped "test".toList)
    rw [htext]
    refine telling_two inRange ['s', 't'] (by decide) (by decide) (by decide) (fun stack => ?_)
      (by decide) fun part => by cases part <;> decide
    simp [beginValue, step, Word.text]
  | node =>
    have htext : escaped "a\"b\\c".toList = 'a' :: '\\' :: ['"', 'b', '\\', '\\', 'c'] := by decide
    show Telling inRange (escaped "a\"b\\c".toList)
    rw [htext]
    refine telling_two inRange _ (by decide) (by decide) (by decide) (fun stack => ?_)
      (by decide) fun part => by cases part <;> decide
    simp [beginValue, isDigit]
  | title =>
    have htext : escaped "\x7b\x7bmessage\x7d\x7d".toList = '{' :: '{' :: "message\x7d\x7d".toList := by
      decide
    show Telling inRange (escaped "\x7b\x7bmessage\x7d\x7d".toList)
    rw [htext]
    refine telling_two inRange _ (by decide) (by decide) (by decide) (fun stack => ?_)
      (by decide) fun part => by cases part <;> decide
    simp only [beginValue, nest]
    simp [step, isSpace]
  | message =>
    have htext : escaped "line\nline".toList = 'l' :: 'i' :: "ne\\nline".toList := by decide
    show Telling inRange (escaped "line\nline".toList)
    rw [htext]
    refine telling_two inRange _ (by decide) (by decide) (by decide) (fun stack => ?_)
      (by decide) fun part => by cases part <;> decide
    simp [beginValue, isDigit]
  | site =>
    have htext : escaped sampleSite.toList = 's' :: '\\' :: "\"i\\\\te".toList := by decide
    show Telling inRange (escaped sampleSite.toList)
    rw [htext]
    refine telling_two inRange _ (by decide) (by decide) (by decide) (fun stack => ?_)
      (by decide) fun part => by cases part <;> decide
    simp [beginValue, isDigit]
  | time =>
    obtain ⟨t, ht⟩ := Option.isSome_iff_exists.1 hepoch
    have htext : valueOf localTime sample sampleSite .time = t.format := by
      show clock localTime 0 = t.format
      rw [clock, ht]
      rfl
    obtain ⟨d₁, d₂, rest, h₁, h₂, hwritten⟩ := escaped_format t
    rw [htext, hwritten]
    exact telling_digits inRange rest h₁ h₂

/-- The default body is a document with holes. -/
theorem default_parsed : ∃ d, parsePieces inRange (pieces defaultBody) = some d := by
  refine Option.isSome_iff_exists.1 ?_
  rfl

/-- An accepted template is safe exactly when no placeholder stands right after an unfinished
escape. -/
theorem accepted_safe_iff (hepoch : (localTime 0).isSome = true) {value : List Char}
    (haccepted : bodyError localTime inRange value = none) :
    Safe localTime inRange (bodyTemplate value) ↔ Closed (pieces (bodyTemplate value)) := by
  constructor
  · rintro ⟨d, -, hsafe⟩
    exact (hsafe sample sampleSite).2.closed
  · intro hclosed
    by_cases hempty : value = []
    · obtain ⟨d, hd⟩ := default_parsed inRange
      rw [bodyTemplate, if_pos hempty]
      exact safe_of_parsed localTime inRange hd
    · rw [bodyTemplate, if_neg hempty] at hclosed ⊢
      rw [bodyError, if_neg hempty] at haccepted
      obtain ⟨d, hd⟩ : ∃ d, parse inRange (render localTime value sample sampleSite true)
          = some d := by
        cases hparse : parse inRange (render localTime value sample sampleSite true) with
        | some d => exact ⟨d, rfl⟩
        | none =>
          rw [hparse] at haccepted
          cases haccepted
      rw [render_eq] at hd
      obtain ⟨d', hd'⟩ := parsePieces_of_samples inRange _
        (telling_sample localTime inRange hepoch) hclosed hd
      exact safe_of_parsed localTime inRange hd'

/-! ## A hub on UTC -/

/-- The date so many days after the first of January 1970. -/
def dateAfter (days : Int) : Option NaiveDate :=
  let z := days + 719468
  let era := z / 146097
  let doe := (z % 146097).toNat
  let yoe := (doe - doe / 1460 + doe / 36524 - doe / 146096) / 365
  let doy := doe - (365 * yoe + yoe / 4 - yoe / 100)
  let mp := (5 * doy + 2) / 153
  let month := if mp < 10 then mp + 3 else mp - 9
  fromYmdOpt (yoe + era * 400 + if month ≤ 2 then 1 else 0) month (doy - (153 * mp + 2) / 5 + 1)

/-- The clock of a hub without a time zone. -/
def utc (ts : Int) : Option LocalTime :=
  (dateAfter (ts / 86400)).map fun date =>
    ⟨date, (ts % 86400 / 3600).toNat, (ts % 3600 / 60).toNat, 0⟩

example : clock utc 1709208000 = "02-29 12:00 +00:00".toList := by decide

/-- A template whose placeholders stand apart from escapes. -/
def plainBody : List Char :=
  "\x7b\"text\":\"\\u00b7 ".toList ++ Field.title.key ++ " ".toList ++ Field.time.key ++
    "\",\"n\":[1,true]\x7d".toList

/-- A template with a backslash before a placeholder. -/
def slashBody : List Char := "\x7b\"e\":\"\\".toList ++ Field.event.key ++ "\"\x7d".toList

/-- A template with a character by its number is safe. -/
theorem plainBody_safe :
    Safe utc (fun _ => true) plainBody ↔ Closed (pieces plainBody) :=
  accepted_safe_iff utc (fun _ => true) (by decide) (show bodyError _ _ plainBody = none by decide)

/-- An accepted template that is no JSON once a node goes offline. -/
theorem slashBody_breaks :
    ¬ ∀ value, bodyError utc (fun _ => true) value = none →
      Safe utc (fun _ => true) (bodyTemplate value) := by
  intro h
  obtain ⟨d, -, hsafe⟩ := h slashBody (by decide)
  have hbody := (hsafe ⟨"offline", "web", "web", "", 0⟩ "hub").1
  have hnone : (parse (fun _ => true) (render utc (bodyTemplate slashBody)
      ⟨"offline", "web", "web", "", 0⟩ "hub" true)).isNone = true := by decide
  rw [hbody] at hnone
  cases hnone

end Romi.WebhookBodies
