import Romi.JsonText
import Romi.MountTable

/-!
# Finding a field of a JSON object by its text

A script reads an object as one line and takes what follows the last place
where a key in quotes is followed by a colon. For an object of texts and numbers
that need no escaping this is the value under the key: a quote that closes a
text is followed by a comma, a colon or a brace, and none of them begins a key.
-/

namespace Romi.FieldScan

open JsonText MountTable

/-! ## The object as it is written -/

/-- A text or a number. -/
inductive Value
  /-- A string. -/
  | text (s : List Char)
  /-- A number. -/
  | number (n : Nat)

/-- A text in quotes. -/
def quoted (s : List Char) : List Char := '"' :: (escaped s ++ ['"'])

/-- A value as it is written. -/
def Value.written : Value → List Char
  | .text s => quoted s
  | .number n => Nat.toDigits 10 n

/-- A key with its value. -/
def member (m : List Char × Value) : List Char := quoted m.1 ++ ':' :: m.2.written

/-- The members after the first. -/
def others : List (List Char × Value) → List Char
  | [] => ['}']
  | m :: rest => ',' :: (member m ++ others rest)

/-- The object on one line. -/
def object : List (List Char × Value) → List Char
  | [] => ['{', '}']
  | m :: rest => '{' :: (member m ++ others rest)

/-! ## The scan -/

/-- `[[:space:]]`. -/
def isSpace (c : Char) : Bool := c = ' ' || (9 ≤ c.toNat && c.toNat ≤ 13)

/-- What follows a key in quotes and a colon at the beginning of a text. -/
def keyAt (key : List Char) (text : List Char) : Option (List Char) := do
  let rest ← stripFront ('"' :: (key ++ ['"'])) text
  let rest ← stripFront [':'] (rest.dropWhile isSpace)
  return rest.dropWhile isSpace

/-- A text in quotes. -/
def textAt (rest : List Char) : Option (List Char) := do
  let rest ← stripFront ['"'] rest
  let value := rest.takeWhile fun c => c ≠ '"'
  if (rest.drop value.length).head? = some '"' then some value else none

/-- A number. -/
def numberAt (rest : List Char) : Option (List Char) :=
  let digits := rest.takeWhile Char.isDigit
  if digits = [] then none else some digits

/-- The last place where something is found. -/
def lastMatch {α : Type} (f : List Char → Option α) : List Char → Option α
  | [] => f []
  | c :: rest => (lastMatch f rest).or (f (c :: rest))

/-- The script's reading of a text, and of a number, on one line. -/
def textField (key line : List Char) : Option (List Char) :=
  lastMatch (fun text => (keyAt key text).bind textAt) (line.filter fun c => c ≠ '\n')

/-- `json_number_field`. -/
def numberField (key line : List Char) : Option (List Char) :=
  lastMatch (fun text => (keyAt key text).bind numberAt) (line.filter fun c => c ≠ '\n')

/-! ## Text that needs no escaping -/

/-- A writer puts the text as it is. -/
def Plain (s : List Char) : Prop := ∀ c ∈ s, c ≠ '"' ∧ c ≠ '\\' ∧ 32 ≤ c.toNat

instance (s : List Char) : Decidable (Plain s) := List.decidableBAll _ s

/-- A plain string needs no escapes. -/
theorem escaped_plain {s : List Char} (h : Plain s) : escaped s = s := by
  induction s with
  | nil => rfl
  | cons c rest ih =>
    obtain ⟨hquote, hslash, hprint⟩ := h c List.mem_cons_self
    have hne : ∀ d : Char, d.toNat < 32 → c ≠ d := by
      rintro d hd rfl
      omega
    have hc : escapeChar c = [c] := by
      unfold escapeChar
      rw [if_neg hquote, if_neg hslash, if_neg (hne _ (by decide)), if_neg (hne _ (by decide)),
        if_neg (hne _ (by decide)), if_neg (hne _ (by decide)), if_neg (hne _ (by decide)),
        if_neg (by omega)]
    rw [escaped, List.flatMap_cons, hc]
    exact congrArg (c :: ·) (ih fun c' hc' => h c' (List.mem_cons_of_mem c hc'))

/-- In quotes it is itself. -/
theorem Plain.quoted {s : List Char} (h : Plain s) : quoted s = '"' :: (s ++ ['"']) := by
  rw [FieldScan.quoted, escaped_plain h]

/-- It has no quotation mark. -/
theorem not_quote_of_plain {s : List Char} (h : Plain s) : ∀ c ∈ s, c ≠ '"' :=
  fun c hc => (h c hc).1

/-! ## Where nothing is found -/

/-- The key with its colon begins nowhere in the text. -/
def Absent (key : List Char) : List Char → Prop
  | [] => keyAt key [] = none
  | c :: rest => Absent key rest ∧ keyAt key (c :: rest) = none

/-- A colon, a comma or a closing brace. -/
def isMark (c : Char) : Bool := c = ':' || c = ',' || c = '}'

/-- A key that begins with none of them. -/
def Named (key : List Char) : Prop := Plain key ∧ key.head?.any (fun c => !isMark c) = true

instance (key : List Char) : Decidable (Named key) := inferInstanceAs (Decidable (_ ∧ _))

/-- A key has a first character, and it is no mark. -/
theorem Named.first {key : List Char} (h : Named key) :
    ∃ c rest, key = c :: rest ∧ isMark c = false := by
  obtain ⟨-, hfirst⟩ := h
  cases key with
  | nil => cases hfirst
  | cons c rest => exact ⟨c, rest, rfl, by simpa using hfirst⟩

variable {key : List Char}

/-- What stands in front is taken off. -/
theorem stripFront_append (front rest : List Char) : stripFront front (front ++ rest) = some rest := by
  induction front with
  | nil => rfl
  | cons c front ih => exact (if_pos rfl).trans ih

/-- And only what stands there. -/
theorem stripFront_eq_some {front text rest : List Char} (h : stripFront front text = some rest) :
    text = front ++ rest := by
  induction front generalizing text with
  | nil =>
    cases h
    rfl
  | cons c front ih =>
    cases text with
    | nil => cases h
    | cons d text =>
      unfold stripFront at h
      split at h
      · rename_i hc
        rw [hc, ih h]
        rfl
      · cases h

/-- A key that is found is in quotes, with a colon after it. -/
theorem keyAt_eq_some {text rest : List Char} (h : keyAt key text = some rest) :
    ∃ space tail, text = '"' :: (key ++ '"' :: (space ++ ':' :: tail)) ∧
      ∀ c ∈ space, isSpace c = true := by
  unfold keyAt at h
  obtain ⟨after, hafter, h⟩ := Option.bind_eq_some_iff.mp h
  obtain ⟨tail, htail, -⟩ := Option.bind_eq_some_iff.mp h
  refine ⟨after.takeWhile isSpace, tail, ?_, ?_⟩
  · have hsplit : after.takeWhile isSpace ++ ':' :: tail = after := by
      rw [← List.singleton_append, ← stripFront_eq_some htail, List.takeWhile_append_dropWhile]
    rw [hsplit, stripFront_eq_some hafter]
    simp
  · exact fun c hc => List.all_eq_true.mp List.all_takeWhile c hc

/-- A character that is no quote begins no key. -/
theorem keyAt_other {c : Char} (h : c ≠ '"') (rest : List Char) : keyAt key (c :: rest) = none := by
  rw [Option.eq_none_iff_forall_ne_some]
  intro found hfound
  obtain ⟨space, tail, heq, -⟩ := keyAt_eq_some hfound
  exact h (List.cons.inj heq).1

/-- Nothing is found in nothing. -/
theorem keyAt_nil : keyAt key [] = none := rfl

/-- Without a quotation mark no key begins. -/
theorem Absent.cons_other {c : Char} (h : c ≠ '"') {rest : List Char} (hrest : Absent key rest) :
    Absent key (c :: rest) := ⟨hrest, keyAt_other h rest⟩

/-- Nor in a text without any. -/
theorem Absent.append {front : List Char} (hfront : ∀ c ∈ front, c ≠ '"') {rest : List Char}
    (hrest : Absent key rest) : Absent key (front ++ rest) := by
  induction front with
  | nil => exact hrest
  | cons c front ih =>
    exact (ih fun c' hc' => hfront c' (List.mem_cons_of_mem c hc')).cons_other
      (hfront c List.mem_cons_self)

/-- A quote before a mark begins no key. -/
theorem Absent.close (hkey : Named key) {c : Char} (hc : isMark c = true) {rest : List Char}
    (hrest : Absent key (c :: rest)) : Absent key ('"' :: c :: rest) := by
  refine ⟨hrest, ?_⟩
  rw [Option.eq_none_iff_forall_ne_some]
  intro found hfound
  obtain ⟨space, tail, heq, -⟩ := keyAt_eq_some hfound
  obtain ⟨first, restKey, rfl, hfirst⟩ := hkey.first
  have hsame : c = first := (List.cons.inj (List.cons.inj heq).2).1
  rw [hsame, hfirst] at hc
  cases hc

/-- Texts without quotes that are followed by one are the same where they end alike. -/
theorem before_quote {a b x y : List Char} (ha : ∀ c ∈ a, c ≠ '"') (hb : ∀ c ∈ b, c ≠ '"')
    (h : a ++ '"' :: x = b ++ '"' :: y) : a = b ∧ x = y := by
  induction a generalizing b with
  | nil =>
    cases b with
    | nil => exact ⟨rfl, (List.cons.inj h).2⟩
    | cons d b => exact absurd (List.cons.inj h).1.symm (hb d List.mem_cons_self)
  | cons c a ih =>
    cases b with
    | nil => exact absurd (List.cons.inj h).1 (ha c List.mem_cons_self)
    | cons d b =>
      obtain ⟨hcd, htail⟩ := List.cons.inj h
      obtain ⟨hab, hxy⟩ := ih (fun c' hc' => ha c' (List.mem_cons_of_mem c hc'))
        (fun c' hc' => hb c' (List.mem_cons_of_mem d hc')) htail
      exact ⟨by rw [hcd, hab], hxy⟩

/-- A text in quotes before a mark holds the key only where it is the key, before
a colon. -/
theorem Absent.quoted (hkey : Named key) {s : List Char} (hs : Plain s) {c : Char}
    (hc : isMark c = true) (hother : s ≠ key ∨ c ≠ ':') {rest : List Char}
    (hrest : Absent key (c :: rest)) : Absent key (quoted s ++ c :: rest) := by
  rw [hs.quoted]
  have hclosed := (hrest.close hkey hc).append (not_quote_of_plain hs)
  have hshape : '"' :: (s ++ ['"']) ++ c :: rest = '"' :: (s ++ '"' :: c :: rest) := by simp
  rw [hshape]
  refine ⟨hclosed, ?_⟩
  rw [Option.eq_none_iff_forall_ne_some]
  intro found hfound
  obtain ⟨space, tail, heq, hspace⟩ := keyAt_eq_some hfound
  obtain ⟨hsame, htail⟩ := before_quote (not_quote_of_plain hs) (not_quote_of_plain hkey.1)
    (List.cons.inj heq).2
  rcases hother with hother | hother
  · exact hother hsame
  · cases space with
    | nil => exact hother (List.cons.inj htail).1
    | cons d space =>
      have hd := hspace d List.mem_cons_self
      rw [← (List.cons.inj htail).1] at hd
      revert hc hd
      unfold isMark isSpace
      simp only [Bool.or_eq_true, decide_eq_true_eq]
      rintro ((rfl | rfl) | rfl) <;> decide

/-! ## Objects of plain members -/

/-- A member that is written as it is. -/
def PlainMember (m : List Char × Value) : Prop :=
  Plain m.1 ∧ ∀ s, m.2 = .text s → Plain s

/-- A number is written in digits. -/
theorem digits_isDigit {n : Nat} {c : Char} (h : c ∈ Nat.toDigits 10 n) : c.isDigit = true :=
  Nat.isDigit_of_mem_toDigits (by decide) (by decide) h

/-- A digit is no quotation mark. -/
theorem not_quote_of_digit {c : Char} (h : c.isDigit = true) : c ≠ '"' := by
  rintro rfl
  exact absurd h (by decide)

/-- Where nothing is found behind a member with another key, nothing is found in it. -/
theorem absent_value (hkey : Named key) {m : List Char × Value} (hm : PlainMember m) {c : Char}
    (hc : isMark c = true) (hcolon : c ≠ ':') {rest : List Char} (hrest : Absent key (c :: rest)) :
    Absent key (':' :: (m.2.written ++ c :: rest)) := by
  refine Absent.cons_other (by decide) ?_
  cases hvalue : m.2 with
  | text s => exact Absent.quoted hkey (hm.2 s hvalue) hc (.inr hcolon) hrest
  | number n => exact hrest.append fun d hd => not_quote_of_digit (digits_isDigit hd)

/-- Another member does not have the key. -/
theorem absent_member (hkey : Named key) {m : List Char × Value} (hm : PlainMember m)
    (hother : m.1 ≠ key) {c : Char} (hc : isMark c = true) (hcolon : c ≠ ':') {rest : List Char}
    (hrest : Absent key (c :: rest)) : Absent key (member m ++ c :: rest) := by
  have hvalue := absent_value hkey hm hc hcolon hrest
  have hshape : member m ++ c :: rest = quoted m.1 ++ ':' :: (m.2.written ++ c :: rest) := by
    simp [member]
  rw [hshape]
  exact Absent.quoted hkey hm.1 (by decide) (.inl hother) hvalue

/-- What follows a member begins with a mark that is no colon. -/
theorem others_head (ms : List (List Char × Value)) :
    ∃ c rest, others ms = c :: rest ∧ isMark c = true ∧ c ≠ ':' := by
  cases ms with
  | nil => exact ⟨'}', [], rfl, by decide, by decide⟩
  | cons m rest => exact ⟨',', _, rfl, by decide, by decide⟩

/-- Nor do several others. -/
theorem absent_others (hkey : Named key) {ms : List (List Char × Value)}
    (hms : ∀ m ∈ ms, PlainMember m) (hother : ∀ m ∈ ms, m.1 ≠ key) : Absent key (others ms) := by
  induction ms with
  | nil => exact Absent.cons_other (by decide) keyAt_nil
  | cons m rest ih =>
    obtain ⟨c, tail, heq, hc, hcolon⟩ := others_head rest
    have hrest := ih (fun m' hm' => hms m' (List.mem_cons_of_mem m hm'))
      fun m' hm' => hother m' (List.mem_cons_of_mem m hm')
    refine Absent.cons_other (by decide) ?_
    rw [heq] at hrest ⊢
    exact absent_member hkey (hms m List.mem_cons_self) (hother m List.mem_cons_self) hc hcolon hrest

/-! ## What is found -/

/-- A key that is nowhere has no last place. -/
theorem lastMatch_absent {α : Type} {g : List Char → Option α} {text : List Char}
    (h : Absent key text) : lastMatch (fun text => (keyAt key text).bind g) text = none := by
  induction text with
  | nil => exact congrArg (·.bind g) h
  | cons c rest ih =>
    rw [lastMatch, ih h.1, Option.none_or, h.2, Option.bind_none]

/-- The last place is that in the rest. -/
theorem lastMatch_append {α : Type} {f : List Char → Option α} (front : List Char)
    {rest : List Char} {v : α} (h : lastMatch f rest = some v) :
    lastMatch f (front ++ rest) = some v := by
  induction front with
  | nil => exact h
  | cons c front ih => rw [List.cons_append, lastMatch, ih, Option.some_or]

/-- No blank is dropped where there is none. -/
theorem dropSpace {c : Char} (h : isSpace c = false) (rest : List Char) :
    (c :: rest).dropWhile isSpace = c :: rest := by
  rw [List.dropWhile_cons, if_neg (by rw [h]; decide)]

/-- A value does not begin with space. -/
theorem written_head (v : Value) (rest : List Char) :
    (v.written ++ rest).dropWhile isSpace = v.written ++ rest := by
  cases v with
  | text s => exact dropSpace (by decide) _
  | number n =>
    change (Nat.toDigits 10 n ++ rest).dropWhile isSpace = Nat.toDigits 10 n ++ rest
    cases hdigits : Nat.toDigits 10 n with
    | nil => exact absurd hdigits (Nat.toDigits_ne_nil)
    | cons d tail =>
      refine dropSpace ?_ _
      have hd : d.isDigit = true := digits_isDigit (by rw [hdigits]; exact List.mem_cons_self)
      unfold Char.isDigit at hd
      unfold isSpace
      simp only [Bool.and_eq_true, decide_eq_true_eq, ge_iff_le] at hd
      have hlow : 48 ≤ d.toNat := hd.1
      have hne : d ≠ ' ' := by
        rintro rfl
        exact absurd hlow (by decide)
      simp only [hne, decide_false, Bool.false_or, Bool.and_eq_false_iff, decide_eq_false_iff_not]
      right
      omega

/-- The member with the key is found in front of text that holds it no more. -/
theorem lastMatch_member {α : Type} {g : List Char → Option α} (hkey : Named key) {v : Value}
    (hm : PlainMember (key, v)) {c : Char} (hc : isMark c = true) (hcolon : c ≠ ':')
    {rest : List Char} (hrest : Absent key (c :: rest)) {a : α}
    (hread : g (v.written ++ c :: rest) = some a) :
    lastMatch (fun text => (keyAt key text).bind g) (member (key, v) ++ c :: rest) = some a := by
  have hvalue := @absent_value key hkey (key, v) hm c hc hcolon rest hrest
  have hshape : member (key, v) ++ c :: rest =
      '"' :: (key ++ '"' :: ':' :: (v.written ++ c :: rest)) := by
    simp [member, hkey.1.quoted]
  have htail : Absent key (key ++ '"' :: ':' :: (v.written ++ c :: rest)) :=
    (hvalue.close hkey (by decide)).append (not_quote_of_plain hkey.1)
  have hfound : keyAt key ('"' :: (key ++ '"' :: ':' :: (v.written ++ c :: rest))) =
      some (v.written ++ c :: rest) := by
    have hfront : '"' :: (key ++ '"' :: ':' :: (v.written ++ c :: rest)) =
        '"' :: (key ++ ['"']) ++ ':' :: (v.written ++ c :: rest) := by simp
    unfold keyAt
    rw [hfront, stripFront_append, Option.bind_eq_bind, Option.bind_some, dropSpace (by decide)]
    change some ((v.written ++ c :: rest).dropWhile isSpace) = _
    rw [written_head]
  rw [hshape, lastMatch, lastMatch_absent htail, Option.none_or, hfound, Option.bind_some, hread]

/-- What a key has among members of different keys is found. -/
theorem lastMatch_others {α : Type} {g : List Char → Option α} (hkey : Named key) {v : Value} {a : α}
    (hread : ∀ c rest, isMark c = true → c ≠ ':' → g (v.written ++ c :: rest) = some a)
    {ms : List (List Char × Value)} (hms : ∀ m ∈ ms, PlainMember m) (hnodup : (ms.map Prod.fst).Nodup)
    (hmem : (key, v) ∈ ms) :
    lastMatch (fun text => (keyAt key text).bind g) (others ms) = some a := by
  induction ms with
  | nil => cases hmem
  | cons m rest ih =>
    have hrest : ∀ m' ∈ rest, PlainMember m' := fun m' hm' => hms m' (List.mem_cons_of_mem m hm')
    obtain ⟨hfirst, hnodup⟩ := List.nodup_cons.mp hnodup
    refine lastMatch_append [','] ?_
    rcases List.mem_cons.mp hmem with rfl | hmem
    · obtain ⟨c, tail, heq, hc, hcolon⟩ := others_head rest
      have habsent : Absent key (others rest) := absent_others hkey hrest fun m' hm' hsame =>
        hfirst (List.mem_map.mpr ⟨m', hm', hsame⟩)
      rw [heq] at habsent ⊢
      exact lastMatch_member hkey (hms _ List.mem_cons_self) hc hcolon habsent (hread c tail hc hcolon)
    · exact lastMatch_append (member m) (ih hrest hnodup hmem)

/-- A plain string is on one line. -/
theorem plain_newline {s : List Char} (h : Plain s) : ∀ c ∈ s, c ≠ '\n' := by
  rintro c hc rfl
  exact absurd (h _ hc).2.2 (by decide)

/-- So it is in quotes. -/
theorem quoted_newline {s : List Char} (h : Plain s) : ∀ c ∈ quoted s, c ≠ '\n' := by
  rw [h.quoted]
  intro c hc
  simp only [List.mem_cons, List.mem_append, List.not_mem_nil, or_false] at hc
  rcases hc with rfl | hc | rfl
  · decide
  · exact plain_newline h c hc
  · decide

/-- So is a member. -/
theorem member_newline {m : List Char × Value} (hm : PlainMember m) :
    ∀ c ∈ member m, c ≠ '\n' := by
  intro c hc
  unfold member at hc
  rcases List.mem_append.mp hc with hc | hc
  · exact quoted_newline hm.1 c hc
  · rcases List.mem_cons.mp hc with rfl | hc
    · decide
    · cases hvalue : m.2 with
      | text s =>
        rw [hvalue] at hc
        exact quoted_newline (hm.2 s hvalue) c hc
      | number n =>
        rw [hvalue] at hc
        rintro rfl
        exact absurd (digits_isDigit hc) (by decide)

/-- So are several. -/
theorem others_newline {ms : List (List Char × Value)} (hms : ∀ m ∈ ms, PlainMember m) :
    ∀ c ∈ others ms, c ≠ '\n' := by
  induction ms with
  | nil =>
    intro c hc
    rw [List.mem_singleton.mp hc]
    decide
  | cons m rest ih =>
    intro c hc
    rcases List.mem_cons.mp hc with rfl | hc
    · decide
    · rcases List.mem_append.mp hc with hc | hc
      · exact member_newline (hms m List.mem_cons_self) c hc
      · exact ih (fun m' hm' => hms m' (List.mem_cons_of_mem m hm')) c hc

/-- An object is found in, as the members after a first one are. -/
theorem lastMatch_object {α : Type} {g : List Char → Option α} (hkey : Named key) {v : Value} {a : α}
    (hread : ∀ c rest, isMark c = true → c ≠ ':' → g (v.written ++ c :: rest) = some a)
    {ms : List (List Char × Value)} (hms : ∀ m ∈ ms, PlainMember m) (hnodup : (ms.map Prod.fst).Nodup)
    (hmem : (key, v) ∈ ms) :
    lastMatch (fun text => (keyAt key text).bind g) ((object ms).filter fun c => c ≠ '\n') =
      some a := by
  have hline : (object ms).filter (fun c => c ≠ '\n') = object ms := by
    rw [List.filter_eq_self]
    intro c hc
    rw [decide_eq_true_eq]
    cases ms with
    | nil => cases hmem
    | cons m rest =>
      rcases List.mem_cons.mp hc with rfl | hc
      · decide
      · exact others_newline hms c (List.mem_cons_of_mem ',' hc)
  rw [hline]
  cases ms with
  | nil => cases hmem
  | cons m rest =>
    have hfound := lastMatch_others hkey hread hms hnodup hmem
    have hcomma : keyAt key (',' :: (member m ++ others rest)) = none := keyAt_other (by decide) _
    change ((lastMatch _ (member m ++ others rest)).or _) = some a at hfound
    dsimp only at hfound
    rw [hcomma, Option.bind_none, Option.or_none] at hfound
    exact lastMatch_append ['{'] hfound

/-- The scan reads a text of an object back. -/
theorem textField_object {ms : List (List Char × Value)} (hms : ∀ m ∈ ms, PlainMember m)
    (hnodup : (ms.map Prod.fst).Nodup) (hkey : Named key) {s : List Char}
    (hmem : (key, .text s) ∈ ms) : textField key (object ms) = some s := by
  have hs : Plain s := (hms _ hmem).2 s rfl
  refine lastMatch_object hkey ?_ hms hnodup hmem
  intro c rest _ _
  have hshape : (Value.text s).written ++ c :: rest = ['"'] ++ (s ++ '"' :: c :: rest) := by
    simp [Value.written, hs.quoted]
  have htake : (s ++ '"' :: c :: rest).takeWhile (fun c => c ≠ '"') = s := by
    rw [List.takeWhile_append_of_pos fun d hd => decide_eq_true (not_quote_of_plain hs d hd)]
    simp
  unfold textAt
  rw [hshape, stripFront_append, Option.bind_eq_bind, Option.bind_some]
  dsimp only
  rw [htake, List.drop_left]
  exact if_pos rfl

/-- The scan reads a number of an object back, as it is written. -/
theorem numberField_object {ms : List (List Char × Value)} (hms : ∀ m ∈ ms, PlainMember m)
    (hnodup : (ms.map Prod.fst).Nodup) (hkey : Named key) {n : Nat}
    (hmem : (key, .number n) ∈ ms) : numberField key (object ms) = some (Nat.toDigits 10 n) := by
  refine lastMatch_object hkey ?_ hms hnodup hmem
  intro c rest hc _
  have hmark : c.isDigit = false := by
    revert hc
    unfold isMark
    simp only [Bool.or_eq_true, decide_eq_true_eq]
    rintro ((rfl | rfl) | rfl) <;> decide
  have htake : (Nat.toDigits 10 n ++ c :: rest).takeWhile Char.isDigit = Nat.toDigits 10 n := by
    rw [List.takeWhile_append_of_pos fun d hd => digits_isDigit hd, List.takeWhile_cons_of_neg
      (by rw [hmark]; decide), List.append_nil]
  change numberAt (Nat.toDigits 10 n ++ c :: rest) = _
  unfold numberAt
  dsimp only
  rw [htake]
  exact if_neg Nat.toDigits_ne_nil

end Romi.FieldScan
