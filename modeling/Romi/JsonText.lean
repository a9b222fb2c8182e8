import Mathlib.Data.List.Basic

/-!
# Reading JSON text with holes

A reader takes JSON text character by character. It also takes holes, but only
as literal text inside a string. Filling the holes of what was read is the
same as reading the text with the holes filled by escaped text.
-/

namespace Romi.JsonText

/-! ## Documents -/

/-- A character, or a hole. -/
abbrev Piece (φ : Type) := Char ⊕ φ

mutual

/-- A document; members of an object stand in the order of the text. -/
inductive Doc (φ : Type)
  /-- `null`. -/
  | null
  /-- `true` or `false`. -/
  | bool (b : Bool)
  /-- A number, as it was written. -/
  | num (raw : List Char)
  /-- A string. -/
  | str (text : List (Piece φ))
  /-- An array. -/
  | arr (items : Items φ)
  /-- An object. -/
  | obj (members : Members φ)

/-- The items of an array, the last one outermost. -/
inductive Items (φ : Type)
  /-- Nothing. -/
  | none
  /-- An item after those before. -/
  | and (before : Items φ) (item : Doc φ)

/-- The members of an object, the last one outermost. -/
inductive Members (φ : Type)
  /-- Nothing. -/
  | none
  /-- A member after those before. -/
  | and (before : Members φ) (key : List (Piece φ)) (item : Doc φ)

end

variable {φ : Type}

/-- Literal text in place of the holes. -/
def fillText (v : φ → List Char) (text : List (Piece φ)) : List (Piece Empty) :=
  text.flatMap fun
    | .inl c => [.inl c]
    | .inr hole => (v hole).map .inl

mutual

/-- Literal text in place of the holes of a document. -/
def Doc.fill (v : φ → List Char) : Doc φ → Doc Empty
  | .null => .null
  | .bool b => .bool b
  | .num raw => .num raw
  | .str text => .str (fillText v text)
  | .arr items => .arr (items.fill v)
  | .obj members => .obj (members.fill v)

/-- Literal text in place of the holes of items. -/
def Items.fill (v : φ → List Char) : Items φ → Items Empty
  | .none => .none
  | .and before item => .and (before.fill v) (item.fill v)

/-- Literal text in place of the holes of members. -/
def Members.fill (v : φ → List Char) : Members φ → Members Empty
  | .none => .none
  | .and before key item => .and (before.fill v) (fillText v key) (item.fill v)

end

/-! ## Escapes -/

/-- Where in an escape a string is. -/
inductive Escape
  /-- No escape. -/
  | plain
  /-- After a backslash. -/
  | slash
  /-- So many hexadecimal digits must follow the next one; with their value so far, and the leading
  surrogate before. -/
  | hex (more code : Nat) (lead : Option Nat)
  /-- After a leading surrogate. -/
  | lead (code : Nat)
  /-- A backslash after the first half of a pair. -/
  | leadSlash (code : Nat)
  deriving DecidableEq

/-- The value of a hexadecimal digit. -/
def hexDigit (c : Char) : Option Nat :=
  if '0' ≤ c ∧ c ≤ '9' then some (c.toNat - 48)
  else if 'a' ≤ c ∧ c ≤ 'f' then some (c.toNat - 87)
  else if 'A' ≤ c ∧ c ≤ 'F' then some (c.toNat - 55)
  else none

/-- An escape of two characters. -/
def shortEscape (c : Char) : Option Char :=
  match c with
  | '"' => some '"'
  | '\\' => some '\\'
  | '/' => some '/'
  | 'b' => some (Char.ofNat 8)
  | 'f' => some (Char.ofNat 12)
  | 'n' => some (Char.ofNat 10)
  | 'r' => some (Char.ofNat 13)
  | 't' => some (Char.ofNat 9)
  | _ => none

/-- All four digits are there: a character, or half of one. -/
def closeHex (code : Nat) : Option Nat → Option (Option Char × Escape)
  | none =>
    if 0xdc00 ≤ code ∧ code ≤ 0xdfff then none
    else if 0xd800 ≤ code ∧ code ≤ 0xdbff then some (none, .lead code)
    else some (some (Char.ofNat code), .plain)
  | some lead =>
    if 0xdc00 ≤ code ∧ code ≤ 0xdfff then
      some (some (Char.ofNat (0x10000 + (lead - 0xd800) * 0x400 + (code - 0xdc00))), .plain)
    else none

/-- A character inside a string: what it adds to the text, and where the string is then. -/
def escapeStep : Escape → Char → Option (Option Char × Escape)
  | .plain, c =>
    if c = '\\' then some (none, .slash) else if c.toNat < 32 then none else some (some c, .plain)
  | .slash, c =>
    if c = 'u' then some (none, .hex 3 0 none)
    else (shortEscape c).map fun e => (some e, .plain)
  | .hex more code lead, c =>
    (hexDigit c).bind fun digit =>
      match more with
      | more + 1 => some (none, .hex more (code * 16 + digit) lead)
      | 0 => closeHex (code * 16 + digit) lead
  | .lead code, c => if c = '\\' then some (none, .leadSlash code) else none
  | .leadSlash code, c => if c = 'u' then some (none, .hex 3 0 (some code)) else none

/-! ## Numbers and words -/

/-- Where in a number the reader is. -/
inductive NumPart
  /-- The sign. -/
  | minus
  /-- A leading zero. -/
  | zero
  /-- The digits before the point. -/
  | int
  /-- The point. -/
  | dot
  /-- The digits after it. -/
  | frac
  /-- The letter of the exponent. -/
  | e
  /-- Its sign. -/
  | sign
  /-- Its digits. -/
  | exp
  deriving DecidableEq

/-- A decimal digit. -/
def isDigit (c : Char) : Bool := '0' ≤ c ∧ c ≤ '9'

/-- One more character of a number. -/
def numStep : NumPart → Char → Option NumPart
  | .minus, c => if c = '0' then some .zero else if isDigit c then some .int else none
  | .zero, c => if c = '.' then some .dot else if c = 'e' ∨ c = 'E' then some .e else none
  | .int, c =>
    if isDigit c then some .int else if c = '.' then some .dot
    else if c = 'e' ∨ c = 'E' then some .e else none
  | .dot, c => if isDigit c then some .frac else none
  | .frac, c => if isDigit c then some .frac else if c = 'e' ∨ c = 'E' then some .e else none
  | .e, c => if isDigit c then some .exp else if c = '+' ∨ c = '-' then some .sign else none
  | .sign, c => if isDigit c then some .exp else none
  | .exp, c => if isDigit c then some .exp else none

/-- A number may end here. -/
def NumPart.ends : NumPart → Bool
  | .zero | .int | .frac | .exp => true
  | _ => false

/-- The three words. -/
inductive Word
  /-- `true`. -/
  | true
  /-- `false`. -/
  | false
  /-- `null`. -/
  | null
  deriving DecidableEq

/-- How a word is written. -/
def Word.text : Word → List Char
  | .true => ['t', 'r', 'u', 'e']
  | .false => ['f', 'a', 'l', 's', 'e']
  | .null => ['n', 'u', 'l', 'l']

/-- What a word means. -/
def Word.doc : Word → Doc φ
  | .true => .bool Bool.true
  | .false => .bool Bool.false
  | .null => .null

/-! ## The reader -/

/-- A container that is not finished. -/
inductive Frame (φ : Type)
  /-- An array with so many items. -/
  | arr (items : Items φ)
  /-- An object with so many members. -/
  | obj (members : Members φ)
  /-- An object whose last key has no value yet. -/
  | member (members : Members φ) (key : List (Piece φ))

/-- What may come next. -/
inductive Mode (φ : Type)
  /-- A value is due. -/
  | value
  /-- An item, or the end of the array. -/
  | firstItem
  /-- A key, or the end of the object. -/
  | firstKey
  /-- A key is due. -/
  | key
  /-- A colon is due. -/
  | colon
  /-- A comma, or the end of the container. -/
  | after
  /-- In a literal name, so much of it read. -/
  | word (w : Word) (read : Nat)
  /-- In a number. -/
  | num (part : NumPart) (raw : List Char)
  /-- In a string, which is a key or a value. -/
  | text (isKey : Bool) (sofar : List (Piece φ)) (e : Escape)
  /-- The document is complete. -/
  | ended (d : Doc φ)

/-- The reader's state: what may come next, and the containers it is in, the innermost first. -/
structure State (φ : Type) where
  /-- What was read last. -/
  mode : Mode φ
  /-- The containers that are open, the innermost first. -/
  stack : List (Frame φ)

/-- Before the text. -/
def State.start : State φ := ⟨.value, []⟩

/-- White space between tokens. -/
def isSpace (c : Char) : Bool := c = ' ' ∨ c = '\n' ∨ c = '\t' ∨ c = '\r'

/-- How deep containers may nest. -/
def depthLimit : Nat := 127

/-- A value is complete. -/
def give (d : Doc φ) : List (Frame φ) → Option (State φ)
  | [] => some ⟨.ended d, []⟩
  | .arr items :: rest => some ⟨.after, .arr (items.and d) :: rest⟩
  | .member members key :: rest => some ⟨.after, .obj (members.and key d) :: rest⟩
  | .obj _ :: _ => none

/-- A container begins. -/
def nest (mode : Mode φ) (frame : Frame φ) (stack : List (Frame φ)) : Option (State φ) :=
  if stack.length < depthLimit then some ⟨mode, frame :: stack⟩ else none

/-- The array ends. -/
def closeArr : List (Frame φ) → Option (State φ)
  | .arr items :: rest => give (.arr items) rest
  | _ => none

/-- The object ends. -/
def closeObj : List (Frame φ) → Option (State φ)
  | .obj members :: rest => give (.obj members) rest
  | _ => none

/-- A value begins. -/
def beginValue (c : Char) (stack : List (Frame φ)) : Option (State φ) :=
  if c = '"' then some ⟨.text false [] .plain, stack⟩
  else if c = '[' then nest .firstItem (.arr .none) stack
  else if c = '{' then nest .firstKey (.obj .none) stack
  else if c = 't' then some ⟨.word .true 1, stack⟩
  else if c = 'f' then some ⟨.word .false 1, stack⟩
  else if c = 'n' then some ⟨.word .null 1, stack⟩
  else if c = '-' then some ⟨.num .minus [c], stack⟩
  else if c = '0' then some ⟨.num .zero [c], stack⟩
  else if isDigit c then some ⟨.num .int [c], stack⟩
  else none

/-- Between a value and the next token. -/
def afterValue (s : State φ) (c : Char) : Option (State φ) :=
  if isSpace c then some s
  else match s.mode, s.stack with
    | .after, .arr items :: rest =>
      if c = ',' then some ⟨.value, .arr items :: rest⟩
      else if c = ']' then give (.arr items) rest else none
    | .after, .obj members :: rest =>
      if c = ',' then some ⟨.key, .obj members :: rest⟩
      else if c = '}' then give (.obj members) rest else none
    | _, _ => none

/-- A string ends. -/
def closeText (isKey : Bool) (text : List (Piece φ)) (stack : List (Frame φ)) : Option (State φ) :=
  if isKey then
    match stack with
    | .obj members :: rest => some ⟨.colon, .member members text :: rest⟩
    | _ => none
  else give (.str text) stack

variable (inRange : List Char → Bool)

/-- One character. -/
def step (s : State φ) (c : Char) : Option (State φ) :=
  match s.mode with
  | .value => if isSpace c then some s else beginValue c s.stack
  | .firstItem =>
    if isSpace c then some s else if c = ']' then closeArr s.stack else beginValue c s.stack
  | .firstKey =>
    if isSpace c then some s
    else if c = '"' then some ⟨.text true [] .plain, s.stack⟩
    else if c = '}' then closeObj s.stack else none
  | .key =>
    if isSpace c then some s
    else if c = '"' then some ⟨.text true [] .plain, s.stack⟩ else none
  | .colon =>
    if isSpace c then some s else if c = ':' then some ⟨.value, s.stack⟩ else none
  | .after => afterValue s c
  | .word w read =>
    if w.text[read]? = some c then
      if read + 1 = w.text.length then give w.doc s.stack else some ⟨.word w (read + 1), s.stack⟩
    else none
  | .num part raw =>
    match numStep part c with
    | some part => some ⟨.num part (raw ++ [c]), s.stack⟩
    | none =>
      if part.ends ∧ inRange raw then (give (.num raw) s.stack).bind fun s => afterValue s c
      else none
  | .text isKey sofar e =>
    if e = .plain ∧ c = '"' then closeText isKey sofar s.stack
    else (escapeStep e c).map fun r => ⟨.text isKey (sofar ++ r.1.toList.map .inl) r.2, s.stack⟩
  | .ended _ => afterValue s c

/-- A character, or a hole where literal text may stand. -/
def stepPiece (s : State φ) : Piece φ → Option (State φ)
  | .inl c => step inRange s c
  | .inr hole =>
    match s.mode with
    | .text isKey sofar .plain => some ⟨.text isKey (sofar ++ [.inr hole]) .plain, s.stack⟩
    | _ => none

/-- The end of the text. -/
def finish (s : State φ) : Option (Doc φ) :=
  match s.mode, s.stack with
  | .ended d, [] => some d
  | .num part raw, [] => if part.ends ∧ inRange raw then some (.num raw) else none
  | _, _ => none

/-- Characters one after the other. -/
def readChars (s : State φ) (text : List Char) : Option (State φ) := text.foldlM (step inRange) s

/-- Pieces one after the other. -/
def readPieces (s : State φ) (pieces : List (Piece φ)) : Option (State φ) :=
  pieces.foldlM (stepPiece inRange) s

/-- A text without holes. -/
def parse (text : List Char) : Option (Doc Empty) :=
  (readChars inRange .start text).bind (finish inRange)

/-- A text with holes. -/
def parsePieces (pieces : List (Piece φ)) : Option (Doc φ) :=
  (readPieces inRange .start pieces).bind (finish inRange)

/-! ## Filling -/

/-- Literal text in place of the holes of an unfinished container. -/
def Frame.fill (v : φ → List Char) : Frame φ → Frame Empty
  | .arr items => .arr (items.fill v)
  | .obj members => .obj (members.fill v)
  | .member members key => .member (members.fill v) (fillText v key)

/-- Literal text in place of the holes of what was read last. -/
def Mode.fill (v : φ → List Char) : Mode φ → Mode Empty
  | .value => .value
  | .firstItem => .firstItem
  | .firstKey => .firstKey
  | .key => .key
  | .colon => .colon
  | .after => .after
  | .word w read => .word w read
  | .num part raw => .num part raw
  | .text isKey sofar e => .text isKey (fillText v sofar) e
  | .ended d => .ended (d.fill v)

/-- Literal text in place of the holes of a state. -/
def State.fill (v : φ → List Char) (s : State φ) : State Empty :=
  ⟨s.mode.fill v, s.stack.map (Frame.fill v)⟩

variable (v : φ → List Char)

/-- Text that goes on is filled as it goes on. -/
theorem fillText_append (a b : List (Piece φ)) :
    fillText v (a ++ b) = fillText v a ++ fillText v b :=
  List.flatMap_append

/-- Characters fill nothing. -/
theorem fillText_chars (l : List Char) : fillText v (l.map .inl) = l.map .inl := by
  induction l with
  | nil => rfl
  | cons c l ih =>
    show .inl c :: fillText v (l.map .inl) = _
    rw [ih]
    rfl

/-- A complete value. -/
theorem give_fill (d : Doc φ) (stack : List (Frame φ)) :
    give (d.fill v) (stack.map (Frame.fill v)) = (give d stack).map (State.fill v) := by
  cases stack with
  | nil => rfl
  | cons frame rest => cases frame <;> rfl

/-- A container that begins. -/
theorem nest_fill (mode : Mode φ) (frame : Frame φ) (stack : List (Frame φ)) :
    nest (mode.fill v) (frame.fill v) (stack.map (Frame.fill v))
      = (nest mode frame stack).map (State.fill v) := by
  simp only [nest, List.length_map]
  split <;> rfl

/-- An array that ends. -/
theorem closeArr_fill (stack : List (Frame φ)) :
    closeArr (stack.map (Frame.fill v)) = (closeArr stack).map (State.fill v) := by
  cases stack with
  | nil => rfl
  | cons frame rest =>
    cases frame with
    | arr items => exact give_fill v (.arr items) rest
    | obj members => rfl
    | member members key => rfl

/-- An object that ends. -/
theorem closeObj_fill (stack : List (Frame φ)) :
    closeObj (stack.map (Frame.fill v)) = (closeObj stack).map (State.fill v) := by
  cases stack with
  | nil => rfl
  | cons frame rest =>
    cases frame with
    | arr items => rfl
    | obj members => exact give_fill v (.obj members) rest
    | member members key => rfl

/-- A value that begins. -/
theorem beginValue_fill (c : Char) (stack : List (Frame φ)) :
    beginValue c (stack.map (Frame.fill v)) = (beginValue c stack).map (State.fill v) := by
  unfold beginValue
  split_ifs
  · rfl
  · exact nest_fill v .firstItem (.arr .none) stack
  · exact nest_fill v .firstKey (.obj .none) stack
  all_goals rfl

/-- A token after a value. -/
theorem afterValue_fill (s : State φ) (c : Char) :
    afterValue (s.fill v) c = (afterValue s c).map (State.fill v) := by
  obtain ⟨mode, stack⟩ := s
  unfold afterValue
  by_cases hspace : isSpace c = true
  · rw [if_pos hspace, if_pos hspace]
    rfl
  · rw [if_neg hspace, if_neg hspace]
    cases mode with
    | after =>
      cases stack with
      | nil => rfl
      | cons frame rest =>
        cases frame with
        | arr items =>
          simp only [State.fill, Mode.fill, List.map_cons, Frame.fill]
          split_ifs
          · rfl
          · exact give_fill v (.arr items) rest
          · rfl
        | obj members =>
          simp only [State.fill, Mode.fill, List.map_cons, Frame.fill]
          split_ifs
          · rfl
          · exact give_fill v (.obj members) rest
          · rfl
        | member members key => rfl
    | value => rfl
    | firstItem => rfl
    | firstKey => rfl
    | key => rfl
    | colon => rfl
    | word w read => rfl
    | num part raw => rfl
    | text isKey sofar e => rfl
    | ended d => rfl

/-- A string that ends. -/
theorem closeText_fill (isKey : Bool) (text : List (Piece φ)) (stack : List (Frame φ)) :
    closeText isKey (fillText v text) (stack.map (Frame.fill v))
      = (closeText isKey text stack).map (State.fill v) := by
  cases isKey with
  | false => exact give_fill v (.str text) stack
  | true =>
    cases stack with
    | nil => rfl
    | cons frame rest => cases frame <;> rfl

/-- Characters are read the same whatever stands in the holes before them. -/
theorem step_fill (s : State φ) (c : Char) :
    step inRange (s.fill v) c = (step inRange s c).map (State.fill v) := by
  obtain ⟨mode, stack⟩ := s
  cases mode with
  | value =>
    simp only [step, State.fill, Mode.fill]
    split_ifs
    · rfl
    · exact beginValue_fill v c stack
  | firstItem =>
    simp only [step, State.fill, Mode.fill]
    split_ifs
    · rfl
    · exact closeArr_fill v stack
    · exact beginValue_fill v c stack
  | firstKey =>
    simp only [step, State.fill, Mode.fill]
    split_ifs
    · rfl
    · rfl
    · exact closeObj_fill v stack
    · rfl
  | key =>
    simp only [step, State.fill, Mode.fill]
    split_ifs <;> rfl
  | colon =>
    simp only [step, State.fill, Mode.fill]
    split_ifs <;> rfl
  | after => exact afterValue_fill v ⟨.after, stack⟩ c
  | word w read =>
    simp only [step, State.fill, Mode.fill]
    split_ifs
    · have hdoc : (w.doc : Doc Empty) = (w.doc : Doc φ).fill v := by cases w <;> rfl
      rw [hdoc]
      exact give_fill v w.doc stack
    · rfl
    · rfl
  | num part raw =>
    simp only [step, State.fill, Mode.fill]
    cases numStep part c with
    | some part => rfl
    | none =>
      dsimp only
      split_ifs
      · have hgive : give (.num raw) (stack.map (Frame.fill v))
            = (give (.num raw) stack).map (State.fill v) := give_fill v (.num raw) stack
        rw [hgive, Option.bind_map, Option.map_bind]
        exact congrArg _ (funext fun s => afterValue_fill v s c)
      · rfl
  | text isKey sofar e =>
    simp only [step, State.fill, Mode.fill]
    split_ifs
    · exact closeText_fill v isKey sofar stack
    · rw [Option.map_map]
      refine congrArg (fun f => (escapeStep e c).map f) (funext fun r => ?_)
      simp only [Function.comp_apply, State.fill, Mode.fill, fillText_append, fillText_chars]
  | ended d => exact afterValue_fill v ⟨.ended d, stack⟩ c

/-- The end of the text. -/
theorem finish_fill (s : State φ) :
    finish inRange (s.fill v) = (finish inRange s).map (Doc.fill v) := by
  obtain ⟨mode, stack⟩ := s
  cases mode with
  | ended d =>
    cases stack with
    | nil => rfl
    | cons frame rest => rfl
  | num part raw =>
    cases stack with
    | nil =>
      simp only [finish, State.fill, Mode.fill, List.map_nil]
      split_ifs <;> rfl
    | cons frame rest => rfl
  | value => rfl
  | firstItem => rfl
  | firstKey => rfl
  | key => rfl
  | colon => rfl
  | after => rfl
  | word w read => rfl
  | text isKey sofar e => rfl

/-! ## Escaped text -/

/-- The hexadecimal digits of a writer. -/
def hexChar (n : Nat) : Char := if n < 10 then Char.ofNat (48 + n) else Char.ofNat (87 + n)

/-- How a writer puts one character into a string. -/
def escapeChar (c : Char) : List Char :=
  if c = '"' then ['\\', '"']
  else if c = '\\' then ['\\', '\\']
  else if c = Char.ofNat 8 then ['\\', 'b']
  else if c = Char.ofNat 12 then ['\\', 'f']
  else if c = Char.ofNat 10 then ['\\', 'n']
  else if c = Char.ofNat 13 then ['\\', 'r']
  else if c = Char.ofNat 9 then ['\\', 't']
  else if c.toNat < 32 then ['\\', 'u', '0', '0', hexChar (c.toNat / 16), hexChar (c.toNat % 16)]
  else [c]

/-- How a writer puts text into a string. -/
def escaped (text : List Char) : List Char := text.flatMap escapeChar

/-- Text with the holes filled by escaped text. -/
def written (pieces : List (Piece φ)) : List Char :=
  pieces.flatMap fun
    | .inl c => [c]
    | .inr hole => escaped (v hole)

/-- Text is written as it goes on. -/
theorem written_append (a b : List (Piece φ)) : written v (a ++ b) = written v a ++ written v b :=
  List.flatMap_append

/-- A reader understands the digits of a writer. -/
theorem hexDigit_hexChar : ∀ n < 16, hexDigit (hexChar n) = some n := by decide

/-- An escaped character is that character. -/
theorem read_escapeChar (isKey : Bool) (sofar : List (Piece φ)) (stack : List (Frame φ)) (c : Char) :
    readChars inRange ⟨.text isKey sofar .plain, stack⟩ (escapeChar c)
      = some ⟨.text isKey (sofar ++ [.inl c]) .plain, stack⟩ := by
  unfold escapeChar
  split_ifs with hquote hslash h₈ h₁₂ h₁₀ h₁₃ h₉ hcontrol
  · simp [readChars, step, escapeStep, shortEscape, hquote]
  · simp [readChars, step, escapeStep, shortEscape, hslash]
  · simp [readChars, step, escapeStep, shortEscape, h₈]
  · simp [readChars, step, escapeStep, shortEscape, h₁₂]
  · simp [readChars, step, escapeStep, shortEscape, h₁₀]
  · simp [readChars, step, escapeStep, shortEscape, h₁₃]
  · simp [readChars, step, escapeStep, shortEscape, h₉]
  · have hzero : hexDigit '0' = some 0 := by decide
    have hhigh := hexDigit_hexChar (c.toNat / 16) (by omega)
    have hlow := hexDigit_hexChar (c.toNat % 16) (by omega)
    have hcode : c.toNat / 16 * 16 + c.toNat % 16 = c.toNat := by omega
    have hchar : closeHex c.toNat none = some (some c, .plain) := by
      rw [closeHex, if_neg (by omega), if_neg (by omega), Char.ofNat_toNat]
    simp [readChars, step, escapeStep, hzero, hhigh, hlow, hcode, hchar]
  · simp [readChars, step, escapeStep, hquote, hslash, hcontrol]

/-- Escaped text is that text. -/
theorem read_escaped (isKey : Bool) (sofar : List (Piece φ)) (stack : List (Frame φ))
    (text : List Char) :
    readChars inRange ⟨.text isKey sofar .plain, stack⟩ (escaped text)
      = some ⟨.text isKey (sofar ++ text.map .inl) .plain, stack⟩ := by
  induction text generalizing sofar with
  | nil => simp [escaped, readChars]
  | cons c text ih =>
    have hread := read_escapeChar inRange isKey sofar stack c
    rw [readChars] at hread
    rw [escaped, List.flatMap_cons, readChars, List.foldlM_append, hread]
    refine (ih (sofar ++ [.inl c])).trans ?_
    rw [List.map_cons, List.append_assoc, List.singleton_append]

/-- A hole that was read, filled. -/
theorem stepPiece_fill {s s' : State φ} {piece : Piece φ} (h : stepPiece inRange s piece = some s') :
    readChars inRange (s.fill v) (written v [piece]) = some (s'.fill v) := by
  cases piece with
  | inl c =>
    have hstep : step inRange s c = some s' := h
    show (step inRange (s.fill v) c).bind some = _
    rw [Option.bind_fun_some, step_fill, hstep]
    rfl
  | inr hole =>
    obtain ⟨mode, stack⟩ := s
    have hwritten : written v [.inr hole] = escaped (v hole) := List.append_nil _
    rw [hwritten]
    cases mode with
    | text isKey sofar e =>
      cases e with
      | plain =>
        obtain rfl := Option.some.inj h
        refine (read_escaped inRange isKey (fillText v sofar) (stack.map (Frame.fill v))
          (v hole)).trans ?_
        have hone : fillText v [.inr hole] = (v hole).map .inl := List.append_nil _
        simp only [State.fill, Mode.fill, fillText_append, hone]
      | slash => cases h
      | hex more code lead => cases h
      | lead code => cases h
      | leadSlash code => cases h
    | value => cases h
    | firstItem => cases h
    | firstKey => cases h
    | key => cases h
    | colon => cases h
    | after => cases h
    | word w read => cases h
    | num part raw => cases h
    | ended d => cases h

/-- What was read with holes is what is read with the holes filled. -/
theorem readPieces_fill {s s' : State φ} {pieces : List (Piece φ)}
    (h : readPieces inRange s pieces = some s') :
    readChars inRange (s.fill v) (written v pieces) = some (s'.fill v) := by
  induction pieces generalizing s with
  | nil =>
    obtain rfl := Option.some.inj h
    rfl
  | cons piece pieces ih =>
    rw [readPieces, List.foldlM_cons] at h
    obtain ⟨t, hstep, hrest⟩ := Option.bind_eq_some_iff.1 h
    have hfirst := stepPiece_fill inRange v hstep
    have hsplit : written v (piece :: pieces) = written v [piece] ++ written v pieces :=
      written_append v [piece] pieces
    rw [readChars] at hfirst
    rw [hsplit, readChars, List.foldlM_append, hfirst]
    exact ih hrest

/-- A document with holes, filled, is the document of the text with the holes filled. -/
theorem parsePieces_fill {pieces : List (Piece φ)} {d : Doc φ}
    (h : parsePieces inRange pieces = some d) :
    parse inRange (written v pieces) = some (d.fill v) := by
  obtain ⟨s, hread, hend⟩ := Option.bind_eq_some_iff.1 h
  have hchars : readChars inRange .start (written v pieces) = some (s.fill v) :=
    readPieces_fill inRange v hread
  rw [parse, hchars, Option.bind_some, finish_fill, hend]
  rfl

end Romi.JsonText
