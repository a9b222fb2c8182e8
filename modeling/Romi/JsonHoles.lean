import Mathlib.Data.List.Induction
import Romi.JsonText

/-!
# Where the holes of a JSON text are

A text with its holes filled by samples may be read although a hole is no
literal text: it may complete an escape that was begun before it. When no hole
stands in an escape and no sample begins like anything but literal text, what
is read with samples is read with any filling.
-/

namespace Romi.JsonHoles

open JsonText

variable {φ : Type}

/-! ## Unfinished escapes -/

/-- What an escape still lacks, judged by the characters alone. -/
inductive Pending
  /-- Nothing is asked for. -/
  | none
  /-- The rest of an escape. -/
  | slash
  /-- Hexadecimal digits, and how many more. -/
  | hex (more : Nat)
  deriving DecidableEq

/-- One more character. -/
def Pending.next : Pending → Char → Pending
  | .none, c => if c = '\\' then .slash else .none
  | .slash, c => if c = 'u' then .hex 3 else .none
  | .hex (more + 1), _ => .hex more
  | .hex 0, _ => .none

/-- What the last escape of a text still lacks. -/
def pending (pieces : List (Piece φ)) : Pending :=
  pieces.foldl (fun p => fun
    | .inl c => p.next c
    | .inr _ => .none) .none

/-- No hole stands right after an unfinished escape. -/
def Closed (pieces : List (Piece φ)) : Prop :=
  ∀ before hole after, pieces = before ++ .inr hole :: after → pending before = .none

/-- What an escape of the reader lacks. -/
def lacks : Escape → Pending
  | .plain => .none
  | .slash => .slash
  | .hex more _ _ => .hex more
  | .lead _ => .none
  | .leadSlash _ => .slash

/-- What the reader's escape lacks. -/
def modeLacks : Mode φ → Pending
  | .text _ _ e => lacks e
  | _ => .none

/-- A text goes on by a character. -/
theorem pending_char (before : List (Piece φ)) (c : Char) :
    pending (before ++ [.inl c]) = (pending before).next c := by
  rw [pending, List.foldl_append]
  rfl

/-- A text goes on by a hole. -/
theorem pending_hole (before : List (Piece φ)) (hole : φ) :
    pending (before ++ [.inr hole]) = .none := by
  rw [pending, List.foldl_append]
  rfl

/-- The escape goes on as the characters say. -/
theorem escapeStep_lacks {e e' : Escape} {c : Char} {out : Option Char}
    (h : escapeStep e c = some (out, e')) : lacks e' = (lacks e).next c := by
  cases e with
  | plain =>
    simp only [escapeStep] at h
    split_ifs at h with hslash hcontrol
    · cases h
      rw [lacks, lacks, Pending.next, if_pos hslash]
    · cases h
      rw [lacks, Pending.next, if_neg hslash]
  | slash =>
    simp only [escapeStep] at h
    split_ifs at h with hu
    · cases h
      rw [lacks, lacks, Pending.next, if_pos hu]
    · obtain ⟨r, -, hr⟩ := Option.map_eq_some_iff.1 h
      cases hr
      rw [lacks, lacks, Pending.next, if_neg hu]
  | hex more code lead =>
    obtain ⟨digit, -, hdigit⟩ := Option.bind_eq_some_iff.1 h
    cases more with
    | succ more =>
      cases hdigit
      rfl
    | zero =>
      have hclosed : lacks e' = .none := by
        dsimp only at hdigit
        cases lead with
        | none =>
          simp only [closeHex] at hdigit
          split_ifs at hdigit
          · cases hdigit
            rfl
          · cases hdigit
            rfl
        | some lead =>
          simp only [closeHex] at hdigit
          split_ifs at hdigit
          cases hdigit
          rfl
      rw [hclosed]
      rfl
  | lead code =>
    simp only [escapeStep] at h
    split_ifs at h with hslash
    cases h
    rw [lacks, lacks, Pending.next, if_pos hslash]
  | leadSlash code =>
    simp only [escapeStep] at h
    split_ifs at h with hu
    cases h
    rw [lacks, lacks, Pending.next, if_pos hu]

/-- A value that is complete leaves no escape. -/
theorem give_lacks {d : Doc φ} {stack : List (Frame φ)} {s : State φ} (h : give d stack = some s) :
    modeLacks s.mode = .none := by
  cases stack with
  | nil => cases h; rfl
  | cons frame rest =>
    cases frame with
    | arr items => cases h; rfl
    | obj members => cases h
    | member members key => cases h; rfl

/-- Nor does a container that begins. -/
theorem nest_lacks {mode : Mode φ} {frame : Frame φ} {stack : List (Frame φ)} {s : State φ}
    (h : nest mode frame stack = some s) (hmode : modeLacks mode = .none) :
    modeLacks s.mode = .none := by
  simp only [nest] at h
  split_ifs at h
  cases h
  exact hmode

/-- Nor does a value that begins. -/
theorem beginValue_lacks {c : Char} {stack : List (Frame φ)} {s : State φ}
    (h : beginValue c stack = some s) : modeLacks s.mode = .none ∧ c ≠ '\\' := by
  have hslash : c ≠ '\\' := by
    rintro rfl
    simp [beginValue, isDigit] at h
  refine ⟨?_, hslash⟩
  simp only [beginValue] at h
  split_ifs at h
  · cases h; rfl
  · exact nest_lacks h rfl
  · exact nest_lacks h rfl
  all_goals cases h; rfl

/-- Nor does a token after a value. -/
theorem afterValue_lacks {s s' : State φ} {c : Char} (hs : modeLacks s.mode = .none)
    (h : afterValue s c = some s') : modeLacks s'.mode = .none ∧ c ≠ '\\' := by
  obtain ⟨mode, stack⟩ := s
  have hslash : c ≠ '\\' := by
    rintro rfl
    have hspace : isSpace '\\' = false := by decide
    simp only [afterValue, hspace, Bool.false_eq_true, if_false] at h
    split at h
    · simp at h
    · simp at h
    · cases h
  refine ⟨?_, hslash⟩
  simp only [afterValue] at h
  by_cases hspace : isSpace c = true
  · rw [if_pos hspace] at h
    cases h
    exact hs
  · rw [if_neg hspace] at h
    split at h
    · split_ifs at h
      · cases h; rfl
      · exact give_lacks h
    · split_ifs at h
      · cases h; rfl
      · exact give_lacks h
    · cases h

/-- A container that ends is a complete value. -/
theorem closeArr_lacks {stack : List (Frame φ)} {s : State φ} (h : closeArr stack = some s) :
    modeLacks s.mode = .none := by
  unfold closeArr at h
  split at h
  · exact give_lacks h
  · cases h

/-- Closing an object leaves nothing pending. -/
theorem closeObj_lacks {stack : List (Frame φ)} {s : State φ} (h : closeObj stack = some s) :
    modeLacks s.mode = .none := by
  unfold closeObj at h
  split at h
  · exact give_lacks h
  · cases h

/-- A string that ends is a key or a complete value. -/
theorem closeText_lacks {isKey : Bool} {sofar : List (Piece φ)} {stack : List (Frame φ)}
    {s : State φ} (h : closeText isKey sofar stack = some s) : modeLacks s.mode = .none := by
  unfold closeText at h
  split_ifs at h
  · split at h
    · cases h
      rfl
    · cases h
  · exact give_lacks h

/-! ### One character in each mode -/

section
variable {inRange : List Char → Bool} {s' : State φ} {stack : List (Frame φ)} {c : Char}

/-- A blank is not a backslash. -/
theorem not_slash_of_space (h : isSpace c = true) : c ≠ '\\' := by
  rintro rfl
  exact absurd h (by decide)

/-- Where a value is due, no escape begins. -/
theorem value_lacks (h : step inRange ⟨.value, stack⟩ c = some s') :
    modeLacks s'.mode = .none ∧ c ≠ '\\' := by
  simp only [step] at h
  split_ifs at h with hspace
  · cases h
    exact ⟨rfl, not_slash_of_space hspace⟩
  · exact beginValue_lacks h

/-- Where the first item of an array may start. -/
theorem firstItem_lacks (h : step inRange ⟨.firstItem, stack⟩ c = some s') :
    modeLacks s'.mode = .none ∧ c ≠ '\\' := by
  simp only [step] at h
  split_ifs at h with hspace hclose
  · cases h
    exact ⟨rfl, not_slash_of_space hspace⟩
  · refine ⟨closeArr_lacks h, ?_⟩
    rw [hclose]
    decide
  · exact beginValue_lacks h

/-- Nor where a key or a colon is. -/
theorem firstKey_lacks (h : step inRange ⟨.firstKey, stack⟩ c = some s') :
    modeLacks s'.mode = .none ∧ c ≠ '\\' := by
  simp only [step] at h
  split_ifs at h with hspace hquote hclose
  · cases h
    exact ⟨rfl, not_slash_of_space hspace⟩
  · cases h
    refine ⟨rfl, ?_⟩
    rw [hquote]
    decide
  · refine ⟨closeObj_lacks h, ?_⟩
    rw [hclose]
    decide

/-- Where a key must start. -/
theorem key_lacks (h : step inRange ⟨.key, stack⟩ c = some s') :
    modeLacks s'.mode = .none ∧ c ≠ '\\' := by
  simp only [step] at h
  split_ifs at h with hspace hquote
  · cases h
    exact ⟨rfl, not_slash_of_space hspace⟩
  · cases h
    refine ⟨rfl, ?_⟩
    rw [hquote]
    decide

/-- Where the colon must stand. -/
theorem colon_lacks (h : step inRange ⟨.colon, stack⟩ c = some s') :
    modeLacks s'.mode = .none ∧ c ≠ '\\' := by
  simp only [step] at h
  split_ifs at h with hspace hcolon
  · cases h
    exact ⟨rfl, not_slash_of_space hspace⟩
  · cases h
    refine ⟨rfl, ?_⟩
    rw [hcolon]
    decide

/-- No literal name has a backslash. -/
theorem word_lacks {w : Word} {read : Nat} (h : step inRange ⟨.word w read, stack⟩ c = some s') :
    modeLacks s'.mode = .none ∧ c ≠ '\\' := by
  simp only [step] at h
  have hletter : w.text[read]? = some c → c ≠ '\\' := by
    rintro hread rfl
    have hmem := List.mem_of_getElem? hread
    cases w <;> exact absurd hmem (by decide)
  split_ifs at h with hread hlast
  · exact ⟨give_lacks h, hletter hread⟩
  · cases h
    exact ⟨rfl, hletter hread⟩

/-- Nor has a number, and what ends it is a token after a value. -/
theorem num_lacks {part : NumPart} {raw : List Char}
    (h : step inRange ⟨.num part raw, stack⟩ c = some s') :
    modeLacks s'.mode = .none ∧ c ≠ '\\' := by
  simp only [step] at h
  cases hnum : numStep part c with
  | some part' =>
    rw [hnum] at h
    cases h
    refine ⟨rfl, ?_⟩
    rintro rfl
    have hnone : numStep part '\\' = none := by cases part <;> decide
    rw [hnone] at hnum
    cases hnum
  | none =>
    rw [hnum] at h
    dsimp only at h
    split_ifs at h
    obtain ⟨t, hgive, hafter⟩ := Option.bind_eq_some_iff.1 h
    exact afterValue_lacks (give_lacks hgive) hafter

/-- In a string the escape is the reader's own. -/
theorem text_lacks {isKey : Bool} {sofar : List (Piece φ)} {e : Escape}
    (h : step inRange ⟨.text isKey sofar e, stack⟩ c = some s') :
    modeLacks s'.mode = (lacks e).next c := by
  simp only [step] at h
  split_ifs at h with hend
  · obtain ⟨rfl, rfl⟩ := hend
    exact closeText_lacks h
  · obtain ⟨⟨out, e'⟩, hescape, hs'⟩ := Option.map_eq_some_iff.1 h
    cases hs'
    exact escapeStep_lacks hescape

end

/-- The reader's escape is the one the characters leave unfinished. -/
theorem step_lacks {inRange : List Char → Bool} {s s' : State φ} {c : Char}
    (h : step inRange s c = some s') : modeLacks s'.mode = (modeLacks s.mode).next c := by
  obtain ⟨mode, stack⟩ := s
  have houtside : modeLacks s'.mode = .none ∧ c ≠ '\\' →
      modeLacks s'.mode = Pending.none.next c := by
    rintro ⟨hnone, hslash⟩
    rw [hnone, Pending.next, if_neg hslash]
  cases mode with
  | value => exact houtside (value_lacks h)
  | firstItem => exact houtside (firstItem_lacks h)
  | firstKey => exact houtside (firstKey_lacks h)
  | key => exact houtside (key_lacks h)
  | colon => exact houtside (colon_lacks h)
  | after => exact houtside (afterValue_lacks rfl h)
  | word w read => exact houtside (word_lacks h)
  | num part raw => exact houtside (num_lacks h)
  | text isKey sofar e => exact text_lacks h
  | ended d => exact houtside (afterValue_lacks rfl h)

/-! ## Literal text -/

variable (inRange : List Char → Bool) (v : φ → List Char)

/-- What fills a hole is read as literal text inside a string. -/
def Literal (pieces : List (Piece φ)) : Prop :=
  ∀ before hole after, pieces = before ++ .inr hole :: after → ∃ isKey sofar stack,
    readChars inRange (.start : State Empty) (written v before)
      = some ⟨.text isKey sofar .plain, stack⟩

/-- A sample that is read where no escape is unfinished is read as literal text. -/
def Telling (text : List Char) : Prop :=
  ∀ s : State Empty, readChars inRange s text ≠ none → modeLacks s.mode = .none →
    ∃ isKey sofar, s.mode = .text isKey sofar .plain

/-- Filling changes no escape. -/
theorem modeLacks_fill (mode : Mode φ) : modeLacks (mode.fill v) = modeLacks mode := by
  cases mode <;> rfl

/-- A hole is taken inside a string only. -/
theorem stepPiece_hole {s s' : State φ} {hole : φ}
    (h : stepPiece inRange s (.inr hole) = some s') :
    (∃ isKey sofar, s.mode = .text isKey sofar .plain) ∧ modeLacks s'.mode = .none := by
  simp only [stepPiece] at h
  split at h
  · rename_i isKey sofar hmode
    cases h
    exact ⟨⟨isKey, sofar, hmode⟩, rfl⟩
  · cases h

/-- Text read in two parts. -/
theorem readChars_append {s t : State Empty} {a b : List Char}
    (h : readChars inRange s (a ++ b) = some t) :
    ∃ r, readChars inRange s a = some r ∧ readChars inRange r b = some t := by
  rw [readChars, List.foldlM_append] at h
  exact Option.bind_eq_some_iff.1 h

/-- A document with holes is one in which any filling is literal text. -/
theorem literal_of_parsePieces {pieces : List (Piece φ)} {d : Doc φ}
    (h : parsePieces inRange pieces = some d) : Literal inRange v pieces := by
  rintro before hole after rfl
  obtain ⟨t, hread, -⟩ := Option.bind_eq_some_iff.1 h
  rw [readPieces, List.foldlM_append] at hread
  obtain ⟨s, hbefore, hrest⟩ := Option.bind_eq_some_iff.1 hread
  rw [List.foldlM_cons] at hrest
  obtain ⟨s', hhole, -⟩ := Option.bind_eq_some_iff.1 hrest
  obtain ⟨⟨isKey, sofar, hmode⟩, -⟩ := stepPiece_hole inRange hhole
  have hchars : readChars inRange .start (written v before) = some (s.fill v) :=
    readPieces_fill inRange v hbefore
  refine ⟨isKey, fillText v sofar, s.stack.map (Frame.fill v), ?_⟩
  rw [hchars, State.fill, hmode]
  rfl

/-- Where all fillings so far were literal text, the reader's escape is the one of the pieces. -/
theorem Literal.lacks {pieces : List (Piece φ)} (h : Literal inRange v pieces)
    {before rest : List (Piece φ)} (hsplit : pieces = before ++ rest) {s : State Empty}
    (hread : readChars inRange .start (written v before) = some s) :
    modeLacks s.mode = pending before := by
  induction before using List.reverseRecOn generalizing rest s with
  | nil =>
    obtain rfl := Option.some.inj hread
    rfl
  | append_singleton before piece ih =>
    rw [List.append_assoc, List.singleton_append] at hsplit
    rw [written_append] at hread
    obtain ⟨r, hbefore, hpiece⟩ := readChars_append inRange hread
    cases piece with
    | inl c =>
      have hstep : step inRange r c = some s := by
        have hone : (step inRange r c).bind some = some s := hpiece
        rwa [Option.bind_fun_some] at hone
      rw [pending_char, ← ih hsplit hbefore]
      exact step_lacks hstep
    | inr hole =>
      obtain ⟨isKey, sofar, stack, hplain⟩ := h before hole rest hsplit
      rw [hbefore] at hplain
      obtain rfl := Option.some.inj hplain
      have hone : written v [.inr hole] = escaped (v hole) := List.append_nil _
      rw [hone, read_escaped] at hpiece
      obtain rfl := Option.some.inj hpiece
      rw [pending_hole]
      rfl

/-- Where all fillings are literal text no hole stands in an escape. -/
theorem Literal.closed {pieces : List (Piece φ)} (h : Literal inRange v pieces) : Closed pieces := by
  intro before hole after hsplit
  obtain ⟨isKey, sofar, stack, hread⟩ := h before hole after hsplit
  rw [← h.lacks inRange v hsplit hread]
  rfl

/-- Pieces that are read with telling samples are read with holes. -/
theorem readPieces_of_samples (htelling : ∀ hole, Telling inRange (escaped (v hole)))
    {before rest : List (Piece φ)} (hclosed : Closed (before ++ rest)) {s : State φ}
    (hlacks : modeLacks s.mode = pending before) {t : State Empty}
    (hread : readChars inRange (s.fill v) (written v rest) = some t) :
    ∃ s', readPieces inRange s rest = some s' ∧ s'.fill v = t := by
  induction rest generalizing before s with
  | nil => exact ⟨s, rfl, Option.some.inj hread⟩
  | cons piece rest ih =>
    have hsplit : before ++ piece :: rest = before ++ [piece] ++ rest := by
      rw [List.append_assoc, List.singleton_append]
    have hwritten : written v (piece :: rest) = written v [piece] ++ written v rest :=
      written_append v [piece] rest
    rw [hwritten] at hread
    obtain ⟨r, hfirst, hrest⟩ := readChars_append inRange hread
    have htaken : ∃ s₁, stepPiece inRange s piece = some s₁ ∧
        modeLacks s₁.mode = pending (before ++ [piece]) := by
      cases piece with
      | inl c =>
        have hone : (step inRange (s.fill v) c).bind some = some r := hfirst
        rw [Option.bind_fun_some, step_fill] at hone
        obtain ⟨s₁, hstep, -⟩ := Option.map_eq_some_iff.1 hone
        refine ⟨s₁, hstep, ?_⟩
        rw [pending_char, ← hlacks]
        exact step_lacks hstep
      | inr hole =>
        have hopen : modeLacks (s.fill v).mode = .none := by
          rw [State.fill, modeLacks_fill, hlacks]
          exact hclosed before hole rest rfl
        have hsample : written v [.inr hole] = escaped (v hole) := List.append_nil _
        rw [hsample] at hfirst
        obtain ⟨isKey, sofar, hmode⟩ := htelling hole (s.fill v)
          (by rw [hfirst]; exact Option.some_ne_none r) hopen
        obtain ⟨mode, stack⟩ := s
        cases mode with
        | text isKey' sofar' e =>
          cases hmode
          exact ⟨_, rfl, (pending_hole before hole).symm⟩
        | value => cases hmode
        | firstItem => cases hmode
        | firstKey => cases hmode
        | key => cases hmode
        | colon => cases hmode
        | after => cases hmode
        | word w read => cases hmode
        | num part raw => cases hmode
        | ended d => cases hmode
    obtain ⟨s₁, hstep, hlacks₁⟩ := htaken
    have hfilled := stepPiece_fill inRange v hstep
    rw [hfirst] at hfilled
    obtain rfl := Option.some.inj hfilled
    rw [hsplit] at hclosed
    obtain ⟨s', hread', hend⟩ := ih hclosed hlacks₁ hrest
    refine ⟨s', ?_, hend⟩
    rw [readPieces, List.foldlM_cons, hstep]
    exact hread'

/-- A text that is a document with telling samples is a document with holes. -/
theorem parsePieces_of_samples (htelling : ∀ hole, Telling inRange (escaped (v hole)))
    {pieces : List (Piece φ)} (hclosed : Closed pieces) {d : Doc Empty}
    (hparse : parse inRange (written v pieces) = some d) :
    ∃ d', parsePieces inRange pieces = some d' := by
  obtain ⟨t, hread, hend⟩ := Option.bind_eq_some_iff.1 hparse
  obtain ⟨s, hpieces, rfl⟩ := @readPieces_of_samples φ inRange v htelling [] pieces hclosed
    .start rfl t hread
  rw [finish_fill] at hend
  obtain ⟨d', hfinish, -⟩ := Option.map_eq_some_iff.1 hend
  exact ⟨d', by rw [parsePieces, hpieces]; exact hfinish⟩

/-! ## Telling samples -/

/-- A character that is neither white space nor ends, joins or separates values. -/
def Foreign (c : Char) : Prop := isSpace c = false ∧ c ∉ [',', ']', '}', '"', ':']

instance (c : Char) : Decidable (Foreign c) := inferInstanceAs (Decidable (_ ∧ _))

/-- No such character follows a value. -/
theorem Foreign.afterValue {c : Char} (h : Foreign c) (s : State φ) : afterValue s c = none := by
  obtain ⟨hspace, hlist⟩ := h
  simp only [List.mem_cons, List.not_mem_nil, or_false, not_or] at hlist
  obtain ⟨hcomma, hbracket, hbrace, -, -⟩ := hlist
  unfold JsonText.afterValue
  rw [hspace, if_neg Bool.false_ne_true]
  split
  · rw [if_neg hcomma, if_neg hbracket]
  · rw [if_neg hcomma, if_neg hbrace]
  · rfl

/-- After a complete value comes what follows a value. -/
theorem step_give {d : Doc φ} {stack : List (Frame φ)} {s : State φ} (h : give d stack = some s)
    (c : Char) : step inRange s c = afterValue s c := by
  cases stack with
  | nil => cases h; rfl
  | cons frame rest =>
    cases frame with
    | arr items => cases h; rfl
    | obj members => cases h
    | member members key => cases h; rfl

/-- A number that is over is not followed by such a character. -/
theorem Foreign.num {c : Char} (h : Foreign c) {part : NumPart} (hpart : numStep part c = none)
    (raw : List Char) (stack : List (Frame φ)) : step inRange ⟨.num part raw, stack⟩ c = none := by
  simp only [step, hpart]
  split
  · rw [Option.bind_eq_none_iff]
    intro s _
    exact h.afterValue s
  · rfl

/-- A text goes nowhere when its first two characters do not. -/
theorem readChars_two {s : State Empty} {c₁ c₂ : Char} (rest : List Char)
    (h : (step inRange s c₁).bind (fun s => step inRange s c₂) = none) :
    readChars inRange s (c₁ :: c₂ :: rest) = none := by
  rw [readChars, List.foldlM_cons]
  cases hfirst : step inRange s c₁ with
  | none => rfl
  | some s₁ =>
    rw [hfirst] at h
    have hsecond : step inRange s₁ c₂ = none := h
    show (c₂ :: rest).foldlM (step inRange) s₁ = none
    rw [List.foldlM_cons, hsecond]
    rfl

/-- Within a word, neither the word goes on with the second nor anything after it. -/
theorem word_two {w : Word} {read : Nat} {stack : List (Frame Empty)} {c₁ c₂ : Char}
    (h₂ : Foreign c₂) (hword : ∀ read < 5, w.text[read]? = some c₁ → w.text[read + 1]? ≠ some c₂) :
    (step inRange ⟨.word w read, stack⟩ c₁).bind (fun s => step inRange s c₂) = none := by
  by_cases hmatch : w.text[read]? = some c₁
  · have hstep : step inRange ⟨.word w read, stack⟩ c₁ = if read + 1 = w.text.length
        then give w.doc stack else some ⟨.word w (read + 1), stack⟩ := if_pos hmatch
    rw [hstep]
    split
    · rw [Option.bind_eq_none_iff]
      intro s hgive
      rw [step_give inRange hgive]
      exact h₂.afterValue s
    · have hlength : w.text.length ≤ 5 := by cases w <;> decide
      have hread := (List.getElem?_eq_some_iff.1 hmatch).1
      exact if_neg (hword read (by omega) hmatch)
  · simp only [step, hmatch, if_false, Option.bind_none]

/-- Two characters that no text outside a string has in this order. -/
theorem telling_two {c₁ c₂ : Char} (rest : List Char) (h₁ : Foreign c₁) (h₂ : Foreign c₂)
    (hslash : c₁ ≠ '\\')
    (hbegin : ∀ stack : List (Frame Empty),
      (beginValue c₁ stack).bind (fun s => step inRange s c₂) = none)
    (hword : ∀ w ∈ [Word.true, .false, .null], ∀ read < 5,
      w.text[read]? = some c₁ → w.text[read + 1]? ≠ some c₂)
    (hnum : ∀ part, numStep part c₁ = none) : Telling inRange (c₁ :: c₂ :: rest) := by
  intro s hread hlacks
  have hdead : (step inRange s c₁).bind (fun s => step inRange s c₂) ≠ none :=
    fun hnone => hread (readChars_two inRange rest hnone)
  obtain ⟨hspace, hlist⟩ := id h₁
  simp only [List.mem_cons, List.not_mem_nil, or_false, not_or] at hlist
  obtain ⟨-, hbracket, hbrace, hquote, hcolon⟩ := hlist
  obtain ⟨mode, stack⟩ := s
  cases mode with
  | value =>
    refine absurd ?_ hdead
    simp only [step, hspace, Bool.false_eq_true, if_false]
    exact hbegin stack
  | firstItem =>
    refine absurd ?_ hdead
    simp only [step, hspace, Bool.false_eq_true, if_false, hbracket]
    exact hbegin stack
  | firstKey =>
    refine absurd ?_ hdead
    simp only [step, hspace, Bool.false_eq_true, if_false, hquote, hbrace, Option.bind_none]
  | key =>
    refine absurd ?_ hdead
    simp only [step, hspace, Bool.false_eq_true, if_false, hquote, Option.bind_none]
  | colon =>
    refine absurd ?_ hdead
    simp only [step, hspace, Bool.false_eq_true, if_false, hcolon, Option.bind_none]
  | after =>
    refine absurd ?_ hdead
    show (afterValue _ c₁).bind _ = none
    rw [h₁.afterValue, Option.bind_none]
  | word w read =>
    refine absurd ?_ hdead
    exact word_two inRange h₂ (hword w (by cases w <;> decide))
  | num part raw =>
    refine absurd ?_ hdead
    rw [h₁.num inRange (hnum part), Option.bind_none]
  | text isKey sofar e =>
    cases e with
    | plain => exact ⟨isKey, sofar, rfl⟩
    | lead code =>
      refine absurd ?_ hdead
      simp only [step, reduceCtorEq, false_and, if_false, escapeStep, if_neg hslash, Option.map_none,
        Option.bind_none]
    | slash => cases hlacks
    | hex more code lead => cases hlacks
    | leadSlash code => cases hlacks
  | ended d =>
    refine absurd ?_ hdead
    show (afterValue _ c₁).bind _ = none
    rw [h₁.afterValue, Option.bind_none]

/-- A digit is none of the other characters. -/
theorem digit_ne {d c : Char} (h : isDigit d = true) (hc : isDigit c = false) : d ≠ c := by
  rintro rfl
  rw [h] at hc
  cases hc

/-- A digit is a foreign character, and no backslash. -/
theorem foreign_digit {d : Char} (h : isDigit d = true) : Foreign d ∧ d ≠ '\\' := by
  have hne : ∀ c : Char, isDigit c = false → d ≠ c := fun c => digit_ne h
  refine ⟨⟨?_, ?_⟩, hne _ (by decide)⟩
  · simp only [isSpace, hne ' ' (by decide), hne '\n' (by decide), hne '\t' (by decide),
      hne '\r' (by decide), or_self, decide_false]
  · simp only [List.mem_cons, List.not_mem_nil, or_false, not_or]
    exact ⟨hne _ (by decide), hne _ (by decide), hne _ (by decide), hne _ (by decide),
      hne _ (by decide)⟩

/-- No word has a digit. -/
theorem digit_word {d : Char} (h : isDigit d = true) (w : Word) (read : Nat) :
    w.text[read]? ≠ some d := by
  intro hread
  have hmem := List.mem_of_getElem? hread
  have hall : w.text.all (fun c => !isDigit c) = true := by cases w <;> decide
  have hd := List.all_eq_true.mp hall d hmem
  rw [h] at hd
  cases hd

/-- A digit inside a number leads to where the number may end. -/
theorem numStep_digit {d : Char} (h : isDigit d = true) {part part' : NumPart}
    (hstep : numStep part d = some part') : part'.ends = true := by
  have hne : ∀ c : Char, isDigit c = false → d ≠ c := fun c => digit_ne h
  have hdot := hne '.' (by decide)
  have he := hne 'e' (by decide)
  have hE := hne 'E' (by decide)
  cases part with
  | minus =>
    simp only [numStep, h, if_true] at hstep
    split_ifs at hstep
    · cases hstep; rfl
    · cases hstep; rfl
  | zero => simp only [numStep, hdot, he, hE, or_self, if_false, reduceCtorEq] at hstep
  | int => simp only [numStep, h, if_true] at hstep; cases hstep; rfl
  | dot => simp only [numStep, h, if_true] at hstep; cases hstep; rfl
  | frac => simp only [numStep, h, if_true] at hstep; cases hstep; rfl
  | e => simp only [numStep, h, if_true] at hstep; cases hstep; rfl
  | sign => simp only [numStep, h, if_true] at hstep; cases hstep; rfl
  | exp => simp only [numStep, h, if_true] at hstep; cases hstep; rfl

/-- A digit outside strings belongs to a number. -/
theorem step_digit {d : Char} (h : isDigit d = true) {s s' : State Empty}
    (hlacks : modeLacks s.mode = .none) (hstep : step inRange s d = some s')
    (hplain : ∀ isKey sofar, s.mode ≠ .text isKey sofar .plain) :
    ∃ part raw, s'.mode = .num part raw ∧ part.ends = true := by
  obtain ⟨hforeign, hslash⟩ := foreign_digit h
  obtain ⟨hspace, hlist⟩ := id hforeign
  simp only [List.mem_cons, List.not_mem_nil, or_false, not_or] at hlist
  obtain ⟨-, hbracket, hbrace, hquote, hcolon⟩ := hlist
  have hne : ∀ c : Char, isDigit c = false → d ≠ c := fun c => digit_ne h
  have hbegin : ∀ stack : List (Frame Empty), beginValue d stack = some s' →
      ∃ part raw, s'.mode = .num part raw ∧ part.ends = true := by
    intro stack hvalue
    rw [beginValue, if_neg hquote, if_neg (hne _ (by decide)), if_neg (hne _ (by decide)),
      if_neg (hne _ (by decide)), if_neg (hne _ (by decide)), if_neg (hne _ (by decide)),
      if_neg (hne _ (by decide))] at hvalue
    split_ifs at hvalue
    · cases hvalue
      exact ⟨_, _, rfl, rfl⟩
    · cases hvalue
      exact ⟨_, _, rfl, rfl⟩
  obtain ⟨mode, stack⟩ := s
  cases mode with
  | value =>
    simp only [step, hspace, Bool.false_eq_true, if_false] at hstep
    exact hbegin stack hstep
  | firstItem =>
    simp only [step, hspace, Bool.false_eq_true, if_false, hbracket] at hstep
    exact hbegin stack hstep
  | firstKey =>
    simp only [step, hspace, Bool.false_eq_true, if_false, hquote, hbrace, reduceCtorEq] at hstep
  | key => simp only [step, hspace, Bool.false_eq_true, if_false, hquote, reduceCtorEq] at hstep
  | colon => simp only [step, hspace, Bool.false_eq_true, if_false, hcolon, reduceCtorEq] at hstep
  | after =>
    have hnone : step inRange ⟨.after, stack⟩ d = none := hforeign.afterValue _
    rw [hnone] at hstep
    cases hstep
  | word w read => simp only [step, digit_word h w read, if_false, reduceCtorEq] at hstep
  | num part raw =>
    cases hpart : numStep part d with
    | none =>
      rw [hforeign.num inRange hpart] at hstep
      cases hstep
    | some part' =>
      simp only [step, hpart, Option.some.injEq] at hstep
      subst hstep
      exact ⟨part', _, rfl, numStep_digit h hpart⟩
  | text isKey sofar e =>
    cases e with
    | plain => exact absurd rfl (hplain isKey sofar)
    | lead code =>
      simp only [step, reduceCtorEq, false_and, if_false, escapeStep, if_neg hslash,
        Option.map_none] at hstep
    | slash => cases hlacks
    | hex more code lead => cases hlacks
    | leadSlash code => cases hlacks
  | ended d' =>
    have hnone : step inRange ⟨.ended d', stack⟩ d = none := hforeign.afterValue _
    rw [hnone] at hstep
    cases hstep

/-- Two digits and a hyphen. -/
theorem telling_digits {d₁ d₂ : Char} (rest : List Char) (h₁ : isDigit d₁ = true)
    (h₂ : isDigit d₂ = true) : Telling inRange (d₁ :: d₂ :: '-' :: rest) := by
  intro s hread hlacks
  by_contra hplain
  have hplain' : ∀ isKey sofar, s.mode ≠ .text isKey sofar .plain := fun isKey sofar hmode =>
    hplain ⟨isKey, sofar, hmode⟩
  refine hread ?_
  rw [readChars, List.foldlM_cons]
  cases hfirst : step inRange s d₁ with
  | none => rfl
  | some s₁ =>
    obtain ⟨part, raw, hmode, -⟩ := step_digit inRange h₁ hlacks hfirst hplain'
    show (d₂ :: '-' :: rest).foldlM (step inRange) s₁ = none
    rw [List.foldlM_cons]
    cases hsecond : step inRange s₁ d₂ with
    | none => rfl
    | some s₂ =>
      obtain ⟨part', raw', hmode', hends⟩ := step_digit inRange h₂ (by rw [hmode]; rfl) hsecond
        (by rw [hmode]; exact fun _ _ htext => (by cases htext))
      show ('-' :: rest).foldlM (step inRange) s₂ = none
      obtain ⟨mode, stack⟩ := s₂
      dsimp only at hmode'
      subst hmode'
      have hpart : numStep part' '-' = none := by
        cases part' with
        | zero => decide
        | int => decide
        | frac => decide
        | exp => decide
        | minus => cases hends
        | dot => cases hends
        | e => cases hends
        | sign => cases hends
      have hthird : step inRange ⟨.num part' raw', stack⟩ '-' = none :=
        Foreign.num inRange (by decide) hpart raw' stack
      rw [List.foldlM_cons, hthird]
      rfl

end Romi.JsonHoles
