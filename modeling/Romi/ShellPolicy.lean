import Romi.Base64
import Romi.FieldScan
import Mathlib.Data.List.Infix

/-!
# The policy of the two pages

A page is served with a policy that names each of its inline scripts by a digest, found
by looking for the tags in the text. Whatever the page holds, a browser that takes the
policy apart at semicolons and blanks finds the fixed rules and those digests.
-/

namespace Romi.ShellPolicy

open Base64 FieldScan MountTable

/-! ## Scripts -/

/-- The first place of a text in another: what is before it and what follows it. -/
def cut (needle : List Char) : List Char → Option (List Char × List Char)
  | [] => if needle = [] then some ([], []) else none
  | c :: rest => match stripFront needle (c :: rest) with
    | some after => some ([], after)
    | none => (cut needle rest).map fun p => (c :: p.1, p.2)

/-- `str::contains`. -/
def contains (needle text : List Char) : Bool := (cut needle text).isSome

/-- What a script begins with. -/
def opening : List Char := "<script".toList

/-- What it ends with. -/
def closing : List Char := "</script".toList

/-- Neither loaded from elsewhere nor of another type, as far as its attributes tell. -/
def isInline (attributes : List Char) : Bool :=
  !contains "src=".toList attributes && !contains "type=".toList attributes

/-- The place is one, and no place is earlier. -/
theorem cut_eq {needle text before after : List Char} (h : cut needle text = some (before, after)) :
    text = before ++ needle ++ after ∧ (needle ≠ [] → ¬ needle <:+: before) := by
  induction text generalizing before with
  | nil =>
    rw [cut] at h
    split at h
    · rename_i hnil
      cases h
      exact ⟨by rw [hnil]; rfl, fun hne => absurd hnil hne⟩
    · cases h
  | cons c rest ih =>
    rw [cut] at h
    split at h
    · rename_i after' hstrip
      cases h
      refine ⟨stripFront_eq_some hstrip, fun hne hinfix => hne (List.infix_nil.mp hinfix)⟩
    · rename_i hstrip
      obtain ⟨⟨before', after'⟩, hrest, hpair⟩ := Option.map_eq_some_iff.mp h
      cases hpair
      obtain ⟨htext, hfirst⟩ := ih hrest
      refine ⟨congrArg (c :: ·) htext, fun hne hinfix => ?_⟩
      rcases List.infix_cons_iff.mp hinfix with ⟨u, hu⟩ | hlater
      · have hhere : c :: rest = needle ++ (u ++ needle ++ after') := by
          rw [htext, ← List.append_assoc, ← List.append_assoc, hu]
          rfl
        rw [hhere, stripFront_append] at hstrip
        cases hstrip
      · exact hfirst hne hlater

/-- The next script of a page: its attributes, what it holds and what follows. -/
def next (text : List Char) : Option (List Char × List Char × List Char) := do
  let (_, after) ← cut opening text
  let (attributes, body) ← cut ['>'] after
  let (script, rest) ← cut closing body
  return (attributes, script, closing ++ rest)

/-- A script that is found stands between two tags of the text. -/
theorem next_eq {text attributes script rest : List Char}
    (h : next text = some (attributes, script, rest)) :
    ∃ before, text = before ++ opening ++ attributes ++ '>' :: script ++ rest ∧
      closing <+: rest ∧ ¬ ['>'] <:+: attributes ∧ ¬ closing <:+: script := by
  unfold next at h
  simp only [Option.bind_eq_bind, Option.bind_eq_some_iff, Option.pure_def] at h
  obtain ⟨⟨before, after⟩, hopen, ⟨attributes', body⟩, hend, ⟨script', rest'⟩, hclose, h⟩ := h
  cases h
  obtain ⟨htext, -⟩ := cut_eq hopen
  obtain ⟨hafter, hattributes⟩ := cut_eq hend
  obtain ⟨hbody, hscript⟩ := cut_eq hclose
  refine ⟨before, ?_, List.prefix_append _ _, hattributes (by decide), hscript (by decide)⟩
  dsimp only at hafter hbody ⊢
  rw [htext, hafter, hbody]
  simp only [List.append_assoc, List.cons_append, List.nil_append]

/-- The scripts that stand in a page, in their order. -/
def inlineScripts (text : List Char) : List (List Char) :=
  match _h : next text with
  | none => []
  | some (attributes, script, rest) =>
    (if isInline attributes then [script] else []) ++ inlineScripts rest
termination_by text.length
decreasing_by
  obtain ⟨before, htext, -⟩ := next_eq _h
  have hlength := congrArg List.length htext
  simp only [List.length_append, List.length_cons] at hlength
  omega

/-! ## Pages -/

/-- A text that cannot overlap itself: its first character is not in it again. -/
def Lone (needle : List Char) : Prop := ∃ first rest, needle = first :: rest ∧ first ∉ rest

/-- A tag that begins has one opening bracket. -/
theorem lone_opening : Lone opening := ⟨'<', "script".toList, rfl, by decide⟩

/-- So has one that ends. -/
theorem lone_closing : Lone closing := ⟨'<', "/script".toList, rfl, by decide⟩

/-- Where there is no earlier place the cut is at the end of the first text. -/
theorem cut_append {needle before : List Char} (hlone : Lone needle)
    (hbefore : ¬ needle <:+: before) (after : List Char) :
    cut needle (before ++ needle ++ after) = some (before, after) := by
  obtain ⟨first, rest, rfl, hfirst⟩ := hlone
  induction before with
  | nil =>
    rw [List.nil_append, List.cons_append, cut, ← List.cons_append, stripFront_append]
  | cons c before ih =>
    have hhere : stripFront (first :: rest) (c :: before ++ (first :: rest) ++ after) = none := by
      cases hstrip : stripFront (first :: rest) (c :: before ++ (first :: rest) ++ after) with
      | none => rfl
      | some text =>
        have htext := stripFront_eq_some hstrip
        rw [List.append_assoc, List.append_eq_append_iff] at htext
        rcases htext with ⟨u, hneedle, hu⟩ | ⟨u, hu, -⟩
        · cases u with
          | nil =>
            refine absurd ⟨[], [], ?_⟩ hbefore
            rw [hneedle]
            simp
          | cons d u =>
            -- The needle would begin again inside of itself.
            have hd : d = first := (List.cons.inj hu).1.symm
            have hmem : first ∈ rest := by
              rw [(List.cons.inj hneedle).2, ← hd]
              exact List.mem_append_right _ List.mem_cons_self
            exact absurd hmem hfirst
        · refine absurd ⟨[], u, ?_⟩ hbefore
          rw [hu]
          rfl
    have hlater := ih fun hinfix => hbefore (List.infix_cons_iff.mpr (.inr hinfix))
    rw [List.cons_append, List.cons_append] at hhere ⊢
    rw [cut, hhere]
    dsimp only
    rw [hlater]
    rfl

/-- A text that is not there is not found. -/
theorem cut_none {needle text : List Char} (h : ¬ needle <:+: text) : cut needle text = none := by
  cases hcut : cut needle text with
  | none => rfl
  | some p => exact absurd ⟨p.1, p.2, (cut_eq hcut).1.symm⟩ h

/-- A script with the text before it. -/
structure Element where
  /-- What stands before the tag. -/
  before : List Char
  /-- What stands in the tag. -/
  attributes : List Char
  /-- What stands between the tags. -/
  script : List Char

/-- What may be written so: no tag begins early and none ends early. -/
structure Element.WellFormed (e : Element) : Prop where
  /-- No tag begins before. -/
  before : ¬ opening <:+: e.before
  /-- The tag ends where it is to. -/
  attributes : ¬ ['>'] <:+: e.attributes
  /-- So does the script. -/
  script : ¬ closing <:+: e.script

/-- A page as it is written. -/
def page (elements : List Element) (tail : List Char) : List Char :=
  match elements with
  | [] => tail
  | e :: rest => e.before ++ opening ++ e.attributes ++ '>' :: e.script ++ closing ++
      '>' :: page rest tail

/-- The scripts written out on the page with neither a source nor a type. One with a type is
left out whatever the type is, that of a classic script too. -/
def scriptsOf (elements : List Element) : List (List Char) :=
  (elements.filter fun e => isInline e.attributes).map Element.script

/-- No place begins in a text without the first character. -/
theorem not_infix_append {first : Char} {rest before text : List Char} (hbefore : first ∉ before)
    (h : ¬ first :: rest <:+: text) : ¬ first :: rest <:+: before ++ text := by
  induction before with
  | nil => exact h
  | cons c before ih =>
    intro hinfix
    rcases List.infix_cons_iff.mp hinfix with ⟨u, hu⟩ | hlater
    · exact hbefore ((List.cons.inj hu).1 ▸ List.mem_cons_self)
    · exact ih (fun hmem => hbefore (List.mem_cons_of_mem c hmem)) hlater

/-- A closing tag does not begin a script. -/
theorem after_closing {text : List Char} (h : ¬ opening <:+: text) :
    ¬ opening <:+: closing ++ '>' :: text := by
  have hrest : ¬ opening <:+: "/script>".toList ++ text := not_infix_append (by decide) h
  intro hinfix
  rcases List.infix_cons_iff.mp hinfix with ⟨u, hu⟩ | hlater
  · exact absurd (List.cons.inj (List.cons.inj hu).2).1 (by decide)
  · exact hrest hlater

/-- The first script of a page that is written so. -/
theorem next_page {lead : List Char} {e : Element} (he : e.WellFormed)
    (hlead : ¬ opening <:+: lead ++ e.before) (text : List Char) :
    next (lead ++ (e.before ++ opening ++ e.attributes ++ '>' :: e.script ++ closing ++ text)) =
      some (e.attributes, e.script, closing ++ text) := by
  have hopen := cut_append lone_opening hlead
    (e.attributes ++ ['>'] ++ (e.script ++ closing ++ text))
  have hend := cut_append ⟨'>', [], rfl, List.not_mem_nil⟩ he.attributes
    (e.script ++ closing ++ text)
  have hclose := cut_append lone_closing he.script text
  have htext : lead ++ (e.before ++ opening ++ e.attributes ++ '>' :: e.script ++ closing ++ text) =
      lead ++ e.before ++ opening ++ (e.attributes ++ ['>'] ++ (e.script ++ closing ++ text)) := by
    simp only [List.append_assoc, List.cons_append, List.nil_append]
  rw [next, htext, hopen]
  dsimp only [Option.bind_eq_bind, Option.bind_some]
  rw [hend]
  dsimp only [Option.bind_some]
  rw [hclose]
  rfl

/-- The scan finds the scripts of a page as it was written. -/
theorem inlineScripts_page {elements : List Element} {tail lead : List Char}
    (helements : ∀ e ∈ elements, e.WellFormed) (htail : ¬ opening <:+: tail)
    (hlead : ∀ text, ¬ opening <:+: text → ¬ opening <:+: lead ++ text) :
    inlineScripts (lead ++ page elements tail) = scriptsOf elements := by
  induction elements generalizing lead with
  | nil =>
    have hnone : next (lead ++ tail) = none := by
      rw [next, cut_none (hlead tail htail)]
      rfl
    rw [page, inlineScripts]
    split
    · rfl
    · rename_i hsome
      rw [hnone] at hsome
      cases hsome
  | cons e rest ih =>
    have he := helements e List.mem_cons_self
    have hnext := next_page he (hlead e.before he.before) ('>' :: page rest tail)
    have hrest := @ih (closing ++ ['>']) (fun e he => helements e (List.mem_cons_of_mem _ he))
      (fun text htext => by
        rw [List.append_assoc]
        exact after_closing htext)
    rw [page, inlineScripts]
    split
    · rename_i hnone
      rw [hnext] at hnone
      cases hnone
    · rename_i hsome
      rw [hnext] at hsome
      cases hsome
      rw [List.append_assoc] at hrest
      change _ ++ inlineScripts (closing ++ (['>'] ++ page rest tail)) = _
      rw [hrest, scriptsOf, scriptsOf, List.filter_cons]
      split <;> rfl

/-! ## The policy -/

variable (digest : List Char → List UInt8)

/-- The source that names a script. -/
def source (body : List Char) : List Char :=
  "'sha256-".toList ++ base64 (digest body) ++ "'".toList

/-- The `script-src` directive. -/
def script (html : List Char) : List Char :=
  "script-src 'self'".toList ++ (inlineScripts html).flatMap fun body => ' ' :: source digest body

/-- The policy a page is served with. -/
def policy (html : List Char) : List Char :=
  ("default-src 'self'; img-src 'self' data:; ".toList ++
      "style-src 'self' 'unsafe-inline'; ".toList) ++
    (script digest html ++
      ("; connect-src 'self' ws: wss:; font-src 'self' data:; object-src 'none'; ".toList ++
        "base-uri 'none'; form-action 'self'; frame-ancestors 'none'".toList))

/-- The words of a directive. -/
def words (text : List Char) : List (List Char) := (text.splitOn ' ').filter fun w => w ≠ []

/-- What a browser reads. -/
def directives (text : List Char) : List (List (List Char)) := (text.splitOn ';').map words

/-- The rules before and after that of the scripts. -/
def firstRules : List (List (List Char)) :=
  [["default-src".toList, "'self'".toList],
    ["img-src".toList, "'self'".toList, "data:".toList],
    ["style-src".toList, "'self'".toList, "'unsafe-inline'".toList]]

/-- The rules after that of the scripts, as words. -/
def lastRules : List (List (List Char)) :=
  [["connect-src".toList, "'self'".toList, "ws:".toList, "wss:".toList],
    ["font-src".toList, "'self'".toList, "data:".toList],
    ["object-src".toList, "'none'".toList],
    ["base-uri".toList, "'none'".toList],
    ["form-action".toList, "'self'".toList],
    ["frame-ancestors".toList, "'none'".toList]]

/-- The rules that are meant. -/
def rules (sources : List (List Char)) : List (List (List Char)) :=
  firstRules ++ ("script-src".toList :: "'self'".toList :: sources) :: lastRules

/-- A browser with this policy runs an inline script. -/
def Allows (text body : List Char) : Prop :=
  ∃ d ∈ directives text, d.head? = some "script-src".toList ∧ source digest body ∈ d

/-- Neither a blank nor a semicolon. -/
def isPlain (c : Char) : Bool := c != ' ' && c != ';'

/-- A plain text has neither blanks nor semicolons. -/
theorem plain_of_all {text : List Char} (h : text.all isPlain = true) :
    ∀ c ∈ text, c ≠ ' ' ∧ c ≠ ';' := by
  intro c hc
  have hplain := List.all_eq_true.mp h c hc
  unfold isPlain at hplain
  rw [Bool.and_eq_true] at hplain
  exact ⟨bne_iff_ne.mp hplain.1, bne_iff_ne.mp hplain.2⟩

/-- Nor has a digest in quotes. -/
theorem mem_source {body : List Char} : ∀ c ∈ source digest body, c ≠ ' ' ∧ c ≠ ';' := by
  have hfixed : ∀ c ∈ "'sha256-".toList ++ "'".toList, c ≠ ' ' ∧ c ≠ ';' :=
    plain_of_all (by decide +kernel)
  have halphabet : ∀ c ∈ alphabet, c ≠ ' ' ∧ c ≠ ';' := plain_of_all (by decide +kernel)
  intro c hc
  rcases List.mem_append.mp hc with hleft | hright
  · rcases List.mem_append.mp hleft with hname | htext
    · exact hfixed c (List.mem_append_left _ hname)
    · rcases mem_base64 c htext with rfl | hmem
      · decide
      · exact halphabet c hmem
  · exact hfixed c (List.mem_append_right _ hright)

/-- Texts with a separator between them. -/
theorem intercalate_eq (sep : Char) (first : List Char) (rest : List (List Char)) :
    [sep].intercalate (first :: rest) = first ++ rest.flatMap fun t => sep :: t := by
  induction rest generalizing first with
  | nil => simp
  | cons second rest ih =>
    rw [List.intercalate_cons_cons, ih, List.flatMap_cons]
    simp only [List.append_assoc, List.cons_append, List.nil_append]

/-- Words with a blank before each are read back. -/
theorem words_joined {tokens : List (List Char)} (h : ∀ t ∈ tokens, t ≠ [] ∧ ' ' ∉ t) :
    words (tokens.flatMap fun t => ' ' :: t) = tokens := by
  have hjoined := intercalate_eq ' ' [] tokens
  rw [List.nil_append] at hjoined
  rw [words, ← hjoined, List.splitOn_intercalate _ ?_ (List.cons_ne_nil _ _), List.filter_cons]
  · refine List.filter_eq_self.mpr fun t ht => ?_
    exact decide_eq_true (h t ht).1
  · intro t ht
    rcases List.mem_cons.mp ht with rfl | hmem
    · exact List.not_mem_nil
    · exact (h t hmem).2

/-- A rule in words, with a blank before each. -/
theorem two_words {α : Type} (first second : List Char) (f : α → List Char) (rest : List α) :
    ' ' :: first ++ ' ' :: second ++ (rest.flatMap fun x => ' ' :: f x) =
      (first :: second :: rest.map f).flatMap fun t => ' ' :: t := by
  rw [List.flatMap_cons, List.flatMap_cons, List.flatMap_map, List.append_assoc]

/-- The words of the rule of the scripts. -/
theorem words_script (html : List Char) : words (' ' :: script digest html) =
    "script-src".toList :: "'self'".toList :: (inlineScripts html).map (source digest) := by
  have htokens : ∀ t ∈ "script-src".toList :: "'self'".toList ::
      (inlineScripts html).map (source digest), t ≠ [] ∧ ' ' ∉ t := by
    intro t ht
    rcases List.mem_cons.mp ht with rfl | ht
    · decide
    rcases List.mem_cons.mp ht with rfl | ht
    · decide
    obtain ⟨body, -, rfl⟩ := List.mem_map.mp ht
    exact ⟨nofun, fun hblank => (mem_source digest _ hblank).1 rfl⟩
  have hfixed : ' ' :: "script-src 'self'".toList =
      ' ' :: "script-src".toList ++ ' ' :: "'self'".toList := by decide +kernel
  have hscript : ' ' :: script digest html = ("script-src".toList :: "'self'".toList ::
      (inlineScripts html).map (source digest)).flatMap fun t => ' ' :: t :=
    (congrArg (· ++ (inlineScripts html).flatMap fun body => ' ' :: source digest body)
      hfixed).trans (two_words _ _ _ _)
  rw [hscript, words_joined htokens]

/-- The directives before and after that of the scripts. -/
def front : List (List Char) :=
  [" img-src 'self' data:".toList, " style-src 'self' 'unsafe-inline'".toList]

/-- The rules after that of the scripts, as they are written. -/
def back : List (List Char) :=
  [" connect-src 'self' ws: wss:".toList, " font-src 'self' data:".toList,
    " object-src 'none'".toList, " base-uri 'none'".toList, " form-action 'self'".toList,
    " frame-ancestors 'none'".toList]

/-- A rule between others. -/
theorem between (first middle : List Char) (front back : List (List Char)) :
    (first ++ (front.flatMap fun t => ';' :: t) ++ [';', ' ']) ++
      (middle ++ back.flatMap fun t => ';' :: t) =
    [';'].intercalate (first :: (front ++ (' ' :: middle) :: back)) := by
  rw [intercalate_eq, List.flatMap_append, List.flatMap_cons]
  simp only [List.append_assoc, List.cons_append, List.nil_append]

/-- The policy is its rules with semicolons between them. -/
theorem policy_eq (html : List Char) : policy digest html =
    [';'].intercalate ("default-src 'self'".toList ::
      (front ++ (' ' :: script digest html) :: back)) := by
  have hfront : ("default-src 'self'; img-src 'self' data:; ".toList ++
      "style-src 'self' 'unsafe-inline'; ".toList) =
      "default-src 'self'".toList ++ front.flatMap (fun t => ';' :: t) ++ [';', ' '] := by
    decide +kernel
  have hback : "; connect-src 'self' ws: wss:; font-src 'self' data:; object-src 'none'; ".toList ++
      "base-uri 'none'; form-action 'self'; frame-ancestors 'none'".toList =
      back.flatMap fun t => ';' :: t := by decide +kernel
  exact (congrArg₂ (fun a b => a ++ (script digest html ++ b)) hfront hback).trans (between _ _ _ _)

/-- The rule of the scripts has no semicolon. -/
theorem script_plain (html : List Char) : ';' ∉ script digest html := by
  intro hmem
  rcases List.mem_append.mp hmem with hfixed | hsources
  · exact absurd hfixed (by decide)
  · obtain ⟨body, -, hbody⟩ := List.mem_flatMap.mp hsources
    rcases List.mem_cons.mp hbody with hblank | hsource
    · cases hblank
    · exact (mem_source digest _ hsource).2 rfl

/-- A browser reads the rules that are meant, whatever the scripts hold. -/
theorem directives_policy (html : List Char) : directives (policy digest html) =
    rules ((inlineScripts html).map (source digest)) := by
  have hplain : ∀ t ∈ "default-src 'self'".toList ::
      (front ++ (' ' :: script digest html) :: back), ';' ∉ t := by
    have hfront : ∀ t ∈ "default-src 'self'".toList :: front, ';' ∉ t := by decide +kernel
    have hback : ∀ t ∈ back, ';' ∉ t := by decide +kernel
    intro t ht
    rw [← List.cons_append] at ht
    rcases List.mem_append.mp ht with hmem | hmem
    · exact hfront t hmem
    rcases List.mem_cons.mp hmem with rfl | hmem
    · intro hblank
      rcases List.mem_cons.mp hblank with hblank | hscript
      · cases hblank
      · exact script_plain digest html hscript
    · exact hback t hmem
  have hfront : ("default-src 'self'".toList :: front).map words = firstRules := by decide +kernel
  have hback : back.map words = lastRules := by decide +kernel
  rw [directives, policy_eq, List.splitOn_intercalate _ hplain (List.cons_ne_nil _ _),
    ← List.cons_append, List.map_append, hfront, List.map_cons, hback, words_script, rules]

/-- Two scripts have one source just when they have one digest. -/
theorem source_inj {body body' : List Char} :
    source digest body = source digest body' ↔ digest body = digest body' := by
  constructor
  · intro h
    exact base64_injective (List.append_cancel_left (List.append_cancel_right h))
  · intro h
    exact congrArg (fun bytes => "'sha256-".toList ++ base64 bytes ++ "'".toList) h

/-- The scripts that run are those whose digest is one of a script found in the page. -/
theorem allows_iff (html body : List Char) : Allows digest (policy digest html) body ↔
    ∃ b ∈ inlineScripts html, digest b = digest body := by
  have hothers : ∀ d ∈ firstRules ++ lastRules, d.head? ≠ some "script-src".toList := by
    decide +kernel
  rw [Allows, directives_policy]
  constructor
  · rintro ⟨d, hd, hhead, hsource⟩
    rcases List.mem_append.mp hd with hmem | hmem
    · exact absurd hhead (hothers d (List.mem_append_left _ hmem))
    rcases List.mem_cons.mp hmem with rfl | hmem
    · rcases List.mem_cons.mp hsource with hname | hsource
      · have hfirst : "'sh".toList = "scr".toList := congrArg (List.take 3) hname
        exact absurd hfirst (by decide)
      rcases List.mem_cons.mp hsource with hself | hsource
      · have hfirst : "'sh".toList = "'se".toList := congrArg (List.take 3) hself
        exact absurd hfirst (by decide)
      obtain ⟨b, hb, hsame⟩ := List.mem_map.mp hsource
      exact ⟨b, hb, (source_inj digest).mp hsame⟩
    · exact absurd hhead (hothers d (List.mem_append_right _ hmem))
  · rintro ⟨b, hb, hsame⟩
    refine ⟨_, List.mem_append_right _ List.mem_cons_self, rfl, ?_⟩
    rw [← (source_inj digest).mpr hsame]
    exact List.mem_cons_of_mem _ (List.mem_cons_of_mem _ (List.mem_map_of_mem hb))

/-- What the scan finds stands between two tags. -/
theorem inlineScripts_found {html body : List Char} (h : body ∈ inlineScripts html) :
    ∃ before attributes after,
      html = before ++ opening ++ attributes ++ '>' :: body ++ closing ++ after ∧
        isInline attributes = true ∧ ¬ ['>'] <:+: attributes ∧ ¬ closing <:+: body := by
  fun_induction inlineScripts html with
  | case1 => cases h
  | case2 text attributes script rest hnext ih =>
    obtain ⟨before, htext, ⟨after, hrest⟩, hattributes, hscript⟩ := next_eq hnext
    rcases List.mem_append.mp h with hmem | hmem
    · split at hmem
      · rename_i hinline
        obtain rfl := List.mem_singleton.mp hmem
        refine ⟨before, attributes, after, ?_, hinline, hattributes, hscript⟩
        rw [htext, ← hrest]
        simp only [List.append_assoc, List.cons_append]
      · cases hmem
    · obtain ⟨before', attributes', after', hlater, hfound⟩ := ih hmem
      refine ⟨before ++ opening ++ attributes ++ '>' :: script ++ before', attributes', after', ?_,
        hfound⟩
      rw [htext, hlater]
      simp only [List.append_assoc, List.cons_append]

/-- A browser reads in the policy of a page the rules that are meant, and runs an inline
script just when its digest is one of a script found in the page. What is found stands
between two tags of the page, and of a page written as texts and scripts, with no tag
that begins or ends early, exactly its inline scripts are found. -/
theorem policy_names_scripts (digest : List Char → List UInt8) :
    (∀ html, directives (policy digest html) = rules ((inlineScripts html).map (source digest)) ∧
      ∀ body, Allows digest (policy digest html) body ↔
        ∃ b ∈ inlineScripts html, digest b = digest body) ∧
    (∀ html, ∀ body ∈ inlineScripts html, ∃ before attributes after,
      html = before ++ opening ++ attributes ++ '>' :: body ++ closing ++ after ∧
        isInline attributes = true ∧ ¬ ['>'] <:+: attributes ∧ ¬ closing <:+: body) ∧
    ∀ elements tail, (∀ e ∈ elements, Element.WellFormed e) → ¬ opening <:+: tail →
      inlineScripts (page elements tail) = scriptsOf elements := by
  refine ⟨fun html => ⟨directives_policy digest html, allows_iff digest html⟩,
    fun html body => inlineScripts_found, fun elements tail helements htail => ?_⟩
  exact @inlineScripts_page elements tail [] helements htail fun _ => id

end Romi.ShellPolicy
