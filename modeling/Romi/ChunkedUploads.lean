import Romi.BackupArchive

/-!
# Uploads in pieces

Nothing is kept of an upload but the file itself: a piece goes on where the file
ends, and a piece at offset 0 begins it anew. The browser sends a file in slices
of 4 MiB, and the piece that completes it is the one that starts the restore.
-/

namespace Romi.ChunkedUploads

open BackupArchive

/-- The bytes of a file. -/
abbrev Bytes : Type := List UInt8

/-! ## The hub -/

/-- `Chunk`: where a piece belongs, and how long the whole file is. -/
structure Chunk where
  /-- Where the piece begins. -/
  offset : Nat
  /-- How long the whole file is. -/
  total : Nat

/-- What reading and writing the body of a request comes upon next. -/
inductive Frame
  /-- A piece that is written whole. -/
  | data (piece : Bytes)
  /-- The body breaks off. -/
  | broken (message : String)
  /-- The disk takes no more than the first so many bytes of the piece. -/
  | unwritten (piece : Bytes) (taken : Nat) (message : String)

/-- The bytes of a frame that reach the file. -/
def Frame.bytes : Frame → Bytes
  | .data piece => piece
  | .broken _ => []
  | .unwritten piece taken _ => piece.take taken

/-- `append`, with what was received before: the file and the answer. -/
def append (chunk : Chunk) : Nat → Bytes → List Frame → Bytes × Except String Nat
  | received, file, [] => (file, .ok received)
  | received, file, .data piece :: rest =>
    if chunk.total < chunk.offset + (received + piece.length) then
      (file, .error "这一片超出了声明的文件大小")
    else append chunk (received + piece.length) (file ++ piece) rest
  | _, file, .broken message :: _ => (file, .error message)
  | received, file, .unwritten piece taken message :: _ =>
    if chunk.total < chunk.offset + (received + piece.length) then
      (file, .error "这一片超出了声明的文件大小")
    else (file ++ piece.take taken, .error message)

/-- `receive`, on the file there is: what becomes of it, and its length where
the piece is accepted. -/
def receive (max : Nat) (file : Option Bytes) (chunk : Chunk) (body : List Frame) :
    Option Bytes × Except String Nat :=
  if chunk.total = 0 ∨ max < chunk.total then
    (file, .error ("文件必须在 1 字节到 " ++ toString (max / 1024 / 1024) ++ " MiB 之间"))
  else if chunk.total < chunk.offset then (file, .error "分片位置越过了文件末尾")
  else
    match if chunk.offset = 0 then some [] else file with
    | none => (none, .error "这次上传已经不在了，请从头开始")
    | some opened =>
      if opened.length ≠ chunk.offset then
        (some opened, .error ("分片接不上：已经收到 " ++ toString opened.length ++
          " 字节，这一片却从 " ++ toString chunk.offset ++ " 开始"))
      else
        match append chunk 0 opened body with
        | (written, .ok received) => (some written, .ok (chunk.offset + received))
        | (written, .error e) => (some (written.take chunk.offset), .error e)

/-- One request of an upload. -/
structure Request where
  /-- What its query says. -/
  chunk : Chunk
  /-- What it brings. -/
  body : List Frame

/-- The bytes a request brings. -/
def Request.bytes (q : Request) : Bytes := (q.body.map Frame.bytes).flatten

/-- The answer to a request. -/
def Request.answer (max : Nat) (file : Option Bytes) (q : Request) : Except String Nat :=
  (receive max file q.chunk q.body).2

/-- The file a request leaves. -/
def Request.leaves (max : Nat) (file : Option Bytes) (q : Request) : Option Bytes :=
  (receive max file q.chunk q.body).1

/-- The file after one request after another. -/
def received (max : Nat) (file : Option Bytes) (qs : List Request) : Option Bytes :=
  qs.foldl (Request.leaves max) file

/-- The pieces accepted by the way. -/
def accepted (max : Nat) : Option Bytes → List Request → List Bytes
  | _, [] => []
  | file, q :: rest =>
    if (q.answer max file).isOk then q.bytes :: accepted max (q.leaves max file) rest
    else accepted max (q.leaves max file) rest

/-- The piece passes the size checks. -/
def Chunk.Sized (max : Nat) (c : Chunk) : Prop := 1 ≤ c.total ∧ c.total ≤ max ∧ c.offset ≤ c.total

/-- The piece begins the file anew. -/
def Chunk.Opens (max : Nat) (c : Chunk) : Prop := c.offset = 0 ∧ c.Sized max

/-- The file an upload is gathered in, and the one last handed to a restore. -/
structure Uploads where
  /-- The file of the upload under way. -/
  file : Option Bytes
  /-- The last complete one. -/
  handed : Option Bytes

/-- The answer to a request of a restore. -/
inductive Reply
  /-- The piece was refused or broke off. -/
  | bad (message : String)
  /-- So much is there, more is to come. -/
  | received (n : Nat)
  /-- The file is complete and was restored, or could not be. -/
  | complete (outcome : Except String Unit)

/-- `db_restore`, with the restore of a complete file as given. -/
def dbRestore (restore : Bytes → Except String Unit) (u : Uploads) (q : Request) : Uploads × Reply :=
  match receive maxArchive u.file q.chunk q.body with
  | (file, .error e) => ({ u with file := file }, .bad e)
  | (file, .ok received) =>
    if received < q.chunk.total then ({ u with file := file }, .received received)
    else
      -- the file is moved off the name of the upload before it is read
      match file with
      | some source => (⟨none, some source⟩, .complete (restore source))
      | none => ({ u with file := none }, .bad "上传收齐了却取不到文件")

/-! ## The browser -/

/-- `CHUNK`. -/
def chunkSize : Nat := 4 * 1024 * 1024

/-- A piece is not empty. -/
theorem chunkSize_pos : 0 < chunkSize := by
  unfold chunkSize
  omega

/-- What is beyond the loop's control: how the body sent at an offset arrives,
and whether the user has given up by then. -/
structure Browser where
  /-- The pieces a body arrives in. -/
  pieces : Nat → Bytes → List Bytes
  /-- They make up the body. -/
  whole : ∀ offset slice, (pieces offset slice).flatten = slice
  /-- Whether the user has given up by an offset. -/
  aborted : Nat → Bool

/-- `res.ok`, or the text to show. -/
def Reply.problem : Reply → Option String
  | .bad message => some message
  | .received _ => none
  | .complete (.error message) => some message
  | .complete (.ok ()) => none

/-- The request for the slice at an offset. -/
def sliceRequest (browser : Browser) (source : Bytes) (offset : Nat) : Request where
  chunk := ⟨offset, source.length⟩
  body := (browser.pieces offset ((source.drop offset).take chunkSize)).map .data

/-- What came of an upload: the answers in order, and the last one unless the
loop threw. -/
structure Uploaded where
  /-- What the hub has after it. -/
  hub : Uploads
  /-- The answers, in order. -/
  replies : List Reply
  /-- What `upload` returns or throws. -/
  result : Except String Reply

/-- An answer came before these. -/
def Uploaded.after (u : Uploaded) (reply : Reply) : Uploaded :=
  { u with replies := reply :: u.replies }

/-- A reply leaves the hub as it was. -/
@[simp] theorem Uploaded.after_hub (u : Uploaded) (reply : Reply) : (u.after reply).hub = u.hub := rfl

/-- It is put to the replies. -/
@[simp] theorem Uploaded.after_replies (u : Uploaded) (reply : Reply) :
    (u.after reply).replies = reply :: u.replies := rfl

/-- The loop of `upload`. -/
def uploadFrom (restore : Bytes → Except String Unit) (browser : Browser) (source : Bytes)
    (hub : Uploads) (offset : Nat) (last : Option Reply) : Uploaded :=
  if offset < source.length then
    if browser.aborted offset then ⟨hub, [], .error "aborted"⟩
    else
      let sent := dbRestore restore hub (sliceRequest browser source offset)
      match sent.2.problem with
      | some message => ⟨sent.1, [sent.2], .error message⟩
      | none =>
        (uploadFrom restore browser source sent.1 (offset + chunkSize) (some sent.2)).after sent.2
  else
    match last with
    | some reply => ⟨hub, [], .ok reply⟩
    | none => ⟨hub, [], .error "null"⟩
termination_by source.length - offset
decreasing_by
  have hpos := chunkSize_pos
  omega

/-- `upload`. -/
def upload (restore : Bytes → Except String Unit) (browser : Browser) (source : Bytes)
    (hub : Uploads) : Uploaded :=
  if source = [] then ⟨hub, [], .error "文件是空的"⟩
  else uploadFrom restore browser source hub 0 none

/-! ## One piece -/

/-- A body that arrives whole and fits is written whole. -/
theorem append_pieces (chunk : Chunk) (pieces : List Bytes) {received : Nat} {file : Bytes}
    (h : chunk.offset + received + pieces.flatten.length ≤ chunk.total) :
    append chunk received file (pieces.map Frame.data) =
      (file ++ pieces.flatten, .ok (received + pieces.flatten.length)) := by
  induction pieces generalizing received file with
  | nil => simp [append]
  | cons piece rest ih =>
    rw [List.flatten_cons, List.length_append] at h
    rw [List.map_cons, append, if_neg (by omega), ih (by omega), List.flatten_cons,
      List.append_assoc, List.length_append, Nat.add_assoc]

/-- The frames of a body that was accepted are its pieces, and they are in the file. -/
theorem append_ok {chunk : Chunk} {received n : Nat} {file file' : Bytes} {body : List Frame}
    (h : append chunk received file body = (file', .ok n)) :
    file' = file ++ (body.map Frame.bytes).flatten ∧
      n = received + (body.map Frame.bytes).flatten.length := by
  induction body generalizing received file with
  | nil =>
    rw [append, Prod.mk.injEq, Except.ok.injEq] at h
    rw [← h.1, ← h.2]
    simp
  | cons f rest ih =>
    cases f with
    | data piece =>
      rw [append] at h
      split at h
      · cases h
      · obtain ⟨hfile, hn⟩ := ih h
        rw [hfile, hn, List.map_cons, List.flatten_cons, List.append_assoc, List.length_append,
          Frame.bytes, Nat.add_assoc]
        exact ⟨rfl, rfl⟩
    | broken message => cases h
    | unwritten piece taken message =>
      rw [append] at h
      split at h <;> cases h

/-- Whatever comes of it, a body is added to the end of the file. -/
theorem append_beginning (chunk : Chunk) (received : Nat) (file : Bytes) (body : List Frame) :
    ∃ more, (append chunk received file body).1 = file ++ more := by
  induction body generalizing received file with
  | nil => exact ⟨[], (List.append_nil file).symm⟩
  | cons f rest ih =>
    cases f with
    | data piece =>
      rw [append]
      split
      · exact ⟨[], (List.append_nil file).symm⟩
      · obtain ⟨more, hmore⟩ := ih (received + piece.length) (file ++ piece)
        exact ⟨piece ++ more, by rw [hmore, List.append_assoc]⟩
    | broken message => exact ⟨[], (List.append_nil file).symm⟩
    | unwritten piece taken message =>
      rw [append]
      split
      · exact ⟨[], (List.append_nil file).symm⟩
      · exact ⟨piece.take taken, rfl⟩

/-- A body never takes the file past the total, however much of it was read. -/
theorem append_length_le {chunk : Chunk} {received : Nat} {file : Bytes} (body : List Frame)
    (hfile : file.length = chunk.offset + received) (h : file.length ≤ chunk.total) :
    (append chunk received file body).1.length ≤ chunk.total := by
  induction body generalizing received file with
  | nil => exact h
  | cons f rest ih =>
    cases f with
    | data piece =>
      rw [append]
      split
      · exact h
      · refine ih ?_ ?_ <;> rw [List.length_append] <;> omega
    | broken message => exact h
    | unwritten piece taken message =>
      rw [append]
      split
      · exact h
      · rw [List.length_append, List.length_take]
        omega

/-- What a piece did: nothing to the file, or it began the file anew and broke
off, or it was added whole. -/
theorem receive_cases (max : Nat) (file : Option Bytes) (q : Request) :
    ((q.answer max file).isOk = false ∧ ¬ q.chunk.Opens max ∧ q.leaves max file = file) ∨
      ((q.answer max file).isOk = false ∧ q.chunk.Opens max ∧ q.leaves max file = some []) ∨
      ∃ opened, q.chunk.Sized max ∧ (if q.chunk.offset = 0 then some [] else file) = some opened ∧
        opened.length = q.chunk.offset ∧ (opened ++ q.bytes).length ≤ q.chunk.total ∧
        q.answer max file = .ok (opened ++ q.bytes).length ∧
        q.leaves max file = some (opened ++ q.bytes) := by
  obtain ⟨chunk, body⟩ := q
  unfold Request.answer Request.leaves receive
  dsimp only
  split
  · rename_i htotal
    exact .inl ⟨rfl, fun hopens => by have := hopens.2; unfold Chunk.Sized at this; omega, rfl⟩
  · rename_i htotal
    split
    · rename_i hoffset
      exact .inl ⟨rfl, fun hopens => by have := hopens.2; unfold Chunk.Sized at this; omega, rfl⟩
    · rename_i hoffset
      have hsized : chunk.Sized max := by
        unfold Chunk.Sized
        omega
      split
      · rename_i habsent
        split at habsent
        · cases habsent
        · rename_i hzero
          exact .inl ⟨rfl, fun hopens => hzero hopens.1, habsent.symm⟩
      · rename_i opened hopened
        split
        · rename_i hlength
          split at hopened
          · rename_i hzero
            cases hopened
            exact absurd hzero.symm hlength
          · rename_i hzero
            exact .inl ⟨rfl, fun hopens => hzero hopens.1, hopened.symm⟩
        · rename_i hlength
          rw [not_not] at hlength
          cases happend : append chunk 0 opened body with
          | mk written answer =>
            cases answer with
            | ok n =>
              obtain ⟨hwritten, hn⟩ := append_ok happend
              have hle := append_length_le body (hlength.trans (Nat.add_zero _).symm)
                (by rw [hlength]; exact hsized.2.2)
              rw [happend, hwritten] at hle
              refine .inr (.inr ⟨opened, hsized, hopened, hlength, hle, ?_, ?_⟩)
              · rw [hn, List.length_append, hlength, Nat.zero_add]
                rfl
              · rw [hwritten]
                rfl
            | error e =>
              -- the rollback leaves exactly what was opened
              have hrolled : written.take chunk.offset = opened := by
                obtain ⟨more, hmore⟩ := append_beginning chunk 0 opened body
                rw [happend] at hmore
                dsimp only at hmore
                rw [hmore, ← hlength, List.take_left]
              dsimp only
              rw [hrolled]
              by_cases hzero : chunk.offset = 0
              · rw [hzero, List.length_eq_zero_iff] at hlength
                exact .inr (.inl ⟨rfl, ⟨hzero, hsized⟩, by rw [hlength]⟩)
              · rw [if_neg hzero] at hopened
                exact .inl ⟨rfl, fun hopens => hzero hopens.1, hopened.symm⟩

/-- A refused piece at another offset than 0 leaves the file as it was. -/
theorem leaves_refused {max : Nat} {file : Option Bytes} {q : Request}
    (h : (q.answer max file).isOk = false) (hoffset : q.chunk.offset ≠ 0) :
    q.leaves max file = file := by
  rcases receive_cases max file q with ⟨-, -, hsame⟩ | ⟨-, hopens, -⟩ | ⟨opened, -, -, -, -, hok, -⟩
  · exact hsame
  · exact absurd hopens.1 hoffset
  · rw [hok] at h
    cases h

/-- A piece leaves the file as it was or no longer than its total. -/
theorem leaves_length_le (max : Nat) (file : Option Bytes) (q : Request) :
    q.leaves max file = file ∨ ∃ written, q.leaves max file = some written ∧
      written.length ≤ q.chunk.total := by
  rcases receive_cases max file q with ⟨-, -, hsame⟩ | ⟨-, -, hempty⟩ | ⟨opened, -, -, -, hle, -, hadded⟩
  · exact .inl hsame
  · exact .inr ⟨[], hempty, Nat.zero_le _⟩
  · exact .inr ⟨_, hadded, hle⟩

/-! ## One piece after another -/

/-- Pieces of which none begins the file anew add what is accepted of them. -/
theorem received_tail {max : Nat} {qs : List Request} (h : ∀ q ∈ qs, ¬ q.chunk.Opens max)
    (file : Bytes) :
    received max (some file) qs = some (file ++ (accepted max (some file) qs).flatten) := by
  induction qs generalizing file with
  | nil => simp [received, accepted]
  | cons q rest ih =>
    have hrest : ∀ q ∈ rest, ¬ q.chunk.Opens max := fun q hq => h q (List.mem_cons_of_mem _ hq)
    have hq := h q List.mem_cons_self
    have hgo : received max (some file) (q :: rest) =
        received max (q.leaves max (some file)) rest := rfl
    rw [hgo, accepted]
    rcases receive_cases max (some file) q with ⟨hrefused, -, hsame⟩ | ⟨-, hopens, -⟩ |
      ⟨opened, hsized, hopened, -, -, hok, hadded⟩
    · rw [if_neg (by rw [hrefused]; decide), hsame, ih hrest]
    · exact absurd hopens hq
    · have hfile : file = opened := by
        split at hopened
        · rename_i hzero
          exact absurd ⟨hzero, hsized⟩ hq
        · exact Option.some.inj hopened
      rw [if_pos (by rw [hok]; rfl), hadded, ih hrest, ← hfile, List.flatten_cons,
        List.append_assoc]

/-- Since a piece began it anew, the file is what was accepted. -/
theorem received_opened (max : Nat) (file : Option Bytes) {first : Request} {rest : List Request}
    (hfirst : first.chunk.Opens max) (h : ∀ q ∈ rest, ¬ q.chunk.Opens max) :
    received max file (first :: rest) = some (accepted max file (first :: rest)).flatten := by
  have hgo : received max file (first :: rest) = received max (first.leaves max file) rest := rfl
  rw [hgo, accepted]
  rcases receive_cases max file first with ⟨-, hnot, -⟩ | ⟨hrefused, -, hempty⟩ |
    ⟨opened, -, hopened, -, -, hok, hadded⟩
  · exact absurd hfirst hnot
  · rw [if_neg (by rw [hrefused]; decide), hempty, received_tail h, List.nil_append]
  · rw [if_pos hfirst.1, Option.some.injEq] at hopened
    rw [if_pos (by rw [hok]; rfl), hadded, received_tail h, ← hopened, List.nil_append,
      List.flatten_cons]

/-- Where there is no file and no piece begins one, there is none. -/
theorem received_absent {max : Nat} {qs : List Request} (h : ∀ q ∈ qs, ¬ q.chunk.Opens max) :
    received max none qs = none := by
  induction qs with
  | nil => rfl
  | cons q rest ih =>
    have hgo : received max none (q :: rest) = received max (q.leaves max none) rest := rfl
    have hq := h q List.mem_cons_self
    rw [hgo]
    rcases receive_cases max none q with ⟨-, -, hsame⟩ | ⟨-, hopens, -⟩ | ⟨opened, hsized, hopened, -⟩
    · rw [hsame, ih fun q hq => h q (List.mem_cons_of_mem _ hq)]
    · exact absurd hopens hq
    · split at hopened
      · rename_i hzero
        exact absurd ⟨hzero, hsized⟩ hq
      · cases hopened

/-! ## The loop -/

/-- A body that arrives whole, begins at the end of the file and fits is accepted. -/
theorem receive_pieces {max : Nat} {file : Option Bytes} {chunk : Chunk} {opened : Bytes}
    (pieces : List Bytes) (hsized : chunk.Sized max)
    (hopened : (if chunk.offset = 0 then some [] else file) = some opened)
    (hlength : opened.length = chunk.offset)
    (hfits : chunk.offset + pieces.flatten.length ≤ chunk.total) :
    receive max file chunk (pieces.map Frame.data) =
      (some (opened ++ pieces.flatten), .ok (chunk.offset + pieces.flatten.length)) := by
  obtain ⟨hone, hmax, hoffset⟩ := hsized
  unfold receive
  rw [if_neg (by omega), if_neg (by omega), hopened]
  dsimp only
  rw [if_neg (by rw [hlength]; exact fun h => h rfl), append_pieces chunk pieces (by omega),
    Nat.zero_add]

/-- One turn of the loop: the file grows by a slice, or it is complete. -/
theorem dbRestore_slice {restore : Bytes → Except String Unit} {browser : Browser} {source : Bytes}
    {hub : Uploads} {offset : Nat} (hoffset : offset < source.length)
    (hmax : source.length ≤ maxArchive) (hfile : offset = 0 ∨ hub.file = some (source.take offset)) :
    dbRestore restore hub (sliceRequest browser source offset) =
      if offset + chunkSize < source.length then
        ({ hub with file := some (source.take (offset + chunkSize)) }, .received (offset + chunkSize))
      else (⟨none, some source⟩, .complete (restore source)) := by
  have hopened : (if offset = 0 then some [] else hub.file) = some (source.take offset) := by
    rcases hfile with rfl | hfile
    · rw [if_pos rfl, List.take_zero]
    · split
      · rename_i hzero
        rw [hzero, List.take_zero]
      · exact hfile
  have hlength : (source.take offset).length = offset := by
    rw [List.length_take]
    omega
  have hslice : ((source.drop offset).take chunkSize).length =
      if offset + chunkSize < source.length then chunkSize else source.length - offset := by
    rw [List.length_take, List.length_drop]
    split <;> omega
  have hgrown : source.take offset ++ (source.drop offset).take chunkSize =
      source.take (offset + chunkSize) := List.take_add.symm
  have hsized : (Chunk.mk offset source.length).Sized maxArchive := by
    unfold Chunk.Sized
    dsimp only
    omega
  have hfits : offset + (if offset + chunkSize < source.length then chunkSize
      else source.length - offset) ≤ source.length := by
    split <;> omega
  have hreceive := @receive_pieces maxArchive hub.file ⟨offset, source.length⟩ (source.take offset)
    (browser.pieces offset ((source.drop offset).take chunkSize)) hsized hopened hlength (by
      rw [browser.whole, hslice]
      exact hfits)
  rw [browser.whole, hgrown, hslice] at hreceive
  unfold dbRestore sliceRequest
  dsimp only
  rw [hreceive]
  dsimp only
  by_cases hmore : offset + chunkSize < source.length
  · rw [if_pos hmore, if_pos hmore, if_pos hmore]
  · rw [if_neg hmore, if_neg hmore, if_neg (by omega), List.take_of_length_le (by omega)]

section Turns

variable {restore : Bytes → Except String Unit} {browser : Browser} {source : Bytes}
  {hub hub' : Uploads} {offset : Nat} {reply : Reply}

/-- A slice the hub refuses ends the loop. -/
theorem uploadFrom_refused {message : String} (last : Option Reply) (hoffset : offset < source.length)
    (hgoes : browser.aborted offset = false)
    (hsent : dbRestore restore hub (sliceRequest browser source offset) = (hub', reply))
    (hproblem : reply.problem = some message) :
    uploadFrom restore browser source hub offset last = ⟨hub', [reply], .error message⟩ := by
  rw [uploadFrom.eq_def, if_pos hoffset, if_neg (by rw [hgoes]; decide), hsent]
  dsimp only
  rw [hproblem]

/-- A slice the hub takes lets it go on. -/
theorem uploadFrom_taken (last : Option Reply) (hoffset : offset < source.length)
    (hgoes : browser.aborted offset = false)
    (hsent : dbRestore restore hub (sliceRequest browser source offset) = (hub', reply))
    (hproblem : reply.problem = none) :
    uploadFrom restore browser source hub offset last =
      (uploadFrom restore browser source hub' (offset + chunkSize) (some reply)).after reply := by
  rw [uploadFrom.eq_def, if_pos hoffset, if_neg (by rw [hgoes]; decide), hsent]
  dsimp only
  rw [hproblem]

/-- At the end of the file it answers with what it heard last. -/
theorem uploadFrom_end (h : ¬ offset < source.length) :
    uploadFrom restore browser source hub offset (some reply) = ⟨hub, [], .ok reply⟩ := by
  rw [uploadFrom.eq_def, if_neg h]

end Turns

/-- From an offset up to which the file is there, the loop completes it, and no
answer but the last says so. -/
theorem uploadFrom_whole {restore : Bytes → Except String Unit} {browser : Browser} {source : Bytes}
    (hmax : source.length ≤ maxArchive) (hgoes : ∀ offset, browser.aborted offset = false)
    {hub : Uploads} {offset : Nat} (last : Option Reply) (hoffset : offset < source.length)
    (hfile : offset = 0 ∨ hub.file = some (source.take offset)) :
    (uploadFrom restore browser source hub offset last).hub = ⟨none, some source⟩ ∧
      ∃ before, (uploadFrom restore browser source hub offset last).replies =
          before ++ [.complete (restore source)] ∧
        ∀ r ∈ before, ∃ n, n < source.length ∧ r = .received n := by
  induction hleft : source.length - offset using Nat.strong_induction_on generalizing hub offset last with
  | h left ih =>
    have hstep := @dbRestore_slice restore browser source hub offset hoffset hmax hfile
    by_cases hmore : offset + chunkSize < source.length
    · rw [if_pos hmore] at hstep
      have hless : source.length - (offset + chunkSize) < left := by
        have hpos := chunkSize_pos
        omega
      have hgrown : offset + chunkSize = 0 ∨
          ({ hub with file := some (source.take (offset + chunkSize)) } : Uploads).file =
            some (source.take (offset + chunkSize)) := .inr rfl
      obtain ⟨hhub, before, hreplies, hbefore⟩ :=
        ih _ hless (some (.received (offset + chunkSize))) hmore hgrown rfl
      rw [uploadFrom_taken last hoffset (hgoes offset) hstep rfl, Uploaded.after_hub,
        Uploaded.after_replies]
      refine ⟨hhub, .received (offset + chunkSize) :: before, ?_, ?_⟩
      · rw [hreplies, List.cons_append]
      · intro r hr
        rcases List.mem_cons.mp hr with rfl | hr
        · exact ⟨_, hmore, rfl⟩
        · exact hbefore r hr
    · rw [if_neg hmore] at hstep
      cases hrestore : restore source with
      | error e =>
        rw [hrestore] at hstep
        rw [uploadFrom_refused last hoffset (hgoes offset) hstep rfl]
        exact ⟨rfl, [], rfl, fun _ hr => by cases hr⟩
      | ok u =>
        rw [hrestore] at hstep
        rw [uploadFrom_taken last hoffset (hgoes offset) hstep rfl, uploadFrom_end hmore]
        exact ⟨rfl, [], rfl, fun _ hr => by cases hr⟩

/-- A piece of a file that is empty or too large is refused at once. -/
theorem receive_oversized {max : Nat} (file : Option Bytes) (chunk : Chunk) (body : List Frame)
    (h : chunk.total = 0 ∨ max < chunk.total) :
    ∃ message, receive max file chunk body = (file, .error message) := by
  unfold receive
  rw [if_pos h]
  exact ⟨_, rfl⟩

/-- A file of no byte or of more than the hub takes is refused before a byte of
it is written. -/
theorem upload_refused (restore : Bytes → Except String Unit) (browser : Browser) {source : Bytes}
    (hub : Uploads) (h : source.length = 0 ∨ maxArchive < source.length) :
    (upload restore browser source hub).hub = hub ∧
      ∃ message, (upload restore browser source hub).result = .error message := by
  unfold upload
  by_cases hempty : source = []
  · rw [if_pos hempty]
    exact ⟨rfl, _, rfl⟩
  · have hpos : 0 < source.length := List.length_pos_iff.mpr hempty
    rw [if_neg hempty]
    cases haborted : browser.aborted 0 with
    | true =>
      rw [uploadFrom.eq_def, if_pos hpos, if_pos haborted]
      exact ⟨rfl, _, rfl⟩
    | false =>
      obtain ⟨message, hreceive⟩ := @receive_oversized maxArchive hub.file ⟨0, source.length⟩
        (sliceRequest browser source 0).body (.inr (h.resolve_left (Nat.ne_of_gt hpos)))
      have hsent : dbRestore restore hub (sliceRequest browser source 0) = (hub, .bad message) := by
        have hchunk : (sliceRequest browser source 0).chunk = ⟨0, source.length⟩ := rfl
        unfold dbRestore
        rw [hchunk, hreceive]
      rw [uploadFrom_refused none hpos haborted hsent rfl]
      exact ⟨rfl, message, rfl⟩

/-- The file an upload is gathered in is the concatenation of the pieces
accepted since the last one that began it anew; a piece at another offset that
is refused or breaks off leaves it as it was; none takes it past its total; and
the browser's loop hands over any file of 1 byte up to the hub's limit as it is,
which only its last answer reports, and no other. -/
theorem upload_reassembles (max : Nat) :
    (∀ file before first rest, first.chunk.Opens max → (∀ q ∈ rest, ¬ q.chunk.Opens max) →
      received max file (before ++ first :: rest) =
        some (accepted max (received max file before) (first :: rest)).flatten) ∧
    (∀ qs : List Request, (∀ q ∈ qs, ¬ q.chunk.Opens max) → received max none qs = none) ∧
    (∀ file (q : Request), q.chunk.offset ≠ 0 → (q.answer max file).isOk = false →
      q.leaves max file = file) ∧
    (∀ file (q : Request), q.leaves max file = file ∨
      ∃ written, q.leaves max file = some written ∧ written.length ≤ q.chunk.total) ∧
    (∀ (chunk : Chunk) body (opened : Bytes), opened.length = chunk.offset → chunk.Sized max →
      (append chunk 0 opened body).1.length ≤ chunk.total) ∧
    (∀ restore (browser : Browser) (source : Bytes) hub, 1 ≤ source.length →
      source.length ≤ maxArchive → (∀ offset, browser.aborted offset = false) →
      (upload restore browser source hub).hub = ⟨none, some source⟩ ∧
        ∃ before, (upload restore browser source hub).replies =
            before ++ [.complete (restore source)] ∧
          ∀ r ∈ before, ∃ n, n < source.length ∧ r = .received n) ∧
    ∀ restore (browser : Browser) (source : Bytes) hub,
      source.length = 0 ∨ maxArchive < source.length →
      (upload restore browser source hub).hub = hub ∧
        ∃ message, (upload restore browser source hub).result = .error message := by
  refine ⟨?_, ?_, ?_, ?_, ?_, ?_, ?_⟩
  · intro file before first rest hfirst hrest
    have hgo : received max file (before ++ first :: rest) =
        received max (received max file before) (first :: rest) := List.foldl_append
    rw [hgo, received_opened max _ hfirst hrest]
  · intro qs hqs
    exact received_absent hqs
  · intro file q hoffset hrefused
    exact leaves_refused hrefused hoffset
  · intro file q
    exact leaves_length_le max file q
  · intro chunk body opened hlength hsized
    exact append_length_le body (by omega) (by rw [hlength]; exact hsized.2.2)
  · intro restore browser source hub hone hmax hgoes
    have hne : source ≠ [] := List.length_pos_iff.mp hone
    unfold upload
    rw [if_neg hne]
    exact uploadFrom_whole hmax hgoes none hone (.inl rfl)
  · intro restore browser source hub hsize
    exact upload_refused restore browser hub hsize

/-- Bodies arrive in one piece and nobody gives up. -/
def steadyBrowser : Browser := ⟨fun _ slice => [slice], by simp, fun _ => false⟩

/-- Two pieces of a byte each, and between them one that breaks off. -/
def twoPieces : List Request :=
  [⟨⟨0, 2⟩, [.data [7]]⟩, ⟨⟨1, 2⟩, [.data [9], .broken "reset"]⟩, ⟨⟨1, 2⟩, [.data [8]]⟩]

/-- The pieces make up the file, and a file of two slices arrives. -/
theorem upload_reassembles_twoPieces :
    received maxArchive (some [1, 2]) twoPieces = some [7, 8] ∧
      (upload (fun _ => .ok ()) steadyBrowser (List.replicate (chunkSize + 1) 7)
        ⟨some [1, 2], none⟩).hub.handed = some (List.replicate (chunkSize + 1) 7) := by
  obtain ⟨hpieces, -, -, -, -, hloop, -⟩ := upload_reassembles maxArchive
  constructor
  · have hfirst : (⟨0, 2⟩ : Chunk).Opens maxArchive :=
      ⟨rfl, by decide, by decide, by decide⟩
    have hrest : ∀ q ∈ twoPieces.tail, ¬ q.chunk.Opens maxArchive := by
      intro q hq hopens
      simp only [twoPieces, List.tail_cons, List.mem_cons, List.not_mem_nil, or_false] at hq
      rcases hq with rfl | rfl
      · exact absurd hopens.1 (by decide)
      · exact absurd hopens.1 (by decide)
    exact hpieces (some [1, 2]) [] ⟨⟨0, 2⟩, [.data [7]]⟩ twoPieces.tail hfirst hrest
  · have hlength : (List.replicate (chunkSize + 1) (7 : UInt8)).length = chunkSize + 1 :=
      List.length_replicate
    have hmax : (List.replicate (chunkSize + 1) (7 : UInt8)).length ≤ maxArchive := by
      rw [hlength]
      unfold chunkSize maxArchive
      norm_num
    rw [(hloop (fun _ => .ok ()) steadyBrowser _ ⟨some [1, 2], none⟩ (by omega) hmax
      (fun _ => rfl)).1]

/-- The loop does not hand over an empty file: it throws and sends nothing. -/
theorem empty_file_not_handed :
    ¬ ((upload (fun _ => .ok ()) steadyBrowser [] ⟨none, none⟩).hub.handed = some [] ∧
      ∃ before, (upload (fun _ => .ok ()) steadyBrowser [] ⟨none, none⟩).replies =
        before ++ [.complete (.ok ())]) := by
  have hnothing : upload (fun _ => .ok ()) steadyBrowser [] ⟨none, none⟩ =
      ⟨⟨none, none⟩, [], .error "文件是空的"⟩ := rfl
  rw [hnothing]
  rintro ⟨hhanded, -⟩
  cases hhanded

end Romi.ChunkedUploads
