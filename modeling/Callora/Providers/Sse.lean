/-
**A streamed reply, off the network.**

`sseDeltas` reads a body of server-sent events chunk by chunk: each chunk is decoded on its own, whole
lines are taken off a buffer, and `[DONE]` ends the reading. The JSON parser is a parameter.

- `read_events`: what is read of a text is the content of every event before `[DONE]`;
- `run_uncut`: pieces of text are read as the whole text is;
- `deltas_uncut`: so a body gives its content however it is cut, where no cut falls inside a letter.

A cut inside a letter breaks it (`cutLetter_changed`).
-/
import Callora.Business.Values
import Callora.Text.Utf8
import Mathlib.Data.List.TakeWhile

set_option linter.unusedSectionVars false

namespace Callora.Providers

open Callora.Text

section Events

/-- An array index of a JSON pointer. -/
def arrayIndex (token : String) : Option Nat :=
  if startsWith token "+" || (startsWith token "0" && token != "0") then none else digitsValue
    token.toList

/-- `Value::pointer`, by the pointer's tokens. -/
def pointer : Json → List String → Option Json
  | v, [] => some v
  | .obj fields, token :: tokens => do pointer (← (Json.obj fields).get token) tokens
  | .arr items, token :: tokens => do pointer (← items[← arrayIndex token]?) tokens
  | _, _ :: _ => none

/-- `Value::as_u64`. -/
def asU64 : Json → Option Nat
  | .int n => if 0 ≤ n ∧ n < 2 ^ 64 then some n.toNat else none
  | _ => none

structure Usage where
  model : String
  input : Nat
  cached : Nat
  output : Nat
  deriving DecidableEq

/-- `usage_of`. -/
def usageOf (v : Json) (model : String) : Option Usage := do
  let .obj fields ← v.get "usage" | none
  let n (path : List String) := ((pointer (.obj fields) path).bind asU64).getD 0
  some {
    model := ((v.get "model").bind Json.asStr).getD model
    input := n ["prompt_tokens"]
    cached := n ["prompt_tokens_details", "cached_tokens"]
    output := n ["completion_tokens"] }

/-- The content an event adds. -/
def contentOf (v : Json) : Option String :=
  ((pointer v ["choices", "0", "delta", "content"]).bind Json.asStr).filter fun d => d ≠ ""

end Events

section Reader

/-- The reader of a body. -/
structure Sse where
  buf : List Char
  done : Bool
  model : String
  /-- Whether the usage is still to be sent. -/
  metered : Bool
  /-- The usage sent. -/
  sent : Option Usage
  deriving DecidableEq

/-- The reader before the first chunk. -/
def Sse.new (model : String) (metered : Bool) : Sse := ⟨[], false, model, metered, none⟩

/-- Another buffer. -/
def Sse.setBuf (s : Sse) (buf : List Char) : Sse := { s with buf := buf }

namespace Sse

@[simp] theorem setBuf_buf (s : Sse) (buf : List Char) : (s.setBuf buf).buf = buf := rfl

@[simp] theorem setBuf_done (s : Sse) (buf : List Char) : (s.setBuf buf).done = s.done := rfl

@[simp] theorem setBuf_model (s : Sse) (buf : List Char) : (s.setBuf buf).model = s.model := rfl

@[simp] theorem setBuf_metered (s : Sse) (buf : List Char) : (s.setBuf buf).metered = s.metered := rfl

@[simp] theorem setBuf_sent (s : Sse) (buf : List Char) : (s.setBuf buf).sent = s.sent := rfl

@[simp] theorem setBuf_setBuf (s : Sse) (buf buf' : List Char) :
    (s.setBuf buf).setBuf buf' = s.setBuf buf' :=
  rfl

end Sse

/-- The text up to the first newline, with it, and what follows. -/
def splitLine : List Char → Option (List Char × List Char)
  | [] => none
  | c :: cs => if c = '\n' then some ([c], cs) else (splitLine cs).map fun (l, rest) => (c :: l, rest)

theorem splitLine_length {cs line rest : List Char} (split : splitLine cs = some (line, rest)) :
    rest.length < cs.length := by
  induction cs generalizing line with
  | nil => cases split
  | cons c cs ih =>
    unfold splitLine at split
    split at split
    · obtain ⟨-, rfl⟩ := Prod.mk.inj (Option.some.inj split)
      exact Nat.lt_succ_self _
    · obtain ⟨⟨l, rest'⟩, here, same⟩ := Option.map_eq_some_iff.mp split
      obtain ⟨-, rfl⟩ := Prod.mk.inj same
      exact Nat.lt_succ_of_lt (ih here)

theorem splitLine_append {cs line rest : List Char} (split : splitLine cs = some (line, rest))
    (more : List Char) : splitLine (cs ++ more) = some (line, rest ++ more) := by
  induction cs generalizing line with
  | nil => cases split
  | cons c cs ih =>
    rw [List.cons_append]
    unfold splitLine at split ⊢
    split at split
    · rename_i newline
      obtain ⟨rfl, rfl⟩ := Prod.mk.inj (Option.some.inj split)
      rw [if_pos newline]
    · rename_i other
      obtain ⟨⟨l, rest'⟩, here, same⟩ := Option.map_eq_some_iff.mp split
      obtain ⟨rfl, rfl⟩ := Prod.mk.inj same
      rw [if_neg other, ih here, Option.map_some]

/-- The data of a line. -/
def dataOf (line : List Char) : Option String :=
  (stripPrefix (trim (String.ofList line)) "data:").map trim

variable (parse : String → Option Json)

/-- The data of an event: what it adds, and the usage it reports. -/
def Sse.event (s : Sse) (data : String) : List String × Sse :=
  match parse data with
  | none => ([], s)
  | some v =>
    ((contentOf v).toList,
      match (usageOf v s.model).filter fun _ => s.metered with
      | some u => { s with metered := false, sent := some u }
      | none => s)

/-- One line: an event, or the end of the reply. -/
def Sse.line (s : Sse) (line : List Char) : List String × Sse :=
  match dataOf line with
  | none => ([], s)
  | some data => if data = "[DONE]" then ([], { s with done := true }) else s.event parse data

/-- The whole lines of the buffer, up to `[DONE]`; `fuel` bounds the lines. -/
def Sse.readLines : Nat → Sse → List String × Sse
  | 0, s => ([], s)
  | fuel + 1, s =>
    match (if s.done then none else splitLine s.buf) with
    | none => ([], s)
    | some (line, rest) =>
      let (given, s) := (s.setBuf rest).line parse line
      let (more, s) := readLines fuel s
      (given ++ more, s)

/-- The whole lines of the buffer. -/
def Sse.read (s : Sse) : List String × Sse := Sse.readLines parse s.buf.length s

/-- The next item of the body: a chunk, or an error, which ends it. -/
def Sse.poll (s : Sse) : Except String (List UInt8) → List (Except String String) × Sse
  | .ok chunk =>
    let (given, s) := (s.setBuf (s.buf ++ fromUtf8Lossy chunk)).read parse
    (given.map .ok, s)
  | .error e => ([.error e], { s with done := true })

/-- The body, until `[DONE]` or its end. -/
def Sse.run (s : Sse) : List (Except String (List UInt8)) → List (Except String String) × Sse
  | [] => ([], { s with done := true })
  | item :: items =>
    if s.done then ([], s)
    else
      let (given, s) := s.poll parse item
      let (rest, s) := s.run items
      (given ++ rest, s)

/-- **`sse_deltas`**: the content deltas of a body, and the usage reported. -/
def sseDeltas (model : String) (metered : Bool) (body : List (Except String (List UInt8))) :
    List (Except String String) × Option Usage :=
  let (given, s) := (Sse.new model metered).run parse body
  (given, s.sent)

end Reader

section Lines

variable {parse : String → Option Json}

theorem event_buf (s : Sse) (buf : List Char) (data : String) :
    (s.setBuf buf).event parse data =
      ((s.event parse data).1, (s.event parse data).2.setBuf buf) := by
  unfold Sse.event
  cases parse data with
  | none => rfl
  | some v =>
    simp only [Sse.setBuf_model, Sse.setBuf_metered]
    cases (usageOf v s.model).filter fun _ => s.metered <;> rfl

/-- The buffer plays no part in a line. -/
theorem line_buf (s : Sse) (buf line : List Char) : (s.setBuf buf).line parse line =
    ((s.line parse line).1, (s.line parse line).2.setBuf buf) := by
  unfold Sse.line
  cases dataOf line with
  | none => rfl
  | some data =>
    dsimp only
    by_cases ends : data = "[DONE]"
    · rw [if_pos ends, if_pos ends]
      rfl
    · rw [if_neg ends, if_neg ends]
      exact event_buf s buf data

theorem line_keepsBuf (s : Sse) (line : List Char) : (s.line parse line).2.buf = s.buf := by
  unfold Sse.line
  cases dataOf line with
  | none => rfl
  | some data =>
    dsimp only
    by_cases ends : data = "[DONE]"
    · rw [if_pos ends]
    · rw [if_neg ends]
      unfold Sse.event
      cases parse data with
      | none => rfl
      | some v =>
        dsimp only
        cases (usageOf v s.model).filter fun _ => s.metered <;> rfl

/-- More fuel than characters changes nothing. -/
theorem readLines_enough {fuel more : Nat} {s : Sse} (enough : s.buf.length ≤ fuel)
    (enough' : s.buf.length ≤ more) : Sse.readLines parse fuel s = Sse.readLines parse more s := by
  induction fuel generalizing s more with
  | zero =>
    have empty : s.buf = [] := List.eq_nil_of_length_eq_zero (Nat.le_zero.mp enough)
    cases more with
    | zero => rfl
    | succ more => simp [Sse.readLines, empty, splitLine]
  | succ fuel ih =>
    cases more with
    | zero =>
      have empty : s.buf = [] := List.eq_nil_of_length_eq_zero (Nat.le_zero.mp enough')
      simp [Sse.readLines, empty, splitLine]
    | succ more =>
      unfold Sse.readLines
      cases split : (if s.done then none else splitLine s.buf) with
      | none => rfl
      | some found =>
        obtain ⟨line, rest⟩ := found
        have shorter : rest.length < s.buf.length := by
          split at split
          · cases split
          · exact splitLine_length split
        have kept : ((s.setBuf rest).line parse line).2.buf = rest :=
          line_keepsBuf (s.setBuf rest) line
        have same : Sse.readLines parse fuel ((s.setBuf rest).line parse line).2 =
            Sse.readLines parse more ((s.setBuf rest).line parse line).2 :=
          ih (by rw [kept]; omega) (by rw [kept]; omega)
        dsimp only
        rw [same]

theorem read_done {s : Sse} (done : s.done) : s.read parse = ([], s) := by
  unfold Sse.read
  cases s.buf.length with
  | zero => rfl
  | succ fuel => simp [Sse.readLines, done]

theorem read_none {s : Sse} (split : splitLine s.buf = none) : s.read parse = ([], s) := by
  unfold Sse.read
  cases s.buf.length with
  | zero => rfl
  | succ fuel => simp [Sse.readLines, split]

theorem read_some (parse : String → Option Json) {s : Sse} (open' : s.done = false)
    {line rest : List Char}
    (split : splitLine s.buf = some (line, rest)) : s.read parse =
      (((s.setBuf rest).line parse line).1 ++
        (((s.setBuf rest).line parse line).2.read parse).1,
      (((s.setBuf rest).line parse line).2.read parse).2) := by
  have shorter := splitLine_length split
  have kept : ((s.setBuf rest).line parse line).2.buf = rest :=
    line_keepsBuf (s.setBuf rest) line
  obtain ⟨fuel, length⟩ : ∃ fuel, s.buf.length = fuel + 1 :=
    ⟨s.buf.length - 1, by omega⟩
  conv_lhs => rw [Sse.read, length, Sse.readLines]
  rw [if_neg (by simp [open']), split]
  dsimp only
  have same : Sse.readLines parse rest.length ((s.setBuf rest).line parse line).2 =
      Sse.readLines parse fuel ((s.setBuf rest).line parse line).2 :=
    readLines_enough (by rw [kept]) (by rw [kept]; omega)
  rw [Sse.read, kept, same]

/-- **Lines read in two goes**: once the first is done, the rest is not read; otherwise it goes on
from the buffer. -/
theorem read_append (parse : String → Option Json) (s : Sse) (more : List Char) :
    (s.setBuf (s.buf ++ more)).read parse =
      if (s.read parse).2.done then
        ((s.read parse).1, (s.read parse).2.setBuf ((s.read parse).2.buf ++ more))
      else
        ((s.read parse).1 ++ (((s.read parse).2.setBuf ((s.read parse).2.buf ++ more)).read
            parse).1,
          (((s.read parse).2.setBuf ((s.read parse).2.buf ++ more)).read parse).2) := by
  induction length : s.buf.length using Nat.strongRecOn generalizing s with
  | _ n ih =>
    by_cases done : s.done
    · rw [read_done done, if_pos done, read_done (s := s.setBuf (s.buf ++ more)) done]
    · have open' : s.done = false := (Bool.not_eq_true _).mp done
      cases split : splitLine s.buf with
      | none =>
        rw [read_none split]
        dsimp only
        rw [if_neg done, List.nil_append]
      | some found =>
        obtain ⟨line, rest⟩ := found
        have shorter : rest.length < n := length ▸ splitLine_length split
        have kept : ((s.setBuf rest).line parse line).2.buf = rest :=
          line_keepsBuf (s.setBuf rest) line
        have step := ih rest.length shorter ((s.setBuf rest).line parse line).2
          (by rw [kept])
        have same : (s.setBuf (rest ++ more)).line parse line =
            (((s.setBuf rest).line parse line).1,
              ((s.setBuf rest).line parse line).2.setBuf (rest ++ more)) := by
          rw [← line_buf, Sse.setBuf_setBuf]
        rw [kept] at step
        have further := read_some parse (s := s.setBuf (s.buf ++ more)) open'
          (splitLine_append split more)
        rw [Sse.setBuf_setBuf, same] at further
        rw [further, read_some parse open' split]
        generalize (s.setBuf rest).line parse line = first at step ⊢
        dsimp only
        rw [step]
        generalize first.2.read parse = second
        by_cases over' : second.2.done
        · rw [if_pos over', if_pos over']
        · rw [if_neg over', if_neg over', List.append_assoc]

end Lines

section Whole

/-- The lines of a text, each with its newline, after what was read of the first. -/
def linesFrom : List Char → List Char → List (List Char)
  | _, [] => []
  | begun, c :: cs =>
    if c = '\n' then (begun ++ [c]) :: linesFrom [] cs else linesFrom (begun ++ [c]) cs

/-- The data of a text's events. -/
def dataLines (text : List Char) : List String := (linesFrom [] text).filterMap dataOf

/-- The data before the end of the reply. -/
def events (text : List Char) : List String := (dataLines text).takeWhile fun data => data ≠ "[DONE]"

variable (parse : String → Option Json)

/-- The content of a body. -/
def content (text : List Char) : List String :=
  (events text).filterMap fun data => (parse data).bind contentOf

/-- The usage that a body reports. -/
def usage (model : String) (text : List Char) : Option Usage :=
  (events text).findSome? fun data => (parse data).bind fun v => usageOf v model

end Whole

section Reading

variable {parse : String → Option Json}

theorem linesFrom_none {cs : List Char} (split : splitLine cs = none) (begun : List Char) :
    linesFrom begun cs = [] := by
  induction cs generalizing begun with
  | nil => rfl
  | cons c cs ih =>
    unfold splitLine at split
    by_cases newline : c = '\n'
    · rw [if_pos newline] at split
      cases split
    · rw [if_neg newline, Option.map_eq_none_iff] at split
      rw [linesFrom, if_neg newline, ih split]

theorem linesFrom_some {cs line rest : List Char} (split : splitLine cs = some (line, rest))
    (begun : List Char) : linesFrom begun cs = (begun ++ line) :: linesFrom [] rest := by
  induction cs generalizing begun line with
  | nil => cases split
  | cons c cs ih =>
    unfold splitLine at split
    by_cases newline : c = '\n'
    · rw [if_pos newline] at split
      obtain ⟨rfl, rfl⟩ := Prod.mk.inj (Option.some.inj split)
      rw [linesFrom, if_pos newline]
    · rw [if_neg newline] at split
      obtain ⟨⟨l, rest'⟩, here, same⟩ := Option.map_eq_some_iff.mp split
      obtain ⟨rfl, rfl⟩ := Prod.mk.inj same
      rw [linesFrom, if_neg newline, ih here, List.append_assoc, List.singleton_append]

theorem dataLines_some {cs line rest : List Char} (split : splitLine cs = some (line, rest)) :
    dataLines cs = (dataOf line).toList ++ dataLines rest := by
  rw [dataLines, linesFrom_some split, List.nil_append, List.filterMap_cons, dataLines]
  cases dataOf line <;> rfl

/-- What an event does, field by field. -/
theorem event_given (s : Sse) (data : String) :
    (s.event parse data).1 = ((parse data).bind contentOf).toList := by
  unfold Sse.event
  cases parse data <;> rfl

theorem event_done (s : Sse) (data : String) : (s.event parse data).2.done = s.done := by
  unfold Sse.event
  cases parse data with
  | none => rfl
  | some v =>
    dsimp only
    cases (usageOf v s.model).filter fun _ => s.metered <;> rfl

theorem event_model (s : Sse) (data : String) : (s.event parse data).2.model = s.model := by
  unfold Sse.event
  cases parse data with
  | none => rfl
  | some v =>
    dsimp only
    cases (usageOf v s.model).filter fun _ => s.metered <;> rfl

/-- The usage sent once the rest of a reply is read: the first one reported. -/
def Sse.report (s : Sse) (found : Option Usage) : Option Usage :=
  if s.metered then found.or s.sent else s.sent

theorem event_report (parse : String → Option Json) (s : Sse) (data : String) (found : Option Usage) :
    (s.event parse data).2.report found =
      s.report (((parse data).bind fun v => usageOf v s.model).or found) := by
  unfold Sse.event
  cases parse data with
  | none => rfl
  | some v =>
    dsimp only [Option.bind_some]
    by_cases metered : s.metered
    · cases usageOf v s.model with
      | none => rfl
      | some u =>
        have kept : (some u).filter (fun _ => s.metered) = some u := by simp [metered]
        rw [kept]
        simp [Sse.report, metered]
    · cases usageOf v s.model with
      | none => simp [Sse.report, metered]
      | some u => simp [Sse.report, metered]

/-- **What is read of a text**: the content of its events, the first usage, and whether the reply
ended. -/
theorem read_events (parse : String → Option Json) {s : Sse} (open' : s.done = false) :
    (s.read parse).1 = content parse s.buf ∧
      (s.read parse).2.sent = s.report (usage parse s.model s.buf) ∧
      ((s.read parse).2.done ↔ "[DONE]" ∈ dataLines s.buf) := by
  induction length : s.buf.length using Nat.strongRecOn generalizing s with
  | _ n ih =>
    cases split : splitLine s.buf with
    | none =>
      have none' : dataLines s.buf = [] := by rw [dataLines, linesFrom_none split, List.filterMap_nil]
      rw [read_none split, content, usage, events, none']
      refine ⟨rfl, ?_, ?_⟩
      · simp [Sse.report]
      · simp [open']
    | some found =>
      obtain ⟨line, rest⟩ := found
      have shorter : rest.length < n := length ▸ splitLine_length split
      have lines := dataLines_some split
      rw [read_some parse open' split, line_buf]
      dsimp only
      cases here : dataOf line with
      | none =>
        rw [here, Option.toList_none, List.nil_append] at lines
        have same : s.line parse line = ([], s) := by rw [Sse.line, here]
        have later := ih rest.length shorter (s := s.setBuf rest) open' rfl
        rw [same, content, usage, events, lines]
        exact later
      | some data =>
        rw [here, Option.toList_some, List.singleton_append] at lines
        by_cases ends : data = "[DONE]"
        · have same : s.line parse line = ([], { s with done := true }) := by
            rw [Sse.line, here]
            dsimp only
            rw [if_pos ends]
          rw [same, read_done (by rfl), content, usage, events, lines]
          refine ⟨?_, ?_, ?_⟩
          · simp [ends]
          · simp [ends, Sse.report]
          · simp [ends]
        · have same : s.line parse line = s.event parse data := by
            rw [Sse.line, here]
            dsimp only
            rw [if_neg ends]
          obtain ⟨given, sent, ended⟩ := ih rest.length shorter
            (s := (s.event parse data).2.setBuf rest)
            (by rw [Sse.setBuf_done, event_done, open']) rfl
          have events' : events s.buf = data :: events rest := by
            rw [events, lines, List.takeWhile_cons_of_pos (by simpa using ends), events]
          rw [same]
          refine ⟨?_, ?_, ?_⟩
          · rw [given, event_given, Sse.setBuf_buf]
            show _ = (events s.buf).filterMap fun data => (parse data).bind contentOf
            rw [events', List.filterMap_cons]
            cases (parse data).bind contentOf <;> rfl
          · have found : usage parse s.model s.buf =
                ((parse data).bind fun v => usageOf v s.model).or (usage parse s.model rest) := by
              show (events s.buf).findSome? (fun data => (parse data).bind fun v => usageOf v s.model) = _
              rw [events', List.findSome?_cons]
              cases (parse data).bind fun v => usageOf v s.model <;> rfl
            rw [found, ← event_report, sent, Sse.setBuf_model, Sse.setBuf_buf, event_model]
            rfl
          · rw [ended, Sse.setBuf_buf, lines, List.mem_cons]
            have other : "[DONE]" ≠ data := fun same => ends same.symm
            simp [other]

theorem setBuf_append_nil (s : Sse) : s.setBuf (s.buf ++ []) = s := by rw [List.append_nil, Sse.setBuf]

/-- Nothing is left to read after a reading. -/
theorem read_again (parse : String → Option Json) {s : Sse} (open' : (s.read parse).2.done = false) :
    (s.read parse).2.read parse = ([], (s.read parse).2) := by
  have twice := read_append parse s []
  rw [setBuf_append_nil, setBuf_append_nil, if_neg (by simp [open'])] at twice
  have given := congrArg Prod.fst twice
  have same := congrArg Prod.snd twice
  refine Prod.ext ?_ same.symm
  exact List.self_eq_append_right.mp given

theorem run_done (parse : String → Option Json) {s : Sse} (done : s.done)
    (items : List (Except String (List UInt8))) :
    (s.run parse items).1 = [] ∧ (s.run parse items).2.sent = s.sent := by
  cases items with
  | nil => exact ⟨rfl, rfl⟩
  | cons item items =>
    rw [Sse.run, if_pos done]
    exact ⟨rfl, rfl⟩

theorem poll_text (s : Sse) (text : List Char) :
    s.poll parse (.ok (utf8 text)) =
      (((s.setBuf (s.buf ++ text)).read parse).1.map .ok, ((s.setBuf (s.buf ++ text)).read parse).2) := by
  rw [Sse.poll, lossy_utf8]

/-- **Pieces of text are read as the whole text is**, whatever follows the end of the reply. -/
theorem run_uncut {s : Sse} {texts : List (List Char)} {rest : List (Except String (List UInt8))}
    (open' : s.done = false) (drained : s.read parse = ([], s))
    (ended : rest = [] ∨ ((s.setBuf (s.buf ++ texts.flatten)).read parse).2.done) :
    (s.run parse (texts.map (fun text => .ok (utf8 text)) ++ rest)).1 =
        ((s.setBuf (s.buf ++ texts.flatten)).read parse).1.map .ok ∧
      (s.run parse (texts.map (fun text => .ok (utf8 text)) ++ rest)).2.sent =
        ((s.setBuf (s.buf ++ texts.flatten)).read parse).2.sent := by
  induction texts generalizing s with
  | nil =>
    rw [List.flatten_nil, setBuf_append_nil, drained] at ended ⊢
    rcases ended with rfl | done
    · exact ⟨rfl, rfl⟩
    · rw [open'] at done
      cases done
  | cons text texts ih =>
    have whole : s.setBuf (s.buf ++ (text :: texts).flatten) = (s.setBuf (s.buf ++ text)).setBuf
        ((s.setBuf (s.buf ++ text)).buf ++ texts.flatten) := by
      rw [Sse.setBuf_setBuf, Sse.setBuf_buf, List.flatten_cons, List.append_assoc]
    rw [whole, read_append] at ended ⊢
    rw [List.map_cons, List.cons_append, Sse.run, if_neg (by simp [open']), poll_text]
    dsimp only
    have again := read_again parse (s := s.setBuf (s.buf ++ text))
    generalize (s.setBuf (s.buf ++ text)).read parse = first at ended again ⊢
    by_cases done : first.2.done
    · obtain ⟨given, sent⟩ := run_done parse done
        (texts.map (fun text => .ok (utf8 text)) ++ rest)
      rw [if_pos done, given, sent, List.append_nil]
      exact ⟨rfl, rfl⟩
    · have still : first.2.done = false := (Bool.not_eq_true _).mp done
      rw [if_neg done] at ended ⊢
      obtain ⟨given, sent⟩ := ih still (again still) ended
      rw [given, sent, List.map_append]
      exact ⟨rfl, rfl⟩

theorem new_drained (parse : String → Option Json) (model : String) (metered : Bool) :
    (Sse.new model metered).read parse = ([], Sse.new model metered) := read_none rfl

/-- A body in pieces of text gives its content. -/
theorem sseDeltas_texts (parse : String → Option Json) (model : String) (metered : Bool)
    (texts : List (List Char)) (rest : List (Except String (List UInt8)))
    (ended : rest = [] ∨ "[DONE]" ∈ dataLines texts.flatten) :
    sseDeltas parse model metered (texts.map (fun text => .ok (utf8 text)) ++ rest) =
      ((content parse texts.flatten).map .ok,
        if metered then usage parse model texts.flatten else none) := by
  obtain ⟨read, report, done⟩ := read_events parse
    (s := (Sse.new model metered).setBuf ((Sse.new model metered).buf ++ texts.flatten)) rfl
  obtain ⟨given, sent⟩ := run_uncut rfl (new_drained parse model metered)
    (ended.imp_right done.mpr)
  rw [read] at given
  rw [report] at sent
  refine Prod.ext given (sent.trans ?_)
  cases metered with
  | false => rfl
  | true => exact Option.or_none

theorem linesFrom_append (begun text more : List Char) :
    ∃ begun', linesFrom begun (text ++ more) = linesFrom begun text ++ linesFrom begun' more := by
  induction text generalizing begun with
  | nil => exact ⟨begun, rfl⟩
  | cons c cs ih =>
    by_cases newline : c = '\n'
    · obtain ⟨begun', same⟩ := ih []
      refine ⟨begun', ?_⟩
      rw [List.cons_append, linesFrom, linesFrom, if_pos newline, if_pos newline, same, List.cons_append]
    · obtain ⟨begun', same⟩ := ih (begun ++ [c])
      refine ⟨begun', ?_⟩
      rw [List.cons_append, linesFrom, linesFrom, if_neg newline, if_neg newline, same]

/-- What follows the end of the reply adds no event. -/
theorem events_append {text : List Char} (ended : "[DONE]" ∈ dataLines text) (more : List Char) :
    events (text ++ more) = events text := by
  obtain ⟨begun', same⟩ := linesFrom_append [] text more
  have stops : ¬ ((dataLines text).takeWhile fun data => data ≠ "[DONE]").length =
    (dataLines text).length := by
    intro all
    have whole := (List.takeWhile_prefix fun data => decide (data ≠ "[DONE]")).eq_of_length all
    simpa using List.takeWhile_eq_self_iff.mp whole "[DONE]" ended
  rw [events, dataLines, same, List.filterMap_append, ← dataLines, List.takeWhile_append,
    if_neg stops, events]

/-- **A reply does not depend on how it is cut**, where every piece up to the one with `[DONE]` is
text by itself, that is, where no cut falls inside a letter: it gives the content of every event
before `[DONE]`, in order, and the first usage reported. -/
theorem deltas_uncut (parse : String → Option Json) (model : String) (metered : Bool)
    (texts : List (List Char)) (rest : List (List UInt8)) (text : List Char)
    (body : (texts.map utf8 ++ rest).flatten = utf8 text)
    (ended : rest = [] ∨ "[DONE]" ∈ dataLines texts.flatten) :
    sseDeltas parse model metered ((texts.map utf8 ++ rest).map .ok) =
        sseDeltas parse model metered [.ok (utf8 text)] ∧
      sseDeltas parse model metered [.ok (utf8 text)] =
        ((content parse text).map .ok, if metered then usage parse model text else none) := by
  rw [List.flatten_append, ← utf8_flatten] at body
  obtain ⟨more, rfl, rest'⟩ := utf8_prefix body
  have same : events (texts.flatten ++ more) = events texts.flatten := by
    rcases ended with rfl | done
    · have short := utf8_length more
      rw [← rest', List.flatten_nil, List.length_nil] at short
      rw [List.eq_nil_of_length_eq_zero (Nat.le_zero.mp short), List.append_nil]
    · exact events_append done more
  have whole := sseDeltas_texts parse model metered [texts.flatten ++ more] [] (.inl rfl)
  have pieces := sseDeltas_texts parse model metered texts (rest.map .ok)
    (ended.imp_left fun none' => by rw [none', List.map_nil])
  have flat : [texts.flatten ++ more].flatten = texts.flatten ++ more := List.append_nil _
  have items : (texts.map utf8 ++ rest).map Except.ok =
      texts.map (fun text => (.ok (utf8 text) : Except String (List UInt8))) ++ rest.map .ok := by
    rw [List.map_append, List.map_map]
    rfl
  rw [flat] at whole
  refine ⟨?_, whole⟩
  rw [items, pieces]
  refine Eq.trans ?_ whole.symm
  rw [content, content, usage, usage, same]

end Reading

section Sample

/-- An event of a reply with nothing but its content. -/
def Sample.delta (content : String) : Json :=
  .obj [("choices", .arr [.obj [("delta", .obj [("content", .str content)])]])]

/-- A JSON parser, for such events with plain content. -/
def Sample.parse (data : String) : Option Json :=
  ((stripPrefix data "\x7b\"choices\":[\x7b\"delta\":\x7b\"content\":\"").bind fun rest =>
    stripSuffix rest "\"\x7d\x7d]\x7d").map Sample.delta

/-- A reply in Hebrew. -/
def Sample.hebrew : List Char :=
  "data: \x7b\"choices\":[\x7b\"delta\":\x7b\"content\":\"ש\"\x7d\x7d]\x7d\n\ndata: [DONE]\n".toList

set_option maxRecDepth 100000 in
/-- The Hebrew reply in two pieces, cut behind the letter. -/
theorem deltas_uncut_hebrew :
    sseDeltas Sample.parse "m" false
      (([Sample.hebrew.take 40, Sample.hebrew.drop 40].map utf8 ++ []).map .ok) =
        sseDeltas Sample.parse "m" false [.ok (utf8 Sample.hebrew)] ∧
      sseDeltas Sample.parse "m" false [.ok (utf8 Sample.hebrew)] =
        ((content Sample.parse Sample.hebrew).map .ok, none) :=
  deltas_uncut Sample.parse "m" false [Sample.hebrew.take 40, Sample.hebrew.drop 40] [] Sample.hebrew
    (by decide) (.inl rfl)

set_option maxRecDepth 100000 in
/-- **A cut inside a letter changes it**: the Hebrew letter becomes two replacement characters. -/
theorem cutLetter_changed :
    (utf8 Sample.hebrew).take 40 ++ (utf8 Sample.hebrew).drop 40 = utf8 Sample.hebrew ∧
      sseDeltas Sample.parse "m" false
          [.ok ((utf8 Sample.hebrew).take 40), .ok ((utf8 Sample.hebrew).drop 40)] =
        ([.ok "\uFFFD\uFFFD"], none) ∧
      sseDeltas Sample.parse "m" false [.ok (utf8 Sample.hebrew)] = ([.ok "ש"], none) := by
  decide +kernel

end Sample

end Callora.Providers
