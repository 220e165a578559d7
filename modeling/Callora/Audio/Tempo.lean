/-
**Faster speech, as it arrives.**

`Tempo` stretches a stream: windows of the input are put back closer together, each one shifted to
where it continues the last one best. Sample arithmetic is a parameter (`Arithmetic`); an index out
of bounds would be a panic (`none`).

- `push_seamless`: a push of two pieces is the pushes of one after the other, and none panics;
- `stream_is_clip`: a stream in pieces is the whole clip, and what was given out never changes.
-/
import Callora.Library.Chunks
import Mathlib.Data.Rat.Floor
import Mathlib.Tactic.Linarith
import Mathlib.Tactic.NormNum

set_option linter.unusedSectionVars false

namespace Callora.Audio

/-- The arithmetic of samples, weights of a window, and scores. -/
structure Arithmetic where
  Sample : Type
  Weight : Type
  Score : Type
  /-- μ-law to a sample. -/
  decode : UInt8 → Sample
  /-- A sample rounded, clamped and back to μ-law. -/
  encode : Sample → UInt8
  silence : Sample
  add : Sample → Sample → Sample
  scale : Weight → Sample → Sample
  full : Weight
  window : Nat → Weight
  score : List Sample → List Sample → Score
  lowest : Score
  above : Score → Score → Bool
  /-- The division of two doubles. -/
  quotient : Nat → ℚ → ℚ

/-- The window's length. -/
def windowLength : Nat := 256

/-- The output hop: windows overlap by half. -/
def outputHop : Nat := windowLength / 2

/-- How far a window may move. -/
def search : Nat := 64

/-- A tempo between half and double. -/
structure Pace where
  tempo : ℚ
  slow : 1 / 2 ≤ tempo
  fast : tempo ≤ 2

/-- `f32::clamp(0.5, 2.0)`. -/
def Pace.clamp (tempo : ℚ) : Pace where
  tempo := max (1 / 2) (min tempo 2)
  slow := le_max_left _ _
  fast := max_le (by norm_num) (min_le_right _ _)

/-- `round` of a number that is not negative. -/
def roundHalfUp (x : ℚ) : Nat := ⌊x + 1 / 2⌋₊

structure Tempo (A : Arithmetic) where
  pace : Pace
  input : List A.Sample
  output : List A.Sample
  emitted : Nat
  frame : Nat
  previous : Option Nat

/-- `xs[i..i + n]`. -/
def slice {α : Type} (xs : List α) (i n : Nat) : Option (List α) :=
  if i + n ≤ xs.length then some ((xs.drop i).take n) else none

namespace Tempo

variable {A : Arithmetic}

/-- `Tempo::new`. -/
def new (A : Arithmetic) (tempo : ℚ) : Tempo A where
  pace := .clamp tempo
  input := []
  output := []
  emitted := 0
  frame := 0
  previous := none

/-- `analysis_hop`. -/
def analysisHop (t : Tempo A) : ℚ := outputHop * t.pace.tempo

/-- `nominal`. -/
def nominal (t : Tempo A) (frame : Nat) : Nat := roundHalfUp (frame * t.analysisHop)

/-- `frame_ready`. -/
def frameReady (t : Tempo A) : Prop :=
  max (t.nominal t.frame + search + windowLength)
    ((t.previous.map fun p => p + outputHop + windowLength).getD 0) ≤ t.input.length

instance (t : Tempo A) : Decidable t.frameReady := inferInstanceAs (Decidable (_ ≤ _))

/-- The candidate that continues the last window best; of equals the first. -/
def bestStart (input natural : List A.Sample) : List Nat → A.Score × Nat → Option (A.Score × Nat)
  | [], best => some best
  | candidate :: rest, best => do
    let segment ← slice input candidate windowLength
    let score := A.score natural segment
    bestStart input natural rest (if A.above score best.1 then (score, candidate) else best)

/-- Where the next window starts. -/
def start (t : Tempo A) : Option Nat :=
  let nominal := t.nominal t.frame
  match t.previous with
  | none => some nominal
  | some previous => do
    let natural ← slice t.input (previous + outputHop) windowLength
    let from' := nominal - search
    let best ← bestStart t.input natural (List.range' from' (nominal + search + 1 - from'))
      (A.lowest, nominal)
    some best.2

/-- A window of samples. The first one starts at full level, not faded in from silence. -/
def windowed (frame : Nat) (segment : List A.Sample) : List A.Sample :=
  segment.mapIdx fun n s => A.scale (if frame = 0 ∧ n < outputHop then A.full else A.window n) s

/-- A window added to the output, which is made long enough for it. -/
def overlap (output : List A.Sample) (at' : Nat) (window : List A.Sample) : List A.Sample :=
  let output := output ++ List.replicate (at' + windowLength - output.length) A.silence
  output.take at' ++ List.zipWith A.add (output.drop at') window ++ output.drop (at' + windowLength)

/-- `add_frame`. -/
def addFrame (t : Tempo A) : Option (Tempo A) := do
  let start ← t.start
  let segment ← slice t.input start windowLength
  some { t with
    output := overlap t.output (t.frame * outputHop) (windowed t.frame segment)
    previous := some start
    frame := t.frame + 1 }

/-- `emit`. -/
def emit (t : Tempo A) (upto : Nat) : List UInt8 × Tempo A :=
  let upto := min upto t.output.length
  if upto ≤ t.emitted then ([], t)
  else (((t.output.take upto).drop t.emitted).map A.encode, { t with emitted := upto })

section Frames

theorem nominal_ge (t : Tempo A) (frame : Nat) : frame ≤ t.nominal frame := by
  unfold nominal roundHalfUp analysisHop outputHop windowLength
  refine Nat.le_floor ?_
  have slow := t.pace.slow
  have hop : (1 : ℚ) ≤ ((256 / 2 : Nat) : ℚ) * t.pace.tempo := by
    norm_num
    linarith
  have grows := mul_le_mul_of_nonneg_left hop (Nat.cast_nonneg (α := ℚ) frame)
  linarith

theorem slice_some {α : Type} {xs : List α} {i n : Nat} (inside : i + n ≤ xs.length) :
    slice xs i n = some ((xs.drop i).take n) := if_pos inside

theorem slice_append {α : Type} {xs : List α} (ys : List α) {i n : Nat} (inside : i + n ≤ xs.length) :
    slice (xs ++ ys) i n = slice xs i n := by
  rw [slice_some inside, slice_some (by rw [List.length_append]; omega), List.drop_append_of_le_length
    (by omega), List.take_append_of_le_length (by rw [List.length_drop]; omega)]

/-- The best of candidates in bounds is in bounds, whatever follows in the input. -/
theorem bestStart_bounded {input : List A.Sample} (natural : List A.Sample) {candidates : List Nat}
    {bound : Nat} (best : A.Score × Nat) (inside : ∀ c ∈ candidates, c ≤ bound) (start : best.2 ≤ bound)
    (reach : bound + windowLength ≤ input.length) (more : List A.Sample) :
    ∃ result, bestStart input natural candidates best = some result ∧ result.2 ≤ bound ∧
      bestStart (input ++ more) natural candidates best = some result := by
  induction candidates generalizing best with
  | nil => exact ⟨best, rfl, start, rfl⟩
  | cons candidate rest ih =>
    have here := inside candidate List.mem_cons_self
    have fits : candidate + windowLength ≤ input.length := by omega
    simp only [bestStart, slice_append more fits, slice_some fits, Option.bind_eq_bind, Option.bind_some]
    refine ih _ (fun c listed => inside c (List.mem_cons_of_mem _ listed)) ?_
    split
    · exact here
    · exact start

/-- More input, and more given out. -/
def goOn (t : Tempo A) (more : List A.Sample) (emitted : Nat) : Tempo A :=
  { t with input := t.input ++ more, emitted := emitted }

theorem frameReady_goOn {t : Tempo A} (ready : t.frameReady) (more : List A.Sample) (emitted : Nat) :
    (t.goOn more emitted).frameReady := by
  refine le_trans ready ?_
  show _ ≤ (t.input ++ more).length
  rw [List.length_append]
  exact Nat.le_add_right _ _

/-- **A window that is ready starts in bounds**, whatever follows in the input. -/
theorem start_ready {t : Tempo A} (ready : t.frameReady) (more : List A.Sample) (emitted : Nat) :
    ∃ start, t.start = some start ∧ start + windowLength ≤ t.input.length ∧
      (t.goOn more emitted).start = some start := by
  obtain ⟨reach, natural⟩ := max_le_iff.mp ready
  have same : (t.goOn more emitted).nominal = t.nominal := rfl
  unfold Tempo.start
  cases previous : t.previous with
  | none =>
    refine ⟨t.nominal t.frame, rfl, by omega, ?_⟩
    simp only [goOn, previous]
    rfl
  | some p =>
    have natural : p + outputHop + windowLength ≤ t.input.length := by simpa [previous] using natural
    have inside : ∀ c ∈ List.range' (t.nominal t.frame - search)
        (t.nominal t.frame + search + 1 - (t.nominal t.frame - search)),
        c ≤ t.nominal t.frame + search := by
      intro c listed
      have := List.mem_range'_1.mp listed
      omega
    obtain ⟨result, best, bounded, further⟩ := bestStart_bounded
      ((t.input.drop (p + outputHop)).take windowLength) (A.lowest, t.nominal t.frame)
      inside (Nat.le_add_right _ _) reach more
    refine ⟨result.2, ?_, by omega, ?_⟩
    · simp only [slice_some natural, Option.bind_eq_bind, Option.bind_some, best]
    · simp only [goOn, previous, slice_append more natural, slice_some natural, Option.bind_eq_bind,
        Option.bind_some]
      show (Option.bind (bestStart (t.input ++ more) _ (List.range' (t.nominal t.frame - search)
        (t.nominal t.frame + search + 1 - (t.nominal t.frame - search)))
        (A.lowest, t.nominal t.frame)) fun best => some best.2) = _
      rw [further, Option.bind_some]

theorem overlap_take {output window : List A.Sample} {at' : Nat} (reaches : at' ≤ output.length) :
    (overlap output at' window).take at' = output.take at' := by
  unfold overlap
  dsimp only
  rw [List.append_assoc, List.take_append_of_le_length, List.take_take, min_self,
    List.take_append_of_le_length reaches]
  rw [List.length_take, List.length_append]
  omega

theorem overlap_length {output window : List A.Sample} {at' : Nat}
    (reaches : output.length ≤ at' + windowLength) (full : window.length = windowLength) :
    (overlap output at' window).length = at' + windowLength := by
  unfold overlap
  simp only [List.length_append, List.length_take, List.length_zipWith, List.length_drop,
    List.length_replicate, full]
  omega

/-- **The frames added so far**: the output is as long as they reach, and nothing is given out beyond. -/
structure Sound (t : Tempo A) : Prop where
  reaches : t.output.length = if t.frame = 0 then 0 else t.frame * outputHop + outputHop
  emitted : t.emitted ≤ t.frame * outputHop

theorem Sound.frames {t : Tempo A} (sound : t.Sound) : t.frame * outputHop ≤ t.output.length := by
  rw [sound.reaches]
  split
  · rename_i first
    simp [first]
  · omega

/-- What a frame leaves. -/
structure Added (t t' : Tempo A) : Prop where
  pace : t'.pace = t.pace
  input : t'.input = t.input
  emitted : t'.emitted = t.emitted
  frame : t.frame ≤ t'.frame
  sound : t'.Sound
  kept : t'.output.take (t.frame * outputHop) = t.output.take (t.frame * outputHop)

theorem Added.refl {t : Tempo A} (sound : t.Sound) : Added t t := ⟨rfl, rfl, rfl, le_refl _, sound, rfl⟩

theorem Added.trans {t t' t'' : Tempo A} (first : Added t t') (second : Added t' t'') : Added t t'' where
  pace := second.pace.trans first.pace
  input := second.input.trans first.input
  emitted := second.emitted.trans first.emitted
  frame := first.frame.trans second.frame
  sound := second.sound
  kept := by
    have grows : t.frame * outputHop ≤ t'.frame * outputHop := Nat.mul_le_mul_right _ first.frame
    have cut := congrArg (List.take (t.frame * outputHop)) second.kept
    rw [List.take_take, List.take_take, min_eq_left grows] at cut
    exact cut.trans first.kept

/-- **A frame that is ready is added**, without a panic, and the same whatever follows in the input. -/
theorem addFrame_ready {t : Tempo A} (sound : t.Sound) (ready : t.frameReady) (more : List A.Sample)
    (emitted : Nat) : ∃ t', t.addFrame = some t' ∧ t'.frame = t.frame + 1 ∧ Added t t' ∧
      (t.goOn more emitted).addFrame = some (t'.goOn more emitted) := by
  obtain ⟨start, starts, inside, further⟩ := start_ready ready more emitted
  have segment : ((t.input.drop start).take windowLength).length = windowLength := by
    rw [List.length_take, List.length_drop]
    omega
  have full : (windowed t.frame ((t.input.drop start).take windowLength)).length = windowLength := by
    rw [windowed, List.length_mapIdx, segment]
  have half : outputHop + outputHop = windowLength := rfl
  refine ⟨{ t with
    output := overlap t.output (t.frame * outputHop)
      (windowed t.frame ((t.input.drop start).take windowLength))
    previous := some start
    frame := t.frame + 1 }, ?_, rfl, ⟨rfl, rfl, rfl, Nat.le_succ _, ⟨?_, ?_⟩, ?_⟩, ?_⟩
  · simp only [addFrame, starts, slice_some inside, Option.bind_eq_bind, Option.bind_some]
  · have short : t.output.length ≤ t.frame * outputHop + windowLength := by
      rw [sound.reaches]
      split <;> omega
    show (overlap _ _ _).length = _
    rw [overlap_length short full, if_neg (Nat.succ_ne_zero _), Nat.succ_mul]
    omega
  · show t.emitted ≤ (t.frame + 1) * outputHop
    rw [Nat.succ_mul]
    exact sound.emitted.trans (Nat.le_add_right _ _)
  · exact overlap_take sound.frames
  · simp only [addFrame, further, Option.bind_eq_bind, Option.bind_some]
    simp only [goOn, slice_append more inside, slice_some inside, Option.bind_some]

end Frames

/-- The frames that are ready, as long as `goes` holds: `while goes(frame) && frame_ready()`. -/
def addFrames (goes : Nat → Bool) (t : Tempo A) : Option (Tempo A) :=
  if _ready : goes t.frame ∧ t.frameReady then
    match _added : t.addFrame with
    | none => none
    | some t' => addFrames goes t'
  else some t
termination_by t.input.length - t.frame
decreasing_by
  have reach := (max_le_iff.mp _ready.2).1
  have nominal := t.nominal_ge t.frame
  obtain ⟨start, -, here⟩ := Option.bind_eq_some_iff.mp _added
  obtain ⟨segment, -, same⟩ := Option.bind_eq_some_iff.mp here
  obtain rfl := Option.some.inj same
  simp only [windowLength] at reach
  simp only
  omega

/-- Every frame that is ready. -/
def always : Nat → Bool := fun _ => true

/-- **`push`**: μ-law in; the μ-law that is final so far out. -/
def push (t : Tempo A) (audio : List UInt8) : Option (List UInt8 × Tempo A) :=
  if t.pace.tempo = 1 then some (audio, t)
  else (addFrames always { t with input := t.input ++ audio.map A.decode }).map fun t =>
    t.emit (t.frame * outputHop)

/-- How long the output is to be. -/
def wanted (t : Tempo A) : Nat := roundHalfUp (A.quotient t.input.length t.pace.tempo)

/-- The last frames, once the stream has ended. -/
def finished (t : Tempo A) : Option (Tempo A) :=
  let padding := windowLength + search + ⌊t.analysisHop⌋₊ + outputHop
  addFrames (fun frame => decide (frame * outputHop < t.wanted + outputHop))
    { t with input := t.input ++ List.replicate padding A.silence }

/-- **`finish`**: the rest, once the stream has ended. -/
def finish (t : Tempo A) : Option (List UInt8) :=
  if t.pace.tempo = 1 then some []
  else t.finished.map fun last => (last.emit (min t.wanted last.output.length)).1

/-- **`stretch`**: a whole clip. -/
def stretch (A : Arithmetic) (tempo : ℚ) (audio : List UInt8) : Option (List UInt8) := do
  let (out, t) ← (new A tempo).push audio
  let rest ← t.finish
  some (out ++ rest)

section Stream

theorem addFrames_stop {goes : Nat → Bool} {t : Tempo A} (stop : ¬(goes t.frame ∧ t.frameReady)) :
    addFrames goes t = some t := by
  rw [addFrames, dif_neg stop]

theorem addFrames_step {goes : Nat → Bool} {t t' : Tempo A} (ready : goes t.frame ∧ t.frameReady)
    (added : t.addFrame = some t') : addFrames goes t = addFrames goes t' := by
  rw [addFrames, dif_pos ready]
  split
  · rename_i none'
    rw [none'] at added
    cases added
  · rename_i t'' same
    rw [Option.some.inj (added.symm.trans same)]

/-- **The loop ends, without a panic.** -/
theorem addFrames_some (goes : Nat → Bool) (t : Tempo A) (sound : t.Sound) :
    ∃ t', addFrames goes t = some t' ∧ Added t t' ∧ ¬(goes t'.frame ∧ t'.frameReady) := by
  fun_induction addFrames goes t with
  | case1 t ready none' =>
    obtain ⟨t', added, -⟩ := addFrame_ready sound ready.2 [] 0
    rw [none'] at added
    cases added
  | case2 t ready t' added ih =>
    obtain ⟨t'', same, -, goes', -⟩ := addFrame_ready sound ready.2 [] 0
    obtain rfl := Option.some.inj (added.symm.trans same)
    obtain ⟨last, result, later, stop⟩ := ih goes'.sound
    exact ⟨last, result, goes'.trans later, stop⟩
  | case3 t stop => exact ⟨t, rfl, .refl sound, stop⟩

/-- The frames that are ready before more comes in are added first. -/
theorem addFrames_goOn {t t' : Tempo A} (sound : t.Sound) (added : addFrames always t = some t')
    (more : List A.Sample) (emitted : Nat) :
    addFrames always (t.goOn more emitted) = addFrames always (t'.goOn more emitted) := by
  fun_induction addFrames always t with
  | case1 => cases added
  | case2 t ready t₁ here ih =>
    obtain ⟨t₂, same, -, goes, further⟩ := addFrame_ready sound ready.2 more emitted
    obtain rfl := Option.some.inj (here.symm.trans same)
    rw [addFrames_step ⟨rfl, frameReady_goOn ready.2 more emitted⟩ further]
    exact ih goes.sound added
  | case3 t stop => rw [Option.some.inj added]

/-- **Between two pushes**: every frame that is ready is added, and given out. -/
def Settled (t : Tempo A) : Prop :=
  t.pace.tempo = 1 ∨ t.Sound ∧ t.emitted = t.frame * outputHop ∧ ¬t.frameReady

theorem new_settled (A : Arithmetic) (tempo : ℚ) : (new A tempo).Settled := by
  refine .inr ⟨⟨rfl, le_refl _⟩, rfl, fun ready => ?_⟩
  have reach := (max_le_iff.mp ready).1
  have empty : (new A tempo).input.length = 0 := rfl
  rw [empty, windowLength] at reach
  omega

/-- What is given out of a sound stretch. -/
theorem emit_frames {t : Tempo A} (sound : t.Sound) : t.emit (t.frame * outputHop) =
    (((t.output.take (t.frame * outputHop)).drop t.emitted).map A.encode,
      { t with emitted := t.frame * outputHop }) := by
  unfold emit
  dsimp only
  rw [min_eq_left sound.frames]
  split
  · rename_i all
    have same : t.emitted = t.frame * outputHop := le_antisymm sound.emitted all
    rw [← same, List.drop_eq_nil_of_le (List.length_take_le _ _), List.map_nil]
  · rfl

/-- **A push** in a sound state: the frames that are ready, given out. -/
theorem push_some {t : Tempo A} (stretches : t.pace.tempo ≠ 1) (sound : t.Sound) (audio : List UInt8) :
    ∃ t', addFrames always (t.goOn (audio.map A.decode) t.emitted) = some t' ∧ ¬t'.frameReady ∧
      Added (t.goOn (audio.map A.decode) t.emitted) t' ∧
      t.push audio = some (((t'.output.take (t'.frame * outputHop)).drop t.emitted).map A.encode,
        { t' with emitted := t'.frame * outputHop }) := by
  have sound' : (t.goOn (audio.map A.decode) t.emitted).Sound := ⟨sound.reaches, sound.emitted⟩
  obtain ⟨t', result, added, stop⟩ := addFrames_some always _ sound'
  refine ⟨t', result, fun ready => stop ⟨rfl, ready⟩, added, ?_⟩
  have here : addFrames always { t with input := t.input ++ audio.map A.decode } = some t' := result
  rw [push, if_neg stretches, here, Option.map_some, emit_frames added.sound, added.emitted]
  rfl

theorem emitted_settled {t : Tempo A} (sound : t.Sound) (stop : ¬t.frameReady) :
    ({ t with emitted := t.frame * outputHop } : Tempo A).Settled :=
  .inr ⟨⟨sound.reaches, le_refl _⟩, rfl, stop⟩

/-- What is given out up to `k₂` is what is given out up to `k₁`, and the rest. -/
theorem given_append {α : Type} {xs ys : List α} {e k₁ k₂ : Nat} (kept : ys.take k₁ = xs.take k₁)
    (first : e ≤ k₁) (second : k₁ ≤ k₂) (reaches : k₁ ≤ xs.length) :
    (ys.take k₂).drop e = (xs.take k₁).drop e ++ (ys.take k₂).drop k₁ := by
  have cut : ys.take k₂ = xs.take k₁ ++ (ys.take k₂).drop k₁ := by
    rw [← kept, ← min_eq_left second, ← List.take_take, min_eq_left second, List.take_append_drop]
  conv_lhs => rw [cut]
  rw [List.drop_append_of_le_length]
  rw [List.length_take]
  omega

/-- The frames added do not depend on what was given out. -/
theorem addFrames_emitted {t t' : Tempo A} (sound : t.Sound) (added : addFrames always t = some t')
    (stop : ¬t'.frameReady) (emitted : Nat) :
    addFrames always (t.goOn [] emitted) = some (t'.goOn [] emitted) := by
  rw [addFrames_goOn sound added]
  refine addFrames_stop fun ready => stop ?_
  have same : (t'.goOn [] emitted).input = t'.input := List.append_nil _
  have reach := ready.2
  unfold frameReady at reach ⊢
  rwa [same] at reach

/-- **A push of two pieces is the pushes of one after the other.** -/
theorem push_seamless : Chunks.Seamless (push (A := A)) Settled where
  nothing t settled := by
    by_cases whole : t.pace.tempo = 1
    · rw [push, if_pos whole]
    · obtain ⟨sound, given, stop⟩ := settled.resolve_left whole
      have same : ({ t with input := t.input ++ ([] : List UInt8).map A.decode } : Tempo A) = t := by
        rw [List.map_nil, List.append_nil]
      rw [push, if_neg whole, same, addFrames_stop (fun ready => stop ready.2), Option.map_some,
        emit_frames sound, ← given, List.drop_eq_nil_of_le (List.length_take_le _ _), List.map_nil]
  splits t settled xs ys := by
    by_cases whole : t.pace.tempo = 1
    · simp only [push, if_pos whole, Chunks.andThen_some, Option.map_some]
    · obtain ⟨sound, -, -⟩ := settled.resolve_left whole
      obtain ⟨t₁, first, stop, added, pushed⟩ := push_some whole sound xs
      have sound₁ : ({ t₁ with emitted := t₁.frame * outputHop } : Tempo A).Sound :=
        ⟨added.sound.reaches, le_refl _⟩
      have whole₁ : ({ t₁ with emitted := t₁.frame * outputHop } : Tempo A).pace.tempo ≠ 1 := by
        show t₁.pace.tempo ≠ 1
        rw [added.pace]
        exact whole
      obtain ⟨t₂, second, stop₂, added₂, pushed₂⟩ := push_some whole₁ sound₁ ys
      obtain ⟨t₃, third, -, -, pushed₃⟩ := push_some whole sound (xs ++ ys)
      -- At once, the frames are those of the first piece and then those of the second.
      have goesOn : (t.goOn ((xs ++ ys).map A.decode) t.emitted) =
          (t.goOn (xs.map A.decode) t.emitted).goOn (ys.map A.decode) t.emitted := by
        simp only [goOn, List.map_append, List.append_assoc]
      have same : t₃ = t₂.goOn [] t.emitted := by
        have later := addFrames_emitted (t := t₁.goOn (ys.map A.decode) (t₁.frame * outputHop))
          ⟨added.sound.reaches, le_refl _⟩ second stop₂ t.emitted
        have nothing : (t₁.goOn (ys.map A.decode) (t₁.frame * outputHop)).goOn [] t.emitted =
            t₁.goOn (ys.map A.decode) t.emitted := by
          simp only [goOn, List.append_nil]
        have sound' : (t.goOn (xs.map A.decode) t.emitted).Sound := ⟨sound.reaches, sound.emitted⟩
        rw [goesOn, addFrames_goOn sound' first, ← nothing, later] at third
        exact (Option.some.inj third).symm
      have input : t₂.input ++ [] = t₂.input := List.append_nil _
      subst same
      rw [pushed, Chunks.andThen_some, pushed₂, pushed₃, Option.map_some]
      have given := given_append (e := t.emitted) added₂.kept
        (sound.emitted.trans (Nat.mul_le_mul_right _ added.frame))
        (Nat.mul_le_mul_right outputHop added₂.frame) added.sound.frames
      simp only [goOn, input, given, List.map_append]
  kept t settled xs given t' pushed := by
    by_cases whole : t.pace.tempo = 1
    · rw [push, if_pos whole] at pushed
      obtain ⟨-, rfl⟩ := Prod.mk.inj (Option.some.inj pushed)
      exact settled
    · obtain ⟨sound, -, -⟩ := settled.resolve_left whole
      obtain ⟨t₁, -, stop, added, same⟩ := push_some whole sound xs
      obtain ⟨-, rfl⟩ := Prod.mk.inj (Option.some.inj (pushed.symm.trans same))
      exact emitted_settled added.sound stop

/-- The end of a stream, without a panic. -/
theorem finished_some {t : Tempo A} (sound : t.Sound) : ∃ last, t.finished = some last ∧
    last.output.take (t.frame * outputHop) = t.output.take (t.frame * outputHop) := by
  obtain ⟨last, result, added, -⟩ := addFrames_some
    (fun frame => decide (frame * outputHop < t.wanted + outputHop))
    (t.goOn (List.replicate (windowLength + search + ⌊t.analysisHop⌋₊ + outputHop) A.silence) t.emitted)
    ⟨sound.reaches, sound.emitted⟩
  exact ⟨last, result, added.kept⟩

theorem finish_some {t : Tempo A} (settled : t.Settled) : ∃ rest, t.finish = some rest := by
  unfold finish
  by_cases whole : t.pace.tempo = 1
  · exact ⟨[], if_pos whole⟩
  · obtain ⟨last, result, -⟩ := finished_some (settled.resolve_left whole).1
    exact ⟨_, by rw [if_neg whole, result, Option.map_some]⟩

theorem push_defined {t : Tempo A} (settled : t.Settled) (audio : List UInt8) :
    ∃ out t', t.push audio = some (out, t') := by
  by_cases whole : t.pace.tempo = 1
  · exact ⟨audio, t, by rw [push, if_pos whole]⟩
  · obtain ⟨t', -, -, -, pushed⟩ := push_some whole (settled.resolve_left whole).1 audio
    exact ⟨_, _, pushed⟩

/-- **What was given out stays as it is**: it is the output so far, and neither a push nor the end of the
stream changes it. -/
structure Final (out : List UInt8) (s t : Tempo A) : Prop where
  given : out = (s.output.take s.emitted).map A.encode
  kept : t.output.take s.emitted = s.output.take s.emitted
  finished : ∀ last, t.finished = some last → last.output.take s.emitted = s.output.take s.emitted

theorem final_of_pushes {tempo : ℚ} {s t : Tempo A} {audio more out out' : List UInt8}
    (stretches : (Pace.clamp tempo).tempo ≠ 1) (first : (new A tempo).push audio = some (out, s))
    (second : s.push more = some (out', t)) : Final out s t := by
  have sound : (new A tempo).Sound := ⟨rfl, le_refl _⟩
  obtain ⟨s', -, stop, added, pushed⟩ := push_some stretches sound audio
  obtain ⟨rfl, rfl⟩ := Prod.mk.inj (Option.some.inj (first.symm.trans pushed))
  have sound' : ({ s' with emitted := s'.frame * outputHop } : Tempo A).Sound :=
    ⟨added.sound.reaches, le_refl _⟩
  have stretches' : ({ s' with emitted := s'.frame * outputHop } : Tempo A).pace.tempo ≠ 1 := by
    show s'.pace.tempo ≠ 1
    rw [added.pace]
    exact stretches
  obtain ⟨t', -, -, added', pushed'⟩ := push_some stretches' sound' more
  obtain ⟨-, rfl⟩ := Prod.mk.inj (Option.some.inj (second.symm.trans pushed'))
  have kept : t'.output.take (s'.frame * outputHop) = s'.output.take (s'.frame * outputHop) := added'.kept
  refine ⟨rfl, kept, fun last result => ?_⟩
  obtain ⟨last', result', later⟩ := finished_some
    (t := { t' with emitted := t'.frame * outputHop }) ⟨added'.sound.reaches, le_refl _⟩
  obtain rfl := Option.some.inj (result.symm.trans result')
  have grows : s'.frame * outputHop ≤ t'.frame * outputHop := Nat.mul_le_mul_right _ added'.frame
  have cut := congrArg (List.take (s'.frame * outputHop)) later
  rw [List.take_take, List.take_take, min_eq_left grows] at cut
  exact cut.trans kept

/-- **A stream in pieces is the whole clip**: no piece panics, the pieces give what the clip gives, and
what a piece gave out is never changed afterwards. -/
theorem stream_is_clip (A : Arithmetic) (tempo : ℚ) (chunks : List (List UInt8)) :
    ∃ out t rest, Chunks.feed push (new A tempo) chunks = some (out, t) ∧ t.finish = some rest ∧
      stretch A tempo chunks.flatten = some (out ++ rest) ∧
      ((Pace.clamp tempo).tempo ≠ 1 → ∀ before after, chunks = before ++ after →
        ∃ sofar s, Chunks.feed push (new A tempo) before = some (sofar, s) ∧ Final sofar s t) := by
  have settled := new_settled A tempo
  obtain ⟨out, t, pushed⟩ := push_defined settled chunks.flatten
  have settled' := push_seamless.kept _ settled _ _ _ pushed
  obtain ⟨rest, ends⟩ := finish_some settled'
  have fed := push_seamless.feed_flatten settled
  refine ⟨out, t, rest, (fed chunks).trans pushed, ends, ?_, fun stretches before after split => ?_⟩
  · simp only [stretch, pushed, ends, Option.bind_eq_bind, Option.bind_some]
  · obtain ⟨sofar, s, first⟩ := push_defined settled before.flatten
    have settled₁ := push_seamless.kept _ settled _ _ _ first
    obtain ⟨out', t', second⟩ := push_defined settled₁ after.flatten
    have whole := push_seamless.splits _ settled before.flatten after.flatten
    rw [← List.flatten_append, ← split, pushed, first, Chunks.andThen_some, second] at whole
    obtain ⟨-, rfl⟩ := Prod.mk.inj (Option.some.inj whole)
    exact ⟨sofar, s, (fed before).trans first, final_of_pushes stretches first second⟩

end Stream

end Tempo

end Callora.Audio
