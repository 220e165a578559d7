/-
**No words of the caller are dropped or answered twice: when.**

A second hearing's result starts the agent on its words whatever the agent is doing. Where a guess
was taken for a later final meanwhile, that final's request is replaced and its words are gone.
Short words the rules make nothing of are put aside as noise where the agent failed on them, by
design.

- `calm` is what keeps a step from the first;
- `Sound` is what then holds: the words that wait are in the order they were said, one place after
  the other, and a guess has none; `Settles` says what a handler does with them;
- `step_aside`: words are put aside only where the agent failed and the rules make nothing of them,
  or where they were held and do not pass the filters;
- `settledOnce_of_calm`: so every final is settled once.
-/
import Callora.Answering.Pending

set_option linter.unusedSectionVars false

namespace Callora.Answering

open Runs
open Text (Unicode isAlphanumeric trim trimEndMatches)

/-! ### What keeps words from being replaced -/

/-- At this step: a second hearing's result comes only while the agent does not think about a final. -/
def calm (ev : Event) : Bool :=
  match ev.input, ev.before.secondPending, ev.before.pendingAgent with
  | .secondHearing id, some (i, _), some p => i ≠ id || p.speculative
  | _, _, _ => true

/-- Every step of the run is calm. -/
def Calm (evs : List Event) : Prop := ∀ ev ∈ evs, calm ev

instance (evs : List Event) : Decidable (Calm evs) :=
  inferInstanceAs (Decidable (∀ ev ∈ evs, calm ev))

/-! ### Traces -/

section Traces

variable {settles : Act → Option Transcript} {t acts : List Act}

@[simp] theorem heard_append : heard (t ++ acts) = heard t ++ heard acts := List.flatMap_append

@[simp] theorem finalsOf_append : finalsOf settles
    (t ++ acts) = finalsOf settles t ++ finalsOf settles acts := by
  rw [finalsOf, List.filterMap_append, List.flatMap_append]
  rfl

@[simp] theorem heard_heard (final : Final) : heard (.heard final :: acts) = final :: heard acts := rfl

@[simp] theorem finalsOf_heard (final : Final) :
    finalsOf Act.settled (.heard final :: acts) = finalsOf Act.settled acts :=
  rfl

theorem finalsOf_single {act : Act} {transcript : Transcript} (is : settles act = some transcript) :
    finalsOf settles [act] = transcript.finals := by
  simp [finalsOf, is]

end Traces

/-! ### What waits, in order -/

/-- The finals that stand before others. -/
def Earlier (fs gs : List Final) : Prop := ∀ f ∈ fs, ∀ g ∈ gs, f.number < g.number

section Sound

variable [Unicode]

theorem Transcript.Ordered.join {a b : Transcript} (first : a.Ordered) (second : b.Ordered)
    (earlier : Earlier a.finals b.finals) : (a.join b).Ordered := by
  refine ⟨List.pairwise_append.mpr ⟨first.1, second.1, earlier⟩, ?_⟩
  show words (a.text ++ " " ++ b.text) = _
  rw [words_append, first.2, second.2]
  exact List.flatMap_append.symm

/-- The same finals in other words that are the same. -/
theorem Transcript.Ordered.same {a : Transcript} (ordered : a.Ordered) {text : String}
    (same : words text = words a.text) : Transcript.Ordered ⟨text, a.finals⟩ :=
  ⟨ordered.1, same.trans ordered.2⟩

structure Sound (w : World) : Prop where
  /-- What waits is in the order it was said: the second hearing's words, the agent's, and the
  unfinished ones. -/
  ordered : w.waiting.Pairwise fun a b => a.number < b.number
  before : ∀ f ∈ w.waiting, f.number < w.finals
  guess : ∀ p, w.pendingAgent = some p → p.speculative → p.transcript.finals = []
  thinking : ∀ p, w.pendingAgent = some p → p.speculative = false → p.transcript.Ordered
  second : ∀ p, w.secondPending = some p → p.2.Ordered
  unfinished : ∀ held, w.unfinished = some held → held.Ordered

/-- What a handler does with the finals that wait, and those it is given. -/
structure Settles (acts : List Act) (finals : List Final) (n : ℕ) (w' : World) : Prop where
  /-- Each is settled once, or waits. -/
  once : (finalsOf Act.settled acts ++ w'.waiting).Perm finals
  sound : Sound w'
  transcripts : ∀ act ∈ acts, ∀ transcript, act.settled = some transcript → transcript.Ordered
  quiet : heard acts = []
  count : w'.finals = n

variable {w : World} {transcript : Transcript}

/-- Nothing is settled, and all waits. -/
theorem Settles.waits {finals : List Final} {n : ℕ} (sound : Sound w) (all : w.waiting = finals)
    (count : w.finals = n) : Settles [] finals n w :=
  ⟨all ▸ List.Perm.refl _, sound, fun _ none => absurd none List.not_mem_nil, rfl, count⟩

/-- A transcript is settled, and the rest waits. -/
theorem Settles.settled {finals : List Final} {n : ℕ} {act : Act} (is : act.settled = some transcript)
    (ordered : transcript.Ordered) (sound : Sound w) (all : (transcript.finals ++ w.waiting).Perm finals)
    (count : w.finals = n) : Settles [act] finals n w := by
  refine ⟨by rw [finalsOf_single is]; exact all, sound, ?_, ?_, count⟩
  · intro act' listed transcript' is'
    obtain rfl := List.mem_singleton.mp listed
    exact Option.some.inj (is.symm.trans is') ▸ ordered
  · cases act <;> first | rfl | cases is

/-- The agent's request is over: the engine gets the words, or they are noise. -/
theorem finishAgent_eq {p : PendingAgent} (here : w.pendingAgent = some p) (ok : Bool) (fast : Fast) :
    ∃ act, act.settled = some p.transcript ∧
    w.finishAgent ok fast = ([act], { w with pendingAgent := none }) := by
  unfold World.finishAgent
  rw [here]
  cases ok with
  | true => exact ⟨_, rfl, rfl⟩
  | false =>
    cases fast with
    | noise => exact ⟨_, rfl, rfl⟩
    | understood => exact ⟨_, rfl, rfl⟩
    | empty =>
      by_cases few : (Text.splitWhitespace p.transcript.text).length ≤ SHORT_GARBAGE_WORDS
      · exact ⟨_, rfl, by simp only [if_pos few]; rfl⟩
      · exact ⟨_, rfl, by simp only [if_neg few]; rfl⟩

/-- Words that come after all that waits. -/
structure Comes (w : World) (transcript : Transcript) : Prop where
  ordered : transcript.Ordered
  later : Earlier w.waiting transcript.finals
  before : ∀ f ∈ transcript.finals, f.number < w.finals

/-- All that waits, and the words that come, in order. -/
theorem Comes.all_ordered (comes : Comes w transcript) (sound : Sound w) :
    (w.waiting ++ transcript.finals).Pairwise fun a b => a.number < b.number :=
  List.pairwise_append.mpr ⟨sound.ordered, comes.ordered.1, comes.later⟩

theorem Comes.all_before (comes : Comes w transcript) (sound : Sound w) :
    ∀ f ∈ w.waiting ++ transcript.finals, f.number < w.finals := by
  intro f listed
  rcases List.mem_append.mp listed with waits | new
  · exact sound.before f waits
  · exact comes.before f new

/-- What waits for its second hearing alone. -/
theorem waiting_second (idle : w.pendingAgent = none) (none : w.unfinished = none) :
    w.waiting = w.secondPending.elim [] fun p => p.2.finals := by
  rw [World.waiting, idle, none]
  simp

/-- The words under their second hearing come first. -/
theorem Sound.withEarlier (sound : Sound w) (idle : w.pendingAgent = none) (none : w.unfinished = none)
    (comes : Comes w transcript) :
    (w.withEarlier transcript).finals = w.waiting ++ transcript.finals ∧
    (w.withEarlier transcript).Ordered := by
  have second := waiting_second idle none
  unfold World.withEarlier
  split
  · rename_i i earlier here
    rw [here] at second
    refine ⟨by rw [second]; rfl, (sound.second _ here).join comes.ordered ?_⟩
    have later := comes.later
    rwa [second] at later
  · rename_i here
    rw [here] at second
    exact ⟨by rw [second]; rfl, comes.ordered⟩

/-- The words are answered by the rules, or wait after those before them. -/
theorem Sound.respond (sound : Sound w) (idle : w.pendingAgent = none) (none : w.unfinished = none)
    (comes : Comes w transcript) (ruling : Ruling) :
    Settles (w.respond transcript ruling).1 (w.waiting ++ transcript.finals) w.finals
      (w.respond transcript ruling).2 := by
  unfold World.respond
  by_cases fast : ruling.fastLane
  · rw [if_pos fast]
    exact .settled rfl comes.ordered sound List.perm_append_comm rfl
  rw [if_neg fast]
  obtain ⟨finals, ordered⟩ := sound.withEarlier idle none comes
  have before := comes.all_before sound
  rw [← finals] at before
  by_cases twice : ruling.hearsTwice
  · simp only [if_pos twice]
    have all : World.waiting { w with
        secondIds := w.secondIds + 1,
        secondPending := some (w.secondIds + 1, w.withEarlier transcript) } =
        (w.withEarlier transcript).finals := by
      simp [World.waiting, idle, none]
    refine .waits ⟨?_, ?_, ?_, ?_, ?_, ?_⟩ (all.trans finals) rfl
    · rw [all]
      exact ordered.1
    · rw [all]
      exact before
    · exact fun p here => absurd (idle.symm.trans here) nofun
    · exact fun p here => absurd (idle.symm.trans here) nofun
    · rintro p here
      obtain rfl := Option.some.inj here
      exact ordered
    · exact fun held here => absurd (none.symm.trans here) nofun
  · simp only [if_neg twice]
    have all : World.waiting
      ({ w with secondPending := .none }.startAgent (w.withEarlier transcript) false) =
        (w.withEarlier transcript).finals := by
      simp [World.startAgent, World.waiting, none]
    refine .waits ⟨?_, ?_, ?_, ?_, nofun, ?_⟩ (all.trans finals) rfl
    · rw [all]
      exact ordered.1
    · rw [all]
      exact before
    · rintro p here guess
      obtain rfl := Option.some.inj here
      cases guess
    · rintro p here -
      obtain rfl := Option.some.inj here
      exact ordered
    · exact fun held here => absurd (none.symm.trans here) nofun

/-- A request is over: what waits is the rest. -/
theorem Sound.finish (sound : Sound w) {p : PendingAgent} (here : w.pendingAgent = some p)
    (confirmed : p.speculative = false) (ok : Bool) (fast : Fast) :
    Settles (w.finishAgent ok fast).1 w.waiting w.finals (w.finishAgent ok fast).2 := by
  obtain ⟨act, is, same⟩ := finishAgent_eq here ok fast
  have rest : (World.waiting { w with pendingAgent := none }).Sublist w.waiting := by
    simp only [World.waiting, here, Option.elim_none, Option.elim_some, List.append_nil]
    exact List.Sublist.append (List.sublist_append_left _ _) (List.Sublist.refl _)
  rw [same]
  refine .settled is (sound.thinking p here confirmed)
    ⟨sound.ordered.sublist rest, fun f listed => ?_, nofun, nofun,
    sound.second, sound.unfinished⟩ ?_ rfl
  · exact sound.before f (rest.subset listed)
  · simp only [World.waiting, here, Option.elim_none, Option.elim_some, List.append_nil]
    rw [← List.append_assoc]
    exact List.Perm.append_right _ List.perm_append_comm

/-- A guess has the final's words: the request goes on for it. -/
theorem Sound.adopt (sound : Sound w) (none : w.unfinished = none) {p : PendingAgent}
    (here : w.pendingAgent = some p)
    (guess : p.speculative) (same : sameWords p.transcript.text transcript.text)
    (comes : Comes w transcript)
    (fast : Fast) :
    Settles (w.adoptSpeculation p transcript.finals fast).1 (w.waiting ++ transcript.finals) w.finals
      (w.adoptSpeculation p transcript.finals fast).2 := by
  have ordered : Transcript.Ordered ⟨p.transcript.text, transcript.finals⟩ :=
    comes.ordered.same (by simpa [sameWords] using same)
  have all : World.waiting { w with
      pendingAgent := some ⟨p.turn, ⟨p.transcript.text, transcript.finals⟩, false, .none⟩ } =
      w.waiting ++ transcript.finals := by
    simp [World.waiting, here, sound.guess p here guess, none]
  have adopted : Sound { w with
      pendingAgent := some ⟨p.turn, ⟨p.transcript.text, transcript.finals⟩, false, .none⟩ } := by
    refine ⟨?_, ?_, ?_, ?_, sound.second, sound.unfinished⟩
    · rw [all]
      exact comes.all_ordered sound
    · rw [all]
      exact comes.all_before sound
    · rintro q is guess
      obtain rfl := Option.some.inj is
      cases guess
    · rintro q is -
      obtain rfl := Option.some.inj is
      exact ordered
  unfold World.adoptSpeculation
  split
  · rename_i ok _
    have finished := adopted.finish rfl rfl ok fast
    rwa [all] at finished
  · exact .waits adopted all rfl

/-- What the agent thinks about is joined, or taken, or dropped. -/
theorem Sound.takeFinal (sound : Sound w) (none : w.unfinished = none) (comes : Comes w transcript)
    (ruling : Ruling) :
    Settles (w.takeFinal transcript ruling).1 (w.waiting ++ transcript.finals) w.finals
      (w.takeFinal transcript ruling).2 := by
  unfold World.takeFinal
  split
  · rename_i p here
    by_cases taken : p.speculative && sameWords p.transcript.text transcript.text
    · rw [if_pos taken]
      obtain ⟨guess, same⟩ := (Bool.and_eq_true _ _).mp taken
      exact sound.adopt none here guess same comes ruling.fast
    rw [if_neg taken]
    have split : w.waiting = World.waiting { w with pendingAgent := .none } ++ p.transcript.finals := by
      simp [World.waiting, here, none]
    have dropped : Sound { w with pendingAgent := .none } := by
      have rest :=
        List.sublist_append_left (World.waiting { w with pendingAgent := .none }) p.transcript.finals
      rw [← split] at rest
      exact ⟨sound.ordered.sublist rest, fun f listed => sound.before f (rest.subset listed),
        nofun, nofun,
        sound.second, sound.unfinished⟩
    by_cases guess : p.speculative
    · rw [if_pos guess]
      have same : World.waiting { w with pendingAgent := .none } = w.waiting := by
        rw [split, sound.guess p here guess, List.append_nil]
      have responds := dropped.respond rfl none ⟨comes.ordered, same ▸ comes.later, comes.before⟩ ruling
      rwa [same] at responds
    · rw [if_neg guess]
      have ordered := sound.ordered
      have before := sound.before
      have later := comes.later
      rw [split] at ordered before later
      obtain ⟨_, _, apart⟩ := List.pairwise_append.mp ordered
      have joined : Comes { w with pendingAgent := .none } (p.transcript.join transcript) := by
        refine ⟨(sound.thinking p here (by simpa using guess)).join comes.ordered ?_, ?_, ?_⟩
        · exact fun f listed => later f (List.mem_append_right _ listed)
        · intro f listed g new
          rcases List.mem_append.mp new with thought | come
          · exact apart f listed g thought
          · exact later f (List.mem_append_left _ listed) g come
        · intro f new
          rcases List.mem_append.mp new with thought | come
          · exact before f (List.mem_append_right _ thought)
          · exact comes.before f come
      have responds := dropped.respond rfl none joined ruling
      rw [split, List.append_assoc]
      exact responds
  · rename_i here
    exact sound.respond here none comes ruling

/-- `on_final_agent`. -/
theorem Sound.onFinalAgent (sound : Sound w) (none : w.unfinished = none) (comes : Comes w transcript)
    (ruling : Ruling) :
    Settles (w.onFinalAgent transcript ruling).1 (w.waiting ++ transcript.finals) w.finals
      (w.onFinalAgent transcript ruling).2 := by
  have cleared : Sound { w with lastPartial := "" } :=
    ⟨sound.ordered, sound.before, sound.guess, sound.thinking, sound.second, sound.unfinished⟩
  exact cleared.takeFinal none ⟨comes.ordered, comes.later, comes.before⟩ ruling

/-- The unfinished words are taken from those that wait. -/
theorem waiting_split :
    w.waiting = World.waiting { w with unfinished := none } ++ w.unfinished.elim
    [] fun held => held.finals := by
  simp [World.waiting]

theorem Sound.released (sound : Sound w) : Sound { w with unfinished := none } := by
  have rest := List.sublist_append_left (World.waiting { w with unfinished := none })
    (w.unfinished.elim [] fun held => held.finals)
  rw [← waiting_split] at rest
  exact ⟨sound.ordered.sublist rest, fun f listed => sound.before f (rest.subset listed),
    sound.guess, sound.thinking,
    sound.second, nofun⟩

/-- A broken sentence goes on with the words that come. -/
theorem Sound.withStart (sound : Sound w) (comes : Comes w transcript) :
    w.waiting ++ transcript.finals = World.waiting
    { w with unfinished := none } ++ (w.withStart transcript).finals ∧
      Comes { w with unfinished := none } (w.withStart transcript) := by
  have ordered := sound.ordered
  have before := sound.before
  have later := comes.later
  rw [waiting_split] at ordered before later
  unfold World.withStart
  split
  · rename_i start here
    rw [here] at ordered before later
    obtain ⟨_, _, apart⟩ := List.pairwise_append.mp ordered
    refine ⟨by rw [waiting_split, here, List.append_assoc]; rfl,
      (sound.unfinished start here).join comes.ordered ?_,
      ?_, ?_⟩
    · exact fun f listed => later f (List.mem_append_right _ listed)
    · intro f listed g new
      rcases List.mem_append.mp new with broken | come
      · exact apart f listed g broken
      · exact later f (List.mem_append_left _ listed) g come
    · intro f new
      rcases List.mem_append.mp new with broken | come
      · exact before f (List.mem_append_right _ broken)
      · exact comes.before f come
  · rename_i here
    refine ⟨by rw [waiting_split, here, Option.elim_none, List.append_nil], comes.ordered, ?_,
      comes.before⟩
    exact fun f listed => later f (List.mem_append_left _ listed)

/-- `on_final`, past its filters: a broken sentence waits, with what it goes on. -/
theorem Sound.onWords (sound : Sound w) (releasing : Bool) (comes : Comes w transcript)
    (ruling : Ruling) :
    Settles (w.onWords releasing transcript ruling).1 (w.waiting ++ transcript.finals) w.finals
      (w.onWords releasing transcript ruling).2 := by
  obtain ⟨all, whole⟩ := sound.withStart comes
  have rest := sound.released
  rw [all]
  unfold World.onWords
  by_cases broken : (isUnfinished (w.withStart transcript).text ||
    beginsARequest (w.withStart transcript).text) &&
      !releasing
  · simp only [if_pos broken]
    have held : World.waiting { w with
        unfinished := some (w.withStart transcript),
        unfinishedGeneration := w.unfinishedGeneration + 1 } =
        World.waiting { w with unfinished := none } ++ (w.withStart transcript).finals := by
      simp [World.waiting]
    refine .waits ⟨?_, ?_, sound.guess, sound.thinking, sound.second, ?_⟩ held rfl
    · rw [held]
      exact whole.all_ordered rest
    · rw [held]
      exact whole.all_before rest
    · rintro start is
      obtain rfl := Option.some.inj is
      exact whole.ordered
  · simp only [if_neg broken]
    exact rest.onFinalAgent rfl whole ruling

/-- Nothing happens. -/
theorem Sound.stays (sound : Sound w) : Settles [] w.waiting w.finals w := .waits sound rfl rfl

/-- A guess has no words of the caller. -/
theorem Sound.dropGuess (sound : Sound w) : Settles [] w.waiting w.finals w.dropGuess := by
  unfold World.dropGuess
  split
  · rename_i p here
    by_cases guess : p.speculative
    · rw [if_pos guess]
      have same : World.waiting { w with pendingAgent := none } = w.waiting := by
        simp [World.waiting, here, sound.guess p here guess]
      exact .waits ⟨same ▸ sound.ordered, same ▸ sound.before, nofun, nofun, sound.second,
        sound.unfinished⟩ same rfl
    · rw [if_neg guess]
      exact sound.stays
  · exact sound.stays

/-- A guess is made. -/
theorem Sound.speculate (sound : Sound w) (speculates : Bool) :
    Settles [] w.waiting w.finals (w.speculate speculates) := by
  unfold World.speculate
  by_cases cannot : !speculates || w.pendingAgent.isSome || (trim w.lastPartial).isEmpty
  · simp only [if_pos cannot]
    exact sound.stays
  · simp only [if_neg cannot]
    have idle : w.pendingAgent = none := by
      by_contra some
      exact cannot (by simp [Option.isSome_iff_ne_none.mpr some])
    have same : World.waiting (w.startAgent ⟨trim w.lastPartial, []⟩ true) = w.waiting := by
      simp [World.startAgent, World.waiting, idle]
    refine .waits ⟨same ▸ sound.ordered, same ▸ sound.before, ?_, ?_, sound.second,
      sound.unfinished⟩ same rfl
    · rintro p is -
      obtain rfl := Option.some.inj is
      rfl
    · rintro p is confirmed
      obtain rfl := Option.some.inj is
      cases confirmed

end Sound

/-! ### Every step settles words once -/

section Steps

variable [Unicode] {w : World}

/-- A second hearing's result, where the agent does not think about a final. -/
theorem Sound.secondHearing (sound : Sound w) (id : ℕ)
    (fit : calm (event World.step w (.secondHearing id))) :
    Settles (w.step (.secondHearing id)).1 w.waiting w.finals (w.step (.secondHearing id)).2 := by
  simp only [World.step]
  split
  · rename_i i transcript here
    by_cases own : i = id
    · rw [if_pos own]
      have idle : (w.pendingAgent.elim [] fun p => p.transcript.finals) = [] := by
        cases pending : w.pendingAgent with
        | none => rfl
        | some p =>
          have guess : p.speculative := by simpa [calm, here, pending, own] using fit
          exact sound.guess p pending guess
      have same : World.waiting ({ w with secondPending := none }.startAgent transcript false) =
        w.waiting := by
        rw [World.waiting, World.waiting, idle, here]
        simp [World.startAgent]
      refine .waits ⟨same ▸ sound.ordered, same ▸ sound.before, ?_, ?_, nofun, sound.unfinished⟩ same rfl
      · rintro p is guess
        obtain rfl := Option.some.inj is
        cases guess
      · rintro p is -
        obtain rfl := Option.some.inj is
        exact sound.second _ here
    · rw [if_neg own]
      exact sound.stays
  · exact sound.stays

/-- A broken sentence is released. -/
theorem Sound.unfinishedDue (sound : Sound w) (ellipsis : isAlphanumeric '…' = false) (generation : ℕ)
    (speaking : Bool) (ruling : Ruling) :
    Settles (w.step (.unfinishedDue generation speaking ruling)).1 w.waiting w.finals
      (w.step (.unfinishedDue generation speaking ruling)).2 := by
  simp only [World.step]
  by_cases due : generation = w.unfinishedGeneration ∧ speaking = false
  · rw [if_pos due]
    split
    · rename_i held here
      have all : w.waiting = World.waiting { w with unfinished := none } ++ held.finals := by
        rw [waiting_split, here]
        rfl
      have ordered := sound.ordered
      rw [all] at ordered ⊢
      have words : Transcript.Ordered
        ⟨trim (trimEndMatches brokenMarks.contains held.text), held.finals⟩ :=
        (sound.unfinished held here).same ((words_trim _).trans (words_released ellipsis _))
      by_cases nothing : (trim (trimEndMatches brokenMarks.contains held.text)).isEmpty || ruling.filtered
      · rw [if_pos nothing]
        exact .settled rfl (sound.unfinished held here) sound.released List.perm_append_comm rfl
      · rw [if_neg nothing]
        refine sound.released.onWords true
          ⟨words, (List.pairwise_append.mp ordered).2.2, fun f listed => ?_⟩ ruling
        exact sound.before f (all ▸ List.mem_append_right _ listed)
    · exact sound.stays
  · rw [if_neg due]
    exact sound.stays

/-- The agent decided, or failed. -/
theorem Sound.agentDone (sound : Sound w) (turn : ℕ) (ok : Bool) (fast : Fast) :
    Settles (w.step (.agentDone turn ok fast)).1 w.waiting w.finals
    (w.step (.agentDone turn ok fast)).2 := by
  simp only [World.step]
  split
  · rename_i p here
    by_cases other : p.turn ≠ turn
    · rw [if_pos other]
      exact sound.stays
    rw [if_neg other]
    by_cases guess : p.speculative
    · rw [if_pos guess]
      have same : World.waiting { w with pendingAgent := some { p with done := some ok } } =
        w.waiting := by
        simp [World.waiting, here]
      refine .waits ⟨same ▸ sound.ordered, same ▸ sound.before, ?_, ?_, sound.second,
        sound.unfinished⟩ same rfl
      · rintro q is -
        obtain rfl := Option.some.inj is
        exact sound.guess p here guess
      · rintro q is confirmed
        obtain rfl := Option.some.inj is
        exact sound.thinking p here confirmed
    · rw [if_neg guess]
      exact sound.finish here (by simpa using guess) ok fast
  · exact sound.stays

/-- What a step does: each final that waits, or is heard, is settled or waits. -/
structure Advances (acts : List Act) (w w' : World) : Prop where
  once : (finalsOf Act.settled acts ++ w'.waiting).Perm (w.waiting ++ heard acts)
  sound : Sound w'
  transcripts : ∀ act ∈ acts, ∀ transcript, act.settled = some transcript → transcript.Ordered
  numbered : heard acts = [] ∧ w'.finals = w.finals ∨
    ∃ final, heard acts = [final] ∧ final.number = w.finals ∧ w'.finals = w.finals + 1

theorem Settles.advances {acts : List Act} {w' : World} (settles : Settles acts w.waiting w.finals w') :
    Advances acts w w' := by
  refine ⟨?_, settles.sound, settles.transcripts, .inl ⟨settles.quiet, settles.count⟩⟩
  rw [settles.quiet, List.append_nil]
  exact settles.once

/-- A final that is heard, and what is done with it. -/
theorem Settles.heard {acts : List Act} {w' : World} {text : String}
    (settles : Settles acts (w.waiting ++ [⟨w.finals, text⟩]) (w.finals + 1) w') :
    Advances (.heard ⟨w.finals, text⟩ :: acts) w w' := by
  refine ⟨?_, settles.sound, ?_, .inr ⟨⟨w.finals, text⟩, ?_, rfl, settles.count⟩⟩
  · rw [finalsOf_heard, heard_heard, settles.quiet]
    exact settles.once
  · intro act listed transcript is
    rcases List.mem_cons.mp listed with rfl | later
    · cases is
    · exact settles.transcripts act later transcript is
  · rw [heard_heard, settles.quiet]

/-- A final transcript. -/
theorem Sound.final (sound : Sound w) (text : String) (ruling : Ruling) :
    Advances (w.step (.final text ruling)).1 w (w.step (.final text ruling)).2 := by
  simp only [World.step]
  by_cases nothing : (trim text).isEmpty || ruling.filtered
  · rw [if_pos nothing]
    exact sound.stays.advances
  rw [if_neg nothing]
  have counted : Sound { w with finals := w.finals + 1 } :=
    ⟨sound.ordered, fun f listed => Nat.lt_succ_of_lt (sound.before f listed), sound.guess,
      sound.thinking,
      sound.second, sound.unfinished⟩
  have comes : Comes { w with finals := w.finals + 1 } ⟨trim text, [⟨w.finals, text⟩]⟩ := by
    refine ⟨⟨List.pairwise_singleton _ _, ?_⟩, fun f listed g new => ?_, fun f new => ?_⟩
    · rw [words_trim]
      exact (List.append_nil _).symm
    · obtain rfl := List.mem_singleton.mp new
      exact sound.before f listed
    · obtain rfl := List.mem_singleton.mp new
      exact Nat.lt_succ_self _
  have settles := counted.onWords false comes ruling
  exact settles.heard

/-- **A calm step settles words once.** -/
theorem Sound.step (sound : Sound w) (ellipsis : isAlphanumeric '…' = false) (i : Input)
    (fit : calm (event World.step w i)) : Advances (w.step i).1 w (w.step i).2 := by
  cases i with
  | heardSoFar text =>
    have same : Sound { w with lastPartial := text } :=
      ⟨sound.ordered, sound.before, sound.guess, sound.thinking, sound.second, sound.unfinished⟩
    have waits : Settles [] w.waiting w.finals { w with lastPartial := text } := .waits same rfl rfl
    exact waits.advances
  | speechStarted => exact sound.dropGuess.advances
  | speechEnded speculates => exact (sound.speculate speculates).advances
  | final text ruling => exact sound.final text ruling
  | secondHearing id => exact (sound.secondHearing id fit).advances
  | unfinishedDue generation speaking ruling =>
    exact (sound.unfinishedDue ellipsis generation speaking ruling).advances
  | agentDone turn ok fast => exact (sound.agentDone turn ok fast).advances
  | noWords => exact sound.dropGuess.advances

end Steps

/-! ### What puts words aside -/

section Aside

variable [Unicode] {w : World}

/-- No words are put aside. -/
def Keeps (acts : List Act) : Prop := ∀ act ∈ acts, ∀ ev, act.Justified ev

theorem Keeps.nil : Keeps [] := fun _ none => absurd none List.not_mem_nil

/-- A request is over: its words are noise only where the agent failed and the rules make nothing of
them. -/
theorem finishAgent_aside {p : PendingAgent} (here : w.pendingAgent = some p) (ok : Bool) (fast : Fast) :
    Keeps (w.finishAgent ok fast).1 ∨
      (w.finishAgent ok fast).1 = [.noise p.transcript] ∧ ok = false ∧
      fast.Dismisses p.transcript.text := by
  have given (act : Act) (kept : ∀ ev, act.Justified ev) : Keeps [act] := fun act' listed ev => by
    rw [List.mem_singleton.mp listed]
    exact kept ev
  unfold World.finishAgent
  rw [here]
  cases ok with
  | true => exact .inl (given _ fun _ => trivial)
  | false =>
    cases fast with
    | noise => exact .inr ⟨rfl, rfl, .inl rfl⟩
    | understood => exact .inl (given _ fun _ => trivial)
    | empty =>
      by_cases few : (Text.splitWhitespace p.transcript.text).length ≤ SHORT_GARBAGE_WORDS
      · refine .inr ⟨?_, rfl, .inr ⟨rfl, few⟩⟩
        simp only [if_pos few]
        rfl
      · simp only [if_neg few]
        exact .inl (given _ fun _ => trivial)

theorem respond_keeps (w : World) (transcript : Transcript) (ruling : Ruling) :
    Keeps (w.respond transcript ruling).1 := by
  unfold World.respond
  by_cases fast : ruling.fastLane
  · rw [if_pos fast]
    intro act listed ev
    rw [List.mem_singleton.mp listed]
    trivial
  · rw [if_neg fast]
    by_cases twice : ruling.hearsTwice
    · simp only [if_pos twice]
      exact Keeps.nil
    · simp only [if_neg twice]
      exact Keeps.nil

/-- Words the agent is asked for are put aside at once only where it failed on a guess that has them. -/
theorem takeFinal_aside (w : World) (transcript : Transcript) (ruling : Ruling) :
    Keeps (w.takeFinal transcript ruling).1 ∨ ∃ p finals, w.pendingAgent = some p ∧ p.speculative ∧
    p.done = some false ∧
      ruling.fast.Dismisses p.transcript.text ∧
        (w.takeFinal transcript ruling).1 = [.noise ⟨p.transcript.text, finals⟩] := by
  unfold World.takeFinal
  split
  · rename_i p here
    by_cases taken : p.speculative && sameWords p.transcript.text transcript.text
    · rw [if_pos taken]
      unfold World.adoptSpeculation
      split
      · rename_i ok ended
        rcases finishAgent_aside (w := { w with
            pendingAgent := some ⟨p.turn, ⟨p.transcript.text, transcript.finals⟩, false, none⟩ })
              rfl ok ruling.fast with
          kept | ⟨noise, rfl, dismisses⟩
        · exact .inl kept
        · exact .inr ⟨p, transcript.finals, here, ((Bool.and_eq_true _ _).mp taken).1, ended,
            dismisses, noise⟩
      · exact .inl Keeps.nil
    · rw [if_neg taken]
      exact .inl (respond_keeps _ _ ruling)
  · exact .inl (respond_keeps w transcript ruling)

/-- A broken sentence is kept; others are as `takeFinal` has them. -/
theorem onWords_aside (w : World) (releasing : Bool) (transcript : Transcript) (ruling : Ruling) :
    Keeps (w.onWords releasing transcript ruling).1 ∨ ∃ p finals, w.pendingAgent = some p ∧
    p.speculative ∧
      p.done = some false ∧ ruling.fast.Dismisses p.transcript.text ∧
        (w.onWords releasing transcript ruling).1 = [.noise ⟨p.transcript.text, finals⟩] := by
  unfold World.onWords
  by_cases broken : (isUnfinished (w.withStart transcript).text ||
    beginsARequest (w.withStart transcript).text) &&
      !releasing
  · simp only [if_pos broken]
    exact .inl Keeps.nil
  · simp only [if_neg broken]
    exact takeFinal_aside { w with unfinished := none, lastPartial := "" } (w.withStart transcript) ruling

/-- **A step puts words aside only for a reason.** -/
theorem step_aside (w : World) (i : Input) :
    ∀ act ∈ (w.step i).1, act.Justified (event World.step w i) := by
  have guessed {acts : List Act} (ruling : Ruling) (given : i.fast = some ruling.fast)
      (aside : Keeps acts ∨ ∃ p finals, w.pendingAgent = some p ∧ p.speculative ∧ p.done = some false ∧
        ruling.fast.Dismisses p.transcript.text ∧ acts = [.noise ⟨p.transcript.text, finals⟩]) :
      ∀ act ∈ acts, act.Justified (event World.step w i) := by
    intro act listed
    rcases aside with kept | ⟨p, finals, here, guess, failed, dismisses, rfl⟩
    · exact kept act listed _
    · rw [List.mem_singleton.mp listed]
      exact ⟨p, ruling.fast, here, rfl, given, dismisses, .inr ⟨guess, failed⟩⟩
  cases i with
  | heardSoFar text => exact fun act listed => Keeps.nil act listed _
  | speechStarted => exact fun act listed => Keeps.nil act listed _
  | speechEnded speculates => exact fun act listed => Keeps.nil act listed _
  | noWords => exact fun act listed => Keeps.nil act listed _
  | final text ruling =>
    simp only [World.step]
    split
    · exact fun act listed => Keeps.nil act listed _
    · intro act listed
      rcases List.mem_cons.mp listed with rfl | later
      · trivial
      · exact guessed ruling rfl
          (onWords_aside { w with finals := w.finals + 1 } false _ ruling) act later
  | secondHearing id =>
    simp only [World.step]
    split
    · split
      · exact fun act listed => Keeps.nil act listed _
      · exact fun act listed => Keeps.nil act listed _
    · exact fun act listed => Keeps.nil act listed _
  | unfinishedDue generation speaking ruling =>
    simp only [World.step]
    split
    · rename_i due
      split
      · rename_i held here
        split
        · rename_i nothing
          intro act listed
          rw [List.mem_singleton.mp listed]
          refine ⟨ruling, ?_, here, (Bool.or_eq_true _ _).mp nothing⟩
          rw [event_input, event_before, due.1, due.2]
        · exact guessed ruling rfl (onWords_aside { w with unfinished := none } true _ ruling)
      · exact fun act listed => Keeps.nil act listed _
    · exact fun act listed => Keeps.nil act listed _
  | agentDone turn ok fast =>
    simp only [World.step]
    split
    · rename_i p here
      split
      · exact fun act listed => Keeps.nil act listed _
      · rename_i own
        split
        · exact fun act listed => Keeps.nil act listed _
        · rename_i confirmed
          intro act listed
          rcases finishAgent_aside here ok fast with kept | ⟨noise, rfl, dismisses⟩
          · exact kept act listed _
          · rw [noise] at listed
            rw [List.mem_singleton.mp listed]
            have same : p.turn = turn := not_not.mp own
            exact ⟨p, fast, here, rfl, rfl, dismisses,
              .inl ⟨by simpa using confirmed, by rw [event_input, same]⟩⟩
    · exact fun act listed => Keeps.nil act listed _

end Aside

/-! ### Every final is settled once -/

section Runs

variable [Unicode]

/-- What is kept, after every calm run. -/
structure Kept (evs : List Event) (w : World) : Prop where
  sound : Sound w
  answered : AnsweredOnce Act.settled evs w
  numbered : ∀ f ∈ heard (trace evs), f.number < w.finals

theorem Kept.opened : Kept [] World.opened := by
  refine ⟨⟨List.Pairwise.nil, nofun, nofun, nofun, nofun, nofun⟩,
    ⟨List.Perm.refl _, List.Pairwise.nil, ?_, ?_⟩, ?_⟩
  · exact fun _ none => absurd none List.not_mem_nil
  · exact fun _ none => absurd none List.not_mem_nil
  · exact fun _ none => absurd none List.not_mem_nil

theorem Kept.step {evs : List Event} {w : World} (kept : Kept evs w)
    (ellipsis : isAlphanumeric '…' = false)
    (i : Input) (fit : calm (event World.step w i)) :
    Kept (evs ++ [event World.step w i]) (w.step i).2 := by
  have advances := kept.sound.step ellipsis i fit
  have numbered : ∀ f ∈ heard (trace evs), f.number < (w.step i).2.finals := by
    intro f listed
    have before := kept.numbered f listed
    rcases advances.numbered with ⟨_, same⟩ | ⟨_, _, _, next⟩ <;> omega
  refine ⟨advances.sound, ⟨?_, ?_, ?_, ?_⟩, ?_⟩
  · rw [trace_append, trace_single, finalsOf_append, heard_append, List.append_assoc]
    refine (advances.once.append_left _).trans ?_
    rw [← List.append_assoc]
    exact kept.answered.once.append_right _
  · rw [trace_append, trace_single, heard_append]
    show (_ ++ heard (w.step i).1).Pairwise _
    refine List.pairwise_append.mpr ⟨kept.answered.distinct, ?_, ?_⟩
    · rcases advances.numbered with ⟨none, _⟩ | ⟨final, one, _⟩
      · rw [none]
        exact List.Pairwise.nil
      · rw [one]
        exact List.pairwise_singleton _ _
    · intro f listed g new
      rcases advances.numbered with ⟨none, _⟩ | ⟨final, one, is, _⟩
      · rw [none] at new
        exact absurd new List.not_mem_nil
      · rw [one] at new
        obtain rfl := List.mem_singleton.mp new
        rw [is]
        exact kept.numbered f listed
  · rw [trace_append, trace_single]
    intro act listed
    rcases List.mem_append.mp listed with before | new
    · exact kept.answered.ordered act before
    · exact advances.transcripts act new
  · intro ev listed
    rcases List.mem_append.mp listed with before | new
    · exact kept.answered.carried ev before
    · obtain rfl := List.mem_singleton.mp new
      intro f waits
      have still := advances.once.symm.subset (List.mem_append_left _ waits)
      exact (List.mem_append.mp still).symm
  · rw [trace_append, trace_single, heard_append]
    intro f listed
    rcases List.mem_append.mp listed with before | new
    · exact numbered f before
    · rcases advances.numbered with ⟨none, _⟩ | ⟨final, one, is, next⟩
      · have impossible : f ∈ ([] : List Final) := none ▸ new
        exact absurd impossible List.not_mem_nil
      · have same : f ∈ [final] := one ▸ new
        obtain rfl := List.mem_singleton.mp same
        show f.number < (w.step i).2.finals
        omega

/-- **No words of the caller are dropped or answered twice**, in every calm run: what is not given
to the engine is noise to an agent that failed, or does not pass the filters when it is released. -/
theorem settledOnce_of_calm (ellipsis : isAlphanumeric '…' = false) (inputs : List Input)
    (all : Calm (run inputs)) : SettledOnce (run inputs) (reached inputs) := by
  have kept : Kept (run inputs) (reached inputs) := by
    refine run_induction (C := fun _ ev => calm ev) (P := Kept) Kept.opened ?_
      fun pre ev post split =>
        all ev (by rw [run, split]; exact List.mem_append_right _ List.mem_cons_self)
    exact fun pre w i kept fit => kept.step ellipsis i fit
  refine ⟨kept.answered, fun ev listed act given => ?_⟩
  obtain ⟨-, -, is⟩ := invariant_at (P := fun _ => True) trivial (fun _ _ _ _ => trivial) all ev listed
  rw [is] at given ⊢
  exact step_aside ev.before ev.input act given

end Runs

/-- A street that is heard twice, and its number said meanwhile. -/
theorem street_settledOnce :
    let _ := Unicode.plain
    let inputs : List Input :=
      [.final "אני גר ב..." ⟨false, false, false, .empty⟩,
        .final "רחוב סוקולוב" ⟨false, false, true, .empty⟩,
        .heardSoFar "מספר 5", .speechEnded true, .secondHearing 1,
        .final "מספר 5." ⟨false, false, false, .empty⟩,
        .agentDone 3 true .empty]
    SettledOnce (run inputs) (reached inputs) :=
  let _ := Unicode.plain
  settledOnce_of_calm (by decide) _ (by decide)

/-- Words the agent failed on are noise, and a request is replaced by an earlier one. -/
theorem failed_notAnswered :
    let _ := Unicode.plain
    let failed : List Input := [.final "גרוש" ⟨false, false, false, .empty⟩, .agentDone 1 false .empty]
    let replaced : List Input :=
      [.final "רחוב סוקולוב" ⟨false, false, true, .empty⟩, .heardSoFar "שלושה אנשים", .speechEnded true,
        .final "שלושה אנשים." ⟨false, false, false, .empty⟩, .secondHearing 1]
    ¬ AnsweredOnce Act.given (run failed) (reached failed) ∧
      ¬ AnsweredOnce Act.given (run replaced) (reached replaced) := by
  intro _ failed replaced
  constructor
  · intro answered
    exact absurd answered.once (by decide)
  · intro answered
    exact absurd answered.once (by decide)

end Callora.Answering
