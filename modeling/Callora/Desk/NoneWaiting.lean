/-
**The desk: no phone left ringing, no caller left waiting.**

Once a transfer is taken, every leg that was created is the winner's, has ended, or is cancelled
(`stopped`). Where every leg ended and none was given the caller, the caller is told, or has left
(`told_or_left`): a caller who left first is not (`leftFirst_notTold`). Both hold in every run.

`Tended` is the invariant: as long as the transfer is free the entry knows every leg, and a look at
whether all failed is on its way; what takes the transfer stops the legs.
-/
import Callora.Desk.Steps

set_option linter.unusedSectionVars false

namespace Callora.Desk

open Runs World

/-- The leg ended, or it was cancelled, or a handler is about to. -/
def Over (t : List Act) (w : World) (leg : String) : Prop :=
  .ended leg ∈ t ∨ .asked (.cancel leg) ∈ t ∨ ∃ jobs ∈ w.tasks, .cancel leg ∈ jobs

/-- The transfer was taken for a reason the caller knows of. -/
def Answered (t : List Act) : Prop := (∃ leg, Joined t leg) ∨ .left ∈ t ∨ .gaveUp ∈ t

/-- A handler is about to look whether all failed. -/
def World.looks (w : World) : Prop := ∃ jobs ∈ w.tasks, .giveUpIfAllFailed ∈ jobs

/-! ### What stays -/

section Monotone

variable {a : Asked} {t acts : List Act} {w w' : World} {i : Input} {leg : String}

theorem Answered.append (answered : Answered t) : Answered (t ++ acts) := by
  rcases answered with ⟨leg, joined⟩ | left | gone
  · exact .inl ⟨leg, Joined.append.mpr (.inl joined)⟩
  · exact .inr (.inl (List.mem_append_left _ left))
  · exact .inr (.inr (List.mem_append_left _ gone))

/-- A job that is not the one taken stays in its handler. -/
theorem exists_job_set {tasks : List (List Job)} {task : ℕ} {first job : Job} {jobs jobs' : List Job}
    (here : tasks[task]? = some (first :: jobs)) (kept : ∀ other ∈ jobs, other ∈ jobs')
    (other : job ≠ first) (known : ∃ jobs ∈ tasks, job ∈ jobs) :
    ∃ jobs ∈ tasks.set task jobs', job ∈ jobs := by
  by_cases mine : job ∈ first :: jobs
  · have later := (List.mem_cons.mp mine).resolve_left other
    have bound : task < tasks.length := (List.getElem?_eq_some_iff.mp here).1
    exact ⟨jobs', List.mem_set bound jobs', kept job later⟩
  · exact Pools.exists_set here mine known

theorem exists_job_spawn {job : Job} {more : List Job} (known : ∃ jobs ∈ w.tasks, job ∈ jobs) :
    ∃ jobs ∈ (w.spawn more).tasks, job ∈ jobs := by
  obtain ⟨jobs, listed, here⟩ := known
  exact ⟨jobs, List.mem_append_left _ listed, here⟩

theorem spawned {job : Job} {more : List Job} (listed : job ∈ more) :
    ∃ jobs ∈ (w.spawn more).tasks, job ∈ jobs :=
  ⟨more, List.mem_append_right _ (List.mem_singleton_self _), listed⟩

/-- A leg that is over stays over. -/
theorem Over.append (past : Over t w leg)
    (jobs : (∃ jobs ∈ w.tasks, .cancel leg ∈ jobs) → .asked (.cancel leg) ∈ acts ∨
      ∃ jobs ∈ w'.tasks, .cancel leg ∈ jobs) : Over (t ++ acts) w' leg := by
  rcases past with ended | asked | due
  · exact .inl (List.mem_append_left _ ended)
  · exact .inr (.inl (List.mem_append_left _ asked))
  · exact .inr ((jobs due).imp_left (List.mem_append_right _))

theorem Happens.past (happens : Happens a w i acts w') (past : Over t w leg) :
    Over (t ++ acts) w' leg := by
  refine past.append fun due => ?_
  cases happens with
  | rungSome | takeUnrung | expired | abandoned | counted | answeredAgain | answeredLate | won | left
  | conferenceEnded => exact .inr (exists_job_spawn due)
  | @redirect task ok caller twiml jobs here =>
    refine .inr (exists_job_set here ?_ (fun h => nomatch h) due)
    intro other listed
    split
    · exact listed
    · exact List.mem_cons_of_mem _ listed
  | @cancel task ok other jobs here =>
    by_cases same : other = leg
    · exact .inl (same ▸ List.mem_singleton_self _)
    · refine .inr (exists_job_set here (fun _ h => h) ?_ due)
      exact fun h => same (Job.cancel.inj h).symm
  | hangup here | looked here | endedForgotten here =>
    exact .inr (exists_job_set here (fun _ h => h) (fun h => nomatch h) due)
  | allFailed here =>
    exact .inr (exists_job_set here (fun _ h => List.mem_cons_of_mem _ h) (fun h => nomatch h) due)
  | conferenceOver here =>
    exact .inr (exists_job_set here (fun _ h => List.mem_append_right _ h) (fun h => nomatch h) due)
  | _ => exact .inr due

end Monotone

/-! ### What the entry knows of the legs -/

/-- What the entry says of the legs. -/
structure Transfer.Knows (t : List Act) (w : World) (x : Transfer) : Prop where
  made : ∀ leg ∈ x.legs, .created leg ∈ t
  free : x.taken = false → ∀ leg, .created leg ∈ t → leg ∈ x.legs
  taken : x.taken → ∀ leg, .created leg ∈ t → x.winner = some leg ∧ leg ∈ x.legs ∨ Over t w leg
  noted : ∀ leg ∈ x.ended, .ended leg ∈ t
  counted : x.taken = false → ∀ leg, .ended leg ∈ t → leg ∈ x.ended
  winner : ∀ leg, x.winner = some leg → x.taken ∧ Joined t leg
  answered : x.taken → Answered t

/-- An act that makes and ends no leg. -/
def Act.isAside : Act → Bool
  | .created _ | .ended _ => false
  | _ => true

namespace Transfer.Knows

variable {a : Asked} {t acts : List Act} {w w' : World} {i : Input} {x x' : Transfer}

theorem before {act : Act} (aside : ∀ act ∈ acts, act.isAside) (busy : act.isAside = false)
    (listed : act ∈ t ++ acts) : act ∈ t := by
  rcases List.mem_append.mp listed with before | now
  · exact before
  · simp [aside act now] at busy

/-- The entry goes on with the same legs, taken or not as before. -/
theorem goesOn (knows : x.Knows t w) (past : ∀ leg, Over t w leg → Over (t ++ acts) w' leg)
    (aside : ∀ act ∈ acts, act.isAside) (taken : x'.taken = x.taken) (winner : x'.winner = x.winner)
    (legs : x'.legs = x.legs) (ended : x'.ended = x.ended) : x'.Knows (t ++ acts) w' where
  made leg known := List.mem_append_left _ (knows.made leg (legs ▸ known))
  free free leg created := legs ▸ knows.free (taken ▸ free) leg (before aside rfl created)
  taken h leg created := by
    rw [winner, legs]
    exact (knows.taken (taken ▸ h) leg (before aside rfl created)).imp_right (past leg)
  noted leg listed := List.mem_append_left _ (knows.noted leg (ended ▸ listed))
  counted free leg past := ended ▸ knows.counted (taken ▸ free) leg (before aside rfl past)
  winner leg same := by
    rw [taken]
    exact (knows.winner leg (winner ▸ same)).imp_right fun joined => Joined.append.mpr (.inl joined)
  answered h := (knows.answered (taken ▸ h)).append

/-- **What takes the transfer from every leg** stops those the entry knows. -/
theorem closed (knows : x.Knows t w) (past : ∀ leg, Over t w leg → Over (t ++ acts) w' leg)
    (aside : ∀ act ∈ acts, act.isAside) (stopped : ∀ leg ∈ x.legs, ∃ jobs ∈ w'.tasks, .cancel leg ∈ jobs)
    (answered : Answered (t ++ acts)) :
    { x with taken := true, winner := none, legs := [] }.Knows (t ++ acts) w' where
  made leg known := absurd known List.not_mem_nil
  free taken := nomatch taken
  taken _ leg created := by
    have created := before aside rfl created
    refine .inr ?_
    by_cases taken : x.taken
    · rcases knows.taken taken leg created with ⟨-, known⟩ | gone
      · exact .inr (.inr (stopped leg known))
      · exact past leg gone
    · exact .inr (.inr (stopped leg (knows.free (by simpa using taken) leg created)))
  noted leg listed := List.mem_append_left _ (knows.noted leg listed)
  counted taken := nomatch taken
  winner leg same := nomatch same
  answered _ := answered

/-- Taken without a winner, where every leg the entry knows is over. -/
theorem take (knows : x.Knows t w) (past : ∀ leg, Over t w leg → Over (t ++ acts) w' leg)
    (aside : ∀ act ∈ acts, act.isAside) (all : x.taken = false → ∀ leg ∈ x.legs, leg ∈ x.ended)
    (answered : Answered (t ++ acts)) : x.take.Knows (t ++ acts) w' where
  made leg known := List.mem_append_left _ (knows.made leg known)
  free taken := nomatch taken
  taken _ leg created := by
    have created := before aside rfl created
    by_cases taken : x.taken
    · exact (knows.taken taken leg created).imp_right (past leg)
    · have free : x.taken = false := by simpa using taken
      have ended := knows.noted leg (all free leg (knows.free free leg created))
      exact .inr (.inl (List.mem_append_left _ ended))
  noted leg listed := List.mem_append_left _ (knows.noted leg listed)
  counted taken := nomatch taken
  winner leg same := ⟨rfl, Joined.append.mpr (.inl (knows.winner leg same).2)⟩
  answered _ := answered

/-- A leg is created: the entry knows it, or it is cancelled. -/
theorem legCreated (knows : x.Knows t w) {leg : String}
    (past : ∀ leg, Over t w leg → Over (t ++ acts) w' leg)
    (now : .created leg ∈ acts) (made : ∀ act ∈ acts, act = .created leg ∨ act.isAside)
    (kept : x.taken → x.winner = some leg ∨ .asked (.cancel leg) ∈ acts) :
    { x with legs := x.legs ++ [leg] }.Knows (t ++ acts) w' := by
  have earlier : ∀ other, .created other ∈ t ++ acts → .created other ∈ t ∨ other = leg := by
    intro other listed
    rcases List.mem_append.mp listed with before | now
    · exact .inl before
    · rcases made _ now with same | aside
      · exact .inr (Act.created.inj same)
      · exact nomatch aside
  refine ⟨?_, ?_, ?_, fun other listed => List.mem_append_left _ (knows.noted other listed), ?_, ?_,
    fun taken => (knows.answered taken).append⟩
  · intro other known
    rcases List.mem_append.mp known with before | same
    · exact List.mem_append_left _ (knows.made other before)
    · exact List.mem_append_right _ (List.mem_singleton.mp same ▸ now)
  · intro free other created
    rcases earlier other created with before | rfl
    · exact List.mem_append_left _ (knows.free free other before)
    · exact List.mem_append_right _ (List.mem_singleton_self _)
  · intro taken other created
    rcases earlier other created with before | rfl
    · rcases knows.taken taken other before with ⟨winner, known⟩ | gone
      · exact .inl ⟨winner, List.mem_append_left _ known⟩
      · exact .inr (past other gone)
    · rcases kept taken with winner | cancelled
      · exact .inl ⟨winner, List.mem_append_right _ (List.mem_singleton_self _)⟩
      · exact .inr (.inr (.inl (List.mem_append_right _ cancelled)))
  · intro free other ended
    rcases List.mem_append.mp ended with before | now
    · exact knows.counted free other before
    · rcases made _ now with same | aside
      · exact nomatch same
      · exact nomatch aside
  · intro other winner
    exact (knows.winner other winner).imp_right fun joined => Joined.append.mpr (.inl joined)

/-- The winner is gone: it ended. -/
theorem winnerEnded (knows : x.Knows t w) {leg : String}
    (past : ∀ leg, Over t w leg → Over (t ++ acts) w' leg)
    (taken : x.taken) (winner : x.winner = some leg) (ended : .ended leg ∈ acts)
    (made : ∀ other, .created other ∉ acts) :
    { x with winner := none }.Knows (t ++ acts) w' where
  made other known := List.mem_append_left _ (knows.made other known)
  free free := absurd taken (by simpa using free)
  taken _ other created := by
    have before := (List.mem_append.mp created).resolve_right (made other)
    rcases knows.taken taken other before with ⟨same, -⟩ | gone
    · obtain rfl : leg = other := Option.some.inj (winner.symm.trans same)
      exact .inr (.inl (List.mem_append_right _ ended))
    · exact .inr (past other gone)
  noted other listed := List.mem_append_left _ (knows.noted other listed)
  counted free := absurd taken (by simpa using free)
  winner leg same := nomatch same
  answered _ := (knows.answered taken).append

/-- A leg ended that did not hold the caller. -/
theorem legEnded (knows : x.Knows t w) {leg : String} {ended : List String}
    (past : ∀ other, Over t w other → Over (t ++ [Act.ended leg]) w' other)
    (noted : ∀ other ∈ ended, other ∈ x.ended ∨ other = leg)
    (counted : x.taken = false → ∀ other, other ∈ x.ended ∨ other = leg → other ∈ ended) :
    { x with ended := ended }.Knows (t ++ [Act.ended leg]) w' := by
  have created : ∀ other, .created other ∈ t ++ [.ended leg] → .created other ∈ t := by
    intro other listed
    simpa using listed
  refine ⟨fun other known => List.mem_append_left _ (knows.made other known),
    fun free other made => knows.free free other (created other made), ?_, ?_, ?_, ?_,
    fun taken => (knows.answered taken).append⟩
  · intro taken other made
    exact (knows.taken taken other (created other made)).imp_right (past other)
  · intro other listed
    rcases noted other listed with before | rfl
    · exact List.mem_append_left _ (knows.noted other before)
    · exact List.mem_append_right _ (List.mem_singleton_self _)
  · intro free other gone
    refine counted free other ?_
    rcases List.mem_append.mp gone with before | now
    · exact .inl (knows.counted free other before)
    · exact .inr (Act.ended.inj (List.mem_singleton.mp now))
  · intro other winner
    exact (knows.winner other winner).imp_right fun joined => Joined.append.mpr (.inl joined)

/-- A leg is given the caller, and the others are stopped. -/
theorem won (knows : x.Knows t w) {leg url : String} (free : x.taken = false)
    (stopped : ∀ other ∈ x.legs, other ≠ leg → ∃ jobs ∈ w'.tasks, .cancel other ∈ jobs) :
    { x with taken := true, winner := some leg }.Knows (t ++ [Act.replied leg (x.join url)]) w' where
  made other known := List.mem_append_left _ (knows.made other known)
  free taken := nomatch taken
  taken _ other created := by
    have known := knows.free free other (by simpa using created)
    by_cases same : other = leg
    · exact .inl ⟨same ▸ rfl, known⟩
    · exact .inr (.inr (.inr (stopped other known same)))
  noted other listed := List.mem_append_left _ (knows.noted other listed)
  counted taken := nomatch taken
  winner other same := by
    obtain rfl := Option.some.inj same
    exact ⟨rfl, _, _, _, _, List.mem_append_right _ (List.mem_singleton_self _)⟩
  answered _ := .inl ⟨leg, _, _, _, _, List.mem_append_right _ (List.mem_singleton_self _)⟩

end Transfer.Knows

/-! ### Where the transfer stands -/

theorem looks_eq {w w' : World} (tasks : w'.tasks = w.tasks) : w'.looks ↔ w.looks := by
  rw [World.looks, World.looks, tasks]

/-- What the entry says of where the transfer stands. -/
structure Transfer.Stands (w : World) (x : Transfer) : Prop where
  looked : x.taken = false → x.dialed → w.dialing = .unrung ∨
    (x.legs ≠ [] ∧ (w.looks ∨ ∃ leg ∈ x.legs, leg ∉ x.ended))
  unrung : x.taken = false → w.dialing = .unrung → x.legs = []
  dialed : w.dialing = .unrung ∨ w.dialing = .returned true → x.dialed
  returned : w.dialing ≠ .returned false
  waited : w.armed = false → x.taken ∨ w.dialing = .moving

namespace Transfer.Stands

variable {w w' : World} {x x' : Transfer}

/-- Once the transfer is taken there is nothing to look for. -/
theorem of_taken (taken : x'.taken)
    (dialed : w'.dialing = .unrung ∨ w'.dialing = .returned true → x'.dialed)
    (returned : w'.dialing ≠ .returned false) : x'.Stands w' where
  looked free := absurd taken (by simpa using free)
  unrung free := absurd taken (by simpa using free)
  dialed := dialed
  returned := returned
  waited _ := .inl taken

/-- The numbers are still being rung. -/
theorem of_ringing (stands : x.Stands w) (under : w.dialing ≠ .unrung)
    (stays : w.looks → w'.looks) (taken : x'.taken = x.taken) (dialed : x'.dialed = x.dialed)
    (legs : ∃ more, x'.legs = x.legs ++ more) (ended : x'.ended = x.ended)
    (ringing : w'.dialing ≠ .unrung ∧ ∀ moved, w'.dialing ≠ .returned moved)
    (armed : w'.armed = false → w.armed = false ∧ w.dialing ≠ .moving) : x'.Stands w' where
  looked := by
    intro free isDialed
    obtain ⟨more, legs⟩ := legs
    rcases stands.looked (taken ▸ free) (dialed ▸ isDialed) with unrung | ⟨some, rest⟩
    · exact absurd unrung under
    · rw [legs, ended]
      refine .inr ⟨by simp [some], rest.imp stays ?_⟩
      rintro ⟨leg, known, waiting⟩
      exact ⟨leg, List.mem_append_left _ known, waiting⟩
  unrung _ here := absurd here ringing.1
  dialed h := (h.elim ringing.1 (ringing.2 true)).elim
  returned := ringing.2 false
  waited := by
    intro unarmed
    obtain ⟨before, rung⟩ := armed unarmed
    exact .inl (taken ▸ (stands.waited before).resolve_right rung)

/-- Nothing that the transfer stands on changes. -/
theorem stay (stands : x.Stands w) (looks : w.looks → w'.looks) (dialing : w'.dialing = w.dialing)
    (armed : w'.armed = false → w.armed = false ∨ x.taken) : x.Stands w' where
  looked free dialed := by
    rw [dialing]
    exact (stands.looked free dialed).imp_right fun ⟨legs, rest⟩ => ⟨legs, rest.imp_left looks⟩
  unrung free here := stands.unrung free (dialing ▸ here)
  dialed h := stands.dialed (dialing ▸ h)
  returned := dialing ▸ stands.returned
  waited unarmed := by
    rw [dialing]
    exact (armed unarmed).elim stands.waited .inl

end Transfer.Stands

/-- What holds after every run. -/
structure Tended (t : List Act) (w : World) : Prop where
  knows : ∀ x, w.entry = some x → x.Knows t w
  stands : ∀ x, w.entry = some x → x.Stands w
  forgotten : w.entry = none → w.dialing = .returned false ∨ (w.dialing = .returned true ∧ Answered t)

namespace Tended

variable {a : Asked} {t acts : List Act} {w w' : World} {i : Input} {x x' : Transfer}

theorem opened (a : Asked) : Tended [] (.opened a) where
  knows := by
    rintro x ⟨⟩
    refine ⟨?_, ?_, ?_, ?_, ?_, ?_, ?_⟩ <;> simp [Transfer.opened]
  stands := by
    rintro x ⟨⟩
    refine ⟨?_, ?_, ?_, ?_, ?_⟩ <;> simp [Transfer.opened, World.opened]
  forgotten none := nomatch none

theorem present (entry : w'.entry = some x') (knows : x'.Knows (t ++ acts) w') (stands : x'.Stands w') :
    Tended (t ++ acts) w' where
  knows := by
    intro x here
    obtain rfl := Option.some.inj (entry.symm.trans here)
    exact knows
  stands := by
    intro x here
    obtain rfl := Option.some.inj (entry.symm.trans here)
    exact stands
  forgotten none := by simp [entry] at none

/-- The entry stays. -/
theorem still (tended : Tended t w) (past : ∀ leg, Over t w leg → Over (t ++ acts) w' leg)
    (aside : ∀ act ∈ acts, act.isAside) (entry : w'.entry = w.entry)
    (stands : ∀ x, w.entry = some x → x.Stands w → x.Stands w')
    (dialing : ∀ moved, w.dialing = .returned moved → w'.dialing = .returned moved) :
    Tended (t ++ acts) w' where
  knows x here := (tended.knows x (entry ▸ here)).goesOn past aside rfl rfl rfl rfl
  stands x here := stands x (entry ▸ here) (tended.stands x (entry ▸ here))
  forgotten none := by
    rcases tended.forgotten (entry ▸ none) with failed | ⟨returned, answered⟩
    · exact .inl (dialing _ failed)
    · exact .inr ⟨dialing _ returned, answered.append⟩

/-- Only handlers under way change. -/
theorem handled (tended : Tended t w) (past : ∀ leg, Over t w leg → Over (t ++ acts) w' leg)
    (aside : ∀ act ∈ acts, act.isAside) (entry : w'.entry = w.entry) (dialing : w'.dialing = w.dialing)
    (armed : w'.armed = w.armed) (looks : w.looks → w'.looks) : Tended (t ++ acts) w' :=
  tended.still past aside entry
    (fun _ _ stands => stands.stay looks dialing fun unarmed => .inl (armed ▸ unarmed))
    fun _ returned => dialing.trans returned

/-- The numbers are still being rung. -/
theorem ringing (tended : Tended t w) (past : ∀ leg, Over t w leg → Over (t ++ acts) w' leg)
    (aside : ∀ act ∈ acts, act.isAside) (entry : w'.entry = w.entry) (tasks : w'.tasks = w.tasks)
    (under : w.dialing ≠ .unrung ∧ ∀ moved, w.dialing ≠ .returned moved)
    (rings : w'.dialing ≠ .unrung ∧ ∀ moved, w'.dialing ≠ .returned moved)
    (armed : w'.armed = false → w.armed = false ∧ w.dialing ≠ .moving) : Tended (t ++ acts) w' := by
  refine tended.still past aside entry (fun x _ stands => ?_) fun moved past =>
    absurd past (under.2 moved)
  exact stands.of_ringing under.1 (fun looks => by rwa [looks_eq tasks]) rfl rfl ⟨[], by simp⟩ rfl rings
    armed

theorem step (tended : Tended t w) (happens : Happens a w i acts w') : Tended (t ++ acts) w' := by
  have past : ∀ leg, Over t w leg → Over (t ++ acts) w' leg := fun _ => happens.past
  have spawned : ∀ more, w.looks → (w.spawn more).looks := fun _ => exists_job_spawn
  have gone : (∀ moved, w.dialing ≠ .returned moved) → w.entry ≠ none := by
    intro under none
    rcases tended.forgotten none with failed | ⟨returned, -⟩
    · exact under false failed
    · exact under true returned
  cases happens with
  | idle => exact tended.handled past (by simp) rfl rfl rfl id
  | moved moving =>
    exact tended.ringing past (by simp) rfl rfl (by simp [moving]) (by simp) (by simp)
  | notMoved moving =>
    exact ⟨fun x h => absurd h (Option.some_ne_none x).symm,
      fun x h => absurd h (Option.some_ne_none x).symm,
      fun _ => .inl rfl⟩
  | loopOver at_ | dialFailed at_ | cancelled at_ =>
    exact tended.ringing past (by simp) rfl rfl (by simp [at_]) (by simp) (by simp [at_])
  | ring number at_ =>
    exact tended.ringing past (by simp [Act.isAside]) rfl rfl (by simp [at_]) (by simp) (by simp [at_])
  | rungForgotten rung entry => exact absurd entry (gone (by simp [rung]))
  | createdForgotten leg dialing entry => exact absurd entry (gone (by simp [dialing]))
  | @rungTaken x rung entry taken =>
    exact .present rfl ((tended.knows x entry).goesOn past (by simp) rfl rfl rfl rfl)
      (.of_taken taken (fun _ => rfl) (by simp))
  | @rungNone x rung entry free legs =>
    refine .present rfl ((tended.knows x entry).goesOn past (by simp) rfl rfl rfl rfl)
      ⟨fun _ _ => .inl rfl, fun _ _ => legs, fun _ => rfl, by simp, fun unarmed => ?_⟩
    exact .inl (((tended.stands x entry).waited unarmed).resolve_right (by simp [rung]))
  | @rungSome x rung entry free legs =>
    refine .present rfl ((tended.knows x entry).goesOn past (by simp) rfl rfl rfl rfl)
      ⟨fun _ _ => .inr ⟨legs, .inl (Callora.Desk.spawned (by simp))⟩, by simp [World.spawn],
        fun _ => rfl, by simp [World.spawn],
        fun unarmed => ?_⟩
    exact .inl (((tended.stands x entry).waited unarmed).resolve_right (by simp [rung]))
  | takeUnrung unrung =>
    obtain ⟨x, entry⟩ := Option.ne_none_iff_exists'.mp (gone (by simp [unrung]))
    have stands := tended.stands x entry
    have dialed := stands.dialed (.inl unrung)
    refine .present (by simp only [World.spawn, entry, Option.map_some])
      ((tended.knows x entry).take past (by simp [Act.isAside]) ?_ (.inr (.inr (by simp))))
      (.of_taken rfl (fun _ => dialed) (by simp [World.spawn]))
    intro free leg known
    simp [stands.unrung free unrung] at known
  | @createdLate numbers attempted x leg dialing entry taken lost =>
    refine .present rfl ((tended.knows x entry).legCreated past (by simp) ?_ fun _ => .inr (by simp))
      (.of_taken taken (by simp) (by simp))
    simp [Act.isAside]
  | @created numbers attempted x leg dialing entry kept =>
    refine .present rfl
      ((tended.knows x entry).legCreated past (by simp) (by simp) fun taken => .inl (kept taken)) ?_
    exact (tended.stands x entry).of_ringing (by simp [dialing]) id rfl rfl ⟨[leg], rfl⟩ rfl (by simp)
      (by simp [dialing])
  | notExpired stays =>
    exact tended.still past (by simp) rfl
      (fun x here stands => stands.stay id rfl fun _ => .inr (stays x here)) fun _ h => h
  | @expired x armed entry may =>
    have stands := tended.stands x entry
    refine .present rfl ((tended.knows x entry).closed past (by simp [Act.isAside]) ?_
      (.inr (.inr (by simp)))) (.of_taken rfl stands.dialed stands.returned)
    exact fun leg known => Callora.Desk.spawned (by simp [known])
  | @winnerLeft x leg status entry taken winner =>
    have stands := tended.stands x entry
    exact .present rfl ((tended.knows x entry).winnerEnded past taken winner (by simp) (by simp))
      (.of_taken taken stands.dialed stands.returned)
  | @abandoned x leg status entry taken winner waiting =>
    have stands := tended.stands x entry
    exact .present rfl ((tended.knows x entry).winnerEnded past taken winner (by simp) (by simp))
      (.of_taken taken stands.dialed stands.returned)
  | @endedLate x leg status entry taken lost =>
    exact .present entry ((tended.knows x entry).legEnded past (fun _ => .inl) fun free => by
      simp [taken] at free)
      (tended.stands x entry)
  | @counted x leg status ended entry free noted =>
    have stands := tended.stands x entry
    refine .present rfl ((tended.knows x entry).legEnded past (fun other => (noted other).mp)
      fun _ other => (noted other).mpr) ⟨?_, stands.unrung, stands.dialed, stands.returned, stands.waited⟩
    intro free dialed
    refine (stands.looked free dialed).imp_right fun left => ⟨left.1, .inl ?_⟩
    exact Callora.Desk.spawned (by simp)
  | unknown leg entry => exact tended.handled past (by simp [Act.isAside]) rfl rfl rfl id
  | answeredAgain entry winner =>
    exact tended.handled past (by simp [Act.isAside]) rfl rfl rfl (spawned _)
  | answeredLate entry lost => exact tended.handled past (by simp [Act.isAside]) rfl rfl rfl (spawned _)
  | @won x leg entry free fresh =>
    have stands := tended.stands x entry
    refine .present rfl ((tended.knows x entry).won free ?_) (.of_taken rfl stands.dialed stands.returned)
    exact fun other known different => Callora.Desk.spawned (by simp [known, different])
  | leftForgotten entry => exact tended.handled past (by simp [Act.isAside]) rfl rfl rfl id
  | @left x entry =>
    have stands := tended.stands x entry
    refine .present rfl ((tended.knows x entry).closed past (by simp [Act.isAside]) ?_
      (.inr (.inl (by simp)))) (.of_taken rfl stands.dialed stands.returned)
    exact fun leg known => Callora.Desk.spawned (by simp [known])
  | @started x event entry held =>
    have knows := tended.knows x entry
    have stands := tended.stands x entry
    obtain ⟨leg, winner⟩ := Option.isSome_iff_exists.mp held
    exact .present rfl (knows.goesOn past (by simp [Act.isAside]) rfl rfl rfl rfl)
      (.of_taken (knows.winner leg winner).1 stands.dialed stands.returned)
  | conferenceEnded event => exact tended.handled past (by simp) rfl rfl rfl (spawned _)
  | redirect here =>
    refine tended.handled past (by simp [Act.isAside]) rfl rfl rfl ?_
    refine exists_job_set here ?_ (fun h => by cases h)
    intro other listed
    split
    · exact listed
    · exact List.mem_cons_of_mem _ listed
  | hangup here | cancel here | endedForgotten here =>
    exact tended.handled past (by simp [Act.isAside]) rfl rfl rfl
      (exists_job_set here (fun _ h => h) (fun h => by cases h))
  | @looked task ok jobs here not =>
    refine tended.still past (by simp) rfl (fun x entry stands => ?_) fun _ h => h
    refine ⟨?_, stands.unrung, stands.dialed, stands.returned, stands.waited⟩
    intro free dialed
    refine (stands.looked free dialed).imp_right fun left => ⟨left.1, .inr ?_⟩
    -- the look found a leg that has not ended
    simpa [Transfer.giveUpIfAllFailed, free, dialed, left.1] using not x entry
  | @allFailed task ok jobs x here entry free all =>
    have stands := tended.stands x entry
    exact .present rfl ((tended.knows x entry).take past (by simp [Act.isAside]) (fun _ => all)
      (.inr (.inr (by simp)))) (.of_taken rfl stands.dialed stands.returned)
  | @conferenceOver task ok jobs x here entry =>
    have stands := tended.stands x entry
    have bound : task < w.tasks.length := (List.getElem?_eq_some_iff.mp here).1
    refine .present rfl ((tended.knows x entry).closed past (by simp [Act.isAside]) ?_
      (.inr (.inl (by simp)))) (.of_taken rfl stands.dialed stands.returned)
    exact fun leg known => ⟨_, List.mem_set bound _, by simp [known]⟩
  | @forget moved returned unarmed =>
    refine ⟨fun x h => absurd h (Option.some_ne_none x).symm,
      fun x h => absurd h (Option.some_ne_none x).symm,
      fun _ => ?_⟩
    cases entry : w.entry with
    | none => simpa using tended.forgotten entry
    | some x =>
      have stands := tended.stands x entry
      have taken := (stands.waited unarmed).resolve_right (by simp [returned])
      refine .inr ⟨?_, ((tended.knows x entry).answered taken).append⟩
      cases moved with
      | true => exact returned
      | false => exact absurd returned stands.returned

end Tended

theorem tended (a : Asked) (inputs : List Input) :
    Tended (trace (events (World.step a) (.opened a) inputs))
    (final (World.step a) (.opened a) inputs) := by
  refine run_induction (C := fun _ _ => True) (P := fun evs w => Tended (trace evs) w) (.opened a) ?_
    fun _ _ _ _ => trivial
  intro pre w i tended _
  rw [trace_append, trace_single]
  exact tended.step (Happens.of_step a w i)

/-! ### The promises -/

/-- The loop over the numbers is over, and no handler is under way. -/
def World.quiet (w : World) : Prop := w.dialing = .returned true ∧ ∀ jobs ∈ w.tasks, jobs = []

/-- Every leg that was created ended, and none was given the caller. -/
def AllEnded (t : List Act) : Prop :=
  (∀ leg, .created leg ∈ t → .ended leg ∈ t) ∧ ∀ leg, ¬ Joined t leg

/-- What a run promises: a leg of a taken transfer is the winner's, or is over; a caller whom no one
answered is told. -/
structure NoneWaiting (t : List Act) (w : World) : Prop where
  stopped : ∀ x, w.entry = some x → x.taken →
    (w.dialing = .unrung ∨ ∃ moved, w.dialing = .returned moved) →
    ∀ leg, .created leg ∈ t → x.winner = some leg ∨ Over t w leg
  told : w.quiet → AllEnded t → ∃ act ∈ t, act.isRedirect

/-- What a run promises: a leg of a taken transfer is the winner's, or is over; a caller whom no one
answered is told, or left. -/
structure NoneLeftWaiting (t : List Act) (w : World) : Prop where
  stopped : ∀ x, w.entry = some x → x.taken →
    (w.dialing = .unrung ∨ ∃ moved, w.dialing = .returned moved) →
    ∀ leg, .created leg ∈ t → x.winner = some leg ∨ Over t w leg
  told : w.quiet → AllEnded t → (∃ act ∈ t, act.isRedirect) ∨ .left ∈ t

/-- **No phone is left ringing and no caller left waiting**, in every run. -/
theorem noneLeftWaiting (a : Asked) (inputs : List Input) :
    NoneLeftWaiting (trace (events (World.step a) (.opened a) inputs))
      (final (World.step a) (.opened a) inputs) where
  stopped := by
    intro x entry taken _ leg created
    exact (((tended a inputs).knows x entry).taken taken leg created).imp_left And.left
  told := by
    intro quiet allEnded
    have answered : Answered (trace (events (World.step a) (.opened a) inputs)) := by
      cases entry : (final (World.step a) (.opened a) inputs).entry with
      | none =>
        rcases (tended a inputs).forgotten entry with failed | ⟨-, answered⟩
        · simp [quiet.1] at failed
        · exact answered
      | some x =>
        have knows := (tended a inputs).knows x entry
        have stands := (tended a inputs).stands x entry
        by_cases taken : x.taken
        · exact knows.answered taken
        · -- a transfer that is free has a look on its way, or a leg that has not ended
          have free : x.taken = false := by simpa using taken
          exfalso
          rcases stands.looked free (stands.dialed (.inr quiet.1)) with unrung | ⟨legs, looks | waiting⟩
          · simp [quiet.1] at unrung
          · obtain ⟨jobs, listed, look⟩ := looks
            simp [quiet.2 jobs listed] at look
          · obtain ⟨leg, known, notEnded⟩ := waiting
            exact notEnded (knows.counted free leg (allEnded.1 leg (knows.made leg known)))
    rcases answered with ⟨leg, joined⟩ | left | gone
    · exact absurd joined (allEnded.2 leg)
    · exact .inr left
    · -- what was decided was asked for, as nothing is due any more
      have none : (final (World.step a) (.opened a) inputs).due = 0 :=
        Pools.weight_eq_zero fun jobs listed => by rw [quiet.2 jobs listed]; rfl
      have decided := issued a inputs
      rw [none, Nat.add_zero] at decided
      refine .inl (List.countP_pos_iff.mp ?_)
      rw [decided]
      exact List.count_pos_iff.mpr gone

/-- The caller leaves while the only desk number rings, which is then cancelled. -/
def leftFirst : List Input :=
  [.moved true, .go, .dialed (some "CA1"), .callerEnded, .run 0 true,
    .legEnded "CA1" "canceled", .go, .go]

theorem trace_leftFirst : trace (events (World.step .oneNumber) (.opened .oneNumber) leftFirst) =
    [.asked (Asked.oneNumber.dial "+972501234567"), .created "CA1", .left, .asked (.cancel "CA1"),
      .ended "CA1"] := by
  decide

/-- Every leg ended and none was given the caller, who left and is not told. -/
theorem leftFirst_notTold :
    ¬ ∀ (a : Asked) (inputs : List Input),
      NoneWaiting (trace (events (World.step a) (.opened a) inputs))
        (final (World.step a) (.opened a) inputs) := by
  intro all
  have told := (all .oneNumber leftFirst).told
  rw [trace_leftFirst] at told
  have quiet : (final (World.step .oneNumber) (.opened .oneNumber) leftFirst).quiet :=
    ⟨by decide, by decide⟩
  obtain ⟨act, listed, redirect⟩ := told quiet ⟨by simp, by simp [Joined]⟩
  simp only [List.mem_cons, List.not_mem_nil, or_false] at listed
  rcases listed with rfl | rfl | rfl | rfl | rfl <;> cases redirect

end Callora.Desk
