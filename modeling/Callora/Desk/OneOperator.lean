/-
**The desk: one operator, one apology.**

What a run promises (`OneOperator`): one leg is given the caller, a leg that ended, lost or answers
late is hung up on, and the caller is told at most once that no one is available: not after the
conference started, nor after they left, nor while a leg may still join.

`oneOperator_of_undisturbed`: so it is in every run where nothing takes the transfer between the
section of `transfer` that finds no leg and the one that takes it, and the caller's leaving is
handled while no redirect is due. A transfer the timeout takes in between is apologised for twice
(`timeout_apologisesTwice`).

`Agrees` relates the entry to what happened; every section of the lock keeps it. Nothing is given up
once the caller has left, so no redirect is due from then on (`Kept.leaves`).
-/
import Callora.Desk.Steps

set_option linter.unusedSectionVars false

namespace Callora.Desk

open Runs

/-- The leg must not be given the caller: it ended, another leg was given them, they left, or they are
told that no one is available. -/
def Shut (t : List Act) (leg : String) : Prop :=
  .ended leg ∈ t ∨ (∃ other, other ≠ leg ∧ Joined t other) ∨ .left ∈ t ∨ .gaveUp ∈ t

/-- The leg that may join. -/
def World.holder (w : World) : Option String := w.entry.bind (·.winner)

/-- What a run promises. -/
structure OneOperator (evs : List Event) : Prop where
  one : ∀ leg other, Joined (trace evs) leg → Joined (trace evs) other → other = leg
  hangsUp : Along (fun pre ev => ∀ leg, ev.input = .answered leg → Shut (trace pre) leg →
    ev.output = [.replied leg .hangup]) evs
  once : (trace evs).countP Act.isRedirect ≤ 1
  due : Along (fun pre ev => (∃ act ∈ ev.output, act.isRedirect) →
    .started ∉ trace pre ∧ .left ∉ trace pre ∧ ev.before.holder = none) evs

/-! ### What the entry says of what happened -/

/-- What an act says of the entry from then on. -/
def Act.Fits (x : Transfer) : Act → Prop
  | .replied leg (.deskJoin ..) => x.taken ∧ (x.winner = none ∨ x.winner = some leg)
  | .ended leg => x.winner ≠ some leg ∧ (x.taken ∨ leg ∈ x.ended)
  | .left | .gaveUp => x.taken ∧ x.winner = none
  | .started => x.taken ∧ x.connected
  | _ => True

/-- The entry agrees with what happened. -/
structure Transfer.Agrees (t : List Act) (x : Transfer) : Prop where
  taken : x.winner.isSome → x.taken
  fits : ∀ act ∈ t, act.Fits x

/-- A later state of the entry. -/
structure Transfer.Later (x x' : Transfer) : Prop where
  taken : x.taken → x'.taken
  winner : x.taken → x'.winner = none ∨ x'.winner = x.winner
  ended : ∀ leg ∈ x.ended, leg ∈ x'.ended
  open_ : ∀ leg ∈ x.ended, x.taken = false → x'.winner ≠ some leg
  connected : x.connected → x'.connected

namespace Transfer.Later

variable {x x' : Transfer}

theorem fits {act : Act} (later : Later x x') (fits : act.Fits x) : act.Fits x' := by
  cases act with
  | replied leg twiml =>
    cases twiml with
    | deskJoin s l c u =>
      obtain ⟨taken, winner⟩ := fits
      refine ⟨later.taken taken, ?_⟩
      rcases later.winner taken with gone | same
      · exact .inl gone
      · exact winner.imp same.trans same.trans
    | _ => trivial
  | ended leg =>
    obtain ⟨other, taken | noted⟩ := fits
    · refine ⟨?_, .inl (later.taken taken)⟩
      rcases later.winner taken with gone | same
      · simp [gone]
      · exact same ▸ other
    · by_cases taken : x.taken
      · refine ⟨?_, .inl (later.taken taken)⟩
        rcases later.winner taken with gone | same
        · simp [gone]
        · exact same ▸ other
      · exact ⟨later.open_ leg noted (by simpa using taken), .inr (later.ended leg noted)⟩
  | left | gaveUp =>
    obtain ⟨taken, winner⟩ := fits
    refine ⟨later.taken taken, ?_⟩
    rcases later.winner taken with gone | same
    · exact gone
    · exact same.trans winner
  | started => exact ⟨later.taken fits.1, later.connected fits.2⟩
  | _ => trivial

theorem refl (x : Transfer) (agrees : x.winner.isSome → x.taken) : Later x x where
  taken h := h
  winner _ := .inr rfl
  ended _ h := h
  open_ leg _ free same := by simp [agrees (by simp [same])] at free
  connected h := h

end Transfer.Later

namespace Transfer.Agrees

variable {t acts : List Act} {x x' : Transfer}

theorem opened (a : Asked) : (Transfer.opened a).Agrees [] where
  taken h := absurd h Bool.false_ne_true
  fits _ h := absurd h List.not_mem_nil

/-- **A section keeps the agreement**: the entry goes on, and what happens now fits it. -/
theorem step (agrees : x.Agrees t) (later : Later x x') (taken : x'.winner.isSome → x'.taken)
    (now : ∀ act ∈ acts, act.Fits x') : x'.Agrees (t ++ acts) where
  taken := taken
  fits := by
    intro act listed
    rcases List.mem_append.mp listed with before | new
    · exact later.fits (agrees.fits act before)
    · exact now act new

theorem stay (agrees : x.Agrees t) (now : ∀ act ∈ acts, act.Fits x) : x.Agrees (t ++ acts) :=
  agrees.step (.refl x agrees.taken) agrees.taken now

end Transfer.Agrees

/-! ### The sections keep the agreement -/

namespace Transfer

variable {t : List Act} {x : Transfer} {leg : String}

/-- A transfer that may still be given up was not given up, its conference did not start, and the
caller is there. -/
theorem Agrees.undecided (agrees : x.Agrees t) (may : x.taken → x.winner.isSome ∧ x.connected = false) :
    .gaveUp ∉ t ∧ .started ∉ t ∧ .left ∉ t := by
  refine ⟨fun gone => ?_, fun began => ?_, fun left => ?_⟩
  · obtain ⟨taken, none⟩ := agrees.fits _ gone
    have := (may taken).1
    simp [none] at this
  · obtain ⟨taken, connected⟩ := agrees.fits _ began
    simp [(may taken).2] at connected
  · obtain ⟨taken, none⟩ := agrees.fits _ left
    have := (may taken).1
    simp [none] at this

theorem Agrees.joined (agrees : x.Agrees t) (joined : Joined t leg) :
    x.taken ∧ (x.winner = none ∨ x.winner = some leg) := by
  obtain ⟨s, l, c, u, listed⟩ := joined
  exact agrees.fits _ listed

theorem Agrees.legCreated (agrees : x.Agrees t) {acts : List Act}
    (now : ∀ act ∈ acts, act.Fits { x with legs := x.legs ++ [leg] }) :
    { x with legs := x.legs ++ [leg] }.Agrees (t ++ acts) :=
  agrees.step ⟨id, fun _ => .inr rfl, fun _ h => h, (Later.refl x agrees.taken).open_, id⟩
    agrees.taken now

theorem Agrees.dialed (agrees : x.Agrees t) : { x with dialed := true }.Agrees (t ++ []) :=
  agrees.step ⟨id, fun _ => .inr rfl, fun _ h => h, (Later.refl x agrees.taken).open_, id⟩
    agrees.taken fun _ none => absurd none List.not_mem_nil

/-- What takes the transfer from every leg. -/
theorem Later.closed (x : Transfer) (legs : List String) :
    Later x { x with taken := true, winner := none, legs := legs } where
  taken _ := rfl
  winner _ := .inl rfl
  ended _ h := h
  open_ _ _ _ h := nomatch h
  connected h := h

theorem Agrees.closed (agrees : x.Agrees t) (legs : List String) {act : Act}
    (act_eq : act = .left ∨ act = .gaveUp) :
    { x with taken := true, winner := none, legs := legs }.Agrees (t ++ [act]) := by
  refine agrees.step (Later.closed x legs) (fun _ => rfl) ?_
  intro other listed
  obtain rfl := List.mem_singleton.mp listed
  rcases act_eq with rfl | rfl <;> exact ⟨rfl, rfl⟩

theorem Agrees.taken_free (agrees : x.Agrees t) (free : x.taken = false) : x.winner = none := by
  by_contra held
  have := agrees.taken (Option.isSome_iff_ne_none.mpr held)
  simp [free] at this

theorem Agrees.take (agrees : x.Agrees t) (free : x.taken = false) :
    x.take.Agrees (t ++ [Act.gaveUp]) := by
  have none := agrees.taken_free free
  refine agrees.step ⟨fun _ => rfl, fun _ => .inr rfl, fun _ h => h,
    fun leg _ _ => by simp [Transfer.take, none],
    fun h => h⟩ (fun _ => rfl) ?_
  intro act listed
  obtain rfl := List.mem_singleton.mp listed
  exact ⟨rfl, none⟩

theorem Agrees.start (agrees : x.Agrees t) (held : x.winner.isSome) :
    { x with connected := true }.Agrees (t ++ [Act.started]) := by
  refine agrees.step ⟨id, fun _ => .inr rfl, fun _ h => h, (Later.refl x agrees.taken).open_,
    fun _ => rfl⟩ agrees.taken ?_
  intro act listed
  obtain rfl := List.mem_singleton.mp listed
  exact ⟨agrees.taken held, rfl⟩

/-- The winner is gone: it ended. -/
theorem Agrees.winnerEnded (agrees : x.Agrees t) (taken : x.taken) {acts : List Act}
    (acts_eq : acts = [.ended leg] ∨ acts = [.ended leg, .gaveUp]) :
    { x with winner := none }.Agrees (t ++ acts) := by
  refine agrees.step ⟨id, fun _ => .inl rfl, fun _ h => h, (fun _ _ _ h => nomatch h), id⟩
    (fun h => absurd h Bool.false_ne_true) ?_
  have ended : Act.Fits { x with winner := none } (.ended leg) :=
    ⟨(fun h => nomatch h), .inl taken⟩
  rcases acts_eq with rfl | rfl
  · simpa using ended
  · simp only [List.mem_cons, List.not_mem_nil, or_false, forall_eq_or_imp, forall_eq]
    exact ⟨ended, taken, rfl⟩

theorem Agrees.legCounted (agrees : x.Agrees t) (free : x.taken = false) {ended : List String}
    (noted : ∀ other, other ∈ ended ↔ other ∈ x.ended ∨ other = leg) :
    { x with ended := ended }.Agrees (t ++ [Act.ended leg]) := by
  have none := agrees.taken_free free
  refine agrees.step ⟨id, fun _ => .inr rfl, fun other h => (noted other).mpr (.inl h),
    fun _ _ _ => by simp [none], id⟩ agrees.taken ?_
  intro act listed
  obtain rfl := List.mem_singleton.mp listed
  exact ⟨by simp [none], .inr ((noted leg).mpr (.inr rfl))⟩

theorem Agrees.won (agrees : x.Agrees t) (free : x.taken = false) (fresh : leg ∉ x.ended)
    (statusUrl : String) :
    { x with taken := true, winner := some leg }.Agrees (t ++ [Act.replied leg (x.join statusUrl)]) := by
  refine agrees.step ⟨fun _ => rfl, fun taken => by simp [free] at taken, fun _ h => h, ?_, id⟩
    (fun _ => rfl) ?_
  · rintro other noted - same
    obtain rfl := Option.some.inj same
    exact fresh noted
  · intro act listed
    obtain rfl := List.mem_singleton.mp listed
    exact ⟨rfl, .inr rfl⟩

end Transfer

/-! ### One step -/

/-- What holds after every undisturbed run. -/
structure Kept (t : List Act) (w : World) : Prop where
  agrees : ∀ x, w.entry = some x → x.Agrees t
  present : w.entry = none → ∃ moved, w.dialing = .returned moved
  once : t.count .gaveUp ≤ 1
  started : .gaveUp ∈ t → .started ∉ t
  one : ∀ leg other, Joined t leg → Joined t other → other = leg

/-- An act that gives the caller to no leg, and neither starts the conference nor gives up. -/
def Act.isPlain : Act → Bool
  | .gaveUp | .started | .replied _ (.deskJoin ..) => false
  | _ => true

section Plain

variable {acts : List Act}

theorem not_mem_plain (plain : ∀ act ∈ acts, act.isPlain) (act : Act) (busy : act.isPlain = false) :
    act ∉ acts :=
  fun listed => by simp [plain act listed] at busy

theorem not_joined_plain (plain : ∀ act ∈ acts, act.isPlain) (leg : String) : ¬ Joined acts leg := by
  rintro ⟨s, l, c, u, listed⟩
  exact not_mem_plain plain _ rfl listed

end Plain

namespace Kept

variable {t acts : List Act} {w w' : World} {x x' : Transfer}

theorem opened (a : Asked) : Kept [] (.opened a) where
  agrees := by
    rintro x ⟨⟩
    exact .opened a
  present := fun none => nomatch none
  once := Nat.zero_le _
  started h := absurd h List.not_mem_nil
  one := by
    rintro leg other ⟨s, l, c, u, listed⟩
    exact absurd listed List.not_mem_nil

/-- **A step that only does what is plain.** -/
theorem plain (kept : Kept t w) (plain : ∀ act ∈ acts, act.isPlain)
    (agrees : ∀ x, w'.entry = some x → x.Agrees (t ++ acts))
    (present : w'.entry = none → ∃ moved, w'.dialing = .returned moved) : Kept (t ++ acts) w' where
  agrees := agrees
  present := present
  once := by
    rw [List.count_append, List.count_eq_zero.mpr (not_mem_plain plain .gaveUp rfl)]
    exact kept.once
  started := by
    intro gone began
    have gone := (List.mem_append.mp gone).resolve_right (not_mem_plain plain _ rfl)
    exact kept.started gone ((List.mem_append.mp began).resolve_right (not_mem_plain plain _ rfl))
  one := by
    intro leg other joined joined'
    have before := (Joined.append.mp joined).resolve_right (not_joined_plain plain leg)
    have before' := (Joined.append.mp joined').resolve_right (not_joined_plain plain other)
    exact kept.one leg other before before'

/-- The entry stays. -/
theorem still (kept : Kept t w) (plain : ∀ act ∈ acts, act.isPlain)
    (fits : ∀ x, w.entry = some x → ∀ act ∈ acts, act.Fits x) (entry : w'.entry = w.entry)
    (present : w'.entry = none → ∃ moved, w'.dialing = .returned moved) : Kept (t ++ acts) w' := by
  refine kept.plain plain ?_ present
  intro x here
  have before : w.entry = some x := entry ▸ here
  exact (kept.agrees x before).stay (fits x before)

/-- The entry goes on, and nothing is given up. -/
theorem goesOn (kept : Kept t w) (plain : ∀ act ∈ acts, act.isPlain) (entry : w'.entry = some x')
    (agrees : x'.Agrees (t ++ acts)) : Kept (t ++ acts) w' := by
  refine kept.plain plain ?_ fun none => by simp [entry] at none
  intro x here
  obtain rfl := Option.some.inj (entry.symm.trans here)
  exact agrees

/-- **A step that gives up**: that was not done before. -/
theorem gives (kept : Kept t w) (acts : List Act) (plain : ∀ act ∈ acts, act.isPlain)
    (before : w.entry = some x) (may : x.taken → x.winner.isSome ∧ x.connected = false)
    (entry : w'.entry = some x') (agrees : x'.Agrees (t ++ (acts ++ [Act.gaveUp]))) :
    Kept (t ++ (acts ++ [Act.gaveUp])) w' := by
  obtain ⟨fresh, notStarted, -⟩ := (kept.agrees x before).undecided may
  have first : Kept (t ++ acts) { w' with entry := none, dialing := .returned true } :=
    kept.plain plain (fun x h => nomatch h) fun _ => ⟨true, rfl⟩
  have notGiven : .gaveUp ∉ t ++ acts := by
    simpa [fresh] using not_mem_plain plain _ rfl
  have notBegun : .started ∉ t ++ (acts ++ [Act.gaveUp]) := by
    simpa [notStarted] using not_mem_plain plain _ rfl
  refine ⟨?_, fun none => by simp [entry] at none, ?_, fun _ => notBegun, ?_⟩
  · intro x'' here
    obtain rfl := Option.some.inj (entry.symm.trans here)
    exact agrees
  · have counted : (t ++ (acts ++ [Act.gaveUp])).count .gaveUp = 1 := by
      rw [← List.append_assoc, List.count_append, List.count_eq_zero.mpr notGiven,
        List.count_singleton_self]
    exact Nat.le_of_eq counted
  · intro leg other joined joined'
    rw [← List.append_assoc] at joined joined'
    refine first.one leg other ?_ ?_
    · rcases Joined.append.mp joined with before | ⟨s, l, c, u, last⟩
      · exact before
      · simp at last
    · rcases Joined.append.mp joined' with before | ⟨s, l, c, u, last⟩
      · exact before
      · simp at last

/-- The caller is given to a leg that is the only one ever given them. -/
theorem joins (kept : Kept t w) {leg url : String} (entry : w'.entry = some x')
    (agrees : x'.Agrees (t ++ [Act.replied leg (x.join url)]))
    (only : ∀ other, Joined t other → other = leg) : Kept (t ++ [.replied leg (x.join url)]) w' := by
  have all : ∀ other, Joined (t ++ [.replied leg (x.join url)]) other → other = leg := by
    intro other joined
    rcases Joined.append.mp joined with before | ⟨s, l, c, u, now⟩
    · exact only other before
    · exact (Act.replied.inj (List.mem_singleton.mp now)).1
  refine ⟨?_, fun none => by simp [entry] at none, ?_, ?_,
    fun first second joined joined' => (all second joined').trans (all first joined).symm⟩
  · intro x'' here
    obtain rfl := Option.some.inj (entry.symm.trans here)
    exact agrees
  · rw [List.count_append]
    exact kept.once
  · intro gone began
    simp only [List.mem_append, List.mem_singleton, reduceCtorEq, or_false] at gone began
    exact kept.started gone began

end Kept

/-! ### Every step -/

/-- The next job of a handler. -/
def World.next (w : World) (task : ℕ) : Option Job := w.tasks[task]?.bind List.head?

/-- Nothing takes the transfer between the two sections of `transfer` that find no leg and take it,
and the caller's leaving is handled while no redirect is due. -/
def undisturbed (ev : Event) : Bool :=
  match ev.input with
  | .go => ev.before.dialing != .unrung || ev.before.entry.all (!·.taken)
  | .callerEnded => ev.before.due = 0
  | .run task _ => ev.before.next task ≠ some .callerEnded ∨ ev.before.due = 0
  | _ => true

namespace Kept

variable {t : List Act} {w : World} {a : Asked}

/-- Where `transfer` takes the transfer itself, no one has taken it. -/
theorem unrung_free (kept : Kept t w) {acts : List Act} {w' : World} (unrung : w.dialing = .unrung)
    (calm : undisturbed ⟨w, .go, acts, w'⟩) : ∃ x, w.entry = some x ∧ x.taken = false := by
  have there : w.entry ≠ none := by
    intro none
    obtain ⟨moved, past⟩ := kept.present none
    simp [unrung] at past
  obtain ⟨x, entry⟩ := Option.ne_none_iff_exists'.mp there
  exact ⟨x, entry, by simpa [undisturbed, unrung, entry] using calm⟩

theorem step (kept : Kept t w) {i : Input} {acts : List Act} {w' : World}
    (happens : Happens a w i acts w') (calm : undisturbed ⟨w, i, acts, w'⟩) : Kept (t ++ acts) w' := by
  have nothing : ∀ act ∈ ([] : List Act), act.isPlain := fun act h => absurd h List.not_mem_nil
  have silent : ∀ x, w.entry = some x → ∀ act ∈ ([] : List Act), act.Fits x :=
    fun x _ act h => absurd h List.not_mem_nil
  have present := happens.present kept.present
  cases happens with
  | idle | moved | loopOver | rungForgotten | dialFailed | cancelled | notExpired | conferenceEnded
  | looked => exact kept.still nothing silent rfl present
  | ring | unknown | answeredLate | redirect | hangup | cancel | createdForgotten =>
    exact kept.still (by simp [Act.isPlain]) (by simp [Act.Fits]) rfl present
  | notMoved | forget => exact kept.plain nothing (fun x here => nomatch here) present
  | rungTaken rung entry | rungNone rung entry | rungSome rung entry =>
    exact kept.goesOn nothing rfl (kept.agrees _ entry).dialed
  | createdLate leg dialing entry | created leg dialing entry =>
    exact kept.goesOn (by simp [Act.isPlain]) rfl
      ((kept.agrees _ entry).legCreated (by simp [Act.Fits]))
  | takeUnrung unrung =>
    obtain ⟨x, entry, free⟩ := kept.unrung_free unrung calm
    exact kept.gives [] nothing entry (fun taken => by simp [free] at taken)
      (by simp only [World.spawn, entry, Option.map_some]) ((kept.agrees x entry).take free)
  | expired armed entry may =>
    exact kept.gives [] nothing entry may rfl ((kept.agrees _ entry).closed [] (.inr rfl))
  | allFailed here entry free =>
    exact kept.gives [] nothing entry (fun taken => by simp [free] at taken) rfl
      ((kept.agrees _ entry).take free)
  | winnerLeft status entry taken =>
    exact kept.goesOn (by simp [Act.isPlain]) rfl ((kept.agrees _ entry).winnerEnded taken (.inl rfl))
  | abandoned status entry taken winner waiting =>
    exact kept.gives [.ended _] (by simp [Act.isPlain]) entry (fun _ => ⟨by simp [winner], waiting⟩) rfl
      ((kept.agrees _ entry).winnerEnded taken (.inr rfl))
  | endedLate status entry taken lost =>
    refine kept.still (by simp [Act.isPlain]) ?_ rfl present
    intro x here act listed
    obtain rfl := Option.some.inj (entry.symm.trans here)
    obtain rfl := List.mem_singleton.mp listed
    exact ⟨lost, .inl taken⟩
  | counted status ended entry free noted =>
    exact kept.goesOn (by simp [Act.isPlain]) rfl ((kept.agrees _ entry).legCounted free noted)
  | answeredAgain entry winner =>
    have agrees := kept.agrees _ entry
    refine kept.joins entry (agrees.stay ?_) ?_
    · intro act listed
      obtain rfl := List.mem_singleton.mp listed
      exact ⟨agrees.taken (by simp [winner]), .inr winner⟩
    · intro other joined
      simpa [winner, eq_comm] using (agrees.joined joined).2
  | won entry free fresh =>
    have agrees := kept.agrees _ entry
    refine kept.joins rfl (agrees.won free fresh _) ?_
    intro other joined
    have taken := (agrees.joined joined).1
    simp [free] at taken
  | leftForgotten entry | endedForgotten here entry =>
    refine kept.still (by simp [Act.isPlain]) ?_ rfl present
    intro x here
    simp [entry] at here
  | left entry | conferenceOver here entry =>
    exact kept.goesOn (by simp [Act.isPlain]) rfl ((kept.agrees _ entry).closed [] (.inl rfl))
  | started event entry held =>
    have agrees := kept.agrees _ entry
    refine ⟨?_, present, ?_, ?_, ?_⟩
    · intro x' here
      obtain rfl := Option.some.inj here
      exact agrees.start held
    · rw [List.count_append]
      exact kept.once
    · intro gone
      have gone : .gaveUp ∈ t := by simpa using gone
      simp [(agrees.fits _ gone).2] at held
    · intro leg other joined joined'
      refine kept.one leg other ?_ ?_
      · rcases Joined.append.mp joined with before | ⟨s, l, c, u, now⟩
        · exact before
        · simp at now
      · rcases Joined.append.mp joined' with before | ⟨s, l, c, u, now⟩
        · exact before
        · simp at now

end Kept

namespace Kept

variable {t : List Act} {w w' : World} {a : Asked} {i : Input} {acts : List Act}

/-- **Nothing is given up once the caller has left.** -/
theorem stays (kept : Kept t w) (happens : Happens a w i acts w') (calm : undisturbed ⟨w, i, acts, w'⟩)
    (gave : .gaveUp ∈ acts) : .left ∉ t ++ acts := by
  have before {x : Transfer} (entry : w.entry = some x)
    (may : x.taken → x.winner.isSome ∧ x.connected = false) :
      .left ∉ t := ((kept.agrees x entry).undecided may).2.2
  have both (gone : .left ∉ t) (now : .left ∉ acts) : .left ∉ t ++ acts := by simp [gone, now]
  cases happens with
  | takeUnrung unrung =>
    obtain ⟨x, entry, free⟩ := kept.unrung_free unrung calm
    exact both (before entry fun taken => by simp [free] at taken) (by simp)
  | expired armed entry may => exact both (before entry may) (by simp)
  | abandoned status entry taken winner waiting =>
    exact both (before entry fun _ => ⟨by simp [winner], waiting⟩) (by simp)
  | allFailed here entry free => exact both (before entry fun taken => by simp [free] at taken) (by simp)
  | _ => simp at gave

/-- The caller's leaving is handled while no redirect is due. -/
theorem due_of_left (happens : Happens a w i acts w') (calm : undisturbed ⟨w, i, acts, w'⟩)
    (left : .left ∈ acts) :
    w.due = 0 := by
  cases happens with
  | leftForgotten | left => exact of_decide_eq_true calm
  | endedForgotten here | conferenceOver here =>
    exact (of_decide_eq_true calm).resolve_left fun other => other (by simp [World.next, here])
  | _ => simp at left

/-- **Once the caller has left, no redirect is due.** -/
theorem leaves (kept : Kept t w) (quiet : .left ∈ t → w.due = 0) (happens : Happens a w i acts w')
    (calm : undisturbed ⟨w, i, acts, w'⟩) : .left ∈ t ++ acts → w'.due = 0 := by
  intro left
  have none : acts.count .gaveUp = 0 :=
    List.count_eq_zero.mpr fun gave => kept.stays happens calm gave left
  have due : w.due = 0 := (List.mem_append.mp left).elim quiet (due_of_left happens calm)
  have issued := happens.issued
  omega

end Kept

/-! ### The run -/

/-- Every step of the run is undisturbed. -/
def Undisturbed (evs : List Event) : Prop := ∀ ev ∈ evs, undisturbed ev

instance (evs : List Event) : Decidable (Undisturbed evs) :=
  inferInstanceAs (Decidable (∀ ev ∈ evs, undisturbed ev))

theorem Undisturbed.earlier {evs more : List Event} (calm : Undisturbed (evs ++ more)) :
    Undisturbed evs :=
  fun ev listed => calm ev (List.mem_append_left _ listed)

theorem Undisturbed.kept {a : Asked} {inputs : List Input}
    (calm : Undisturbed (events (World.step a) (.opened a) inputs)) :
    Kept (trace (events (World.step a) (.opened a) inputs)) (final (World.step a) (.opened a) inputs) ∧
      (.left ∈ trace (events (World.step a) (.opened a) inputs) →
        (final (World.step a) (.opened a) inputs).due = 0) := by
  refine run_induction (C := fun _ ev => undisturbed ev)
    (P := fun evs w => Kept (trace evs) w ∧ (.left ∈ trace evs → w.due = 0)) ⟨.opened a, nofun⟩ ?_
    fun pre ev post split => calm ev (split ▸ List.mem_append_right _ List.mem_cons_self)
  intro pre w i ⟨kept, quiet⟩ calm
  rw [trace_append, trace_single]
  exact ⟨kept.step (Happens.of_step a w i) calm, kept.leaves quiet (Happens.of_step a w i) calm⟩

namespace Kept

variable {t : List Act} {w : World} {a : Asked}

/-- A leg that must not be given the caller is hung up on. -/
theorem hangsUp (kept : Kept t w) {leg : String} (shut : Shut t leg) :
    (World.step a w (.answered leg)).1 = [.replied leg .hangup] := by
  unfold World.step
  dsimp only
  cases entry : w.entry with
  | none => rfl
  | some x =>
    have agrees := kept.agrees x entry
    have lost : x.winner ≠ some leg ∧ (x.taken ∨ leg ∈ x.ended) := by
      rcases shut with ended | ⟨other, different, joined⟩ | left | gone
      · exact agrees.fits _ ended
      · obtain ⟨taken, winner⟩ := agrees.joined joined
        refine ⟨fun same => ?_, .inl taken⟩
        rw [same] at winner
        exact different (by simpa [eq_comm] using winner)
      · obtain ⟨taken, none⟩ := agrees.fits _ left
        exact ⟨by simp [none], .inl taken⟩
      · obtain ⟨taken, none⟩ := agrees.fits _ gone
        exact ⟨by simp [none], .inl taken⟩
    have late : (x.taken || leg.isEmpty || leg ∈ x.ended) = true := by
      rcases lost.2 with taken | noted
      · simp [taken]
      · simp [noted]
    simp only [Transfer.answered, if_neg lost.1, if_pos late]

/-- A redirect is asked for where none started, and no leg may join. -/
theorem redirected (kept : Kept t w) (quiet : .left ∈ t → w.due = 0) {i : Input} {acts : List Act}
    {w' : World}
    (happens : Happens a w i acts w') (issued : t.countP Act.isRedirect + w.due = t.count .gaveUp)
    (asked : ∃ act ∈ acts, act.isRedirect) : .started ∉ t ∧ .left ∉ t ∧ w.holder = none := by
  have asks : acts.any Act.isRedirect = true := List.any_eq_true.mpr asked
  cases happens with
  | @redirect task ok caller twiml jobs here =>
    have due : 0 < w.due := by
      have member := List.mem_of_getElem? here
      have counted := Pools.measure_le_weight (m := (·.countP Job.isRedirect)) member
      rw [List.countP_cons_of_pos rfl] at counted
      exact Nat.lt_of_lt_of_le (Nat.succ_pos _) counted
    have gone : .gaveUp ∈ t := by
      refine List.count_pos_iff.mp ?_
      omega
    refine ⟨kept.started gone, fun left => Nat.ne_of_gt due (quiet left), ?_⟩
    rw [World.holder]
    cases entry : w.entry with
    | none => rfl
    | some x => exact ((kept.agrees x entry).fits _ gone).2
  | _ => cases asks

end Kept

/-- **One operator, one apology**, in every undisturbed run. -/
theorem oneOperator_of_undisturbed (a : Asked) (inputs : List Input)
    (calm : Undisturbed (events (World.step a) (.opened a) inputs)) :
    OneOperator (events (World.step a) (.opened a) inputs) where
  one := calm.kept.1.one
  hangsUp := by
    intro pre ev post split leg asked shut
    obtain ⟨is₁, i, is₂, rfl, rfl, rfl, -⟩ := events_split split
    rw [events_append] at calm
    obtain rfl : i = .answered leg := asked
    exact calm.earlier.kept.1.hangsUp shut
  once := by
    have kept := calm.kept.1
    have decided := issued a inputs
    have once := kept.once
    omega
  due := by
    intro pre ev post split asked
    obtain ⟨is₁, i, is₂, rfl, rfl, rfl, -⟩ := events_split split
    rw [events_append] at calm
    obtain ⟨kept, quiet⟩ := calm.earlier.kept
    exact kept.redirected quiet (Happens.of_step a _ i) (issued a is₁) asked

/-- The operator answers twice, joins and leaves; nothing is said to the caller. -/
theorem oneOperator_joined :
    OneOperator (events (World.step .oneNumber) (.opened .oneNumber)
      [.moved true, .go, .dialed (some "CA1"), .answered "CA1", .answered "CA1", .go, .go,
       .conferenceEvent "conference-start", .timeout, .legEnded "CA1" "completed"]) :=
  oneOperator_of_undisturbed _ _ (by decide)

/-- The only dial fails; the timeout takes the transfer after `transfer` found no leg and before it takes
it, and the caller is told twice. -/
theorem timeout_apologisesTwice :
    ¬ ∀ (a : Asked) (inputs : List Input), OneOperator (events (World.step a) (.opened a) inputs) := by
  intro all
  have once := (all .oneNumber [.moved true, .go, .dialed none, .go, .go, .timeout, .go, .run 0 true,
    .run 1 true]).once
  revert once
  decide

end Callora.Desk
