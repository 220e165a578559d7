/-
**The desk: what a step can do.**

`Happens a w i acts w'` lists the effects of the sections and of the jobs; `happens` says that
`step` has no other. The invariants of the transfer are derived from it.
-/
import Callora.Desk.Transfer

set_option linter.unusedSectionVars false

namespace Callora.Desk

open World

/-- The leg was given the caller. -/
def Joined (t : List Act) (leg : String) : Prop :=
  ∃ summary language conference statusUrl,
    Act.replied leg (.deskJoin summary language conference statusUrl) ∈ t

namespace Joined

variable {t t' : List Act} {leg : String}

theorem append : Joined (t ++ t') leg ↔ Joined t leg ∨ Joined t' leg := by
  constructor
  · rintro ⟨s, l, c, u, listed⟩
    rcases List.mem_append.mp listed with before | now
    · exact .inl ⟨s, l, c, u, before⟩
    · exact .inr ⟨s, l, c, u, now⟩
  · rintro (⟨s, l, c, u, listed⟩ | ⟨s, l, c, u, listed⟩)
    · exact ⟨s, l, c, u, List.mem_append_left _ listed⟩
    · exact ⟨s, l, c, u, List.mem_append_right _ listed⟩

end Joined

/-- The redirect to the message that no one is available. -/
def Act.isRedirect : Act → Bool
  | .asked (.redirect ..) => true
  | _ => false

/-- The job that asks for it. -/
def Job.isRedirect : Job → Bool
  | .redirect .. => true
  | _ => false

/-- What a step can do: what happens in it, and the world after it. -/
inductive Happens (a : Asked) (w : World) : Input → List Act → World → Prop
  | idle (i : Input) : Happens a w i [] w
  -- `transfer`
  | moved (moving : w.dialing = .moving) :
    Happens a w (.moved true) [] { w with dialing := .ringing a.numbers [], armed := true }
  | notMoved (moving : w.dialing = .moving) :
    Happens a w (.moved false) [] { w with entry := none, dialing := .returned false }
  | loopOver {numbers attempted : List String} (head : w.dialing = .ringing numbers attempted) :
    Happens a w .go [] { w with dialing := .rung }
  | ring {numbers attempted rest : List String} (number : String)
    (head : w.dialing = .ringing numbers attempted) :
    Happens a w .go [.asked (a.dial number)]
      { w with dialing := .dialing rest (number :: attempted) }
  | rungForgotten (rung : w.dialing = .rung) (entry : w.entry = none) :
    Happens a w .go [] { w with dialing := .unrung }
  | rungTaken {x : Transfer} (rung : w.dialing = .rung) (entry : w.entry = some x) (taken : x.taken) :
    Happens a w .go [] { w with entry := some { x with dialed := true }, dialing := .returned true }
  | rungNone {x : Transfer} (rung : w.dialing = .rung) (entry : w.entry = some x)
    (free : x.taken = false) (legs : x.legs = []) :
    Happens a w .go [] { w with entry := some { x with dialed := true }, dialing := .unrung }
  | rungSome {x : Transfer} (rung : w.dialing = .rung) (entry : w.entry = some x)
    (free : x.taken = false) (legs : x.legs ≠ []) :
    Happens a w .go []
      ({ w with entry := some { x with dialed := true }, dialing := .returned true }.spawn
        [.giveUpIfAllFailed])
  | takeUnrung (unrung : w.dialing = .unrung) :
    Happens a w .go [.gaveUp]
      ({ w with entry := w.entry.map Transfer.take, dialing := .returned true }.spawn
        [.redirect a.callSid a.giveUp])
  | dialFailed {numbers attempted : List String} (dialing : w.dialing = .dialing numbers attempted) :
    Happens a w (.dialed none) [] { w with dialing := .ringing numbers attempted }
  | createdForgotten {numbers attempted : List String} (leg : String)
    (dialing : w.dialing = .dialing numbers attempted) (entry : w.entry = none) :
    Happens a w (.dialed (some leg)) [.created leg, .asked (.cancel leg)]
      { w with dialing := .late numbers attempted }
  | createdLate {numbers attempted : List String} {x : Transfer} (leg : String)
    (dialing : w.dialing = .dialing numbers attempted) (entry : w.entry = some x)
    (taken : x.taken) (lost : x.winner ≠ some leg) :
    Happens a w (.dialed (some leg)) [.created leg, .asked (.cancel leg)]
      { w with entry := some { x with legs := x.legs ++ [leg] }, dialing := .late numbers attempted }
  | created {numbers attempted : List String} {x : Transfer} (leg : String)
    (dialing : w.dialing = .dialing numbers attempted) (entry : w.entry = some x)
    (kept : x.taken → x.winner = some leg) :
    Happens a w (.dialed (some leg)) [.created leg]
      { w with entry := some { x with legs := x.legs ++ [leg] },
               dialing := .ringing numbers attempted }
  | cancelled {numbers attempted : List String} (late : w.dialing = .late numbers attempted) :
    Happens a w .cancelled [] { w with dialing := .ringing numbers attempted }
  -- the timeout
  | notExpired (stays : ∀ x, w.entry = some x → x.taken) :
    Happens a w .timeout [] { w with armed := false }
  | expired {x : Transfer} (armed : w.armed) (entry : w.entry = some x)
    (may : x.taken → x.winner.isSome ∧ x.connected = false) :
    Happens a w .timeout [.gaveUp]
      ({ w with entry := some { x with taken := true, winner := none, legs := [] },
                armed := false }.spawn (.redirect x.caller x.giveUp :: x.legs.map .cancel))
  -- `leg_ended`
  | winnerLeft {x : Transfer} {leg : String} (status : String) (entry : w.entry = some x)
    (taken : x.taken) (winner : x.winner = some leg) :
    Happens a w (.legEnded leg status) [.ended leg]
      { w with entry := some { x with winner := none } }
  | abandoned {x : Transfer} {leg : String} (status : String) (entry : w.entry = some x)
    (taken : x.taken) (winner : x.winner = some leg) (waiting : x.connected = false) :
    Happens a w (.legEnded leg status) [.ended leg, .gaveUp]
      ({ w with entry := some { x with winner := none } }.spawn [.redirect x.caller x.giveUp])
  | endedLate {x : Transfer} {leg : String} (status : String) (entry : w.entry = some x)
    (taken : x.taken) (lost : x.winner ≠ some leg) :
    Happens a w (.legEnded leg status) [.ended leg] w
  | counted {x : Transfer} {leg : String} (status : String) (ended : List String)
    (entry : w.entry = some x) (free : x.taken = false)
    (noted : ∀ other, other ∈ ended ↔ other ∈ x.ended ∨ other = leg) :
    Happens a w (.legEnded leg status) [.ended leg]
      ({ w with entry := some { x with ended := ended } }.spawn [.giveUpIfAllFailed])
  -- `answered`
  | unknown (leg : String) (entry : w.entry = none) :
    Happens a w (.answered leg) [.replied leg .hangup] w
  | answeredAgain {x : Transfer} {leg : String} (entry : w.entry = some x)
    (winner : x.winner = some leg) :
    Happens a w (.answered leg) [.replied leg (x.join a.conferenceUrl)] (w.spawn [])
  | answeredLate {x : Transfer} {leg : String} (entry : w.entry = some x) (lost : x.winner ≠ some leg) :
    Happens a w (.answered leg) [.replied leg .hangup] (w.spawn [])
  | won {x : Transfer} {leg : String} (entry : w.entry = some x) (free : x.taken = false)
    (fresh : leg ∉ x.ended) :
    Happens a w (.answered leg) [.replied leg (x.join a.conferenceUrl)]
      ({ w with entry := some { x with taken := true, winner := some leg } }.spawn
        ((x.legs.filter (· ≠ leg)).map .cancel))
  -- `caller_ended` and `conference_event`
  | leftForgotten (entry : w.entry = none) : Happens a w .callerEnded [.left] w
  | left {x : Transfer} (entry : w.entry = some x) :
    Happens a w .callerEnded [.left]
      ({ w with entry := some { x with taken := true, winner := none, legs := [] } }.spawn
        (x.legs.map .cancel))
  | started {x : Transfer} (event : String) (entry : w.entry = some x) (held : x.winner.isSome) :
    Happens a w (.conferenceEvent event) [.started]
      { w with entry := some { x with connected := true } }
  | conferenceEnded (event : String) :
    Happens a w (.conferenceEvent event) [] (w.spawn [.callerEnded])
  -- the jobs
  | redirect {task : ℕ} {ok : Bool} {caller : String} {twiml : Twiml} {jobs : List Job}
    (here : w.tasks[task]? = some (.redirect caller twiml :: jobs)) :
    Happens a w (.run task ok) [.asked (.redirect caller twiml)]
      { w with tasks := w.tasks.set task (if ok then jobs else .hangup caller :: jobs) }
  | hangup {task : ℕ} {ok : Bool} {caller : String} {jobs : List Job}
    (here : w.tasks[task]? = some (.hangup caller :: jobs)) :
    Happens a w (.run task ok) [.asked (.hangup caller)] { w with tasks := w.tasks.set task jobs }
  | cancel {task : ℕ} {ok : Bool} {leg : String} {jobs : List Job}
    (here : w.tasks[task]? = some (.cancel leg :: jobs)) :
    Happens a w (.run task ok) [.asked (.cancel leg)] { w with tasks := w.tasks.set task jobs }
  | looked {task : ℕ} {ok : Bool} {jobs : List Job}
    (here : w.tasks[task]? = some (.giveUpIfAllFailed :: jobs))
    (not : ∀ x, w.entry = some x → x.giveUpIfAllFailed = none) :
    Happens a w (.run task ok) [] { w with tasks := w.tasks.set task jobs }
  | allFailed {task : ℕ} {ok : Bool} {jobs : List Job} {x : Transfer}
    (here : w.tasks[task]? = some (.giveUpIfAllFailed :: jobs)) (entry : w.entry = some x)
    (free : x.taken = false) (all : ∀ leg ∈ x.legs, leg ∈ x.ended) :
    Happens a w (.run task ok) [.gaveUp]
      { w with entry := some x.take,
               tasks := w.tasks.set task (.redirect x.caller x.giveUp :: jobs) }
  | endedForgotten {task : ℕ} {ok : Bool} {jobs : List Job}
    (here : w.tasks[task]? = some (.callerEnded :: jobs)) (entry : w.entry = none) :
    Happens a w (.run task ok) [.left] { w with tasks := w.tasks.set task jobs }
  | conferenceOver {task : ℕ} {ok : Bool} {jobs : List Job} {x : Transfer}
    (here : w.tasks[task]? = some (.callerEnded :: jobs)) (entry : w.entry = some x) :
    Happens a w (.run task ok) [.left]
      { w with entry := some { x with taken := true, winner := none, legs := [] },
               tasks := w.tasks.set task (x.legs.map .cancel ++ jobs) }
  | forget {moved : Bool} (past : w.dialing = .returned moved) (unarmed : w.armed = false) :
    Happens a w .forget [] { w with entry := none }

namespace Happens

variable (a : Asked) (w : World)

theorem of_go : Happens a w .go (w.go a).1 (w.go a).2 := by
  unfold World.go
  split
  next numbers attempted head =>
    split
    · exact .loopOver head
    next number rest _ =>
      split_ifs
      · exact .loopOver head
      · exact .ring number head
  next rung =>
    split
    next entry => exact .rungForgotten rung entry
    next x entry =>
      split_ifs with taken empty
      · exact .rungTaken rung entry taken
      · exact .rungNone rung entry (by simpa using taken) (by simpa using empty)
      · exact .rungSome rung entry (by simpa using taken) (by simpa using empty)
  next unrung => exact .takeUnrung unrung
  next => exact .idle _

theorem of_dialed (leg : Option String) :
    Happens a w (.dialed leg) (w.dialed leg).1 (w.dialed leg).2 := by
  unfold World.dialed
  split
  next dialing => exact .dialFailed dialing
  next numbers attempted leg dialing =>
    cases entry : w.entry with
    | none =>
      have none : w.entry.map (·.legCreated leg) = none := by rw [entry]; rfl
      rw [← entry, none]
      exact .createdForgotten leg dialing entry
    | some x =>
      simp only [Option.map_some, Transfer.legCreated]
      cases late : x.taken && x.winner != some leg with
      | true =>
        rw [Bool.and_eq_true, bne_iff_ne] at late
        exact .createdLate leg dialing entry late.1 late.2
      | false =>
        refine .created leg dialing entry fun taken => ?_
        simpa [taken] using late
  next => exact .idle _

theorem of_perform (task : ℕ) (ok : Bool) :
    Happens a w (.run task ok) (w.perform task ok).1 (w.perform task ok).2 := by
  unfold World.perform
  split
  next here => exact .redirect here
  next here => exact .hangup here
  next here => exact .cancel here
  next jobs here =>
    split
    next entry => exact .looked here (by simp [entry])
    next x entry =>
      split
      next failed => exact .looked here (by simpa [entry] using failed)
      next failed =>
        rw [Transfer.giveUpIfAllFailed] at failed
        split at failed
        · cases failed
        next all =>
          obtain rfl := Option.some.inj failed
          simp only [Bool.or_eq_true, Bool.not_eq_true', not_or, Bool.not_eq_true, Bool.not_eq_false,
            List.all_eq_true, decide_eq_true_eq] at all
          exact .allFailed here entry all.1.1.1 all.2
  next jobs here =>
    split
    next entry => exact .endedForgotten here entry
    next x entry => exact .conferenceOver here entry
  next => exact .idle _

theorem of_timeout : Happens a w .timeout (step a w .timeout).1 (step a w .timeout).2 := by
  unfold step
  dsimp only
  split_ifs with armed
  · split
    next entry => exact .notExpired (by simp [entry])
    next x entry =>
      split
      next stays =>
        refine .notExpired ?_
        intro x' here
        obtain rfl := Option.some.inj (entry.symm.trans here)
        by_contra free
        simp [Transfer.expire, free] at stays
      next legs x' expired =>
        rw [Transfer.expire] at expired
        split at expired
        next may =>
          obtain ⟨rfl, rfl⟩ := Prod.mk.inj (Option.some.inj expired)
          exact .expired armed entry fun taken => by simpa [taken] using may
        next => cases expired
  · exact .idle _

theorem of_legEnded (leg status : String) :
    Happens a w (.legEnded leg status) (step a w (.legEnded leg status)).1
      (step a w (.legEnded leg status)).2 := by
  unfold step
  dsimp only
  split_ifs with other
  · exact .idle _
  · cases entry : w.entry with
    | none => exact .idle _
    | some x =>
      have same : { w with entry := some x } = w := by rw [← entry]
      dsimp only
      unfold Transfer.legEnded
      split_ifs with taken joined waiting noted
      · exact .winnerLeft status entry taken joined.1
      · exact .abandoned status entry taken waiting.1 (by simpa using waiting.2)
      · dsimp only
        rw [same]
        refine .endedLate status entry taken fun winner => ?_
        cases connected : x.connected with
        | true => exact joined ⟨winner, connected⟩
        | false => exact waiting ⟨winner, by simp [connected]⟩
      · exact .counted status x.ended entry (by simpa using taken) (by simpa using noted)
      · exact .counted status _ entry (by simpa using taken) (by simp)

theorem of_answered (leg : String) :
    Happens a w (.answered leg) (step a w (.answered leg)).1 (step a w (.answered leg)).2 := by
  unfold step
  dsimp only
  cases entry : w.entry with
  | none => exact .unknown leg entry
  | some x =>
    have same : { w with entry := some x } = w := by rw [← entry]
    dsimp only
    unfold Transfer.answered
    split_ifs with winner late
    · exact same.symm ▸ .answeredAgain entry winner
    · exact same.symm ▸ .answeredLate entry winner
    · simp only [Bool.or_eq_true, decide_eq_true_eq, not_or, Bool.not_eq_true] at late
      exact .won entry late.1.1 late.2

/-- **A step does one of these.** -/
theorem of_step (i : Input) : Happens a w i (step a w i).1 (step a w i).2 := by
  cases i with
  | go => exact of_go a w
  | dialed leg => exact of_dialed a w leg
  | timeout => exact of_timeout a w
  | legEnded leg status => exact of_legEnded a w leg status
  | answered leg => exact of_answered a w leg
  | run task ok => exact of_perform a w task ok
  | moved ok =>
    unfold step
    dsimp only
    split
    next moving => exact .moved moving
    next moving => exact .notMoved moving
    next => exact .idle _
  | cancelled =>
    unfold step
    dsimp only
    split
    next late => exact .cancelled late
    next => exact .idle _
  | callerEnded =>
    unfold step
    dsimp only
    cases entry : w.entry with
    | none => exact .leftForgotten entry
    | some x => exact .left entry
  | conferenceEvent event =>
    unfold step
    dsimp only
    cases entry : w.entry with
    | none => exact .idle _
    | some x =>
      dsimp only
      split_ifs with began past
      · exact .started event entry began.2
      · exact .conferenceEnded event
      · exact .idle _
  | forget =>
    unfold step
    dsimp only
    split
    next past unarmed => exact .forget past unarmed
    next => exact .idle _

end Happens

/-! ### The redirects that are due -/

namespace World

/-- The redirects that handlers are about to ask for. -/
def due (w : World) : ℕ := Pools.weight (·.countP Job.isRedirect) w.tasks

variable {w : World} {jobs : List Job} {job : Job} {task : ℕ}

theorem due_set (here : w.tasks[task]? = some jobs) (jobs' : List Job) :
    Pools.weight (·.countP Job.isRedirect) (w.tasks.set task jobs') + jobs.countP Job.isRedirect =
      w.due + jobs'.countP Job.isRedirect :=
  Pools.weight_set here

/-- A job that is no redirect leaves as many due. -/
theorem due_run {jobs' : List Job} (here : w.tasks[task]? = some (job :: jobs))
    (other : job.isRedirect = false) (same : jobs'.countP Job.isRedirect = jobs.countP Job.isRedirect) :
    Pools.weight (·.countP Job.isRedirect) (w.tasks.set task jobs') = w.due := by
  have step := due_set here jobs'
  rw [List.countP_cons_of_neg (by simp [other]), same] at step
  omega

end World

/-- **Every decision to give up is a redirect**, asked for or due. -/
theorem Happens.issued {a : Asked} {w w' : World} {i : Input} {acts : List Act}
    (happens : Happens a w i acts w') :
    acts.countP Act.isRedirect + w'.due = w.due + acts.count .gaveUp := by
  have same : ∀ {w' : World} {acts : List Act}, w'.due = w.due → acts.countP Act.isRedirect = 0 →
      acts.count .gaveUp = 0 → acts.countP Act.isRedirect + w'.due = w.due + acts.count .gaveUp := by
    intro w' acts due none quiet
    omega
  have more : ∀ {w' : World} {acts : List Act}, w'.due = w.due + 1 → acts.countP Act.isRedirect = 0 →
      acts.count .gaveUp = 1 → acts.countP Act.isRedirect + w'.due = w.due + acts.count .gaveUp := by
    intro w' acts due none single
    omega
  cases happens with
  | rungSome | counted | conferenceEnded | answeredAgain | answeredLate =>
    exact same (by simp [due, spawn, Job.isRedirect]) rfl rfl
  | takeUnrung | abandoned =>
    exact more (by simp [due, spawn, Job.isRedirect]) rfl rfl
  | expired =>
    exact more (by simp [due, spawn, List.countP_cons, Job.isRedirect]) rfl rfl
  | won | left => exact same (by simp [due, spawn, Job.isRedirect]) rfl rfl
  | @redirect task ok caller twiml jobs here =>
    have step := due_set here (if ok then jobs else .hangup caller :: jobs)
    have unchanged : (if ok then jobs else Job.hangup caller :: jobs).countP Job.isRedirect =
        jobs.countP Job.isRedirect := by
      split
      · rfl
      · exact List.countP_cons_of_neg Bool.false_ne_true
    rw [List.countP_cons_of_pos rfl, unchanged] at step
    have one : [Act.asked (.redirect caller twiml)].countP Act.isRedirect = 1 := rfl
    have none : [Act.asked (.redirect caller twiml)].count Act.gaveUp = 0 := rfl
    rw [one, none]
    change 1 + Pools.weight _ (w.tasks.set task _) = w.due + 0
    omega
  | hangup here | cancel here | looked here | endedForgotten here =>
    exact same (due_run here rfl rfl) rfl rfl
  | conferenceOver here => exact same (due_run here rfl (by simp [Job.isRedirect])) rfl rfl
  | @allFailed task ok jobs x here =>
    refine more ?_ rfl rfl
    have step := due_set here (.redirect x.caller x.giveUp :: jobs)
    rw [List.countP_cons_of_neg Bool.false_ne_true, List.countP_cons_of_pos rfl] at step
    change Pools.weight _ (w.tasks.set task _) = w.due + 1
    omega
  | _ => exact same rfl rfl rfl

/-- An entry that is gone is gone for good: `transfer` returned. -/
theorem Happens.present {a : Asked} {w w' : World} {i : Input} {acts : List Act}
    (happens : Happens a w i acts w') (before : w.entry = none → ∃ moved, w.dialing = .returned moved) :
    w'.entry = none → ∃ moved, w'.dialing = .returned moved := by
  have under : (∀ moved, w.dialing ≠ .returned moved) → w.entry ≠ none := by
    intro under none
    obtain ⟨moved, past⟩ := before none
    exact under moved past
  cases happens with
  | moved at_ | loopOver at_ | ring _ at_ | rungForgotten at_ | dialFailed at_ | createdForgotten _ at_
  | cancelled at_ => exact fun none => absurd none (under (by simp [at_]))
  | notMoved => exact fun _ => ⟨false, rfl⟩
  | rungTaken | rungNone | rungSome | createdLate | created | expired | winnerLeft | abandoned
  | counted | won | left | started | allFailed | conferenceOver => exact fun none => nomatch none
  | takeUnrung => exact fun _ => ⟨true, rfl⟩
  | forget past => exact fun _ => ⟨_, past⟩
  | _ => exact before

/-- **After every run, the decisions to give up are the redirects**, asked for or due. -/
theorem issued (a : Asked) (inputs : List Input) :
    (trace (Runs.events (step a) (.opened a) inputs)).countP Act.isRedirect +
        (Runs.final (step a) (.opened a) inputs).due =
      (trace (Runs.events (step a) (.opened a) inputs)).count .gaveUp := by
  refine Runs.run_induction (C := fun _ _ => True)
    (P := fun evs w => (trace evs).countP Act.isRedirect + w.due = (trace evs).count .gaveUp) rfl ?_
    fun _ _ _ _ => trivial
  intro pre w i before _
  have step := (Happens.of_step a w i).issued
  rw [trace_append, trace_single, List.countP_append, List.count_append]
  simp only [Runs.event_output]
  omega

end Callora.Desk
