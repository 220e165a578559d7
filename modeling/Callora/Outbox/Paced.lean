/-
**An account's sending limits hold where the outbox learns of all that went out.**

The counts come from the rows marked sent, and their moments are those of the updates. A message
that went out and is marked failed, or whose update the database did not take, is counted nowhere;
one that went out after the sender gave it up may come too close to the next.

- `Written`: a message that went out has a row that says so, at its moment or later;
- `sentCounts_hour`, `sentCounts_day`: so the counts of a round are no fewer than the messages that
  went out;
- `Ready`: what is known when a round takes a message, and `Held.concat` what follows when it goes out;
- `OnRecord.step`: every recorded step keeps this, and so the limits hold in every run whose steps
  are all recorded (`held_of_recorded`).
-/
import Callora.Outbox.Limits
import Callora.Outbox.Once
import Mathlib.Data.List.Perm.Subperm
import Mathlib.Data.List.Nodup

set_option linter.unusedSectionVars false

namespace Callora.Outbox

open Runs Windows

section Rows

variable {cal : Calendar} {rows rows' : List Row} {ds : List Delivered} {d : Delivered} {p : Picked}
  {account : String} {now : ℕ}

/-- The outbox says that a message went out. -/
def Written (rows : List Row) (d : Delivered) : Prop :=
  ∃ row ∈ rows, row.id = d.id ∧ row.account = d.account ∧ row.status = .sent ∧
    ∃ t, row.sentAt = some t ∧ d.moment ≤ t

/-- A message that was not marked sent. -/
def Unsent (rows : List Row) (p : Picked) : Prop :=
  ∃ row ∈ rows, row.id = p.id ∧ row.account = p.account ∧ row.status ≠ .sent

/-- Rows after a change that touches none that was sent, and marks none. -/
def Aside (rows rows' : List Row) : Prop :=
  ∀ row ∈ rows, ∃ row' ∈ rows', row'.id = row.id ∧ row'.account = row.account ∧
    (row.status = .sent → row' = row) ∧ (row.status ≠ .sent → row'.status ≠ .sent)

theorem Written.aside (written : Written rows d) (aside : Aside rows rows') : Written rows' d := by
  obtain ⟨row, listed, id, own, sent, at'⟩ := written
  obtain ⟨row', listed', -, -, same, -⟩ := aside row listed
  rw [same sent] at listed'
  exact ⟨row, listed', id, own, sent, at'⟩

theorem Unsent.aside (unsent : Unsent rows p) (aside : Aside rows rows') : Unsent rows' p := by
  obtain ⟨row, listed, id, own, waits⟩ := unsent
  obtain ⟨row', listed', id', own', -, still⟩ := aside row listed
  exact ⟨row', listed', id'.trans id, own'.trans own, still waits⟩

/-- Written messages with ids of their own are no more than the rows that say so. -/
theorem length_le_countP {which : Row → Bool} (distinct : (ds.map Delivered.id).Nodup)
    (each : ∀ d ∈ ds, ∃ row ∈ rows, row.id = d.id ∧ which row) : ds.length ≤ rows.countP which := by
  have within : ds.map Delivered.id ⊆ (rows.filter which).map Row.id := by
    intro id listed
    obtain ⟨d, member, rfl⟩ := List.mem_map.mp listed
    obtain ⟨row, here, same, chosen⟩ := each d member
    exact List.mem_map.mpr ⟨row, List.mem_filter.mpr ⟨here, chosen⟩, same⟩
  have fewer := (distinct.subperm within).length_le
  rwa [List.length_map, List.length_map, ← List.countP_eq_length_filter] at fewer

/-- The counts begin at midnight, or a day ago. -/
theorem midnight_le (cal : Calendar) {t : ℕ} (today : cal.date t = cal.date now) :
    (cal.midnight now).getD (now - DAY) ≤ t := by
  cases start : cal.midnight now with
  | some m => exact cal.midnight_le now m t start today
  | none =>
    have short := cal.no_midnight now t start today
    rw [Option.getD_none]
    exact Nat.sub_le_of_le_add short

/-- **No message of the last hour is left out of the count.** -/
theorem sentCounts_hour (distinct : (ds.map Delivered.id).Nodup) (written : ∀ d ∈ ds, Written rows d) :
    (recent HOUR now (moments account ds)).length ≤ (sentCounts cal rows account now).1 := by
  have list : (recent HOUR now (moments account ds)).length =
      ((ds.filter (·.account = account)).filter fun d => now < d.moment + HOUR).length := by
    rw [recent, moments, List.filter_map, List.length_map]
    rfl
  rw [list]
  have sub := List.Sublist.trans (List.filter_sublist (p := fun d => now < d.moment + HOUR))
    (List.filter_sublist (l := ds) (p := (·.account = account)))
  refine length_le_countP ((sub.map _).nodup distinct) fun d listed => ?_
  obtain ⟨listed, late⟩ := List.mem_filter.mp listed
  obtain ⟨listed, own⟩ := List.mem_filter.mp listed
  obtain ⟨row, here, id, own', sent, t, at', after⟩ := written d listed
  have late : now < d.moment + HOUR := of_decide_eq_true late
  have own : d.account = account := of_decide_eq_true own
  have start := midnight_le cal (rfl : cal.date now = cal.date now)
  refine ⟨row, here, id, ?_⟩
  simp only [own'.trans own, sent, at', Option.any_some, decide_true, Bool.true_and, Bool.and_eq_true,
    decide_eq_true_eq]
  omega

/-- **Nor one of the date.** -/
theorem sentCounts_day (distinct : (ds.map Delivered.id).Nodup) (written : ∀ d ∈ ds, Written rows d) :
    onDate cal account (cal.date now) ds ≤ (sentCounts cal rows account now).2 := by
  rw [onDate, List.countP_eq_length_filter]
  refine length_le_countP ((List.filter_sublist.map _).nodup distinct) fun d listed => ?_
  obtain ⟨listed, both⟩ := List.mem_filter.mp listed
  obtain ⟨own, today⟩ : d.account = account ∧ cal.date d.moment = cal.date now := by simpa using both
  obtain ⟨row, here, id, own', sent, t, at', after⟩ := written d listed
  have start := midnight_le cal today
  refine ⟨row, here, id, ?_⟩
  simp only [own'.trans own, sent, at', Option.any_some, decide_true, Bool.true_and, Bool.and_eq_true,
    decide_eq_true_eq]
  omega

end Rows

section Deliveries

variable {cal : Calendar} {ds : List Delivered} {d : Delivered} {round : Round}

/-- What is known when a round takes a message, of those that went out before. -/
structure Ready (cal : Calendar) (ds : List Delivered) (round : Round) : Prop where
  quiet : ¬ round.pace.quietAt cal (cal.timeOfDay round.readAt)
  hour : (recent HOUR round.readAt (moments round.account ds)).length < round.limits.1
  day : onDate cal round.account (cal.date round.readAt) ds < round.limits.2
  past : ∀ d ∈ ds, d.moment ≤ round.readAt
  apart : ∀ d ∈ ds, d.account = round.account → d.moment + d.round.pace.minDelayS * SECOND ≤ round.readAt

theorem moments_concat (own : d.account = round.account) :
    moments round.account (ds ++ [d]) = moments round.account ds ++ [d.moment] := by
  simp [moments, own]

/-- **A message that goes out in a round keeps the limits.** A round that began before midnight may
send the first message of the new date. -/
theorem Held.concat (held : Held cal ds) (ready : Ready cal ds round) (own : d.account = round.account)
    (is : d.round = round) (later : round.readAt ≤ d.moment) : Held cal (ds ++ [d]) where
  hour := by
    intro pre e post split x opened closed
    rcases split_concat split with ⟨rfl, rfl, rfl⟩ | ⟨post, rfl, rfl⟩
    · rw [own, moments_concat own, is]
      have few := count_le_recent (l := moments round.account pre) later closed
      have room := ready.hour
      have one : count HOUR x (moments round.account pre ++ [e.moment]) =
          count HOUR x (moments round.account pre) + 1 := by simp [count, opened, closed]
      omega
    · exact held.hour pre e post rfl x opened closed
  day := by
    intro pre e post split
    rcases split_concat split with ⟨rfl, rfl, rfl⟩ | ⟨post, rfl, rfl⟩
    · have one : onDate cal e.account (cal.date e.moment) (pre ++ [e]) =
          onDate cal e.account (cal.date e.moment) pre + 1 := by simp [onDate]
      have room := ready.day
      rw [one, own, is]
      by_cases today : cal.date e.moment = cal.date round.readAt
      · rw [today]
        exact room
      · -- after midnight it is the first: the others went out before the round began
        have none : onDate cal round.account (cal.date e.moment) pre = 0 := by
          refine List.countP_eq_zero.mpr fun d listed => ?_
          have before := cal.date_mono (ready.past d listed)
          have after := cal.date_mono later
          have other : cal.date d.moment ≠ cal.date e.moment := fun same =>
            today (le_antisymm (same ▸ before) after)
          simp [other]
        omega
    · exact held.day pre e post rfl
  quiet := by
    intro e listed
    rcases List.mem_append.mp listed with before | last
    · exact held.quiet e before
    · rw [List.mem_singleton.mp last, is]
      exact ready.quiet
  apart := by
    refine List.pairwise_append.mpr
      ⟨held.apart, List.pairwise_singleton _ _, fun e listed d' last same => ?_⟩
    obtain rfl := List.mem_singleton.mp last
    exact (ready.apart e listed (same.trans own)).trans later

/-- The hourly limit that no round's exceeds bounds the messages of any hour. -/
theorem Held.atMost (held : Held cal ds) {account : String} {n : ℕ}
    (limit : ∀ d ∈ ds, d.account = account → d.round.limits.1 ≤ n) :
    AtMost n HOUR (moments account ds) := by
  intro x
  induction ds using List.reverseRecOn with
  | nil => exact Nat.zero_le _
  | append_singleton ds d ih =>
    have before : Held cal ds :=
      ⟨fun pre e post split => held.hour pre e (post ++ [d]) (by simp [split]),
        fun pre e post split => held.day pre e (post ++ [d]) (by simp [split]),
        fun e listed => held.quiet e (List.mem_append_left _ listed),
        (List.pairwise_append.mp held.apart).1⟩
    have fewer := ih before fun e listed => limit e (List.mem_append_left _ listed)
    by_cases inside : d.account = account ∧ x ≤ d.moment ∧ d.moment < x + HOUR
    · obtain ⟨rfl, opened, closed⟩ := inside
      have here := held.hour ds d [] rfl x opened closed
      exact here.trans (limit d (List.mem_append_right _ (List.mem_singleton.mpr rfl)) rfl)
    · have same : count HOUR x (moments account (ds ++ [d])) = count HOUR x (moments account ds) := by
        by_cases own : d.account = account
        · have outside : ¬ (x ≤ d.moment ∧ d.moment < x + HOUR) := fun both => inside ⟨own, both⟩
          simpa [moments, own, count] using outside
        · simp [moments, own]
      rw [same]
      exact fewer

end Deliveries

section Steps

variable {cal : Calendar} {pre : List Happened} {s : Process} {turn : Turn} {ds : List Delivered} {t : ℕ}
  {round : Round} {p : Picked}

/-- A moment no later than some clock read. -/
def Latest (pre : List Happened) (t : ℕ) : Prop := ∃ e ∈ pre, t ≤ e.input.reading

theorem Latest.more (latest : Latest pre t) (evs : List Happened) : Latest (pre ++ evs) t := by
  obtain ⟨e, listed, early⟩ := latest
  exact ⟨e, List.mem_append_left _ listed, early⟩

theorem Latest.le (latest : Latest pre t) (inTime : ∀ e ∈ pre, e.input.reading ≤ turn.reading) :
    t ≤ turn.reading := by
  obtain ⟨e, listed, early⟩ := latest
  exact early.trans (inTime e listed)

/-- What went out is in the outbox, and its account waits. -/
structure Accounted (s : Process) (ds : List Delivered) : Prop where
  written : ∀ d ∈ ds, Written s.outbox.rows d
  waits : ∀ d ∈ ds, ∃ t, s.nextAllowed d.account = some t ∧ d.moment + d.round.pace.minDelayS * SECOND ≤ t

/-- A round is under way with a message, after those that went out. -/
structure Under (cal : Calendar) (pre : List Happened) (s : Process) (ds : List Delivered) (round : Round)
    (p : Picked) : Prop where
  settled : Accounted s ds
  ready : Ready cal ds round
  own : p.account = round.account
  unsent : Unsent s.outbox.rows p
  begun : Latest pre round.readAt

/-- Where the process stands: the message whose update is to come went out last, if it did. -/
def Stands (cal : Calendar) (pre : List Happened) (s : Process) : Prop :=
  match s.stage with
  | .idle => Accounted s (deliveries pre)
  | .sending round p => Under cal pre s (deliveries pre) round p
  | .updating round p (.ok ()) =>
    ∃ before d, deliveries pre = before ++ [d] ∧ Under cal pre s before round p ∧
      d.id = p.id ∧ d.account = p.account ∧ d.round = round
  | .updating round p (.error _) => Under cal pre s (deliveries pre) round p

/-- What a recorded run keeps. -/
structure OnRecord (cal : Calendar) (pre : List Happened) (s : Process) : Prop where
  held : Held cal (deliveries pre)
  distinct : ((deliveries pre).map Delivered.id).Nodup
  past : ∀ d ∈ deliveries pre, Latest pre d.moment
  once : (s.outbox.rows.map Row.id).Nodup
  below : ∀ row ∈ s.outbox.rows, row.id < s.outbox.nextId
  stands : Stands cal pre s

/-- A message that was not marked sent did not go out. -/
theorem Unsent.fresh (unsent : Unsent s.outbox.rows p) (once : (s.outbox.rows.map Row.id).Nodup)
    (written : ∀ d ∈ ds, Written s.outbox.rows d) : ∀ d ∈ ds, d.id ≠ p.id := by
  intro d listed same
  obtain ⟨row, here, id, -, waits⟩ := unsent
  obtain ⟨row', here', id', -, sent, -⟩ := written d listed
  obtain rfl : row' = row := List.inj_on_of_nodup_map once here' here (id'.trans (same.trans id.symm))
  exact waits sent

/-- What is written of another message stays so. -/
theorem Written.updateWhere {w : World} {d : Delivered} {change : Row → Row} (written : Written w.rows d)
    (other : d.id ≠ p.id) : Written (w.updateWhere (·.id = p.id) change).rows d := by
  obtain ⟨row, here, id, rest⟩ := written
  refine ⟨row, List.mem_map.mpr ⟨row, here, if_neg ?_⟩, id, rest⟩
  simpa [id] using other

theorem Row.stamp_id (row : Row) (p : Picked) (now : ℕ) (result : Sent) :
    (row.stamp p now result).id = row.id := by
  match result with
  | .ok () | .error (.refused _) | .error (.outcomeUnknown _) => exact row.record_id p now _
  | .error .notReady | .error .notFound | .error (.unavailable _) => exact row.record_id p now _

/-- An update that keeps the ids. -/
theorem map_id_updateWhere {w : World} {which : Row → Bool} {change : Row → Row}
    (same : ∀ row, (change row).id = row.id) :
    (w.updateWhere which change).rows.map Row.id = w.rows.map Row.id := by
  rw [World.updateWhere, List.map_map]
  refine List.map_congr_left fun row _ => ?_
  show (if which row then change row else row).id = row.id
  split
  · exact same row
  · rfl

theorem below_iff {rows : List Row} {n : ℕ} :
    (∀ row ∈ rows, row.id < n) ↔ ∀ id ∈ rows.map Row.id, id < n := by
  simp

/-- Rows that keep an update off what was sent. -/
theorem Aside.updateWhere {w : World} {which : Row → Bool} {change : Row → Row}
    (spares : ∀ row, which row → row.status ≠ .sent)
    (like : ∀ row, (change row).id = row.id ∧ (change row).account = row.account ∧
      (change row).status ≠ .sent) :
    Aside w.rows (w.updateWhere which change).rows := by
  intro row listed
  refine ⟨_, List.mem_map.mpr ⟨row, listed, rfl⟩, ?_⟩
  by_cases chosen : which row
  · rw [if_pos chosen]
    exact ⟨(like row).1, (like row).2.1, fun sent => absurd sent (spares row chosen),
      fun _ => (like row).2.2⟩
  · rw [if_neg chosen]
    exact ⟨rfl, rfl, fun _ => rfl, id⟩

theorem Accounted.aside {s' : Process} (settled : Accounted s ds)
    (aside : Aside s.outbox.rows s'.outbox.rows)
    (same : s'.nextAllowed = s.nextAllowed) : Accounted s' ds where
  written d listed := (settled.written d listed).aside aside
  waits d listed := by
    rw [same]
    exact settled.waits d listed

theorem Under.aside {r : Process} (under : Under cal pre s ds round p)
    (aside : Aside s.outbox.rows r.outbox.rows) (same : r.nextAllowed = s.nextAllowed)
    (evs : List Happened) :
    Under cal (pre ++ evs) r ds round p where
  settled := under.settled.aside aside same
  ready := under.ready
  own := under.own
  unsent := under.unsent.aside aside
  begun := under.begun.more evs

/-- A step beside the process: nothing goes out, and the rows change aside. -/
theorem OnRecord.beside (kept : OnRecord cal pre s) {ev : Happened} {outbox : World}
    (silent : ev.output = [])
    (aside : Aside s.outbox.rows outbox.rows) (once : (outbox.rows.map Row.id).Nodup)
    (below : ∀ row ∈ outbox.rows, row.id < outbox.nextId) :
    OnRecord cal (pre ++ [ev]) { s with outbox := outbox } := by
  have same : deliveries (pre ++ [ev]) = deliveries pre := by simp [deliveries, silent]
  refine ⟨same ▸ kept.held, same ▸ kept.distinct, fun d listed => ?_, once, below, ?_⟩
  · rw [same] at listed
    exact (kept.past d listed).more _
  · have stands := kept.stands
    simp only [Stands, same] at stands ⊢
    split at stands
    · exact stands.aside aside rfl
    · exact stands.aside (r := { s with outbox := outbox }) aside rfl _
    · obtain ⟨before, d, split, under, rest⟩ := stands
      exact ⟨before, d, split, under.aside (r := { s with outbox := outbox }) aside rfl _, rest⟩
    · exact stands.aside (r := { s with outbox := outbox }) aside rfl _

/-- What is known of a turn that takes a message. -/
theorem takeTurn_cases (cal : Calendar) (s : Process) (round : Round) (counted : Bool) :
    s.takeTurn cal round counted = s ∨
      ∃ row ∈ s.outbox.rows, row.account = round.account ∧ row.status = .pending ∧
        s.takeTurn cal round counted = { s with stage := .sending round row.picked } ∧
        (∀ t, s.nextAllowed round.account = some t → t ≤ round.readAt) ∧
        ¬ round.pace.quietAt cal (cal.timeOfDay round.readAt) ∧
        (sentCounts cal s.outbox.rows round.account round.readAt).1 < round.limits.1 ∧
        (sentCounts cal s.outbox.rows round.account round.readAt).2 < round.limits.2 := by
  simp only [Process.takeTurn]
  split
  · exact .inl rfl
  · rename_i waited
    split
    · exact .inl rfl
    · rename_i loud
      split
      · exact .inl rfl
      · split
        · exact .inl rfl
        · rename_i room
          obtain ⟨hour, day⟩ := not_or.mp room
          cases due : s.outbox.due round.account round.readAt with
          | none => exact .inl rfl
          | some row =>
            have found := List.find?_some due
            replace found := of_decide_eq_true found
            refine .inr ⟨row, List.mem_of_find?_eq_some due, found.1, found.2.1, rfl,
              fun t next => ?_, loud,
              Nat.lt_of_not_le hour, Nat.lt_of_not_le day⟩
            rw [next] at waited
            simpa using waited

/-- **A turn takes a message only where the limits leave room for it.** -/
theorem OnRecord.takes (kept : OnRecord cal pre s) (idle : s.stage = .idle) {ev : Happened}
    (silent : ev.output = []) (inTime : ∀ e ∈ pre, e.input.reading ≤ round.readAt)
    (now : ev.input.reading = round.readAt) (counted : Bool) :
    OnRecord cal (pre ++ [ev]) (s.takeTurn cal round counted) := by
  rcases takeTurn_cases cal s round counted with same | ⟨row, listed, own, waits, takes, passed,
    loud, hour, day⟩
  · rw [same]
    exact kept.beside silent (fun row listed => ⟨row, listed, rfl, rfl, fun _ => rfl, id⟩)
      kept.once kept.below
  · have settled : Accounted s (deliveries pre) := by
      have stands := kept.stands
      rwa [Stands, idle] at stands
    have same : deliveries (pre ++ [ev]) = deliveries pre := by simp [deliveries, silent]
    have past : ∀ d ∈ deliveries pre, d.moment ≤ round.readAt := by
      intro d listed
      obtain ⟨e, member, early⟩ := kept.past d listed
      exact early.trans (inTime e member)
    have ready : Ready cal (deliveries pre) round := by
      refine ⟨loud, (sentCounts_hour kept.distinct settled.written).trans_lt hour,
        (sentCounts_day kept.distinct settled.written).trans_lt day, past, fun d listed' mine => ?_⟩
      obtain ⟨t, next, far⟩ := settled.waits d listed'
      exact far.trans (passed t (mine ▸ next))
    have unsent : Unsent s.outbox.rows row.picked :=
      ⟨row, listed, rfl, rfl, by rw [waits]; exact fun sent => nomatch sent⟩
    have begun : Latest (pre ++ [ev]) round.readAt :=
      ⟨ev, List.mem_append_right _ (List.mem_singleton.mpr rfl), now.ge⟩
    rw [takes]
    refine ⟨same ▸ kept.held, same ▸ kept.distinct, fun d listed => ?_, kept.once, kept.below, ?_⟩
    · rw [same] at listed
      exact (kept.past d listed).more _
    · show Under cal (pre ++ [ev]) _ (deliveries (pre ++ [ev])) round row.picked
      rw [same]
      exact ⟨⟨settled.written, settled.waits⟩, ready, own, unsent, begun⟩

/-- A send that succeeds has handed the message over, and its answer was waited for. -/
theorem handed_of_ok {h : Handling} {carried : Carried} (ok : call h carried = .ok ()) :
    h.mayBeOut ∧ ∀ late, carried.lateness late = 0 := by
  cases carried with
  | timedOut | broken => cases ok
  | answered | unread =>
    refine ⟨?_, fun _ => rfl⟩
    cases h <;> first | rfl | cases ok

/-- **A message that goes out in its round is on record.** -/
theorem OnRecord.sends (kept : OnRecord cal pre s) (sending : s.stage = .sending round p) {ev : Happened}
    (inTime : ∀ e ∈ pre, e.input.reading ≤ ev.input.reading) {handling : Handling} {carried : Carried}
    {late : ℕ} (learns : handling.mayBeOut → call handling carried = .ok ())
    (out : ev.output = if handling.mayBeOut then
      [⟨p.id, p.account, round, ev.input.reading + carried.lateness late⟩] else []) :
    OnRecord cal (pre ++ [ev]) { s with stage := .updating round p (call handling carried) } := by
  have under : Under cal pre s (deliveries pre) round p := by
    have stands := kept.stands
    rwa [Stands, sending] at stands
  have still : ∀ ds, Under cal pre s ds round p →
      Under cal (pre ++ [ev]) { s with stage := .updating round p (call handling carried) } ds round p :=
    fun ds under => under.aside (r := { s with stage := .updating round p (call handling carried) })
      (fun row listed => ⟨row, listed, rfl, rfl, fun _ => rfl, id⟩) rfl _
  by_cases handed : handling.mayBeOut
  · have ok := learns handed
    rw [if_pos handed, (handed_of_ok ok).2] at out
    let d : Delivered := ⟨p.id, p.account, round, ev.input.reading⟩
    have more : deliveries (pre ++ [ev]) = deliveries pre ++ [d] := by simp [deliveries, out, d]
    have later : round.readAt ≤ d.moment := under.begun.le inTime
    refine ⟨?_, ?_, fun e listed => ?_, kept.once, kept.below, ?_⟩
    · rw [more]
      exact kept.held.concat under.ready under.own rfl later
    · rw [more, List.map_append]
      refine List.nodup_append.mpr ⟨kept.distinct, List.nodup_singleton _, fun id before id' last => ?_⟩
      obtain ⟨e, listed, rfl⟩ := List.mem_map.mp before
      rw [List.mem_singleton.mp last]
      exact under.unsent.fresh kept.once under.settled.written e listed
    · rw [more] at listed
      rcases List.mem_append.mp listed with before | last
      · exact (kept.past e before).more _
      · rw [List.mem_singleton.mp last]
        exact ⟨ev, List.mem_append_right _ (List.mem_singleton.mpr rfl), le_rfl⟩
    · have under' := still _ under
      rw [ok] at under' ⊢
      exact ⟨deliveries pre, d, more, under', rfl, rfl, rfl⟩
  · rw [if_neg handed] at out
    have same : deliveries (pre ++ [ev]) = deliveries pre := by simp [deliveries, out]
    refine ⟨same ▸ kept.held, same ▸ kept.distinct, fun d listed => ?_, kept.once, kept.below, ?_⟩
    · rw [same] at listed
      exact (kept.past d listed).more _
    · have under' := still _ under
      cases result : call handling carried with
      | ok => exact absurd (handed_of_ok result).1 handed
      | error e =>
        show Under cal (pre ++ [ev]) _ (deliveries (pre ++ [ev])) round p
        rw [same, ← result]
        exact under'

/-- What is accounted for stays so when a round ends: the row of its message is updated, and its
account waits from now on. -/
theorem Under.ends (under : Under cal pre s ds round p)
    (once : (s.outbox.rows.map Row.id).Nodup) {now : ℕ}
    (inTime : ∀ e ∈ pre, e.input.reading ≤ now) (ok : Bool) (result : Sent) (draw : ℕ) :
    Accounted ⟨if ok then s.outbox.updateWhere (·.id = p.id) (·.stamp p now result) else s.outbox, .idle,
      fun account => if account = round.account then some (now + round.pace.wait draw * SECOND)
        else s.nextAllowed account⟩ ds where
  written d listed := by
    have written := under.settled.written d listed
    cases ok with
    | false => exact written
    | true => exact written.updateWhere (under.unsent.fresh once under.settled.written d listed)
  waits d listed := by
    by_cases own : d.account = round.account
    · obtain ⟨e, member, early⟩ := under.begun
      have begun : round.readAt ≤ now := early.trans (inTime e member)
      refine ⟨_, if_pos own, ?_⟩
      exact (under.ready.apart d listed own).trans (begun.trans (Nat.le_add_right _ _))
    · obtain ⟨t, next, far⟩ := under.settled.waits d listed
      exact ⟨t, (if_neg own).trans next, far⟩

/-- **The update that ends a round is taken where its message went out.** -/
theorem OnRecord.updates (kept : OnRecord cal pre s) {result : Sent}
    (updating : s.stage = .updating round p result) {ev : Happened} (silent : ev.output = [])
    (inTime : ∀ e ∈ pre, e.input.reading ≤ ev.input.reading) {ok : Bool}
    (taken : result = .ok () → ok) (draw : ℕ) :
    OnRecord cal (pre ++ [ev])
      ⟨if ok then s.outbox.updateWhere (·.id = p.id) (·.stamp p ev.input.reading result)
        else s.outbox, .idle,
        fun account =>
        if account = round.account then some (ev.input.reading + round.pace.wait draw * SECOND)
          else s.nextAllowed account⟩ := by
  have same : deliveries (pre ++ [ev]) = deliveries pre := by simp [deliveries, silent]
  have ids : (if ok then s.outbox.updateWhere (·.id = p.id) (·.stamp p ev.input.reading result)
      else s.outbox).rows.map Row.id = s.outbox.rows.map Row.id := by
    cases ok with
    | false => rfl
    | true => exact map_id_updateWhere fun row => row.stamp_id p _ result
  have next : (if ok then s.outbox.updateWhere (·.id = p.id) (·.stamp p ev.input.reading result)
      else s.outbox).nextId = s.outbox.nextId := by
    cases ok <;> rfl
  refine ⟨same ▸ kept.held, same ▸ kept.distinct, fun d listed => ?_, ids ▸ kept.once, ?_, ?_⟩
  · rw [same] at listed
    exact (kept.past d listed).more _
  · rw [below_iff, ids, next, ← below_iff]
    exact kept.below
  · have stands := kept.stands
    simp only [Stands, updating] at stands
    show Accounted _ (deliveries (pre ++ [ev]))
    rw [same]
    match result, taken with
    | .error _, _ => exact stands.ends kept.once inTime ok _ draw
    | .ok (), taken =>
      obtain ⟨before, d, split, under, id, own, is⟩ := stands
      have ended := under.ends kept.once inTime ok (.ok ()) draw
      rw [taken rfl] at ended ⊢
      rw [split]
      have past : d.moment ≤ ev.input.reading :=
        (kept.past d (by simp [split])).le inTime
      refine ⟨fun e listed => ?_, fun e listed => ?_⟩
        <;> rcases List.mem_append.mp listed with earlier | last
      · exact ended.written e earlier
      · obtain rfl := List.mem_singleton.mp last
        obtain ⟨row, here, id', own', -⟩ := under.unsent
        refine ⟨_, List.mem_map.mpr ⟨row, here, if_pos (decide_eq_true id')⟩, ?_⟩
        exact ⟨id'.trans id.symm, own'.trans own.symm, rfl, _, rfl, past⟩
      · exact ended.waits e earlier
      · obtain rfl := List.mem_singleton.mp last
        refine ⟨_, if_pos (own.trans under.own), ?_⟩
        have waits : round.pace.minDelayS ≤ round.pace.wait draw := Nat.le_add_right _ _
        rw [is]
        exact Nat.add_le_add past (Nat.mul_le_mul_right _ waits)

/-- An order card adds a row, a person changes one that was not sent. -/
theorem aside_enqueue (w : World) (account chatId text : String) (now : ℕ) :
    Aside w.rows (w.step (.enqueue account chatId text now)).2.rows := fun row listed =>
  ⟨row, List.mem_append_left _ listed, rfl, rfl, fun _ => rfl, id⟩

theorem aside_retry (w : World) (id now : ℕ) : Aside w.rows (w.step (.retry id now)).2.rows := by
  refine Aside.updateWhere (fun row which sent => ?_) fun row => ⟨rfl, rfl, fun sent => nomatch sent⟩
  have waits := (of_decide_eq_true which).2
  rw [sent] at waits
  exact absurd waits (by decide)

theorem aside_forget (w : World) (account : String) : Aside w.rows (w.step (.forget account)).2.rows := by
  refine Aside.updateWhere (fun row which sent => ?_) fun row => ⟨rfl, rfl, fun sent => nomatch sent⟩
  have waits := (of_decide_eq_true which).2
  exact absurd (sent.symm.trans waits) (by decide)

/-- **Every recorded step keeps what is on record.** -/
theorem OnRecord.step (kept : OnRecord cal pre s) (turn : Turn)
    (records : Records pre (event (Process.step cal) s turn)) :
    OnRecord cal (pre ++ [event (Process.step cal) s turn]) (s.step cal turn).2 := by
  obtain ⟨inTime, learns⟩ := records
  have quiet : ∀ {ev : Happened}, ev.output = [] → OnRecord cal (pre ++ [ev]) s := fun silent =>
    kept.beside silent (fun row listed => ⟨row, listed, rfl, rfl, fun _ => rfl, id⟩) kept.once kept.below
  have stays : ∀ {turn : Turn}, s.step cal turn = ([], s) →
      OnRecord cal (pre ++ [event (Process.step cal) s turn]) (s.step cal turn).2 := by
    intro turn is
    rw [is]
    exact quiet (congrArg Prod.fst is)
  obtain ⟨reading, move⟩ := turn
  cases move with
  | round account pace firstReadyAt counted =>
    cases stage : s.stage with
    | idle =>
      have is : s.step cal ⟨reading, .round account pace firstReadyAt counted⟩ =
          ([], s.takeTurn cal ⟨account, reading, pace, firstReadyAt⟩ counted) := by
            rw [Process.step, stage]
      rw [is]
      exact kept.takes stage (congrArg Prod.fst is) inTime rfl counted
    | sending round p => exact stays (by rw [Process.step, stage])
    | updating round p result => exact stays (by rw [Process.step, stage])
  | send handling carried late =>
    cases stage : s.stage with
    | sending round p =>
      simp only [event_before, stage] at learns
      have is : s.step cal ⟨reading, .send handling carried late⟩ =
          (if handling.mayBeOut then [⟨p.id, p.account, round, reading + carried.lateness late⟩] else [],
            { s with stage := .updating round p (call handling carried) }) := by rw [Process.step, stage]
      rw [is]
      exact kept.sends stage inTime learns (congrArg Prod.fst is)
    | idle => exact stays (by rw [Process.step, stage])
    | updating round p result => exact stays (by rw [Process.step, stage])
  | update ok draw =>
    cases stage : s.stage with
    | updating round p result =>
      have taken : result = .ok () → ok := by
        rintro rfl
        simpa only [event_before, event_input, stage] using learns
      have silent : (event (Process.step cal) s ⟨reading, .update ok draw⟩).output = [] := by
        rw [event_output, Process.step, stage]
      have kept' := kept.updates stage silent inTime taken draw
      have is : (s.step cal ⟨reading, .update ok draw⟩).2 = ⟨if ok then
          s.outbox.updateWhere (·.id = p.id) (·.stamp p reading result) else s.outbox, .idle,
          fun account => if account = round.account then some (reading + round.pace.wait draw * SECOND)
            else s.nextAllowed account⟩ := by rw [Process.step, stage]
      rw [is]
      exact kept'
    | idle => exact stays (by rw [Process.step, stage])
    | sending round p => exact stays (by rw [Process.step, stage])
  | enqueue account chatId text =>
    have is : s.step cal ⟨reading, .enqueue account chatId text⟩ =
        ([], { s with outbox := (s.outbox.step (.enqueue account chatId text reading)).2 }) := by
      cases stage : s.stage <;> rw [Process.step, stage]
    rw [is]
    refine kept.beside (congrArg Prod.fst is) (aside_enqueue _ _ _ _ _) ?_ ?_
    · show ((s.outbox.rows ++ [_]).map Row.id).Nodup
      rw [List.map_append]
      refine List.nodup_append.mpr ⟨kept.once, List.nodup_singleton _, fun id before id' last => ?_⟩
      obtain ⟨row, listed, rfl⟩ := List.mem_map.mp before
      rw [List.mem_singleton.mp last]
      exact (kept.below row listed).ne
    · intro row listed
      rcases List.mem_append.mp listed with before | last
      · exact (kept.below row before).trans (Nat.lt_succ_self _)
      · rw [List.mem_singleton.mp last]
        exact Nat.lt_succ_self _
  | retry id =>
    have is : s.step cal ⟨reading, .retry id⟩ =
        ([], { s with outbox := (s.outbox.step (.retry id reading)).2 }) := by
      cases stage : s.stage <;> rw [Process.step, stage]
    have ids : (s.outbox.step (.retry id reading)).2.rows.map Row.id = s.outbox.rows.map Row.id :=
      map_id_updateWhere fun _ => rfl
    rw [is]
    refine kept.beside (congrArg Prod.fst is) (aside_retry _ _ _) (ids ▸ kept.once) ?_
    rw [below_iff, ids, ← below_iff]
    exact kept.below
  | forget account =>
    have is : s.step cal ⟨reading, .forget account⟩ =
        ([], { s with outbox := (s.outbox.step (.forget account)).2 }) := by
      cases stage : s.stage <;> rw [Process.step, stage]
    have ids : (s.outbox.step (.forget account)).2.rows.map Row.id = s.outbox.rows.map Row.id :=
      map_id_updateWhere fun _ => rfl
    rw [is]
    refine kept.beside (congrArg Prod.fst is) (aside_forget _ _) (ids ▸ kept.once) ?_
    rw [below_iff, ids, ← below_iff]
    exact kept.below

end Steps

theorem Held.start (cal : Calendar) : Held cal [] where
  hour pre d post split := absurd split (by simp)
  day pre d post split := absurd split (by simp)
  quiet d listed := absurd listed List.not_mem_nil
  apart := List.Pairwise.nil

/-- **An account's sending limits hold for everything that may have gone out**, in every recorded run. -/
theorem held_of_recorded (cal : Calendar) (stored : Stored) (turns : List Turn)
    (recorded : Recorded (events (Process.step cal) (.opened stored) turns)) :
    Held cal (deliveries (events (Process.step cal) (.opened stored) turns)) := by
  have start : OnRecord cal [] (.opened stored) :=
    ⟨Held.start cal, List.nodup_nil, fun d listed => absurd listed List.not_mem_nil, stored.once,
      stored.below,
      fun d listed => absurd listed List.not_mem_nil, fun d listed => absurd listed List.not_mem_nil⟩
  exact (run_induction (P := OnRecord cal) start
    (fun pre s turn kept records => kept.step turn records) recorded).held

/-- Israel's standard time, for moments from 1970 on. -/
def standardTime : Calendar where
  parse t :=
    match t.toList with
    | [h, h', ':', m, m'] =>
      if [h, h', m, m'].all Char.isDigit then
        let hour := 10 * (h.toNat - 48) + (h'.toNat - 48)
        let minute := 10 * (m.toNat - 48) + (m'.toNat - 48)
        if hour < 24 ∧ minute < 60 then some ((60 * hour + minute) * 60) else none
      else none
    | _ => none
  timeOfDay t := (t / SECOND + 7200) % 86400
  date t := (t / SECOND + 7200) / 86400
  midnight t := some (((t / SECOND + 7200) / 86400 * 86400 - 7200) * SECOND)
  date_mono s t later := Nat.div_le_div_right (Nat.add_le_add_right (Nat.div_le_div_right later) _)
  midnight_le now m t start today := by
    obtain rfl := Option.some.inj start
    rw [← today]
    have whole : (t / SECOND + 7200) / 86400 * 86400 ≤ t / SECOND + 7200 := Nat.div_mul_le_self _ _
    have seconds : (t / SECOND + 7200) / 86400 * 86400 - 7200 ≤ t / SECOND := Nat.sub_le_of_le_add whole
    exact (Nat.mul_le_mul_right _ seconds).trans (Nat.div_mul_le_self _ _)
  no_midnight now t none := nomatch none

/-- Two orders, in one account's rounds: the first finds the account not connected, then goes out;
the second waits its turn, then goes out. -/
theorem orders_held :
    let pace : Pace := ⟨8, 15, 60, 400, true, "22:00", "07:00", 3⟩
    let turns : List Turn := [⟨36000 * SECOND, .enqueue "main" "120@g.us" "order 7"⟩,
      ⟨36001 * SECOND, .enqueue "main" "120@g.us" "order 8"⟩,
      ⟨36002 * SECOND, .round "main" pace none true⟩,
      ⟨36003 * SECOND, .send .notReady .answered 0⟩, ⟨36004 * SECOND, .update true 2⟩,
      ⟨36014 * SECOND, .round "main" pace none true⟩, ⟨36016 * SECOND, .send .sent .answered 0⟩,
      ⟨36017 * SECOND, .update true 5⟩, ⟨36020 * SECOND, .round "main" pace none true⟩,
      ⟨36035 * SECOND, .round "main" pace none true⟩, ⟨36038 * SECOND, .send .sent .unread 0⟩,
      ⟨36039 * SECOND, .update true 0⟩]
    Held standardTime
      (deliveries (events (Process.step standardTime) (.opened ⟨[], 0, by decide, by decide⟩) turns)) :=
  held_of_recorded standardTime ⟨[], 0, by decide, by decide⟩ _ (by decide)

/-- The pace of a turn passes its check. -/
def Turn.accepted (cal : Calendar) (turn : Turn) : Bool :=
  match turn.move with
  | .round _ pace _ _ => pace.validate cal = .ok ()
  | _ => true

/-- One message an hour; the first goes out and its answer comes too late, so it is counted nowhere,
and the second goes out a minute later. -/
theorem late_uncounted :
    ¬ ∀ cal stored turns, (∀ turn ∈ turns, Turn.accepted cal turn) →
      Held cal (deliveries (events (Process.step cal) (.opened stored) turns)) := by
  intro all
  let pace : Pace := ⟨8, 15, 1, 400, false, "22:00", "07:00", 0⟩
  have held :=
    all standardTime ⟨[], 0, by decide, by decide⟩
      [⟨36000 * SECOND, .enqueue "main" "120@g.us" "order 7"⟩,
    ⟨36001 * SECOND, .enqueue "main" "120@g.us" "order 8"⟩,
    ⟨36002 * SECOND, .round "main" pace none true⟩,
    ⟨36004 * SECOND, .send .sent .timedOut 0⟩, ⟨36064 * SECOND, .update true 0⟩,
    ⟨36074 * SECOND, .round "main" pace none true⟩, ⟨36076 * SECOND, .send .sent .answered 0⟩] (by decide)
  have full := held.hour [⟨0, "main", ⟨"main", 36002 * SECOND, pace, none⟩, 36004 * SECOND⟩]
    ⟨1, "main", ⟨"main", 36074 * SECOND, pace, none⟩, 36076 * SECOND⟩ [] (by decide)
      (36000 * SECOND) (by decide)
    (by decide)
  revert full
  decide

end Callora.Outbox
