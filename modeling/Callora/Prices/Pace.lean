/-
**The pace of the price bot: when an account asks.**

An account's caps and pauses are counted over the moments its questions go out at. The caller's own
question waits out the pause, and is counted at the moment its wait is over; one asked ahead is not
asked within a pause at all. A moment that is still to come reads as no time ago. So the pause a
question waits is right where no other of its account is still waiting; where one is, both go out
too close together.

- `mayAsk_ok`: what is known of a question that is let through;
- `Moments`: what an account remembers are its questions' moments of the last day;
- `Heeds`: where a question that is let through keeps the pauses;
- `paced_of_heeded`: then they are kept, and the caps are kept in every run.
-/
import Callora.Library.Runs
import Callora.Library.Windows

set_option linter.unusedSectionVars false

namespace Callora.Prices

open Runs Windows

/-- How a price bot is asked, times in nanoseconds. -/
structure BotPace where
  gap : ℕ
  gapAhead : ℕ
  perHour : ℕ
  perDay : ℕ
  deriving DecidableEq

def BotPace.default : BotPace := ⟨4 * SECOND, 20 * SECOND, 40, 300⟩

/-- The clock, and when each account asked, over the last day. -/
structure Pacing where
  now : ℕ
  asked : String → List ℕ

def Pacing.opened : Pacing := ⟨0, fun _ => []⟩

/-- A call of `may_ask`, some time after the one before. -/
structure Knock where
  account : String
  ahead : Bool
  after : ℕ
  deriving DecidableEq

section Asking

variable (pace : BotPace)

/-- The caps an hour and a day. -/
def BotPace.caps (ahead : Bool) : ℕ × ℕ :=
  if ahead then (pace.perHour / 2, pace.perDay / 2) else (pace.perHour, pace.perDay)

/-- The pause before a question. -/
def BotPace.pause (ahead : Bool) : ℕ := if ahead then pace.gapAhead else pace.gap

/-- `WhatsAppChatBot::may_ask`, on the moments of its account: how long to wait, and the moments after. A
moment that is still to come is no time ago. -/
def mayAsk (times : List ℕ) (now : ℕ) (ahead : Bool) : Except String (Option ℕ) × List ℕ :=
  let times := times.filter fun t => now - t < DAY
  let hour := times.countP fun t => now - t < HOUR
  let (perHour, perDay) := pace.caps ahead
  if perHour ≤ hour then (.error "the questions an hour are used up", times)
  else if perDay ≤ times.length then (.error "the questions a day are used up", times)
  else
    let gap := pace.pause ahead
    let since := (times.map fun t => now - t).min?
    let wait := (since.filter (· < gap)).map (gap - ·)
    if wait.isSome && ahead then (.error "another question was asked a moment ago", times)
    else (.ok wait, times ++ [now + wait.getD 0])

/-- A call of `may_ask`: the moment its question goes out, or why it does not. -/
def Pacing.step (s : Pacing) (k : Knock) : Except String ℕ × Pacing :=
  let now := s.now + k.after
  let (answer, times) := mayAsk pace (s.asked k.account) now k.ahead
  (answer.map fun wait => now + wait.getD 0,
    ⟨now, fun account => if account = k.account then times else s.asked account⟩)

end Asking

/-- What happened at one call. -/
abbrev Call := Runs.Event Pacing Knock (Except String ℕ)

/-- The moment a call's question goes out. -/
def goesAt (call : Call) : Option ℕ := call.output.toOption

/-- The moments an account's questions go out at, in the order they were asked. -/
def moments (account : String) (calls : List Call) : List ℕ :=
  calls.filterMap fun call => if call.input.account = account then goesAt call else none

/-- **The price bot is asked at the pace promised**: an account's questions go out at least `gap`
apart, one asked ahead only where none went or will go within `gapAhead` before it, and never too
many in an hour or in a day. -/
structure Paced (pace : BotPace) (calls : List Call) : Prop where
  apart : ∀ account, Apart pace.gap (moments account calls)
  ahead : ∀ pre call post, calls = pre ++ call :: post → call.input.ahead → ∀ d, goesAt call = some d →
    (∀ t ∈ moments call.input.account pre, t ≤ d → t + pace.gapAhead ≤ d) ∧
      ∀ t ∈ moments call.input.account post, d ≤ t
  hour : ∀ account, AtMost pace.perHour HOUR (moments account calls)
  day : ∀ account, AtMost pace.perDay DAY (moments account calls)

/-- Where a question that is let through keeps the pauses, after these moments of its account. The
caller's own: none of them is still to come, and each is a pause ago unless one of the last day is
remembered. One asked ahead: its pause is the longer one, and no longer than a day, or each of them
is a pause ago. -/
def Heeds (pace : BotPace) (ahead : Bool) (now : ℕ) (earlier : List ℕ) : Prop :=
  if ahead then
    pace.gap ≤ pace.gapAhead ∧ pace.gapAhead ≤ DAY ∨
      ∀ t ∈ earlier, t + pace.gap ≤ now ∧ t + pace.gapAhead ≤ now
  else pace.gap = 0 ∨ ∀ t ∈ earlier, t ≤ now ∧ (t + pace.gap ≤ now ∨ ∃ r ∈ earlier, now < r + DAY)

instance (pace : BotPace) (ahead : Bool) (now : ℕ) (earlier : List ℕ) :
    Decidable (Heeds pace ahead now earlier) := by
  unfold Heeds
  infer_instance

/-- Every question that is let through does. -/
def Heeded (pace : BotPace) (calls : List Call) : Prop :=
  Along (fun pre call => (goesAt call).isSome →
    Heeds pace call.input.ahead (call.before.now + call.input.after)
      (moments call.input.account pre)) calls

instance (pace : BotPace) (calls : List Call) : Decidable (Heeded pace calls) :=
  inferInstanceAs (Decidable (Along _ calls))

section Questions

variable {pace : BotPace} {times times' : List ℕ} {now : ℕ} {ahead : Bool}

theorem lt_day (t : ℕ) : now - t < DAY ↔ now < t + DAY := by
  have long : 0 < DAY := by decide
  omega

theorem lt_hour (t : ℕ) : now - t < HOUR ↔ now < t + HOUR := by
  have long : 0 < HOUR := by decide
  omega

/-- The moments of the last day. -/
theorem filter_day : (times.filter fun t => now - t < DAY) = recent DAY now times := by
  simp only [recent, lt_day]

/-- A question that is let through: there is room in the hour and in the day, its moment is among the
account's, and it waits out its pause after each of the last day's, one asked ahead without waiting. -/
structure LetThrough (pace : BotPace) (times : List ℕ) (now : ℕ) (ahead : Bool) (wait : Option ℕ)
    (times' : List ℕ) : Prop where
  hour : (recent HOUR now times).length < pace.perHour
  day : (recent DAY now times).length < pace.perDay
  counted : times' = recent DAY now times ++ [now + wait.getD 0]
  /-- The pause is over. -/
  paused : ∀ t ∈ recent DAY now times, pace.pause ahead ≤ now - t + wait.getD 0
  straight : ahead → wait = none

/-- The pause a question waits out. -/
theorem wait_spec {gap : ℕ} {l : List ℕ} {t : ℕ} (listed : t ∈ l) :
    gap ≤ now - t + (((l.map fun t => now - t).min?.filter (· < gap)).map (gap - ·)).getD 0 := by
  cases least : (l.map fun t => now - t).min? with
  | none =>
    have empty : l = [] := List.map_eq_nil_iff.mp (List.min?_eq_none_iff.mp least)
    exact absurd listed (by simp [empty])
  | some since =>
    have below : since ≤ now - t := (List.min?_eq_some_iff.mp least).2 _ (List.mem_map_of_mem listed)
    by_cases soon : since < gap
    · rw [Option.filter_some, if_pos (decide_eq_true soon)]
      show gap ≤ now - t + (gap - since)
      omega
    · rw [Option.filter_some, if_neg (by simpa using soon)]
      show gap ≤ now - t + 0
      omega

/-- **A question that is let through.** -/
theorem mayAsk_ok {wait : Option ℕ} (through : mayAsk pace times now ahead = (.ok wait, times')) :
    LetThrough pace times now ahead wait times' := by
  have hours : (recent DAY now times).countP (fun t => now - t < HOUR) =
    (recent HOUR now times).length := by
    have shorter : HOUR ≤ DAY := by decide
    rw [List.countP_eq_length_filter]
    simp only [lt_hour]
    exact congrArg List.length (recent_recent shorter le_rfl)
  have caps : (pace.caps ahead).1 ≤ pace.perHour ∧ (pace.caps ahead).2 ≤ pace.perDay := by
    cases ahead
    · exact ⟨le_rfl, le_rfl⟩
    · exact ⟨Nat.div_le_self _ _, Nat.div_le_self _ _⟩
  simp only [mayAsk, filter_day, hours] at through
  split at through
  · cases through
  · rename_i room
    split at through
    · cases through
    · rename_i room'
      split at through
      · cases through
      · rename_i quiet
        obtain ⟨is, rfl⟩ := Prod.mk.inj through
        obtain rfl := Except.ok.inj is
        refine ⟨by omega, by omega, rfl, fun t listed => wait_spec listed, ?_⟩
        rintro rfl
        rw [Bool.and_true] at quiet
        exact Option.not_isSome_iff_eq_none.mp quiet

/-- A question that is not: its account forgets the moments of more than a day ago. -/
theorem mayAsk_error {why : String} (refused : mayAsk pace times now ahead = (.error why, times')) :
    times' = recent DAY now times := by
  simp only [mayAsk, filter_day] at refused
  split at refused
  · exact (Prod.mk.inj refused).2.symm
  · split at refused
    · exact (Prod.mk.inj refused).2.symm
    · split at refused
      · exact (Prod.mk.inj refused).2.symm
      · cases refused

end Questions

section Calls

variable {pace : BotPace} {pre : List Call} {s : Pacing} {k : Knock} {account : String}

theorem moments_other (other : k.account ≠ account) :
    moments account (pre ++ [event (Pacing.step pace) s k]) = moments account pre := by
  simp [moments, other]

theorem moments_own (own : k.account = account) :
    moments account (pre ++ [event (Pacing.step pace) s k]) =
      moments account pre ++ (goesAt (event (Pacing.step pace) s k)).toList := by
  cases moment : goesAt (event (Pacing.step pace) s k) <;> simp [moments, own, moment]

theorem step_other (other : k.account ≠ account) : (s.step pace k).2.asked account = s.asked account :=
  if_neg (Ne.symm other)

/-- A call lets its question through for a moment, or forgets the moments of more than a day ago. -/
theorem step_cases (pace : BotPace) (s : Pacing) (k : Knock) :
    (∃ wait, goesAt (event (Pacing.step pace) s k) = some (s.now + k.after + wait.getD 0) ∧
      LetThrough pace (s.asked k.account) (s.now + k.after) k.ahead wait
      ((s.step pace k).2.asked k.account)) ∨
    goesAt (event (Pacing.step pace) s k) = none ∧
      (s.step pace k).2.asked k.account = recent DAY (s.now + k.after) (s.asked k.account) := by
  have after : (s.step pace k).2.asked k.account =
      (mayAsk pace (s.asked k.account) (s.now + k.after) k.ahead).2 := if_pos rfl
  have moment : goesAt (event (Pacing.step pace) s k) =
      ((mayAsk pace (s.asked k.account) (s.now + k.after) k.ahead).1.map
        fun wait => s.now + k.after + wait.getD 0).toOption := rfl
  cases asks : mayAsk pace (s.asked k.account) (s.now + k.after) k.ahead with
  | mk answer times =>
    rw [after, moment, asks]
    cases answer with
    | ok wait => exact .inl ⟨wait, rfl, mayAsk_ok asks⟩
    | error why => exact .inr ⟨rfl, mayAsk_error asks⟩

/-- A call adds a moment of now or later. -/
theorem moments_later {t : ℕ} (listed : t ∈ moments account (pre ++ [event (Pacing.step pace) s k])) :
    t ∈ moments account pre ∨ s.now ≤ t := by
  by_cases own : k.account = account
  · rw [moments_own own] at listed
    refine (List.mem_append.mp listed).imp_right fun last => ?_
    rcases step_cases pace s k with ⟨wait, moment, -⟩ | ⟨moment, -⟩
    · rw [moment] at last
      obtain rfl := List.mem_singleton.mp last
      omega
    · rw [moment] at last
      exact absurd last List.not_mem_nil
  · rw [moments_other own] at listed
    exact .inl listed

/-- What the accounts remember of the calls before, and the caps. -/
structure Moments (pace : BotPace) (pre : List Call) (s : Pacing) : Prop where
  remembered : ∀ account now, s.now ≤ now →
    recent DAY now (s.asked account) = recent DAY now (moments account pre)
  hour : ∀ account, AtMost pace.perHour HOUR (moments account pre)
  day : ∀ account, AtMost pace.perDay DAY (moments account pre)

theorem Moments.start : Moments pace [] .opened where
  remembered _ _ _ := rfl
  hour _ := AtMost.nil
  day _ := AtMost.nil

/-- What a question that is let through knows of the moments before it. -/
theorem Moments.letThrough (kept : Moments pace pre s) {now : ℕ} (later : s.now ≤ now) {wait : Option ℕ}
    {times : List ℕ} (through : LetThrough pace (s.asked account) now k.ahead wait times) :
    LetThrough pace (moments account pre) now k.ahead wait times := by
  have day := kept.remembered account now later
  have hour : recent HOUR now (s.asked account) = recent HOUR now (moments account pre) := by
    have shorter : HOUR ≤ DAY := by decide
    rw [← recent_recent (l := s.asked account) shorter le_rfl, day, recent_recent shorter le_rfl]
  refine ⟨?_, ?_, ?_, ?_, through.straight⟩
  · rw [← hour]
    exact through.hour
  · rw [← day]
    exact through.day
  · rw [← day]
    exact through.counted
  · rw [← day]
    exact through.paused

/-- A property of an account's moments, where every question that is let through keeps it. -/
theorem Moments.each (kept : Moments pace pre s) {P : List ℕ → Prop} (holds : P (moments account pre))
    (adds : ∀ wait times, k.account = account → (goesAt (event (Pacing.step pace) s k)).isSome →
      LetThrough pace (moments account pre) (s.now + k.after) k.ahead wait times →
      P (moments account pre ++ [s.now + k.after + wait.getD 0])) :
    P (moments account (pre ++ [event (Pacing.step pace) s k])) := by
  by_cases own : k.account = account
  · rw [moments_own own]
    rcases step_cases pace s k with ⟨wait, moment, through⟩ | ⟨moment, -⟩
    · rw [own] at through
      have passed := adds wait _ own (Option.isSome_of_eq_some moment)
        (kept.letThrough (Nat.le_add_right _ _) through)
      rw [moment]
      exact passed
    · rw [moment, Option.toList_none, List.append_nil]
      exact holds
  · rw [moments_other own]
    exact holds

/-- **A call keeps them**, whatever waits. -/
theorem Moments.step (kept : Moments pace pre s) (k : Knock) :
    Moments pace (pre ++ [event (Pacing.step pace) s k]) (s.step pace k).2 where
  remembered account now passed := by
    replace passed : s.now + k.after ≤ now := passed
    have later : s.now ≤ now := by omega
    by_cases own : k.account = account
    · subst own
      rw [moments_own rfl, recent_append, ← kept.remembered k.account now later]
      rcases step_cases pace s k with ⟨wait, moment, through⟩ | ⟨moment, forgot⟩
      · rw [moment, through.counted, recent_append, recent_recent le_rfl passed]
        rfl
      · rw [moment, forgot, recent_recent le_rfl passed]
        exact (List.append_nil _).symm
    · rw [step_other own, moments_other own]
      exact kept.remembered account now later
  hour account :=
    kept.each (kept.hour account) fun _ _ _ _ through =>
      (kept.hour account).concat through.hour (Nat.le_add_right _ _)
  day account :=
    kept.each (kept.day account) fun _ _ _ _ through =>
      (kept.day account).concat through.day (Nat.le_add_right _ _)

/-- The caps are kept in every run, whatever waits. -/
theorem caps_kept (pace : BotPace) (knocks : List Knock) :
    Moments pace (events (Pacing.step pace) .opened knocks)
    (final (Pacing.step pace) .opened knocks) := by
  refine run_induction (C := fun _ _ => True) Moments.start (fun pre s k kept _ => kept.step k) ?_
  exact fun _ _ _ _ => trivial

/-- A question that heeds the pauses is far from those before it, and one asked ahead follows none of them
within its pause. -/
theorem LetThrough.far {earlier times : List ℕ} {now : ℕ} {ahead : Bool} {wait : Option ℕ}
    (through : LetThrough pace earlier now ahead wait times)
    (heeds : Heeds pace ahead now earlier) {t : ℕ}
    (listed : t ∈ earlier) :
    (t + pace.gap ≤ now + wait.getD 0 ∨ now + wait.getD 0 + pace.gap ≤ t) ∧
      (ahead → t ≤ now → t + pace.gapAhead ≤ now) := by
  have paused : ∀ r ∈ earlier, now < r + DAY → pace.pause ahead ≤ now - r + wait.getD 0 :=
    fun r here soon => through.paused r (mem_recent.mpr ⟨here, soon⟩)
  have here := paused t listed
  cases ahead with
  | true =>
    have straight : wait = none := through.straight rfl
    subst straight
    replace here : now < t + DAY → pace.gapAhead ≤ now - t + 0 := here
    simp only [Heeds, if_true] at heeds
    simp only [Option.getD_none]
    rcases heeds with ⟨longer, short⟩ | past
    · omega
    · have := past t listed
      omega
  | false =>
    refine ⟨?_, fun ahead => nomatch ahead⟩
    replace paused : ∀ r ∈ earlier, now < r + DAY → pace.gap ≤ now - r + wait.getD 0 := paused
    replace here : now < t + DAY → pace.gap ≤ now - t + wait.getD 0 := here
    simp only [Heeds, Bool.false_eq_true, if_false] at heeds
    rcases heeds with none | past
    · omega
    · obtain ⟨before, elapsed | ⟨r, listed', soon⟩⟩ := past t listed
      · omega
      · have := (past r listed').1
        have := paused r listed' soon
        omega

/-- The pauses, as far as the calls have come. -/
structure Paused (pace : BotPace) (calls : List Call) (now : ℕ) : Prop where
  apart : ∀ account, Apart pace.gap (moments account calls)
  ahead : ∀ pre call post, calls = pre ++ call :: post → call.input.ahead → ∀ d, goesAt call = some d →
    d ≤ now ∧ (∀ t ∈ moments call.input.account pre, t ≤ d → t + pace.gapAhead ≤ d) ∧
      ∀ t ∈ moments call.input.account post, d ≤ t

theorem Paused.start : Paused pace [] 0 where
  apart _ := Apart.nil
  ahead pre call post split := absurd split (by simp)

/-- **A call that heeds the pauses keeps them.** -/
theorem Paused.step (paused : Paused pace pre s.now) (kept : Moments pace pre s)
    (heeds : (goesAt (event (Pacing.step pace) s k)).isSome →
      Heeds pace k.ahead (s.now + k.after) (moments k.account pre)) :
    Paused pace (pre ++ [event (Pacing.step pace) s k]) (s.step pace k).2.now where
  apart account := by
    refine kept.each (paused.apart account) fun wait times own goes through => ?_
    subst own
    exact (paused.apart _).concat fun t listed => (through.far (heeds goes) listed).1
  ahead pre' call post split ahead d moment := by
    have later : s.now ≤ (s.step pace k).2.now := Nat.le_add_right _ _
    rcases split_concat split with ⟨rfl, rfl, rfl⟩ | ⟨post, rfl, rfl⟩
    · rcases step_cases pace s k with ⟨wait, goes, through⟩ | ⟨none, -⟩
      · replace through := kept.letThrough (Nat.le_add_right _ _) through
        have straight : wait = none := through.straight ahead
        subst straight
        obtain rfl : s.now + k.after = d := Option.some.inj (goes.symm.trans moment)
        refine ⟨le_rfl, fun t listed before => ?_, fun t listed => absurd listed List.not_mem_nil⟩
        exact (through.far (heeds (Option.isSome_of_eq_some goes)) listed).2 ahead before
      · cases none.symm.trans moment
    · obtain ⟨past, before, after⟩ := paused.ahead pre' call post rfl ahead d moment
      refine ⟨Nat.le_trans past later, before, fun t listed => ?_⟩
      rcases moments_later listed with here | late
      · exact after t here
      · exact Nat.le_trans past late

end Calls

/-- **The price bot is asked at the pace promised**, in every run whose questions heed the pauses. -/
theorem paced_of_heeded (pace : BotPace) (knocks : List Knock)
    (heeded : Heeded pace (events (Pacing.step pace) .opened knocks)) :
    Paced pace (events (Pacing.step pace) .opened knocks) := by
  have both := run_induction (P := fun calls s => Moments pace calls s ∧ Paused pace calls s.now)
    ⟨Moments.start, Paused.start⟩
    (fun _ _ k ⟨kept, paused⟩ heeds => ⟨kept.step k, paused.step kept heeds⟩) heeded
  obtain ⟨kept, paused⟩ := both
  refine ⟨paused.apart, fun pre call post split ahead d moment => ?_, kept.hour, kept.day⟩
  exact (paused.ahead pre call post split ahead d moment).2

/-- A question, one ahead that is not asked, the caller's own that waits, and one ahead later. -/
theorem asked_paced :
    let knocks : List Knock :=
      [⟨"a1", false, 0⟩, ⟨"a1", true, SECOND⟩, ⟨"a1", false, SECOND⟩, ⟨"a1", true, 30 * SECOND⟩]
    Paced .default (events (Pacing.step .default) .opened knocks) :=
  paced_of_heeded .default _ (by decide)

/-- Two calls wait out the pause after a third: their questions go out a tenth of a second apart. -/
theorem waiting_together :
    ¬ ∀ pace knocks, Paced pace (events (Pacing.step pace) .opened knocks) := by
  intro all
  have apart :=
    (all .default [⟨"a1", false, 0⟩, ⟨"a1", false, 100000000⟩, ⟨"a1", false, 100000000⟩]).apart "a1"
  revert apart
  unfold Apart
  decide

end Callora.Prices
