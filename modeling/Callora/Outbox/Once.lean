/-
**An order message goes out at most once on its own: when.**

Nothing claims a row between the moment a sender selects it and the update that says what came of
it, and a broken connection counts as a message that never left. So a message goes out again where
its answer is lost with the connection, where the update fails or the process stops after it was
handed over, and where two processes that overlap both select it.

- `careful` is what keeps a step from that;
- `Kept` is what then holds of a message nobody sent again: one sender at most is at it; a sender
  that will report a failure has not handed it over; and once it was handed over, a sender will say
  so or it is not waiting;
- `once_of_careful`: so a message goes out at most once on its own.
-/
import Callora.Outbox.Sender
import Mathlib.Algebra.Order.Group.Nat

set_option linter.unusedSectionVars false

namespace Callora.Outbox

open Runs Pools

/-! ### What keeps a step from sending twice -/

/-- The sender will learn that the message may be out. -/
def Carried.conclusive (handling : Handling) : Carried → Bool
  | .timedOut | .answered => true
  | .unread => handling ≠ .unknown
  | .broken => false

/-- A row with this outcome is not sent again. -/
def settles : Sent → Bool
  | .ok () | .error (.refused _) | .error (.outcomeUnknown _) => true
  | _ => false

/-- The sender knows that its message is not to be sent again. -/
def Sender.tells (id : ℕ) : Sender → Bool
  | .updating p result => p.id = id ∧ settles result
  | _ => false

/-- It knows so of a message that was handed over, and that nobody sent again. -/
def Sender.owes (t : List Act) : Sender → Bool
  | .updating p result => settles result ∧ .handed p.id ∈ t ∧ .retried p.id ∉ t
  | _ => false

/-- After these acts, at this step: a message is not selected while a sender is at it; the answer
about a message that may be out is not lost; the update about one is taken, and its process does not
stop before. -/
def careful (t : List Act) (ev : Event) : Bool :=
  match ev.input with
  | .select i account now =>
    match ev.before.senders[i]?, ev.before.due account now with
    | some .idle, some row => .retried row.id ∈ t ∨ ev.before.senders.all (!·.holds row.id)
    | _, _ => true
  | .send i handling carried =>
    match ev.before.senders[i]? with
    | some (.sending p) => .retried p.id ∈ t ∨ !handling.mayBeOut ∨ carried.conclusive handling
    | _ => true
  | .update i _ ok => ok || ev.before.senders[i]?.all (!·.owes t)
  | .stop i => ev.before.senders[i]?.all (!·.owes t)
  | _ => true

/-- Every step of the run is careful. -/
def Careful (evs : List Event) : Prop := Along (fun pre ev => careful (trace pre) ev = true) evs

instance (evs : List Event) : Decidable (Careful evs) :=
  inferInstanceAs (Decidable (Along _ evs))

theorem settles_call {h : Handling} {carried : Carried} (out : h.mayBeOut)
    (conclusive : carried.conclusive h) : settles (call h carried) := by
  cases carried with
  | timedOut => rfl
  | broken => cases conclusive
  | answered | unread =>
    cases h with
    | sent | refused => rfl
    | unknown => first | rfl | cases conclusive
    | notReady | notFound | failed => cases out

/-! ### What a step keeps -/

theorem Sender.holds_of_tells {id : ℕ} {s : Sender} (tells : s.tells id) : s.holds id := by
  cases s with
  | updating p result =>
    have both : p.id = id ∧ settles result := by simpa [Sender.tells] using tells
    simp [Sender.holds, both.1]
  | _ => cases tells

/-- One for a sender at a message, none for another. -/
def Sender.share (id : ℕ) (s : Sender) : ℕ := (s.holds id).toNat

/-- No row of the message waits. -/
def Settled (id : ℕ) (rows : List Row) : Prop := ∀ row ∈ rows, row.id = id → row.status ≠ .pending

/-- What holds of a message nobody sent again. -/
structure Kept (id : ℕ) (t : List Act) (w : World) : Prop where
  /-- One sender at most is at it. -/
  alone : weight (Sender.share id) w.senders ≤ 1
  /-- A sender that does not know that it may be out has not handed it over. -/
  first : ∀ s ∈ w.senders, s.holds id → ¬ s.tells id → .handed id ∉ t
  /-- Once it was handed over, a sender will say so or it is not waiting. -/
  told : .handed id ∈ t → (∃ s ∈ w.senders, s.tells id) ∨ Settled id w.rows
  once : t.count (.handed id) ≤ 1

/-- Only messages of the outbox are at a sender or handed over. -/
structure Known (t : List Act) (w : World) : Prop where
  rows : ∀ row ∈ w.rows, row.id < w.nextId
  held : ∀ id, ∀ s ∈ w.senders, s.holds id → id < w.nextId
  handed : ∀ id, .handed id ∈ t → id < w.nextId

section Steps

variable {id i : ℕ} {t : List Act} {w : World} {s : Sender}

theorem Sender.share_le (s : Sender) : s.share id ≤ 1 := Bool.toNat_le _

theorem Sender.share_of_holds (holds : s.holds id) : s.share id = 1 := by
  rw [Sender.share, holds, Bool.toNat_true]

theorem Sender.share_of_not (not : ¬ s.holds id) : s.share id = 0 := by
  rw [Sender.share, Bool.eq_false_iff.mpr not, Bool.toNat_false]

/-- A sender goes on with the message it is at, or leaves it. -/
theorem Kept.alone_set (kept : Kept id t w) (here : w.senders[i]? = some s) {q : Sender}
    (fewer : q.holds id → s.holds id) : weight (Sender.share id) (w.senders.set i q) ≤ 1 := by
  have change := weight_set (m := Sender.share id) (q := q) here
  have light := kept.alone
  have less : q.share id ≤ s.share id := by
    by_cases holds : q.holds id
    · exact (Sender.share_of_holds holds).trans_le (Sender.share_of_holds (fewer holds)).ge
    · rw [Sender.share_of_not holds]
      exact Nat.zero_le _
  omega

/-- Other acts change nothing. -/
theorem Kept.aside (kept : Kept id t w) {acts : List Act} (others : .handed id ∉ acts) :
    Kept id (t ++ acts) w := by
  have same : .handed id ∈ t ++ acts ↔ .handed id ∈ t := by simp [others]
  refine ⟨kept.alone, fun s member holds silent => ?_, fun handed => kept.told (same.mp handed), ?_⟩
  · exact fun handed => kept.first s member holds silent (same.mp handed)
  · rw [List.count_append, List.count_eq_zero_of_not_mem others]
    exact kept.once

/-- Rows that wait no more than they did. -/
theorem Kept.rows (kept : Kept id t w) {rows : List Row} {nextId : ℕ}
    (still : .handed id ∈ t → Settled id w.rows → Settled id rows) :
    Kept id t ⟨rows, nextId, w.senders⟩ where
  alone := kept.alone
  first := kept.first
  told handed := (kept.told handed).imp_right (still handed)
  once := kept.once

/-- A sender leaves its message. -/
theorem Kept.leaves (kept : Kept id t w) (here : w.senders[i]? = some s) {s' : Sender} {rows : List Row}
    (nothing : ¬ s'.holds id) (still : Settled id w.rows → Settled id rows)
    (said : s.tells id → .handed id ∈ t → Settled id rows) :
    Kept id t ⟨rows, w.nextId, w.senders.set i s'⟩ where
  alone := kept.alone_set here fun holds => absurd holds nothing
  first := by
    intro s'' member holds silent
    rcases List.mem_or_eq_of_mem_set member with before | rfl
    · exact kept.first s'' before holds silent
    · exact absurd holds nothing
  told := by
    intro handed
    by_cases tells : s.tells id
    · exact .inr (said tells handed)
    · exact (kept.told handed).imp (exists_set here tells) still
  once := kept.once

/-- A sender selects a message no sender is at. -/
theorem Kept.selects (kept : Kept id t w) (here : w.senders[i]? = some .idle) {row : Row}
    (listed : row ∈ w.rows) (waiting : row.status = .pending)
    (free : row.id = id → ∀ s ∈ w.senders, ¬ s.holds id) :
    Kept id t (w.setSender i (.sending row.picked)) := by
  by_cases same : row.id = id
  · have handed : .handed id ∉ t := by
      intro handed
      rcases kept.told handed with ⟨s, member, tells⟩ | settled
      · exact free same s member (Sender.holds_of_tells tells)
      · exact settled row listed same waiting
    have none : weight (Sender.share id) w.senders = 0 :=
      weight_eq_zero fun s member => Sender.share_of_not (free same s member)
    refine ⟨?_, fun _ _ _ _ => handed, fun out => absurd out handed, kept.once⟩
    have change := weight_set (m := Sender.share id) (q := .sending row.picked) here
    have one : Sender.share id (.sending row.picked) ≤ 1 := Sender.share_le _
    show weight (Sender.share id) (w.senders.set i (.sending row.picked)) ≤ 1
    omega
  · have other : ¬ Sender.holds id (.sending row.picked) := fun holds => same (of_decide_eq_true holds)
    exact kept.leaves here other (fun settled => settled) fun tells => nomatch tells

/-- A sender hands its message over, or learns that it cannot. -/
theorem Kept.sends (kept : Kept id t w) {p : Picked} (here : w.senders[i]? = some (.sending p))
    {h : Handling} {carried : Carried} (conclusive : p.id = id → h.mayBeOut → carried.conclusive h) :
    Kept id (t ++ if h.mayBeOut then [.handed p.id] else [])
    (w.setSender i (.updating p (call h carried))) := by
  have member : .sending p ∈ w.senders := List.mem_of_getElem? here
  have bound : i < w.senders.length := (List.getElem?_eq_some_iff.mp here).choose
  by_cases same : p.id = id
  · subst same
    have holds : Sender.holds p.id (.sending p) := by simp [Sender.holds]
    have handed : .handed p.id ∉ t := kept.first _ member holds fun tells => nomatch tells
    have alone := kept.alone_set (q := .updating p (call h carried)) here fun _ => holds
    have now : .updating p (call h carried) ∈ (w.setSender i (.updating p (call h carried))).senders :=
      List.mem_set bound _
    by_cases out : h.mayBeOut
    · have tells : Sender.tells p.id (.updating p (call h carried)) := by
        simp [Sender.tells, settles_call out (conclusive rfl out)]
      rw [if_pos out]
      refine ⟨alone, ?_, fun _ => .inl ⟨_, now, tells⟩, ?_⟩
      · intro s other holds' silent
        obtain rfl := eq_of_weight_le_one alone other now (Sender.share_of_holds holds').ge
          (Sender.share_of_holds (Sender.holds_of_tells tells)).ge
        exact absurd tells silent
      · rw [List.count_append, List.count_eq_zero_of_not_mem handed]
        simp
    · rw [if_neg out, List.append_nil]
      exact ⟨alone, fun _ _ _ _ => handed, fun out => absurd out handed, kept.once⟩
  · have other : ¬ Sender.holds id (.updating p (call h carried)) := by
      simpa [Sender.holds] using same
    refine (kept.leaves here other (fun settled => settled) fun tells => nomatch tells).aside ?_
    split
    · simpa using fun equal : id = p.id => same equal.symm
    · exact List.not_mem_nil

/-- What came of a send makes no message wait that did not. -/
theorem record_status {row : Row} {p : Picked} {now : ℕ} {result : Sent}
    (done : row.status ≠ .pending ∨ settles result) : (row.record p now result).status ≠ .pending := by
  match result, done with
  | .ok (), _ | .error (.refused _), _ | .error (.outcomeUnknown _), _ => exact fun h => nomatch h
  | .error .notReady, .inl waits | .error .notFound, .inl waits | .error (.unavailable _), .inl waits =>
    show (if p.attempts + 1 ≥ maxAttempts then Status.failed else row.status) ≠ .pending
    split
    · exact fun h => nomatch h
    · exact waits

/-- An update that makes no row of the message wait. -/
theorem Settled.updateWhere {which : Row → Bool} {change : Row → Row} (settled : Settled id w.rows)
    (same : ∀ row, which row → (change row).id = row.id)
    (kept : ∀ row, which row → row.id = id → row.status ≠ .pending → (change row).status ≠ .pending) :
    Settled id (w.updateWhere which change).rows := by
  intro row listed known
  obtain ⟨old, member, rfl⟩ := List.mem_map.mp listed
  by_cases changed : which old
  · rw [if_pos changed] at known ⊢
    have here : old.id = id := (same old changed).symm.trans known
    exact kept old changed here (settled old member here)
  · rw [if_neg changed] at known ⊢
    exact settled old member known

theorem Row.record_id (row : Row) (p : Picked) (now : ℕ) (result : Sent) :
    (row.record p now result).id = row.id := by
  match result with
  | .ok () | .error (.refused _) | .error (.outcomeUnknown _) => rfl
  | .error .notReady | .error .notFound | .error (.unavailable _) => rfl

/-- What came of a send is written, or not. -/
theorem Kept.updates (kept : Kept id t w) {p : Picked} {result : Sent}
    (here : w.senders[i]? = some (.updating p result)) (now : ℕ) {ok : Bool}
    (taken : .retried id ∉ t) (said : ok ∨ ¬ Sender.owes t (.updating p result)) :
    Kept id t
    ((if ok then w.updateWhere (·.id = p.id) (·.record p now result) else w).setSender i .idle) := by
  cases ok with
  | false =>
    refine kept.leaves here (fun holds => nomatch holds) (fun settled => settled) fun tells handed => ?_
    have both : p.id = id ∧ settles result := by simpa [Sender.tells] using tells
    have owes : Sender.owes t (.updating p result) := by
      simp [Sender.owes, both.1, both.2, handed, taken]
    exact absurd owes (said.resolve_left Bool.false_ne_true)
  | true =>
    refine kept.leaves here (fun holds => nomatch holds) (fun settled => ?_) fun tells _ => ?_
    · exact settled.updateWhere (fun row _ => row.record_id p now result)
        fun row _ _ waits => record_status (.inl waits)
    · have both : p.id = id ∧ settles result := by simpa [Sender.tells] using tells
      intro row listed known
      obtain ⟨old, member, rfl⟩ := List.mem_map.mp listed
      by_cases changed : old.id = p.id
      · rw [if_pos (decide_eq_true changed)]
        exact record_status (.inr both.2)
      · rw [if_neg (by simpa using changed)] at known
        exact absurd (known.trans both.1.symm) changed

end Steps

section Runs

variable {id : ℕ} {t : List Act} {w : World}

/-- The message that is due is a row that waits. -/
theorem World.due_spec {account : String} {now : ℕ} {row : Row} (due : w.due account now = some row) :
    row ∈ w.rows ∧ row.status = .pending := by
  have found := List.find?_some due
  exact ⟨List.mem_of_find?_eq_some due, (of_decide_eq_true found).2.1⟩

/-- **A careful step keeps it.** -/
theorem Kept.step (kept : Kept id t w) (known : Known t w) {i : Input}
    (cares : careful t (event World.step w i)) (own : .retried id ∉ t ++ (w.step i).1) :
    Kept id (t ++ (w.step i).1) (w.step i).2 := by
  have before : .retried id ∉ t := fun earlier => own (List.mem_append_left _ earlier)
  have same : Kept id (t ++ []) w := by
    rw [List.append_nil]
    exact kept
  cases i with
  | start =>
    have quiet : ∀ s ∈ w.senders ++ [.idle], s.holds id → s ∈ w.senders := by
      intro s member holds
      rcases List.mem_append.mp member with old | new
      · exact old
      · rw [List.mem_singleton.mp new] at holds
        cases holds
    refine ⟨?_, fun s member holds => same.first s (quiet s member holds) holds,
      fun handed => ?_, same.once⟩
    · show weight (Sender.share id) (w.senders ++ [.idle]) ≤ 1
      rw [weight_append, weight_single]
      exact kept.alone
    · refine (same.told handed).imp_left ?_
      rintro ⟨s, member, tells⟩
      exact ⟨s, List.mem_append_left _ member, tells⟩
  | stop j =>
    cases here : w.senders[j]? with
    | none =>
      have gone : (w.step (.stop j)).2 = w := by
        show w.setSender j .gone = w
        rw [World.setSender, List.set_eq_of_length_le (List.getElem?_eq_none_iff.mp here)]
      rw [gone]
      exact same
    | some s =>
      refine same.leaves here (fun holds => nomatch holds) (fun settled => settled) fun tells handed => ?_
      have silent : ¬ s.owes t := by simpa [careful, here] using cares
      cases s with
      | updating p result =>
        have both : p.id = id ∧ settles result := by simpa [Sender.tells] using tells
        have out : .handed id ∈ t := by simpa using handed
        exact absurd (by simp [Sender.owes, both.1, both.2, out, before]) silent
      | _ => cases tells
  | select j account now =>
    simp only [World.step]
    split
    · rename_i row here due
      obtain ⟨listed, waiting⟩ := World.due_spec due
      refine same.selects here listed waiting fun known s member => ?_
      subst known
      have free : ∀ s ∈ w.senders, Sender.holds row.id s = false := by
        simpa [careful, here, due, before] using cares
      simp [free s member]
    · exact same
  | send j handling carried =>
    simp only [World.step]
    split
    · rename_i p here
      refine kept.sends here fun known out => ?_
      subst known
      simpa [careful, here, before, out] using cares
    · exact same
  | update j now ok =>
    simp only [World.step]
    split
    · rename_i p result here
      rw [List.append_nil]
      refine kept.updates here now before ?_
      simpa [careful, here] using cares
    · exact same
  | enqueue account chatId text now =>
    refine same.rows fun handed settled row listed is => ?_
    rcases List.mem_append.mp listed with old | new
    · exact settled row old is
    · have fresh : id < w.nextId := known.handed id (by simpa using handed)
      rw [List.mem_singleton.mp new] at is
      exact absurd is fresh.ne'
  | retry other now =>
    have others : id ≠ other := by
      rintro rfl
      exact own (List.mem_append_right _ (List.mem_singleton.mpr rfl))
    refine (kept.aside (show .handed id ∉ [Act.retried other] by simp)).rows fun _ settled => ?_
    refine settled.updateWhere (fun _ _ => rfl) fun row which is => ?_
    exact absurd (is.symm.trans (of_decide_eq_true which).1) others
  | forget account =>
    refine same.rows fun _ settled => ?_
    exact settled.updateWhere (fun _ _ => rfl) fun _ _ _ _ h => nomatch h

/-- Another sender, at a message of the outbox. -/
theorem Known.set (known : Known t w) {i : ℕ} {s : Sender} (own : ∀ id, s.holds id → id < w.nextId) :
    Known t (w.setSender i s) where
  rows := known.rows
  handed := known.handed
  held := by
    intro id s' member holds
    rcases List.mem_or_eq_of_mem_set member with before | rfl
    · exact known.held id s' before holds
    · exact own id holds

/-- An update of the rows. -/
theorem Known.updateWhere (known : Known t w) {which : Row → Bool} {change : Row → Row}
    (same : ∀ row, which row → (change row).id = row.id) : Known t (w.updateWhere which change) where
  held := known.held
  handed := known.handed
  rows := by
    intro row listed
    obtain ⟨old, member, rfl⟩ := List.mem_map.mp listed
    by_cases changed : which old
    · rw [if_pos changed, same old changed]
      exact known.rows old member
    · rw [if_neg changed]
      exact known.rows old member

/-- More acts, of messages of the outbox. -/
theorem Known.acts (known : Known t w) {acts : List Act} (own : ∀ id, .handed id ∈ acts → id < w.nextId) :
    Known (t ++ acts) w where
  rows := known.rows
  held := known.held
  handed id listed := (List.mem_append.mp listed).elim (known.handed id) (own id)

/-- Every step keeps the messages known. -/
theorem Known.step (known : Known t w) (i : Input) : Known (t ++ (w.step i).1) (w.step i).2 := by
  have same : Known (t ++ []) w := known.acts fun id none => absurd none List.not_mem_nil
  have ofPicked : ∀ {s : Sender} {j : ℕ} {p : Picked} {result : Sent}, w.senders[j]? = some s →
      s.holds p.id → ∀ id, Sender.holds id (.updating p result) → id < w.nextId := by
    intro s j p result here holds id holds'
    obtain rfl : p.id = id := of_decide_eq_true holds'
    exact known.held p.id s (List.mem_of_getElem? here) holds
  cases i with
  | start =>
    refine ⟨same.rows, fun id s member holds => ?_, same.handed⟩
    rcases List.mem_append.mp member with old | new
    · exact known.held id s old holds
    · rw [List.mem_singleton.mp new] at holds
      cases holds
  | stop j => exact same.set fun id holds => nomatch holds
  | select j account now =>
    simp only [World.step]
    split
    · rename_i row here due
      refine same.set fun id holds => ?_
      obtain rfl : row.id = id := of_decide_eq_true holds
      exact known.rows row (World.due_spec due).1
    · exact same
  | send j handling carried =>
    simp only [World.step]
    split
    · rename_i p here
      have mine : Sender.holds p.id (.sending p) := decide_eq_true rfl
      refine (known.set (ofPicked here mine)).acts fun id handed => ?_
      split at handed
      · obtain rfl : id = p.id := by simpa using handed
        exact known.held p.id _ (List.mem_of_getElem? here) mine
      · exact absurd handed List.not_mem_nil
    · exact same
  | update j now ok =>
    simp only [World.step]
    split
    · rename_i p result here
      cases ok with
      | false => exact same.set fun id holds => nomatch holds
      | true =>
        refine Known.set (same.updateWhere fun row _ => row.record_id p now result) fun id holds => ?_
        cases holds
    · exact same
  | enqueue account chatId text now =>
    refine ⟨fun row listed => ?_, fun id s member holds => ?_, fun id handed => ?_⟩
    · rcases List.mem_append.mp listed with old | new
      · exact Nat.lt_succ_of_lt (known.rows row old)
      · rw [List.mem_singleton.mp new]
        exact Nat.lt_succ_self _
    · exact Nat.lt_succ_of_lt (known.held id s member holds)
    · exact Nat.lt_succ_of_lt (same.handed id handed)
  | retry other now =>
    have none : ∀ id, .handed id ∈ [Act.retried other] → id < w.nextId := by simp
    exact (known.acts none).updateWhere fun _ _ => rfl
  | forget account => exact same.updateWhere fun _ _ => rfl

end Runs

/-- What a careful run keeps. -/
theorem Careful.kept {inputs : List Input} (calm : Careful (events World.step .empty inputs)) :
    Known (trace (events World.step .empty inputs)) (final World.step .empty inputs) ∧
      ∀ id, .retried id ∉ trace (events World.step .empty inputs) →
        Kept id (trace (events World.step .empty inputs)) (final World.step .empty inputs) := by
  refine run_induction (P := fun evs w => Known (trace evs) w ∧ ∀ id, .retried id ∉ trace evs →
    Kept id (trace evs) w)
    ⟨⟨?_, ?_, ?_⟩, fun id _ => ⟨?_, ?_, ?_, ?_⟩⟩ ?_ calm
  · exact fun row listed => absurd listed List.not_mem_nil
  · exact fun id s member => absurd member List.not_mem_nil
  · exact fun id handed => absurd handed List.not_mem_nil
  · exact Nat.zero_le _
  · exact fun s member => absurd member List.not_mem_nil
  · exact fun handed => absurd handed List.not_mem_nil
  · exact Nat.zero_le _
  · rintro pre w i ⟨known, kept⟩ cares
    rw [trace_append, trace_single]
    refine ⟨known.step i, fun id own => ?_⟩
    exact (kept id fun earlier => own (List.mem_append_left _ earlier)).step known cares own

/-- **A message goes out at most once on its own**, in every careful run. -/
theorem once_of_careful (inputs : List Input) (calm : Careful (events World.step .empty inputs)) :
    Once (trace (events World.step .empty inputs)) (final World.step .empty inputs) := by
  intro id own
  have kept := calm.kept.2 id own
  refine ⟨kept.once, fun handed free => ?_⟩
  rcases kept.told handed with ⟨s, member, tells⟩ | settled
  · exact absurd (Sender.holds_of_tells tells) (free s member)
  · exact settled

/-- Two servers; the first finds the account not connected, and the answer to the second try is late. -/
theorem once_late :
    let inputs : List Input :=
      [.start, .start, .enqueue "main" "120@g.us" "order 7" 0, .select 0 "main" 5,
        .send 0 .notReady .answered,
       .update 0 6 true, .stop 0, .select 1 "main" 40, .send 1 .sent .timedOut, .update 1 100 true,
       .select 1 "main" 200]
    Once (trace (events World.step .empty inputs)) (final World.step .empty inputs) :=
  once_of_careful _ (by decide)

/-- The message is delivered, and the connection fails before the answer: it goes out again. -/
theorem broken_sendsTwice :
    ¬ ∀ inputs, Once (trace (events World.step .empty inputs)) (final World.step .empty inputs) := by
  intro all
  have once :=
    (all [.start, .enqueue "main" "120@g.us" "order 7" 0, .select 0 "main" 5, .send 0 .sent .broken,
    .update 0 6 true, .select 0 "main" 40, .send 0 .sent .answered]) 0 (by decide)
  revert once
  decide

end Callora.Outbox
