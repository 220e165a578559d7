/-
**No change the owner makes is lost: when.**

A handler copies the shared value, waits for the database and writes its copy back, and nothing
keeps another request from reading in between. So the second of two changes answered with success
takes the first one back, and memory and the database are left with the copies of different requests
where the answers come in another order than the queries ran.

- `apart` is what keeps a step from that: no request begins while another that changes the same value is
  under way, and where a query failed, what was saved before still fits the file;
- `Kept` is what then holds between the steps: a value has one handler at most, which holds what it read,
  changed; and a value without one is saved as it is in memory;
- `nothingLost_of_apart`: once every request is answered, no change is lost.

The agent in use and the settings it is said to be of are set in one section, so they agree in every run.
-/
import Callora.Dashboard.Requests
import Callora.Library.Pools
import Mathlib.Algebra.Order.Group.Nat

set_option linter.unusedSectionVars false

namespace Callora.Dashboard

open Text Runs Pools

variable {β μ : Type}

/-! ### One request at a value at a time -/

/-- A value that is read, changed and written back whole. -/
inductive Store
  | config (business : String)
  | numbers
  | model
  deriving DecidableEq

def Request.store : Request → Store
  | .saveConfig business .. => .config business
  | .block .. => .numbers
  | .saveAgentModel _ => .model

/-- The value a handler is at. -/
def Task.store : Task → Option Store
  | .config business .. => some (.config business)
  | .block .. => some .numbers
  | .probing .. | .model .. => some .model
  | .answered => none

/-- At this step: no request begins while a handler is at its value; where a query failed, what was saved
before fits the file. -/
def apart (server : Server β μ) (ev : Event β μ) : Bool :=
  match ev.input with
  | .request r => ev.before.tasks.all (·.store ≠ some r.store)
  | .resume i _ =>
    match ev.before.tasks[i]? with
    | some (.config business _ _ _ (some false)) =>
      (server.apply business (patchOf (ev.before.configs business))).isOk
    | _ => true
  | _ => true

/-- Every request has been answered. -/
def World.Done (w : World β μ) : Prop := ∀ task ∈ w.tasks, task.store = none

instance (w : World β μ) : Decidable w.Done :=
  inferInstanceAs (Decidable (∀ task ∈ w.tasks, task.store = none))

/-! ### What holds of a value -/

/-- A value is saved as it is in memory, and in use. -/
def World.Settled (server : Server β μ) (w : World β μ) : Store → Prop
  | .config business =>
    w.configs business = loaded (w.savedConfigs business) ∧
      server.Uses business (w.configs business) (w.registry business)
  | .numbers => w.blocked = w.savedBlocked
  | .model => w.agentModel = loadedModel w.savedAgentModel

/-- A handler holds what its value is, changed; its query changed what is saved if it ran. -/
def World.Fits (server : Server β μ) (w : World β μ) : Task → Prop
  | .config business path value patch ran =>
    editable path ∧ patch = set (patchOf (w.configs business)) path (given value) ∧
      (∃ built, server.apply business patch = .ok built ∧ w.registry business = some built) ∧
      if ran = some true then w.savedConfigs business = some patch
      else w.configs business = loaded (w.savedConfigs business)
  | .block number blocked next ran =>
    next = blockIn w.blocked (trim number) blocked ∧
      if ran = some true then w.savedBlocked = next else w.blocked = w.savedBlocked
  | .probing change .. =>
    loadedModel (server.choice change) = server.choice change ∧
      w.agentModel = loadedModel w.savedAgentModel
  | .model change saved ran =>
    saved = server.choice change ∧ loadedModel saved = saved ∧
      if ran = some true then w.savedAgentModel = saved else w.agentModel = loadedModel w.savedAgentModel
  | .answered => True

/-- Two worlds have the same at a value. -/
def World.SameAt (w w' : World β μ) : Store → Prop
  | .config business =>
    w'.configs business = w.configs business ∧ w'.savedConfigs business = w.savedConfigs business ∧
      w'.registry business = w.registry business
  | .numbers => w'.blocked = w.blocked ∧ w'.savedBlocked = w.savedBlocked
  | .model => w'.agentModel = w.agentModel ∧ w'.savedAgentModel = w.savedAgentModel

section Frames

variable {server : Server β μ} {w w' : World β μ} {s : Store} {task : Task}

theorem World.Settled.same (settled : w.Settled server s) (same : w.SameAt w' s) :
    w'.Settled server s := by
  cases s with
  | config business =>
    obtain ⟨memory, saved, built⟩ := same
    show w'.configs business = _ ∧ server.Uses business (w'.configs business) (w'.registry business)
    rw [memory, saved, built]
    exact settled
  | numbers => exact same.1.trans (settled.trans same.2.symm)
  | model =>
    show w'.agentModel = loadedModel w'.savedAgentModel
    rw [same.1, same.2]
    exact settled

theorem World.Fits.same (fits : w.Fits server task) (same : ∀ s, task.store = some s → w.SameAt w' s) :
    w'.Fits server task := by
  cases task with
  | config business path value patch ran =>
    obtain ⟨memory, saved, built⟩ := same _ rfl
    show _ ∧ patch = set (patchOf (w'.configs business)) path (given value) ∧
      (∃ b, _ ∧ w'.registry business = some b) ∧
      ite _ (w'.savedConfigs business = _) (w'.configs business = _)
    rw [memory, saved, built]
    exact fits
  | block number blocked next ran =>
    obtain ⟨memory, saved⟩ := same _ rfl
    show next = blockIn w'.blocked _ _ ∧ ite _ (w'.savedBlocked = next) (w'.blocked = w'.savedBlocked)
    rw [memory, saved]
    exact fits
  | probing change wanted problems =>
    obtain ⟨memory, saved⟩ := same _ rfl
    show _ ∧ w'.agentModel = loadedModel w'.savedAgentModel
    rw [memory, saved]
    exact fits
  | model change chosen ran =>
    obtain ⟨memory, saved⟩ := same _ rfl
    show _ ∧ _ ∧ ite _ (w'.savedAgentModel = chosen) (w'.agentModel = _)
    rw [memory, saved]
    exact fits
  | answered => trivial

/-- Handlers and the agent in use are no value. -/
theorem World.sameAt_rest (tasks : List Task) (control : Option (AgentControl μ)) (s : Store) :
    w.SameAt { w with tasks := tasks, control := control } s := by
  cases s with
  | config business => exact ⟨rfl, rfl, rfl⟩
  | numbers | model => exact ⟨rfl, rfl⟩

theorem Store.ne_of_config {business other : String} (differ : Store.config other ≠ .config business) :
    other ≠ business := by
  rintro rfl
  exact differ rfl

end Frames

section Models

theorem AgentModelSettings.normalized_idem (m : AgentModelSettings) :
    m.normalized.normalized = m.normalized := by
  have again : ∀ s, trim (trim s) = trim s := trimMatches_idem _
  have effort : ((m.effort.map trim).filter (· ≠ "")).map trim = (m.effort.map trim).filter (· ≠ "") := by
    cases m.effort with
    | none => rfl
    | some e =>
      by_cases empty : trim e = ""
      · simp [Option.filter, empty]
      · simp [Option.filter, empty, again]
  have backup : trim NO_BACKUP = NO_BACKUP := by decide
  have named : NO_BACKUP ≠ "" := by decide
  simp only [normalized, again, AgentModelSettings.mk.injEq, true_and]
  refine ⟨?_, ?_⟩
  · by_cases empty : trim m.backup = ""
    · simp [empty, backup, named]
    · simp [empty, again]
  · rw [effort]
    cases (m.effort.map trim) with
    | none => rfl
    | some e =>
      by_cases empty : e = ""
      · simp [Option.filter, empty]
      · simp [Option.filter, empty]

/-- A choice the server does not refuse can be used when it is loaded. -/
theorem Server.choice_sound (server : Server β μ) (change : Option AgentModelSettings)
    (accepted : server.refusals ((change.map (·.normalized)).getD server.defaults).normalized = []) :
    loadedModel (server.choice change) = server.choice change := by
  cases change with
  | none => rfl
  | some m =>
    have fine : m.normalized.problems = [] := by
      simpa [AgentModelSettings.normalized_idem] using (List.append_eq_nil_iff.mp accepted).1
    by_cases default : m.normalized = server.defaults
    · simp [loadedModel, choice, Option.filter, default]
    · simp [loadedModel, choice, Option.filter, default, fine]

end Models

/-- One for a handler at a value, none for another. -/
def Task.share (s : Store) (task : Task) : ℕ := if task.store = some s then 1 else 0

/-- What holds between the steps. -/
structure Kept (server : Server β μ) (w : World β μ) : Prop where
  one : ∀ s, weight (Task.share s) w.tasks ≤ 1
  fits : ∀ task ∈ w.tasks, w.Fits server task
  settled : ∀ s, (∀ task ∈ w.tasks, task.store ≠ some s) → w.Settled server s

section Steps

variable {server : Server β μ} {w w' : World β μ} {s : Store} {i : ℕ} {task : Task}

theorem Task.share_of_store (here : task.store = some s) : task.share s = 1 := if_pos here

theorem Task.share_of_ne (elsewhere : task.store ≠ some s) : task.share s = 0 := if_neg elsewhere

/-- A handler goes on at its value, which nothing else is at. -/
theorem Kept.goes (kept : Kept server w) {next : Task} (here : w.tasks[i]? = some task)
    (tasks : w'.tasks = w.tasks.set i next) (own : task.store = some s)
    (same : ∀ s', s' ≠ s → w.SameAt w' s')
    (stays : next.store = none ∨ next.store = some s) (fits : w'.Fits server next)
    (settled : next.store = none → w'.Settled server s) :
    Kept server w' := by
  have light : ∀ s', weight (Task.share s') w'.tasks + task.share s' ≤ 1 + next.share s' := by
    intro s'
    rw [tasks, weight_set here]
    exact Nat.add_le_add_right (kept.one s') _
  have alone : ∀ other ∈ w'.tasks, other.store = some s → other = next := by
    intro other member at'
    have counted := measure_le_weight (m := Task.share s) member
    have bound := light s
    rw [Task.share_of_store own] at bound
    rw [Task.share_of_store at'] at counted
    rcases stays with gone | stayed
    · rw [Task.share_of_ne (by rw [gone]; exact fun h => nomatch h)] at bound
      omega
    · rw [Task.share_of_store stayed] at bound
      have mine : next ∈ w'.tasks := by
        rw [tasks]
        exact List.mem_set (List.getElem?_eq_some_iff.mp here).choose _
      exact eq_of_weight_le_one (Nat.le_of_add_le_add_right bound) member mine
        (Task.share_of_store at').ge (Task.share_of_store stayed).ge
  refine ⟨fun s' => ?_, fun other member => ?_, fun s' none => ?_⟩
  · have bound := light s'
    have less : next.share s' ≤ task.share s' := by
      rcases stays with gone | stayed
      · rw [Task.share_of_ne (by rw [gone]; exact fun h => nomatch h)]
        exact Nat.zero_le _
      · exact le_of_eq (by rw [Task.share, Task.share, stayed, own])
    omega
  · by_cases at' : other.store = some s
    · exact alone other member at' ▸ fits
    · rcases List.mem_or_eq_of_mem_set (tasks ▸ member) with before | rfl
      · refine (kept.fits other before).same fun s' is => same s' ?_
        rintro rfl
        exact at' is
      · exact fits
  · by_cases mine : s' = s
    · subst mine
      refine settled (stays.resolve_right fun stayed => ?_)
      refine none next ?_ stayed
      rw [tasks]
      exact List.mem_set (List.getElem?_eq_some_iff.mp here).choose _
    · refine (kept.settled s' fun other before is => ?_).same (same s' mine)
      have elsewhere : task.store ≠ some s' := by
        rw [own]
        exact fun h => mine (Option.some.inj h).symm
      obtain ⟨still, member, is'⟩ :=
        exists_set (P := fun x => x.store = some s') (q := next) here elsewhere
        ⟨other, before, is⟩
      exact none still (tasks ▸ member) is'

/-- A handler that is at no value begins, or was answered. -/
theorem Kept.answers (kept : Kept server w) : Kept server (w.spawn .answered) where
  one s := by
    show weight (Task.share s) (w.tasks ++ [.answered]) ≤ 1
    rw [weight_append, weight_single]
    exact kept.one s
  fits other member := by
    rcases List.mem_append.mp member with before | new
    · exact kept.fits other before
    · rw [List.mem_singleton.mp new]
      trivial
  settled s none := kept.settled s fun other before => none other (List.mem_append_left _ before)

/-- A handler begins at a value nothing else is at. -/
theorem Kept.begins (kept : Kept server w) (free : ∀ task ∈ w.tasks, task.store ≠ some s)
    (tasks : w'.tasks = w.tasks ++ [task]) (own : task.store = some s)
    (same : ∀ s', s' ≠ s → w.SameAt w' s') (fits : w'.Fits server task) :
    Kept server w' where
  one s' := by
    rw [tasks, weight_append, weight_single]
    by_cases mine : s' = s
    · subst mine
      rw [weight_eq_zero fun other before => Task.share_of_ne (free other before),
        Task.share_of_store own]
    · rw [Task.share_of_ne (by rw [own]; exact fun h => mine (Option.some.inj h).symm)]
      exact kept.one s'
  fits other member := by
    rcases List.mem_append.mp (tasks ▸ member) with before | new
    · refine (kept.fits other before).same fun s' is => same s' ?_
      rintro rfl
      exact free other before is
    · exact List.mem_singleton.mp new ▸ fits
  settled s' none := by
    have mine : s' ≠ s := by
      rintro rfl
      exact none task (tasks ▸ List.mem_append_right _ (List.mem_singleton.mpr rfl)) own
    exact (kept.settled s' fun other before =>
      none other (tasks ▸ List.mem_append_left _ before)).same (same s' mine)

/-- What a request makes of the world until its first await. -/
theorem Kept.begin (kept : Kept server w) (r : Request)
    (free : ∀ task ∈ w.tasks, task.store ≠ some r.store) :
    Kept server (w.begin server r).2 := by
  cases r with
  | saveConfig business path value =>
    have settled := kept.settled _ free
    simp only [World.begin]
    split
    · exact kept.answers
    · rename_i may
      split
      · exact kept.answers
      · split
        · exact kept.answers
        · rename_i built applied
          refine kept.begins free rfl rfl (fun s' mine => ?_) ⟨by simpa using may, rfl, ?_, settled.1⟩
          · cases s' with
            | config other =>
              have differ : other ≠ business := fun h => mine (h ▸ rfl)
              exact ⟨rfl, rfl, Function.update_of_ne differ _ _⟩
            | numbers | model => exact ⟨rfl, rfl⟩
          · exact ⟨built, applied, Function.update_self _ _ _⟩
  | block number blocked =>
    simp only [World.begin]
    split
    · exact kept.answers
    · refine kept.begins free rfl rfl (fun s' _ => ?_) ⟨rfl, kept.settled _ free⟩
      cases s' with
      | config business => exact ⟨rfl, rfl, rfl⟩
      | numbers | model => exact ⟨rfl, rfl⟩
  | saveAgentModel change =>
    have settled : w.agentModel = loadedModel w.savedAgentModel := kept.settled _ free
    have same : ∀ s' x, s' ≠ Store.model → w.SameAt (w.spawn x) s' := by
      intro s' x _
      cases s' with
      | config business => exact ⟨rfl, rfl, rfl⟩
      | numbers | model => exact ⟨rfl, rfl⟩
    simp only [World.begin]
    split
    · exact kept.answers
    · rename_i control _
      split
      · exact kept.answers
      · rename_i accepted
        have sound := server.choice_sound change (not_not.mp accepted)
        split
        · exact kept.begins free rfl rfl (fun s' => same s' _) ⟨rfl, sound, settled⟩
        · exact kept.begins free rfl rfl (fun s' => same s' _) ⟨sound, settled⟩

/-- A handler's query runs, or fails. -/
theorem Kept.query (kept : Kept server w) (i : ℕ) (ok : Bool) : Kept server (w.query i ok) := by
  simp only [World.query]
  split
  · rename_i business path value patch here
    obtain ⟨may, is, built, memory⟩ := kept.fits _ (List.mem_of_getElem? here)
    cases ok with
    | false =>
      exact kept.goes here rfl rfl (fun s' _ => World.sameAt_rest _ _ s') (.inr rfl)
        ⟨may, is, built, memory⟩
        (fun h => nomatch h)
    | true =>
      refine kept.goes here rfl rfl (fun s' mine => ?_) (.inr rfl) ⟨may, is, built, ?_⟩
        (fun h => nomatch h)
      · cases s' with
        | config other => exact ⟨rfl, Function.update_of_ne (Store.ne_of_config mine) _ _, rfl⟩
        | numbers | model => exact ⟨rfl, rfl⟩
      · exact Function.update_self _ _ _
  · rename_i number blocked next here
    obtain ⟨is, memory⟩ := kept.fits _ (List.mem_of_getElem? here)
    cases ok with
    | false =>
      exact kept.goes here rfl rfl (fun s' _ => World.sameAt_rest _ _ s') (.inr rfl) ⟨is, memory⟩
        (fun h => nomatch h)
    | true =>
      refine kept.goes here rfl rfl (fun s' mine => ?_) (.inr rfl) ⟨is, rfl⟩ (fun h => nomatch h)
      cases s' with
      | config other => exact ⟨rfl, rfl, rfl⟩
      | numbers => exact absurd rfl mine
      | model => exact ⟨rfl, rfl⟩
  · rename_i change saved here
    obtain ⟨is, sound, memory⟩ := kept.fits _ (List.mem_of_getElem? here)
    cases ok with
    | false =>
      exact kept.goes here rfl rfl (fun s' _ => World.sameAt_rest _ _ s') (.inr rfl) ⟨is, sound, memory⟩
        (fun h => nomatch h)
    | true =>
      refine kept.goes here rfl rfl (fun s' mine => ?_) (.inr rfl) ⟨is, sound, rfl⟩ (fun h => nomatch h)
      cases s' with
      | config other => exact ⟨rfl, rfl, rfl⟩
      | numbers => exact ⟨rfl, rfl⟩
      | model => exact absurd rfl mine
  · exact kept

theorem patchOf_loaded (fields : Fields) : patchOf (loaded (some (.obj fields))) = .obj fields := by
  cases fields with
  | nil => rfl
  | cons first rest => rfl

/-- A handler whose query ran writes its copy to memory; one whose query failed goes back to what is
saved. -/
theorem Kept.resume (kept : Kept server w) (i : ℕ) (failed : List String)
    (fit : apart server (event (World.step server) w (.resume i failed))) :
    Kept server (w.resume server i failed).2 := by
  simp only [World.resume]
  split
  · rename_i business path value patch here
    obtain ⟨may, is, ⟨built, applied, inUse⟩, saved⟩ := kept.fits _ (List.mem_of_getElem? here)
    have saved : w.savedConfigs business = some patch := saved
    refine kept.goes here rfl rfl (fun s' mine => ?_) (.inl rfl) trivial (fun _ => ⟨?_, ?_⟩)
    · cases s' with
      | config other => exact ⟨Function.update_of_ne (Store.ne_of_config mine) _ _, rfl, rfl⟩
      | numbers | model => exact ⟨rfl, rfl⟩
    · show Function.update w.configs business (loaded (some patch)) business =
        loaded (w.savedConfigs business)
      rw [Function.update_self, saved]
    · show server.Uses business (Function.update w.configs business (loaded (some patch)) business)
        (w.registry business)
      rw [Function.update_self, inUse]
      obtain ⟨fields, shape, -⟩ := set_eq (patchOf (w.configs business)) path (given value)
      refine .inl ?_
      rw [is, shape, patchOf_loaded, ← shape, ← is]
      exact applied
  · rename_i business path value patch here
    obtain ⟨may, is, built, memory⟩ := kept.fits _ (List.mem_of_getElem? here)
    have fits : (server.apply business (patchOf (w.configs business))).isOk := by
      simpa [apart, here] using fit
    rw [World.reapply]
    cases applied : server.apply business (patchOf (w.configs business)) with
    | error problems =>
      rw [applied] at fits
      cases fits
    | ok old =>
      refine kept.goes here rfl rfl (fun s' mine => ?_) (.inl rfl) trivial (fun _ => ⟨memory, ?_⟩)
      · cases s' with
        | config other => exact ⟨rfl, rfl, Function.update_of_ne (Store.ne_of_config mine) _ _⟩
        | numbers | model => exact ⟨rfl, rfl⟩
      · show server.Uses business (w.configs business)
          (Function.update w.registry business (some old) business)
        rw [Function.update_self]
        exact .inl applied
  · rename_i number blocked next ok here
    obtain ⟨is, saved⟩ := kept.fits _ (List.mem_of_getElem? here)
    cases ok with
    | false =>
      exact kept.goes here rfl rfl (fun s' _ => World.sameAt_rest _ _ s') (.inl rfl) trivial
        (fun _ => saved)
    | true =>
      have saved : w.savedBlocked = next := saved
      refine kept.goes here rfl rfl (fun s' mine => ?_) (.inl rfl) trivial (fun _ => saved.symm)
      cases s' with
      | config other => exact ⟨rfl, rfl, rfl⟩
      | numbers => exact absurd rfl mine
      | model => exact ⟨rfl, rfl⟩
  · rename_i change wanted problems here
    obtain ⟨sound, memory⟩ := kept.fits _ (List.mem_of_getElem? here)
    split
    · exact kept.goes here rfl rfl (fun s' _ => World.sameAt_rest _ _ s') (.inl rfl) trivial
        (fun _ => memory)
    · split
      · exact kept.goes here rfl rfl (fun s' _ => World.sameAt_rest _ _ s') (.inl rfl) trivial
          (fun _ => memory)
      · rename_i handle assembled
        exact kept.goes here rfl rfl (fun s' _ => World.sameAt_rest _ _ s') (.inr rfl)
          ⟨rfl, sound, memory⟩
          fun h => nomatch h
  · rename_i change saved ok here
    obtain ⟨is, sound, memory⟩ := kept.fits _ (List.mem_of_getElem? here)
    cases ok with
    | false =>
      exact kept.goes here rfl rfl (fun s' _ => World.sameAt_rest _ _ s') (.inl rfl) trivial
        (fun _ => memory)
    | true =>
      have memory : w.savedAgentModel = saved := memory
      refine kept.goes here rfl rfl (fun s' mine => ?_) (.inl rfl) trivial (fun _ => ?_)
      · cases s' with
        | config other => exact ⟨rfl, rfl, rfl⟩
        | numbers => exact ⟨rfl, rfl⟩
        | model => exact absurd rfl mine
      · show saved = loadedModel w.savedAgentModel
        rw [memory, sound]
  · exact kept

end Steps

/-! ### The agent in use -/

/-- The agent in use is of the settings it is said to be of. -/
def World.Names (server : Server β μ) (w : World β μ) : Prop :=
  ∀ control, w.control = some control → server.assemble control.active = some control.handle

/-- A request leaves the agent in use until the models have answered. -/
theorem World.begin_control (server : Server β μ) (w : World β μ) (r : Request) :
    (w.begin server r).2.control = w.control := by
  cases r with
  | saveConfig business path value =>
    simp only [World.begin]
    split
    · rfl
    · split
      · rfl
      · split
        · rfl
        · rfl
  | block number blocked =>
    simp only [World.begin]
    split
    · rfl
    · rfl
  | saveAgentModel change =>
    simp only [World.begin]
    split
    · rfl
    · split
      · rfl
      · split
        · rfl
        · rfl

/-- Both are set in one section. -/
theorem World.Names.step {server : Server β μ} {w : World β μ} (names : w.Names server) (i : Input) :
    (w.step server i).2.Names server := by
  have same : ∀ w' : World β μ, w'.control = w.control → w'.Names server := by
    intro w' unchanged
    rw [World.Names, unchanged]
    exact names
  cases i with
  | request r => exact same _ (World.begin_control server w r)
  | query i ok =>
    refine same _ ?_
    show (w.query i ok).control = w.control
    rw [World.query]
    split
    · cases ok with
      | true | false => rfl
    · cases ok with
      | true | false => rfl
    · cases ok with
      | true | false => rfl
    · rfl
  | resume i failed =>
    simp only [World.step, World.resume]
    split
    · exact same _ rfl
    · refine same _ ?_
      rw [World.reapply]
      split <;> rfl
    · rename_i ok _
      cases ok with
      | true | false => exact same _ rfl
    · split
      · exact same _ rfl
      · split
        · exact same _ rfl
        · rename_i handle assembled
          intro control set
          obtain rfl := Option.some.inj set
          exact assembled
    · rename_i ok _
      cases ok with
      | true | false => exact same _ rfl
    · exact names

/-! ### What was answered is remembered -/

/-- The items of the changes answered with success may be changed, and those not overridden are in
memory. -/
structure Remembered (server : Server β μ) (t : List Act) (w : World β μ) : Prop where
  editable : ∀ act ∈ t, act.response = .ok → ∀ business path value,
    act.request = .saveConfig business path value → editable path
  changes : ∀ r, Lasting t r → r.InMemory server w

section Answers

variable {server : Server β μ} {t : List Act} {w w' : World β μ} {r : Request}

/-- The last answer is lasting, and an answer before it of another item. -/
theorem Lasting.snoc {act : Act} (lasting : Lasting (t ++ [act]) r) :
    act = ⟨r, .ok⟩ ∨ Lasting t r ∧ (act.response = .ok → act.request.item ≠ r.item) := by
  obtain ⟨pre, post, split, last⟩ := lasting
  rcases List.eq_nil_or_concat post with rfl | ⟨before, final, rfl⟩
  · exact .inl (List.append_inj_right' split rfl |> List.singleton_inj.mp)
  · right
    rw [List.concat_eq_append] at last split
    rw [← List.cons_append, ← List.append_assoc] at split
    obtain ⟨init, rfl⟩ := List.append_singleton_inj.mp split
    exact ⟨⟨pre, before, init, fun later member => last later (List.mem_append_left _ member)⟩,
      last act (List.mem_append_right _ (List.mem_singleton.mpr rfl))⟩

/-- Memory is as it was, and nothing was answered with success. -/
theorem Remembered.quiet (kept : Remembered server t w) {acts : List Act}
    (none : acts = [] ∨ ∃ r response, acts = [⟨r, response⟩] ∧ response ≠ .ok)
    (configs : w'.configs = w.configs)
    (blocked : w'.blocked = w.blocked) (model : w'.agentModel = w.agentModel) :
    Remembered server (t ++ acts) w' := by
  have memory : ∀ r : Request, r.InMemory server w → r.InMemory server w' := by
    intro r before
    cases r with
    | saveConfig business path value =>
      show find (patchOf (w'.configs business)) _ = _
      rw [configs]
      exact before
    | block number on =>
      show _ ∈ w'.blocked ↔ _
      rw [blocked]
      exact before
    | saveAgentModel change => exact model.trans before
  rcases none with rfl | ⟨r, response, rfl, unsuccessful⟩
  · rw [List.append_nil]
    exact ⟨kept.editable, fun r lasting => memory r (kept.changes r lasting)⟩
  · refine ⟨fun act listed success => ?_, fun r' lasting => ?_⟩
    · rcases List.mem_append.mp listed with before | new
      · exact kept.editable act before success
      · rw [List.mem_singleton.mp new] at success
        exact absurd success unsuccessful
    · rcases lasting.snoc with same | ⟨before, -⟩
      · exact absurd (congrArg Act.response same) unsuccessful
      · exact memory r' (kept.changes r' before)

/-- A change is in memory, and memory has of other items what it had. -/
theorem Remembered.answered (kept : Remembered server t w)
    (may : ∀ business path value, r = .saveConfig business path value → Dashboard.editable path)
    (now : r.InMemory server w')
    (others : ∀ r' : Request, r.item ≠ r'.item →
      (∀ business path value, r' = .saveConfig business path value → Dashboard.editable path) →
      r'.InMemory server w → r'.InMemory server w') :
    Remembered server (t ++ [⟨r, .ok⟩]) w' where
  editable act listed success := by
    rcases List.mem_append.mp listed with before | new
    · exact kept.editable act before success
    · rw [List.mem_singleton.mp new]
      exact may
  changes r' lasting := by
    rcases lasting.snoc with same | ⟨before, differ⟩
    · obtain rfl : r = r' := congrArg Act.request same
      exact now
    · refine others r' (differ rfl) (fun business path value is => ?_) (kept.changes r' before)
      obtain ⟨pre, post, rfl, -⟩ := before
      exact kept.editable ⟨r', .ok⟩ (by simp) rfl business path value is

theorem mem_blockIn {numbers : BTreeSet} {number other : String} {blocked : Bool} :
    other ∈ blockIn numbers number blocked ↔
    if number = other then blocked = true else other ∈ numbers := by
  have equal : compare number other = .eq ↔ number = other := Std.LawfulEqOrd.compare_eq_iff_eq
  cases blocked with
  | true =>
    rw [blockIn, if_pos rfl, Std.ExtTreeSet.mem_insert, equal]
    by_cases same : number = other
    · simp [same]
    · simp [same]
  | false =>
    rw [blockIn, if_neg Bool.false_ne_true, Std.ExtTreeSet.mem_erase, Ne, equal]
    by_cases same : number = other
    · simp [same]
    · simp [same]

/-- No request is answered with success before its query ran. -/
theorem Remembered.begin (kept : Remembered server t w) (r : Request) :
    Remembered server (t ++ (w.begin server r).1) (w.begin server r).2 := by
  have answer : ∀ response, response ≠ Response.ok →
    Remembered server (t ++ [⟨r, response⟩]) (w.spawn .answered) :=
    fun response unsuccessful => kept.quiet (.inr ⟨r, response, rfl, unsuccessful⟩) rfl rfl rfl
  cases r with
  | saveConfig business path value =>
    simp only [World.begin]
    split
    · exact answer _ fun h => nomatch h
    · split
      · exact answer _ fun h => nomatch h
      · split
        · exact answer _ fun h => nomatch h
        · exact kept.quiet (.inl rfl) rfl rfl rfl
  | block number blocked =>
    simp only [World.begin]
    split
    · exact answer _ fun h => nomatch h
    · exact kept.quiet (.inl rfl) rfl rfl rfl
  | saveAgentModel change =>
    simp only [World.begin]
    split
    · exact answer _ fun h => nomatch h
    · split
      · exact answer _ fun h => nomatch h
      · split
        · exact kept.quiet (.inl rfl) rfl rfl rfl
        · exact kept.quiet (.inl rfl) rfl rfl rfl

/-- A query changes nothing in memory. -/
theorem Remembered.query (kept : Remembered server t w) (i : ℕ) (ok : Bool) :
    Remembered server t (w.query i ok) := by
  have same : (w.query i ok).configs = w.configs ∧ (w.query i ok).blocked = w.blocked ∧
      (w.query i ok).agentModel = w.agentModel := by
    rw [World.query]
    split
    · cases ok with
      | true | false => exact ⟨rfl, rfl, rfl⟩
    · cases ok with
      | true | false => exact ⟨rfl, rfl, rfl⟩
    · cases ok with
      | true | false => exact ⟨rfl, rfl, rfl⟩
    · exact ⟨rfl, rfl, rfl⟩
  have quiet := kept.quiet (.inl rfl) same.1 same.2.1 same.2.2
  rw [List.append_nil] at quiet
  exact quiet

/-- A handler that answers with success has put its change in memory. -/
theorem Remembered.resume (kept : Remembered server t w) (own : Kept server w) (i : ℕ)
    (failed : List String) :
    Remembered server (t ++ (w.resume server i failed).1) (w.resume server i failed).2 := by
  simp only [World.resume]
  split
  · rename_i business path value patch here
    obtain ⟨may, is, ⟨built, -, inUse⟩, -⟩ := own.fits _ (List.mem_of_getElem? here)
    obtain ⟨fields, shape, -⟩ := set_eq (patchOf (w.configs business)) path (given value)
    have whole : patchOf (loaded (some patch)) = patch := by rw [is, shape, patchOf_loaded]
    have found : (w.registry business).isSome := by rw [inUse, Option.isSome_some]
    simp only [World.setTask, found, if_true]
    refine kept.answered (fun b p v same => ?_) ?_ fun r' differ may' before => ?_
    · obtain ⟨-, rfl, -⟩ := Request.saveConfig.inj same
      exact may
    · show find (patchOf (Function.update w.configs business (loaded (some patch)) business))
        (parts path) = given value
      rw [Function.update_self, whole, is, find_set may]
    · cases r' with
      | saveConfig other item value' =>
        show find (patchOf (Function.update w.configs business (loaded (some patch)) other))
          (parts item) = given value'
        by_cases same : other = business
        · subst same
          have apart : parts path ≠ parts item := fun h => differ (by rw [Request.item, Request.item, h])
          rw [Function.update_self, whole, is, find_set_other may (may' _ _ _ rfl) apart]
          exact before
        · rw [Function.update_of_ne same]
          exact before
      | block | saveAgentModel => exact before
  · rename_i business path value patch here
    refine kept.quiet (.inr ⟨_, _, rfl, fun h => nomatch h⟩) ?_ ?_ ?_
    all_goals
      rw [World.reapply]
      split <;> rfl
  · rename_i number blocked next ok here
    obtain ⟨is, -⟩ := own.fits _ (List.mem_of_getElem? here)
    cases ok with
    | false => exact kept.quiet (.inr ⟨_, _, rfl, fun h => nomatch h⟩) rfl rfl rfl
    | true =>
      refine kept.answered (fun b p v same => nomatch same) ?_ fun r' differ _ before => ?_
      · show trim number ∈ next ↔ blocked
        rw [is, mem_blockIn, if_pos rfl]
      · cases r' with
        | block other on =>
          have apart : trim number ≠ trim other := fun h => differ (by rw [Request.item, Request.item, h])
          show trim other ∈ next ↔ on
          rw [is, mem_blockIn, if_neg apart]
          exact before
        | saveConfig | saveAgentModel => exact before
  · split
    · exact kept.quiet (.inr ⟨_, _, rfl, fun h => nomatch h⟩) rfl rfl rfl
    · split
      · exact kept.quiet (.inr ⟨_, _, rfl, fun h => nomatch h⟩) rfl rfl rfl
      · exact kept.quiet (.inl rfl) rfl rfl rfl
  · rename_i change saved ok here
    obtain ⟨is, -⟩ := own.fits _ (List.mem_of_getElem? here)
    cases ok with
    | false => exact kept.quiet (.inr ⟨_, _, rfl, fun h => nomatch h⟩) rfl rfl rfl
    | true =>
      refine kept.answered (fun b p v same => nomatch same) is fun r' differ _ before => ?_
      cases r' with
      | saveAgentModel => exact absurd rfl differ
      | saveConfig | block => exact before
  · exact kept.quiet (.inl rfl) rfl rfl rfl

end Answers

/-! ### Every run -/

section Runs

variable (server : Server β μ) (configs : String → Option Json) (blocked : BTreeSet)
  (model : Option AgentModelSettings)

/-- The events of a run from the server's start. -/
abbrev run (inputs : List Input) : List (Event β μ) :=
  events (World.step server) (World.opened server configs blocked model) inputs

/-- The world a run reaches. -/
abbrev reached (inputs : List Input) : World β μ :=
  final (World.step server) (World.opened server configs blocked model) inputs

/-- Every step of the run is apart. -/
def Apart (evs : List (Event β μ)) : Prop := ∀ ev ∈ evs, apart server ev

instance (evs : List (Event β μ)) : Decidable (Apart server evs) :=
  inferInstanceAs (Decidable (∀ ev ∈ evs, apart server ev))

variable {server} in
/-- What a restart uses is the file with what is kept. -/
theorem Server.uses_inUse (business : String) (kept : Option Json) :
    server.Uses business kept (server.inUse business kept) := by
  have file : (kept = none ∨ ∃ problems, server.apply business (patchOf kept) = .error problems) →
      server.Uses business kept ((server.files business).map Prod.snd) := by
    intro why
    cases known : server.files business with
    | none => exact known
    | some pair =>
      refine .inr ⟨?_, why⟩
      rw [known]
      rfl
  cases kept with
  | none => exact file (.inl rfl)
  | some patch =>
    cases applied : server.apply business patch with
    | ok built =>
      have uses : server.inUse business (some patch) = some built := by simp [inUse, applied]
      rw [uses]
      exact .inl applied
    | error problems =>
      have uses : server.inUse business (some patch) = (server.files business).map Prod.snd := by
        simp [inUse, applied]
      rw [uses]
      exact file (.inr ⟨problems, applied⟩)

theorem kept_opened : Kept server (World.opened server configs blocked model) where
  one s := Nat.zero_le _
  fits task member := absurd member List.not_mem_nil
  settled s _ := by
    cases s with
    | config business => exact ⟨rfl, server.uses_inUse business _⟩
    | numbers | model => rfl

theorem names_opened : (World.opened server configs blocked model).Names server := by
  intro control started
  have start : server.startControl (loadedModel model) = some control := started
  rw [Server.startControl] at start
  split at start
  · rename_i chosen found
    obtain ⟨m, -, built⟩ := Option.bind_eq_some_iff.mp found
    obtain ⟨handle, assembled, rfl⟩ := Option.map_eq_some_iff.mp built
    exact Option.some.inj start ▸ assembled
  · obtain ⟨handle, assembled, rfl⟩ := Option.map_eq_some_iff.mp start
    exact assembled

variable {server configs blocked model}

/-- What a run whose requests are apart keeps. -/
theorem Apart.kept {inputs : List Input} (calm : Apart server (run server configs blocked model inputs)) :
    Kept server (reached server configs blocked model inputs) ∧
      Remembered server (trace (run server configs blocked model inputs))
        (reached server configs blocked model inputs) := by
  refine run_induction (C := fun _ ev => apart server ev)
    (P := fun evs w => Kept server w ∧ Remembered server (trace evs) w)
    ⟨kept_opened server configs blocked model, fun act listed => absurd listed List.not_mem_nil, ?_⟩ ?_
    fun pre ev post split =>
      calm ev (by rw [run, split]; exact List.mem_append_right _ List.mem_cons_self)
  · rintro r ⟨pre, post, split, -⟩
    cases pre <;> cases split
  · rintro pre w i ⟨kept, remembered⟩ fit
    rw [trace_append, trace_single]
    cases i with
    | request r =>
      have free : ∀ task ∈ w.tasks, task.store ≠ some r.store := by simpa [apart] using fit
      exact ⟨kept.begin r free, remembered.begin r⟩
    | query i ok =>
      have same := remembered.query i ok
      rw [← List.append_nil (trace pre)] at same
      exact ⟨kept.query i ok, same⟩
    | resume i failed => exact ⟨kept.resume i failed fit, remembered.resume kept i failed⟩

variable (server configs blocked model)

/-- The agent in use is of the settings it is said to be of, in every run. -/
theorem names_run (inputs : List Input) : (reached server configs blocked model inputs).Names server :=
  invariant_final (C := fun _ => True) (names_opened server configs blocked model)
    (fun _ i names _ => names.step i) fun _ _ => trivial

/-- **No change the owner makes is lost**, in every run whose requests are apart. -/
theorem nothingLost_of_apart (inputs : List Input)
    (calm : Apart server (run server configs blocked model inputs))
    (done : (reached server configs blocked model inputs).Done) :
    NothingLost server (trace (run server configs blocked model inputs))
      (reached server configs blocked model inputs) := by
  obtain ⟨kept, remembered⟩ := calm.kept
  have settled : ∀ s, (reached server configs blocked model inputs).Settled server s := fun s =>
    kept.settled s fun task member here => by
      rw [done task member] at here
      cases here
  exact ⟨remembered.changes, fun business => (settled (.config business)).1, settled .numbers,
    settled .model,
    fun business => (settled (.config business)).2, names_run server configs blocked model inputs⟩

end Runs

/-- A taxi business whose file says two things of the agent, and a server that builds what it is given. -/
def Server.taxi : Server Json AgentModelSettings where
  files
    | "taxi" => some (.obj [("agent", .obj [("persona", .str "א"), ("rules", .arr [])])], .null)
    | _ => none
  build config := .ok config
  named _ _ := true
  assemble m := some m
  defaults := ⟨"gemini-3.8-flash", NO_BACKUP, none⟩
  providers := ⟨true, true⟩

/-- Two items changed one after the other, the second one's query failing, while a number is blocked. -/
theorem taxi_nothingLost :
    let inputs : List Input :=
      [.request (.saveConfig "taxi" "agent.persona" (some (.str "ב"))),
        .request (.block "+972500000000" true),
       .query 0 true, .resume 0 [], .request (.saveConfig "taxi" "agent.rules" none), .query 1 true,
       .query 2 false, .resume 2 [], .resume 1 []]
    NothingLost Server.taxi (trace (run Server.taxi (fun _ => none) ∅ none inputs))
      (reached Server.taxi (fun _ => none) ∅ none inputs) :=
  nothingLost_of_apart Server.taxi (fun _ => none) ∅ none _ (by decide) (by decide)

/-- The second of two changes read the patch before the first one was in it. -/
theorem taxi_lost :
    ¬ ∀ (server : Server Json AgentModelSettings) (configs : String → Option Json) (blocked : BTreeSet)
        (model : Option AgentModelSettings) (inputs : List Input),
      (reached server configs blocked model inputs).Done →
        NothingLost server (trace (run server configs blocked model inputs))
          (reached server configs blocked model inputs) := by
  intro all
  have kept := all Server.taxi (fun _ => none) ∅ none
    [.request (.saveConfig "taxi" "agent.persona" (some (.str "ב"))),
     .request (.saveConfig "taxi" "agent.rules" (some (.arr [.str "ג"]))), .query 0 true,
     .query 1 true, .resume 0 [],
     .resume 1 []] (by decide)
  have memory := kept.changes (.saveConfig "taxi" "agent.persona" (some (.str "ב")))
    ⟨[], [⟨.saveConfig "taxi" "agent.rules" (some (.arr [.str "ג"])), .ok⟩], rfl, by decide⟩
  have found := congrArg Option.isSome memory
  revert found
  decide

end Callora.Dashboard
