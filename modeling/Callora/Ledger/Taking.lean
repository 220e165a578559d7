/-
**Taking a turn's values, as moves.**

Storing understood values, checking places against the list and taking the agent's values move the ledger
by stored values, stale places dropped, and at most one task started for values that belong to one task
only. None of it changes what a run waits for, except that a value taken while something is read back
opens it again.
-/
import Callora.Ledger.Filling
import Callora.Ledger.Frames

set_option linter.unusedSectionVars false

namespace Callora

open Callora.Text Runs

variable {b : Business} [Unicode] {allowed : Allowed}

/-- Every move that keeps what a run waits for is allowed. -/
def Keeps (allowed : Allowed) : Prop := ∀ label l, label.keepsStep → allowed label l

/-- Every move but a step back, a new task, and the end or the failure of one is allowed. -/
def Routine (allowed : Allowed) : Prop := ∀ label l, label.isRoutine → allowed label l

/-- A failure may be counted and said. -/
structure Fails (allowed : Allowed) : Prop where
  counts : ∀ l, allowed .count l
  speaks : ∀ l, allowed .sayFailure l

theorem Routine.keeps (routine : Routine allowed) : Keeps allowed :=
  fun label l keeps => routine label l (Label.isRoutine_of_keepsStep keeps)

namespace Engine

section Storing

theorem store_pipeline (r : PipelineRun) (fill : SlotFill) :
    (store r fill).pipeline = r.pipeline := by
  unfold store
  split <;> rfl

/-- Values stored one by one. -/
theorem store_path (keeps : Keeps allowed) {taken : List SlotFill} {l : Ledger} {r : PipelineRun}
    (current : l.run = some r) (all : ∀ fill ∈ taken, accepts b (b.pipelineOf r) fill) :
    Path (Move b) allowed l { l with run := some (taken.foldl store r) } := by
  induction taken generalizing l r with
  | nil =>
    rw [List.foldl_nil, ← current]
    exact .refl l
  | cons fill taken ih =>
    have first : Path (Move b) allowed l { l with run := some (store r fill) } :=
      .single (keeps _ _ rfl) (.run current (.store fill (all fill List.mem_cons_self)))
    have same : b.pipelineOf (store r fill) = b.pipelineOf r := by
      unfold Business.pipelineOf
      rw [store_pipeline]
    exact first.trans (ih (l := { l with run := some (store r fill) }) rfl fun other listed =>
      same ▸ all other (List.mem_cons_of_mem fill listed))

theorem applyFills_quietly (keeps : Keeps allowed) (e : Engine b) (fills : List SlotFill) :
    Book.Quietly b allowed e.book (e.applyFills fills).1.book := by
  unfold applyFills
  cases current : e.state.run with
  | none => exact .refl _
  | some r =>
    dsimp only
    split
    · exact .refl _
    · have stored : Path (Move b) allowed e.state.toLedger
          { e.state.toLedger with
            run := some ((fills.filter (accepts b (b.pipelineOf r))).foldl store r) } :=
        store_path keeps current fun fill listed => (List.mem_filter.mp listed).2
      refine ⟨?_, rfl, rfl⟩
      split
      · rename_i reading
        exact stored.trans (.single (keeps _ _ rfl) (.run rfl (.reopen reading)))
      · exact stored

end Storing

section Stale

theorem dropStalePlace_quietly (keeps : Keeps allowed) (e : Engine b) (slot city : String) :
    Book.Quietly b allowed e.book (e.dropStalePlace slot city).book := by
  unfold dropStalePlace
  split
  · rename_i g r _ current
    split
    · exact ⟨.single (keeps _ _ rfl) (.run current (.drop slot)), rfl, rfl⟩
    · exact .refl _
  · exact .refl _

@[simp] theorem noteCity_book (e : Engine b) (slot city : String) :
    (e.noteCity slot city).book = e.book := by
  unfold noteCity book
  dsimp only [modify]
  split <;> rfl

theorem misplacedCity_quietly (keeps : Keeps allowed) (e : Engine b) (transcript : String) :
    Book.Quietly b allowed e.book (e.misplacedCity transcript).book := by
  unfold misplacedCity
  split
  · rename_i g r _ current
    split
    · exact .refl _
    · split
      · exact .refl _
      · rename_i slot city other _
        exact ⟨.single (keeps _ _ rfl) (.run current (.clear slot)), rfl, rfl⟩
  · exact .refl _

@[simp] theorem answerInPlace_book (e : Engine b) (transcript : String) (fields : Fields) :
    (e.answerInPlace transcript fields).1.book = e.book := by
  unfold answerInPlace
  split
  · rfl
  · dsimp only
    split <;> rfl

@[simp] theorem throughReaders_book (e : Engine b) (transcript : String) (fields : Fields) :
    (e.throughReaders transcript fields).1.book = e.book :=
  answerInPlace_book e transcript _

end Stale

end Engine

namespace Check

/-- The book of a check's engine. -/
def book (c : Check b) : Book := c.engine.book

@[simp] theorem reject_book (c : Check b) (slot : String) : (c.reject slot).book = c.book := rfl

@[simp] theorem offer_book (c : Check b) (street : String) : (c.offer street).book = c.book := by
  unfold offer book Engine.book
  dsimp only [modify, Engine.modify]
  split <;> rfl

section Places

@[simp] theorem askPersonalPlace_book (c : Check b) (p : PlaceCheck) :
    (c.askPersonalPlace p).book = c.book := by
  unfold askPersonalPlace
  dsimp only
  split <;> rfl

@[simp] theorem doubtTown_book (c : Check b) (p : PlaceCheck) (town : String) :
    (c.doubtTown p town).book = c.book :=
  offer_book _ town

@[simp] theorem doubtStreet_book (c : Check b) (p : PlaceCheck) (a : Address) (street : String) :
    (c.doubtStreet p a street).book = c.book :=
  offer_book _ street

theorem noteCity_quietly (keeps : Keeps allowed) (c : Check b) (p : PlaceCheck) (a : Address)
    (text : String) : Book.Quietly b allowed c.book (c.noteCity p a text).book := by
  have dropped := Engine.dropStalePlace_quietly keeps c.engine p.slot a.citySaid
  exact dropped.trans (.of_eq (Engine.noteCity_book _ p.slot a.citySaid))

theorem foundPlace_quietly (keeps : Keeps allowed) (c : Check b) (g : Gazetteer) (p : PlaceCheck)
    (a : Address) : Book.Quietly b allowed c.book (c.foundPlace g p a).1.book := by
  unfold foundPlace
  dsimp only
  split
  · exact .of_eq (doubtTown_book c p _)
  · exact .of_eq (doubtStreet_book c p a _)
  · split
    · exact .of_eq rfl
    · split
      · exact noteCity_quietly keeps c p a _
      · split
        · exact noteCity_quietly keeps c p a _
        · split <;> exact .of_eq rfl

@[simp] theorem askUnknown_book (c : Check b) (p : PlaceCheck) (closest : List String) :
    (c.askUnknown p closest).book = c.book := by
  unfold askUnknown
  dsimp only
  split
  · rfl
  · rw [reject_book]
    split <;> rfl

@[simp] theorem noCityPlace_book (c : Check b) (p : PlaceCheck) (value : SlotValue)
    (closest : List String) : (c.noCityPlace p value closest).1.book = c.book := by
  unfold noCityPlace
  split
  · split
    · exact askPersonalPlace_book c p
    · split
      · exact askUnknown_book c p closest
      · rfl
  · rfl

@[simp] theorem doubtMissing_book (c : Check b) (p : PlaceCheck) (city heard : String)
    (closest : List String) : (c.doubtMissing p city heard closest).book = c.book := by
  cases closest with
  | nil => rfl
  | cons first rest => exact offer_book c first

@[simp] theorem noStreetPlace_book (c : Check b) (p : PlaceCheck) (city heard : String)
    (closest : List String) : (c.noStreetPlace p city heard closest).1.book = c.book := by
  unfold noStreetPlace
  dsimp only
  split
  · exact askPersonalPlace_book c p
  · split
    · exact doubtMissing_book c p city heard closest
    · split <;> rfl

/-- **Checking a place** at most drops a stale one. -/
theorem checkPlace_quietly (keeps : Keeps allowed) (c : Check b) (slot : String) (value : SlotValue)
    (raw : String) : Book.Quietly b allowed c.book (c.checkPlace slot value raw).1.book := by
  unfold checkPlace
  split
  · rename_i g spoken _
    generalize c.engine.lookupPlace g slot spoken raw = looked
    obtain ⟨p, lookup⟩ := looked
    cases lookup with
    | found a =>
      dsimp only
      split
      · refine .trans ?_ (foundPlace_quietly keeps _ g p a)
        exact .of_eq rfl
      · exact foundPlace_quietly keeps c g p a
    | noCity closest => exact .of_eq (noCityPlace_book c p _ closest)
    | noStreet city heard closest => exact .of_eq (noStreetPlace_book c p city heard closest)
  · exact .refl _

end Places

section Fields

@[simp] theorem refuseUnheard_book {c c' : Check b} {slot raw heard : String}
    (refused : c.refuseUnheard slot raw heard = some c') : c'.book = c.book := by
  unfold refuseUnheard at refused
  dsimp only at refused
  split at refused
  · obtain rfl := Option.some.inj refused
    rfl
  · cases refused

theorem parseField_quietly (keeps : Keeps allowed) (c : Check b) (slot raw : String)
    (cfg : SlotConfig) : Book.Quietly b allowed c.book (c.parseField slot raw cfg).1.book := by
  unfold parseField
  split
  · exact .of_eq rfl
  · exact checkPlace_quietly keeps c slot _ raw

theorem takeHeard_quietly (keeps : Keeps allowed) (c : Check b) (slot raw heard : String)
    (cfg : SlotConfig) : Book.Quietly b allowed c.book (c.takeHeard slot raw heard cfg).1.book := by
  unfold takeHeard
  split
  · rename_i refused
    split
    · exact .of_eq (refuseUnheard_book refused)
    · exact parseField_quietly keeps c slot raw cfg
  · exact parseField_quietly keeps c slot raw cfg

theorem takeField_quietly (keeps : Keeps allowed) (optional : List String) (heard saidNow : String)
    (c : Check b) (field : String × String) :
    Book.Quietly b allowed c.book (c.takeField optional heard saidNow field).1.book := by
  unfold takeField
  split
  · exact .refl _
  · dsimp only
    split
    · exact .of_eq rfl
    · exact takeHeard_quietly keeps c _ _ heard _

/-- **The agent's values**, checked one by one. -/
theorem takeFields_quietly (keeps : Keeps allowed) (optional : List String) (heard saidNow : String)
    (fields : Fields) (c : Check b) (fills : List SlotFill) :
    Book.Quietly b allowed c.book (takeFields optional heard saidNow fields c fills).1.book := by
  induction fields generalizing c fills with
  | nil => exact .refl _
  | cons field fields ih =>
    rw [takeFields]
    exact (takeField_quietly keeps optional heard saidNow c field).trans (ih _ _)

end Fields

end Check

namespace Engine

section AgentValues

/-- A run for values of one task only is started when there is none. -/
theorem inferRun_quietly {e : Engine b} (fills : List SlotFill)
    (starts : ∀ p, e.state.run = none → allowed (.start p false) e.state.toLedger) :
    Book.Quietly b allowed e.book (e.inferRun fills).book := by
  unfold inferRun
  split
  · rename_i pipeline intent idle _
    obtain ⟨slots, carried, started⟩ := startRun_eq e pipeline intent
    refine ⟨?_, rfl, rfl⟩
    show Path (Move b) allowed e.state.toLedger (e.startRun pipeline intent).state.toLedger
    rw [started]
    exact .single (starts pipeline idle) (.start (nofun) carried)
  · exact .refl _

/-- **`apply_agent_fields`** stores values, and starts a task at most when there is none. -/
theorem applyAgentFields_quietly (keeps : Keeps allowed) (e : Engine b) (fields : Fields)
    (starts : ∀ p (l : Ledger), e.state.run = none → l.suspended = e.state.suspended →
      allowed (.start p false) l) :
    Book.Quietly b allowed e.book (e.applyAgentFields fields).1.book := by
  have checking := fun {A : Allowed} (keeps : Keeps A) =>
    Check.takeFields_quietly keeps e.optionalSlots e.heardSoFar ((e.state.lastCallerLine).getD "")
      (e.asThisTasks fields) (⟨e, [], []⟩ : Check b) []
  have frame := keepsStep_frame (fun _ _ may => may)
    (checking (A := fun label _ => label.keepsStep) fun _ _ kept => kept).path
  unfold applyAgentFields
  dsimp only
  generalize Check.takeFields e.optionalSlots e.heardSoFar ((e.state.lastCallerLine).getD "")
    (e.asThisTasks fields) (⟨e, [], []⟩ : Check b) [] = taken at checking frame ⊢
  obtain ⟨c, fills⟩ := taken
  have noted : Book.Quietly b allowed e.book
      (c.engine.modify fun s => { s with agentNotes := s.agentNotes ++ c.notes }).book :=
    (checking keeps).trans (.of_eq rfl)
  split
  · exact noted
  · refine noted.trans
      (.trans (inferRun_quietly fills fun p idle => ?_) (applyFills_quietly keeps _ fills))
    refine starts p _ ?_ frame.suspended
    cases current : e.state.run with
    | none => rfl
    | some r =>
      obtain ⟨r', here, -⟩ := frame.run r current
      exact absurd (here.symm.trans idle) (by simp)

end AgentValues

end Engine

end Callora
