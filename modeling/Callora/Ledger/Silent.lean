/-
**What only speaks.**

The functions of a reply that say, ask or remember something leave its `book` alone: the ledger, the
orders given so far and the desk. Each gets one `@[simp]` lemma, so that the analysis of an operation
never looks into its words.
-/
import Callora.Ledger.Moves

set_option linter.unusedSectionVars false

namespace Callora

open Callora.Text Runs

variable {b : Business}

namespace Engine

section Rendering

/-- The part of an engine that rendering leaves alone. -/
structure SameCall (e e' : Engine b) : Prop where
  ledger : e'.state.toLedger = e.state.toLedger
  desk : e'.desk = e.desk

theorem SameCall.trans {e e' e'' : Engine b} (first : SameCall e e') (second : SameCall e' e'') :
    SameCall e e'' :=
  ⟨second.ledger.trans first.ledger, second.desk.trans first.desk⟩

theorem renderPlan_sameCall (e : Engine b) (response : String) (ctx : RenderContext) :
    SameCall e (e.renderPlan response ctx).2 := ⟨rfl, rfl⟩

theorem renderResponse_sameCall (e : Engine b) (response : String) :
    SameCall e (e.renderResponse response).2 := ⟨rfl, rfl⟩

theorem renderPhrase_sameCall [Unicode] (e : Engine b) (id : String) :
    SameCall e (e.renderPhrase id).2 := by
  unfold renderPhrase
  split
  · exact renderPlan_sameCall e _ _
  · rename_i again _ _
    have once := renderResponse_sameCall e again
    generalize e.renderResponse again = rendered at once ⊢
    obtain ⟨plan, e'⟩ := rendered
    cases plan with
    | some plan => exact once
    | none => exact once.trans (renderResponse_sameCall e' id)
  · exact renderResponse_sameCall e id

end Rendering

end Engine

namespace Reply

section Books

theorem book_eq {r r' : Reply b} (same : Engine.SameCall r.engine r'.engine)
    (orders : r'.out.orders = r.out.orders) : r'.book = r.book := by
  unfold book
  rw [same.ledger, same.desk, orders]

@[simp] theorem speak_book (r : Reply b) (plan : SpeechPlan) (record : Bool) :
    (r.speak plan record).book = r.book := rfl

theorem speakRendered_book {r : Reply b} {rendered : Option SpeechPlan × Engine b}
    (same : Engine.SameCall r.engine rendered.2) (record : Bool) :
    (r.speakRendered rendered record).book = r.book := by
  obtain ⟨plan, e⟩ := rendered
  cases plan <;> exact book_eq same rfl

@[simp] theorem say_book (r : Reply b) (response : String) (ctx : RenderContext) (record : Bool) :
    (r.say response ctx record).book = r.book :=
  speakRendered_book (Engine.renderPlan_sameCall _ _ _) record

@[simp] theorem sayNow_book (r : Reply b) (response : String) (record : Bool) :
    (r.sayNow response record).book = r.book := say_book r _ _ _

@[simp] theorem sayOptional_book (r : Reply b) (response : Option String) (record : Bool) :
    (r.sayOptional response record).book = r.book := by
  cases response with
  | none => rfl
  | some response => exact sayNow_book r response record

@[simp] theorem noteAsked_book (r : Reply b) (slots : List String) :
    (r.noteAsked slots).book = r.book := rfl

end Books

section Speaking

variable [Unicode]

theorem saysAgain_book (r : Reply b) (slot question : String) (ctx : RenderContext) :
    (r.saysAgain slot question ctx).1.book = r.book := by
  have same := Engine.renderPlan_sameCall r.engine question ctx
  unfold saysAgain
  generalize r.engine.renderPlan question ctx = rendered at same ⊢
  obtain ⟨plan, e⟩ := rendered
  dsimp only
  split
  · exact book_eq same rfl
  · rfl

@[simp] theorem acknowledge_book (r : Reply b) (question : String) :
    (r.acknowledge question).book = r.book := by
  unfold acknowledge
  split
  · rfl
  · exact sayOptional_book r _ _

@[simp] theorem ask_book (r : Reply b) (slot : String) (acknowledge : Bool) :
    (r.ask slot acknowledge).book = r.book := by
  unfold ask
  split
  · rfl
  · rename_i general _
    have again := saysAgain_book r slot ((r.engine.specificAsk slot).getD general) (r.engine.askCtx slot)
    rw [noteAsked_book, say_book]
    cases acknowledge with
    | true => exact (acknowledge_book _ _).trans again
    | false => exact again

@[simp] theorem askAgain_book (r : Reply b) (slot : String) : (r.askAgain slot).book = r.book := by
  unfold askAgain
  dsimp only
  split
  · rw [noteAsked_book, sayNow_book]
  · exact ask_book r slot false

@[simp] theorem questionAgain_book (r : Reply b) : r.questionAgain.book = r.book := by
  unfold questionAgain
  split
  · rfl
  · exact sayOptional_book r _ _

@[simp] theorem agentSay_book (r : Reply b) (phrase : Option String) (say spoken : String) :
    (r.agentSay phrase say spoken).book = r.book := by
  unfold agentSay
  dsimp only
  split
  · rfl
  · cases phrase with
    | none =>
      dsimp only
      split
      · rfl
      · split <;> rfl
    | some p =>
      have phrased : (r.speakRendered (r.engine.renderPhrase p) true).book = r.book :=
        speakRendered_book (Engine.renderPhrase_sameCall _ _) true
      dsimp only
      split
      · exact phrased
      · split
        · rw [speak_book, phrased]
        · exact phrased

@[simp] theorem neverSilent_book (r : Reply b) (spoken : String) :
    (r.neverSilent spoken).book = r.book := by
  unfold neverSilent
  split
  · exact questionAgain_book r
  · rfl

@[simp] theorem sayPrompts_book (r : Reply b) (prompts : List Prompt) :
    (r.sayPrompts prompts).book = r.book := by
  unfold sayPrompts
  induction prompts generalizing r with
  | nil => rfl
  | cons p prompts ih => rw [List.foldl_cons, ih, say_book]

@[simp] theorem askOptional_book (r : Reply b) (slot spoken : String) :
    (r.askOptional slot spoken).book = r.book := by
  have said : (r.agentSay none "" spoken).book = r.book := agentSay_book r none "" spoken
  unfold askOptional
  dsimp only
  split
  · exact said
  · rw [ask_book]
    exact said

@[simp] theorem questionRejected_book (r : Reply b) (slot : String) (fields : Fields) :
    (r.questionRejected slot fields).book = r.book := by
  unfold questionRejected
  dsimp only
  split
  · exact sayNow_book r _ _
  · exact ask_book r slot false

@[simp] theorem resetFallback_book (r : Reply b) : r.resetFallback.book = r.book := rfl

@[simp] theorem offerMore_book (r : Reply b) : r.offerMore.book = r.book :=
  sayNow_book r b.config.anythingElse true

theorem lastOrGreeting_book (r : Reply b) : r.lastOrGreeting.1.book = r.book := by
  unfold lastOrGreeting
  split
  · rfl
  · exact book_eq (Engine.renderPlan_sameCall r.engine _ _) rfl

@[simp] theorem repeatLast_book (r : Reply b) (m : MetaIntent) (response : Option String) :
    (r.repeatLast m response).book = r.book := by
  unfold repeatLast
  rw [speak_book, lastOrGreeting_book, sayOptional_book]
  rfl

/-- Finishing a reply only remembers what was said. -/
theorem finish_book (r : Reply b) :
    r.finish.2.state.toLedger = r.engine.state.toLedger ∧ r.finish.2.desk = r.engine.desk ∧
      r.finish.1.filter Directive.isOrder = r.out.orders := by
  have flushed : r.finish.1.filter Directive.isOrder = r.out.orders := Out.orders_flush r.out false
  refine ⟨?_, ?_, flushed⟩ <;> unfold finish <;> dsimp only <;> split
  · exact Engine.recallPlan_toLedger _ _
  · rfl
  · rfl
  · rfl

end Speaking

end Reply

end Callora
