/-
**Order cards.**

`orderCards` gives one card for each task of a call that succeeded, in the order they were done, and for
each whose outcome is unknown, which is to be verified (`mem_orderCards`).
-/
import Callora.Engine.Flow

set_option linter.unusedSectionVars false

namespace Callora

open Callora.Text

section Cards

variable [Unicode]

/-- What a card shows of one slot, and its part of the summary. -/
def cardDetail (b : Business) (slots : BTreeMap SlotValue) (ps : PipelineSlot) :
    Option (Json × String) := do
  let value ← slots[ps.slot]?
  let label := ((b.slotConfig ps.slot).map SlotConfig.description).getD ps.slot
  let spoken := value.spoken
  -- "אין" to the note question leaves nothing to show.
  if trim spoken = "" then none
  else
    let address := match value with
      | .place _ (some a) _ => if a ≠ spoken then some a else none
      | _ => none
    some (.obj [("field", .str ps.slot), ("label", .str label), ("value", .str spoken),
        ("address", Json.ofOption .str address)],
      label ++ ": " ++ address.getD spoken)

/-- Whether a finished run gets a card. -/
def CompletedRun.isOrder (c : CompletedRun) : Bool := c.outcome == "success" || c.outcome == "unknown"

/-- The card of a finished run. -/
def orderCard (b : Business) (callerPhone : Option String) (run : CompletedRun) : Option Json := do
  let pipeline ← b.pipeline run.pipeline
  let verify := run.outcome == "unknown"
  let details := pipeline.slots.filterMap (cardDetail b run.slots)
  let line := (if verify then ["לבדוק: לא ידוע אם נקלט"] else []) ++ [pipeline.description] ++
    (callerPhone.map fun phone => "טלפון: " ++ phone).toList ++ details.map Prod.snd
  some (.obj [("task", .str pipeline.description), ("pipeline", .str run.pipeline),
    ("phone", Json.ofOption .str callerPhone), ("details", .arr (details.map Prod.fst)),
    ("result", Json.ofOption id run.result), ("verify", .bool verify),
    ("summary", .str (join " | " line))])

/-- **`order_cards`**. -/
def orderCards (b : Business) (l : Ledger) : List Json :=
  (l.completed.filter CompletedRun.isOrder).filterMap (orderCard b l.callerPhone)

/-- The card is marked to be verified. -/
def Json.isVerify (card : Json) : Bool := ((card.get "verify").bind asBool) == some true

end Cards

section Facts

variable [Unicode] {b : Business} {l : Ledger}

/-- A card is marked just when its run's outcome is unknown. -/
theorem orderCard_verify {phone : Option String} {run : CompletedRun} {card : Json}
    (made : orderCard b phone run = some card) : card.isVerify ↔ run.outcome = "unknown" := by
  obtain ⟨pipeline, -, same⟩ := Option.bind_eq_some_iff.mp made
  obtain rfl := Option.some.inj same
  simp [Json.isVerify, Json.get, Json.asBool]

theorem orderCard_isSome (phone : Option String) (run : CompletedRun) :
    (orderCard b phone run).isSome ↔ (b.pipeline run.pipeline).isSome := by
  unfold orderCard
  cases b.pipeline run.pipeline <;> simp

theorem mem_orderCards {card : Json} : card ∈ orderCards b l ↔
    ∃ run ∈ l.completed, run.isOrder ∧ orderCard b l.callerPhone run = some card := by
  simp [orderCards, List.mem_filterMap, and_assoc]

end Facts

end Callora
