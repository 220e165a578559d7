/-
**How the caller is addressed.**

Masculine or feminine, only from what the caller says about themselves; neutral until then.
-/
import Callora.Text.Matching

set_option linter.unusedSectionVars false

namespace Callora.Text

/-- Masculine, feminine, or not known yet. -/
inductive AddressForm where
  | unknown
  | masculine
  | feminine
  deriving DecidableEq, Repr

namespace AddressForm

/-- First-person present forms (masculine, feminine) that say who is speaking. -/
def forms : List (String × String) :=
  [("צריך", "צריכה"), ("מעוניין", "מעוניינת"), ("נמצא", "נמצאת"), ("יכול", "יכולה"),
    ("עומד", "עומדת"), ("יושב", "יושבת"), ("חייב", "חייבת"), ("בטוח", "בטוחה"), ("מזמין", "מזמינה"),
    ("מתקשר", "מתקשרת"), ("מבקש", "מבקשת"), ("נוסע", "נוסעת"), ("יוצא", "יוצאת"), ("מגיע", "מגיעה"),
    ("הולך", "הולכת"), ("חושב", "חושבת"), ("יודע", "יודעת"), ("זוכר", "זוכרת"), ("מבין", "מבינה"),
    ("שומע", "שומעת"), ("מתכוון", "מתכוונת"), ("גר", "גרה"), ("עובד", "עובדת"), ("ממהר", "ממהרת"),
    ("מאחר", "מאחרת"), ("מוכן", "מוכנה"), ("זקוק", "זקוקה"), ("מצטער", "מצטערת"),
    ("מרגיש", "מרגישה"), ("תקוע", "תקועה"), ("שמח", "שמחה")]

/-- Words between "אני" and the form that say nothing about it. -/
def skipped : List String :=
  ["לא", "כבר", "ממש", "עדיין", "רק", "גם", "פשוט", "עכשיו", "באמת", "די", "קצת", "בדיוק", "מאוד",
    "כן", "בעצם", "אה", "אמ"]

/-- What the caller says outright. -/
def stated : List (String × AddressForm) :=
  [("לשון נקבה", feminine), ("לשון זכר", masculine), ("אני אישה", feminine), ("אני בחורה", feminine),
    ("אני גבר", masculine), ("אני בחור", masculine)]

/-- `form_of`. -/
def formOf (word : String) : Option AddressForm :=
  forms.findSome? fun (m, f) =>
    if word == m then some masculine else if word == f then some feminine else none

/-- `is_self`. -/
def isSelf (word : String) : Bool := ["אני", "ואני", "שאני", "כשאני", "אנוכי"].contains word

/-- The forms shown after each "אני". -/
def shown : List String → List AddressForm
  | [] => []
  | w :: ws =>
    let here :=
      if isSelf w then
        (((ws.take 4).find? fun w => !skipped.contains w).bind formOf).toList
      else []
    here ++ shown ws

/-- All the cues agree on one form. -/
def agreed : List AddressForm → Option AddressForm
  | [] => none
  | f :: fs => if fs.all (· == f) then some f else none

/-- `detect`: the form a caller's words clearly show. -/
def detect [Unicode] (text : String) : Option AddressForm :=
  let norm := normalize text
  let spaced := " " ++ norm ++ " "
  match (stated.filter fun (p, _) => contains spaced (" " ++ p ++ " ")).map Prod.snd with
  | [only] => some only
  | _ :: _ :: _ => none
  | [] =>
    let ws := words norm
    let first := ((ws.find? fun w => !skipped.contains w).bind formOf).filter (· == feminine)
    agreed (shown ws ++ first.toList)

end AddressForm

end Callora.Text
