/-
**The recorded sentences, found by their words.**

A clip is kept under the key of its sentence, and a second table leads from the loose key of the
sentence, its words without punctuation or spacing, to that key. A sentence whose exact clip is
missing is played from the clip its loose key leads to.

- `clips_kept`, `loose_latest`: both tables hold what was put under a key last;
- `told_iff`: where the clip keys tell the sentences apart, what is played is read as the sentence
  asked for if its own clip is there, or else the newest recording of its loose key is read so;
- `told_clean`, `misread`: so it is for a sentence without digits, and for one with a digit some
  recording has its loose key and is read otherwise, as the loose key is built before the numbers
  are read.
-/
import Callora.Audio.VoiceLibrary
import Callora.Text.Blanks
import Callora.Text.Wording
import Mathlib.Logic.Function.Basic

set_option linter.unusedSectionVars false

namespace Callora.Voices

open Callora.Text

attribute [local instance] decidableListed

/-- A clip in memory, and the sentence it was recorded for. -/
structure Recording where
  delivery : String
  text : String
  audio : List UInt8
  deriving DecidableEq, Repr

/-- The clips of `VoiceLibrary`, by clip key, and the clip keys by loose key. -/
structure Clips where
  clips : String → Option Recording
  loose : String → Option String

def Clips.empty : Clips := ⟨fun _ => none, fun _ => none⟩

section Source

variable [Unicode]

/-- `loose_key`. -/
def looseKey (delivery text : String) : String := delivery ++ "\u001f" ++ join " " (looseWords text)

/-- A clip is put into both tables; what was there under its keys is replaced. -/
def Clips.put (lib : Clips) (key : String) (r : Recording) : Clips where
  clips := Function.update lib.clips key (some r)
  loose := Function.update lib.loose (looseKey r.delivery r.text) (some key)

/-- The clips put one after the other into an empty library. -/
def Clips.of (puts : List (String × Recording)) : Clips :=
  puts.foldl (fun lib p => lib.put p.1 p.2) .empty

/-- The clips that `load_for` puts into the library: those of the manifest's entries whose file is
there, at the business's pace. -/
def Disk.loaded (d : Disk) (pace : List UInt8 → List UInt8) (voice : Option String) :
    List (String × Recording) :=
  match d.manifest with
  | none => []
  | some m =>
    if voice.any (· ≠ m.voiceId) then []
    else m.entries.filterMap fun e =>
      (d.files e.file).map fun clip => (e.key, ⟨e.delivery, e.text, pace clip.audio⟩)

variable (digest : String → String) (lib : Clips) (delivery text : String)

/-- `insert`. -/
def Clips.insert (audio : List UInt8) : Clips :=
  lib.put (clipKey digest delivery text) ⟨delivery, text, audio⟩

/-- `get`: the clip of this sentence in this delivery, or else in the normal one. -/
def Clips.get : Option Recording :=
  (lib.clips (clipKey digest delivery text)).or
    (if delivery ≠ "normal" then lib.clips (clipKey digest "normal" text) else none)

/-- The clip the loose key of a sentence leads to. -/
def Clips.find (delivery : String) : Option Recording :=
  (lib.loose (looseKey delivery text)).bind lib.clips

/-- `get_loose`. -/
def Clips.getLoose : Option Recording :=
  (lib.get digest delivery text).or
    ((lib.find text delivery).or (if delivery ≠ "normal" then lib.find text "normal" else none))

/-- **A library that was loaded or started empty, and inserted into**, with what was put into it. -/
inductive Built : List (String × Recording) → Clips → Prop where
  | empty : Built [] .empty
  | load (d : Disk) (pace : List UInt8 → List UInt8) (voice : Option String) :
      Built (d.loaded pace voice) (.of (d.loaded pace voice))
  | insert {puts : List (String × Recording)} {lib : Clips} (built : Built puts lib)
    (delivery text : String)
      (audio : List UInt8) :
      Built (puts ++ [(clipKey digest delivery text, ⟨delivery, text, audio⟩)])
        (lib.insert digest delivery text audio)

end Source

/-- The clips are those of the library that `load_for` returns. -/
theorem loaded_keys (d : Disk) (pace : List UInt8 → List UInt8) (voice : Option String) :
    (d.loaded pace voice).map Prod.fst = (d.loadFor voice).clips.map Prod.fst := by
  unfold Disk.loaded Disk.loadFor
  cases d.manifest with
  | none => rfl
  | some m =>
    dsimp only
    split
    · rfl
    · rw [List.map_filterMap, List.map_filterMap]
      refine List.filterMap_congr fun e _ => ?_
      cases d.files e.file <;> rfl

section Finding

variable [Unicode] {digest : String → String} {puts : List (String × Recording)} {lib : Clips}
  {key loose delivery text : String} {r : Recording}

theorem of_concat (puts : List (String × Recording)) (p : String × Recording) :
    Clips.of (puts ++ [p]) = (Clips.of puts).put p.1 p.2 := by
  rw [Clips.of, List.foldl_append]
  rfl

theorem Built.eq_of (built : Built digest puts lib) : lib = .of puts := by
  induction built with
  | empty => rfl
  | load => rfl
  | insert built delivery text audio ih => rw [of_concat, ← ih]; rfl

/-- The recording put under a clip key last. -/
def kept (puts : List (String × Recording)) (key : String) : Option (String × Recording) :=
  puts.reverse.find? fun p => p.1 = key

/-- The recording put last of those with the loose key of a sentence. -/
def latest (puts : List (String × Recording)) (delivery text : String) : Option (String × Recording) :=
  puts.reverse.find? fun p => looseKey p.2.delivery p.2.text = looseKey delivery text

/-- **A clip key leads to what was put under it last.** -/
theorem clips_kept (puts : List (String × Recording)) (key : String) :
    (Clips.of puts).clips key = (kept puts key).map Prod.snd := by
  induction puts using List.reverseRecOn with
  | nil => rfl
  | append_singleton puts p ih =>
    rw [kept] at ih ⊢
    rw [of_concat, List.reverse_append, List.reverse_singleton, List.singleton_append, List.find?_cons]
    by_cases own : p.1 = key
    · simp [Clips.put, own]
    · simpa [Clips.put, own, Ne.symm own] using ih

/-- **A loose key leads to the clip key put under it last.** -/
theorem loose_latest (puts : List (String × Recording)) (delivery text : String) :
    (Clips.of puts).loose (looseKey delivery text) = (latest puts delivery text).map Prod.fst := by
  induction puts using List.reverseRecOn with
  | nil => rfl
  | append_singleton puts p ih =>
    rw [latest] at ih ⊢
    rw [of_concat, List.reverse_append, List.reverse_singleton, List.singleton_append, List.find?_cons]
    by_cases own : looseKey p.2.delivery p.2.text = looseKey delivery text
    · simp [Clips.put, own]
    · simpa [Clips.put, own, Ne.symm own] using ih

theorem kept_mem {p : String × Recording} (found : kept puts key = some p) : p ∈ puts ∧ p.1 = key :=
  ⟨List.mem_reverse.mp (List.mem_of_find?_eq_some found), by simpa using List.find?_some found⟩

theorem latest_mem {p : String × Recording} (found : latest puts delivery text = some p) :
    p ∈ puts ∧ looseKey p.2.delivery p.2.text = looseKey delivery text :=
  ⟨List.mem_reverse.mp (List.mem_of_find?_eq_some found), by simpa using List.find?_some found⟩

/-- What was put under a key is replaced, never taken away. -/
theorem kept_some {p : String × Recording} (listed : p ∈ puts) : ∃ q, kept puts p.1 = some q := by
  refine Option.isSome_iff_exists.mp (List.find?_isSome.mpr ⟨p, List.mem_reverse.mpr listed, ?_⟩)
  simp

theorem find_latest (puts : List (String × Recording)) (delivery text : String) :
    (Clips.of puts).find text delivery =
      (latest puts delivery text).bind fun p => (kept puts p.1).map Prod.snd := by
  rw [Clips.find, loose_latest]
  cases latest puts delivery text with
  | none => rfl
  | some p => exact clips_kept puts p.1

theorem looseWords_words (text : String) : Words (looseWords text) := by
  intro w listed
  obtain ⟨some', all⟩ := keptWords_mem listed
  exact ⟨some', fun space => by cases all ' ' space⟩

/-- What comes after the last mark. -/
theorem after_mark {c : Char} {a b s t : List Char} (clean : c ∉ s) (clean' : c ∉ t)
    (same : a ++ c :: s = b ++ c :: t) : s = t := by
  have chars : s.reverse ++ c :: a.reverse = t.reverse ++ c :: b.reverse := by
    have whole := congrArg List.reverse same
    simpa using whole
  have joined : s.reverse = t.reverse :=
    ((prefix_word_iff (by simpa using clean) (by simpa using clean')).mp
      ⟨[], by rw [List.append_nil, chars]⟩).1
  exact List.reverse_injective joined

/-- The unit separator. -/
def unitMark : Char := Char.ofNat 31

/-- **The loose key tells the words.** -/
theorem looseKey_words {d d' s t : String} (same : looseKey d s = looseKey d' t) :
    looseWords s = looseWords t := by
  have mark : ∀ text, unitMark ∉ (join " " (looseWords text)).toList := by
    intro text held
    have clean : ∀ w ∈ looseWords text, unitMark ∉ w.toList := fun w listed own => by
      cases (keptWords_mem listed).2 _ own
    cases words' : looseWords text with
    | nil =>
      rw [words'] at held
      cases held
    | cons w ws =>
      rw [words', join_toList_cons] at held
      rw [words'] at clean
      rcases List.mem_append.mp held with first | later
      · exact clean w List.mem_cons_self first
      · obtain ⟨v, listed, own⟩ := List.mem_flatMap.mp later
        rcases List.mem_cons.mp own with absurd' | letter
        · cases absurd'
        · exact clean v (List.mem_cons_of_mem _ listed) letter
  have key : ∀ delivery text, (looseKey delivery text).toList =
      delivery.toList ++ unitMark :: (join " " (looseWords text)).toList := by
    intro delivery text
    simp [looseKey, unitMark]
  have keys : d.toList ++ unitMark :: (join " " (looseWords s)).toList =
      d'.toList ++ unitMark :: (join " " (looseWords t)).toList := by
    rw [← key, ← key, same]
  have texts : join " " (looseWords s) = join " " (looseWords t) :=
    String.toList_inj.mp (after_mark (mark s) (mark t) keys)
  rw [← tokens_join (looseWords_words s), texts, tokens_join (looseWords_words t)]

end Finding

section Playing

variable [Unicode] [RegexTables]

/-- Two sentences are read with the same letters and digits, word by word. -/
def Alike (s t : String) : Prop := letterWords (normalizeHebrew s) = letterWords (normalizeHebrew t)

instance (s t : String) : Decidable (Alike s t) := inferInstanceAs (Decidable (_ = _))

variable (digest : String → String) (puts : List (String × Recording)) (lib : Clips)
    (delivery text : String)

/-- The clip keys of a sentence: in the delivery asked for, and in the normal one. -/
def Own (key : String) : Prop := key = clipKey digest delivery text ∨ key = clipKey digest "normal" text

instance (key : String) : Decidable (Own digest delivery text key) := inferInstanceAs (Decidable (_ ∨ _))

/-- **No two sentences have one clip key**: those put into the library, and the one asked for. The
white space around a sentence is no part of its key. -/
structure Clear : Prop where
  among : ∀ p ∈ puts, ∀ q ∈ puts, p.1 = q.1 → trim p.2.text = trim q.2.text
  asked : ∀ p ∈ puts, Own digest delivery text p.1 → trim p.2.text = trim text

/-- **What is played for a sentence was recorded for one that is read as it is**, word by word. -/
def Faithful : Prop := ∀ r, lib.getLoose digest delivery text = some r → Alike r.text text

/-- The newest recording of the loose key, in the delivery asked for or else in the normal one. -/
def newest : Option (String × Recording) := (latest puts delivery text).or (latest puts "normal" text)

/-- **The library tells the sentence from the others**: its own clip is there, or else the newest
recording of its loose key is read as it is. -/
def Told : Prop :=
  (∃ p ∈ puts, Own digest delivery text p.1) ∨ ∀ p, newest puts delivery text = some p →
    Alike p.2.text text

variable {digest puts lib delivery text} {r : Recording}

/-- Sentences of one clip key are read alike. -/
theorem alike_trim (edges : ∀ c, isWhitespace c = true → isWord c = false) {s t : String}
    (same : trim s = trim t) : Alike s t := by
  rw [Alike, ← normalizeHebrew_trim edges s, same, normalizeHebrew_trim edges]

/-- The clip of the sentence itself was put under one of its keys. -/
theorem get_own (found : (Clips.of puts).get digest delivery text = some r) :
    ∃ p ∈ puts, Own digest delivery text p.1 ∧ p.2 = r := by
  have held : ∀ {key}, (Clips.of puts).clips key = some r → ∃ p ∈ puts, p.1 = key ∧ p.2 = r := by
    intro key found
    rw [clips_kept] at found
    obtain ⟨p, own, same⟩ := Option.map_eq_some_iff.mp found
    exact ⟨p, (kept_mem own).1, (kept_mem own).2, same⟩
  rcases Option.or_eq_some_iff.mp found with exact' | ⟨-, other⟩
  · obtain ⟨p, listed, key, same⟩ := held exact'
    exact ⟨p, listed, .inl key, same⟩
  · split at other
    · obtain ⟨p, listed, key, same⟩ := held other
      exact ⟨p, listed, .inr key, same⟩
    · cases other

/-- A recording under one of its keys is found. -/
theorem get_some (own : ∃ p ∈ puts, Own digest delivery text p.1) :
    ∃ r, (Clips.of puts).get digest delivery text = some r := by
  obtain ⟨p, listed, own⟩ := own
  obtain ⟨q, held⟩ := kept_some listed
  have found : (Clips.of puts).clips p.1 = some q.2 := by rw [clips_kept, held]; rfl
  rw [← Option.isSome_iff_exists, Clips.get, Option.isSome_or]
  rcases own with same | same
  · rw [← same, found]
    rfl
  · rw [← same, found]
    by_cases normal : delivery = "normal"
    · rw [normal, ← same, found]
      rfl
    · simp [normal]

/-- Without its own clip, the newest recording of its loose key decides what is played. -/
theorem getLoose_newest (missing : (Clips.of puts).get digest delivery text = none) :
    (Clips.of puts).getLoose digest delivery text =
      (newest puts delivery text).bind fun p => (kept puts p.1).map Prod.snd := by
  rw [Clips.getLoose, missing, Option.none_or, find_latest, find_latest, newest]
  cases own : latest puts delivery text with
  | some p =>
    obtain ⟨q, held⟩ := kept_some (latest_mem own).1
    rw [Option.some_or, Option.bind_some, held, Option.map_some, Option.some_or]
  | none =>
    by_cases normal : delivery = "normal"
    · subst normal
      simp [own]
    · simp [normal]

/-- **What is played is read as the sentence asked for exactly where the library tells it from the
others.** -/
theorem told_iff (edges : ∀ c, isWhitespace c = true → isWord c = false)
    (clear : Clear digest puts delivery text) :
    Faithful digest (.of puts) delivery text ↔ Told digest puts delivery text := by
  cases exact' : (Clips.of puts).get digest delivery text with
  | some r =>
    obtain ⟨p, listed, own, same⟩ := get_own exact'
    have played : (Clips.of puts).getLoose digest delivery text = some r := by
      rw [Clips.getLoose, exact', Option.some_or]
    refine iff_of_true (fun r' found => ?_) (.inl ⟨p, listed, own⟩)
    rw [played] at found
    rw [← Option.some.inj found, ← same]
    exact alike_trim edges (clear.asked p listed own)
  | none =>
    have missing : ¬ ∃ p ∈ puts, Own digest delivery text p.1 := by
      intro own
      obtain ⟨r, found⟩ := get_some own
      rw [exact'] at found
      cases found
    have played := getLoose_newest exact'
    -- What the newest recording's clip key leads to is read as the newest recording.
    have leads : ∀ p, newest puts delivery text = some p →
      ∃ q, kept puts p.1 = some q ∧ Alike q.2.text p.2.text := by
      intro p found
      have listed : p ∈ puts := by
        rcases Option.or_eq_some_iff.mp found with own | ⟨-, other⟩
        · exact (latest_mem own).1
        · exact (latest_mem other).1
      obtain ⟨q, held⟩ := kept_some listed
      have own := clear.among q (kept_mem held).1 p listed (kept_mem held).2
      exact ⟨q, held, alike_trim edges own⟩
    rw [Told, or_iff_right missing]
    constructor
    · intro faithful p found
      obtain ⟨q, held, alike⟩ := leads p found
      have asked : Alike q.2.text text := by
        refine faithful q.2 ?_
        rw [played, found, Option.bind_some, held]
        rfl
      exact alike.symm.trans asked
    · intro told r found
      rw [played] at found
      obtain ⟨p, newest', held⟩ := Option.bind_eq_some_iff.mp found
      obtain ⟨q, held', alike⟩ := leads p newest'
      rw [held'] at held
      rw [← Option.some.inj held]
      exact alike.trans (told p newest')

/-- A sentence with the words of the only clip is played from it. -/
theorem getLoose_insert {u : String} (same : looseWords u = looseWords text) (audio : List UInt8) :
    (Clips.empty.insert digest delivery u audio).getLoose digest delivery text =
    some ⟨delivery, u, audio⟩ := by
  have loose : looseKey delivery u = looseKey delivery text := by rw [looseKey, looseKey, same]
  have one : ∀ key r, (Clips.empty.insert digest delivery u audio).clips key = some r →
    r = ⟨delivery, u, audio⟩ := by
    intro key r found
    by_cases own : key = clipKey digest delivery u
    · subst own
      simpa [Clips.insert, Clips.put, eq_comm] using found
    · simp [Clips.insert, Clips.put, Clips.empty, own] at found
  have led : (Clips.empty.insert digest delivery u audio).find text delivery =
    some ⟨delivery, u, audio⟩ := by
    simp [Clips.find, Clips.insert, Clips.put, loose]
  unfold Clips.getLoose
  rw [led, Option.some_or]
  cases found : (Clips.empty.insert digest delivery u audio).get digest delivery text with
  | none => rfl
  | some r =>
    rcases Option.or_eq_some_iff.mp found with exact' | ⟨-, other⟩
    · rw [one _ r exact']
      rfl
    · split at other
      · rw [one _ r other]
        rfl
      · cases other

/-- **Every library tells a sentence without digits**: what has its loose key has its words. -/
theorem told_clean (numerals : ∀ c, isDecimal c = true → isAlphanumeric c = true)
    (clean : ∀ c ∈ text.toList, isDecimal c = false) : Told digest puts delivery text := by
  refine .inr fun p found => ?_
  have same : looseWords p.2.text = looseWords text := by
    rcases Option.or_eq_some_iff.mp found with own | ⟨-, other⟩
    · exact looseKey_words (latest_mem own).2
    · exact looseKey_words (latest_mem other).2
  exact same_words numerals same clean

end Playing

section Result

variable [Unicode] [RegexTables]

/-- **The recorded sentence is the one asked for where the library tells it from the others**, as
every library does for a sentence without digits; for one with a digit there is a recording that is
played and read otherwise. -/
theorem recorded_words (numerals : ∀ c, isDecimal c = true → isAlphanumeric c = true)
    (edges : ∀ c, isWhitespace c = true → isWord c = false) (digest : String → String)
    (puts : List (String × Recording)) (lib : Clips) (built : Built digest puts lib)
    (delivery text : String)
    (clear : Clear digest puts delivery text) :
    (Faithful digest lib delivery text ↔ Told digest puts delivery text) ∧
      ((∀ c ∈ text.toList, isDecimal c = false) → Told digest puts delivery text) ∧
        ((∃ c ∈ text.toList, isDecimal c = true) → ∃ u, ∀ audio,
          ¬ Faithful digest (Clips.empty.insert digest delivery u audio) delivery text) := by
  refine ⟨?_, told_clean numerals, fun digit' => ?_⟩
  · rw [built.eq_of]
    exact told_iff edges clear
  · obtain ⟨u, same, other⟩ := misread digit'
    exact ⟨u, fun audio faithful => other (faithful ⟨delivery, u, audio⟩ (getLoose_insert same audio))⟩

end Result

theorem isDecimal_plain (c : Char) (own : @isDecimal RegexTables.plain c = true) :
    @isAlphanumeric Unicode.plain c = true := by
  unfold isDecimal at own
  unfold isAlphanumeric
  split at own
  · next small =>
    rw [if_pos small]
    simp only [isAsciiDigit, Bool.and_eq_true, decide_eq_true_eq] at own
    simp only [Char.isAlphanum, Char.isDigit, Bool.or_eq_true, Bool.and_eq_true, decide_eq_true_eq]
    exact .inr own
  · split at own <;> cases own

theorem isWord_plain (c : Char) (white : isWhitespace c = true) :
    @isWord RegexTables.plain c = false := by
  by_contra own
  have word : @isWord RegexTables.plain c = true := by simpa using own
  simp only [isWhitespace, Bool.or_eq_true, Bool.and_eq_true, decide_eq_true_eq, beq_iff_eq] at white
  unfold isWord at word
  split at word
  · rcases Bool.or_eq_true_iff.mp word with latin | low
    · have visible := latin_visible latin
      omega
    · rw [eq_of_beq low] at white
      revert white
      decide
  · split at word
    · simp only [isHebrewWord, Bool.or_eq_true, Bool.and_eq_true, decide_eq_true_eq, beq_iff_eq] at word
      omega
    · split at word <;> cases word

/-- "15" after "1.5", each recorded. -/
def fifteens : List (String × Recording) :=
  [(clipKey id "normal" "1.5", ⟨"normal", "1.5", [0]⟩), (clipKey id "normal" "15", ⟨"normal", "15", [1]⟩)]

attribute [local instance] Unicode.plain RegexTables.plain in
/-- "15" is played from its own clip, whatever has its loose key. -/
theorem fifteen_recorded : Faithful id (.of fifteens) "normal" "15" := by
  have built : Built id fifteens (.of fifteens) :=
    (Built.empty.insert "normal" "1.5" [0]).insert "normal" "15" [1]
  have clear : Clear id fifteens "normal" "15" := ⟨by decide +kernel, by decide +kernel⟩
  exact (recorded_words isDecimal_plain isWord_plain id fifteens _ built "normal" "15" clear).1.mpr
    (.inl ⟨_, List.mem_cons_of_mem _ (List.mem_singleton_self _), .inl rfl⟩)

attribute [local instance] Unicode.plain RegexTables.plain in
/-- "1.5" was recorded, and is played for "15". -/
theorem half_played_for_fifteen : ¬ ∀ (_ : Unicode) (_ : RegexTables) (digest : String → String)
    (puts : List (String × Recording)) (lib : Clips), Built digest puts lib →
      ∀ delivery text, Faithful digest lib delivery text := by
  intro all
  have built : Built id _ (Clips.empty.insert id "normal" "1.5" []) :=
    Built.empty.insert "normal" "1.5" []
  have played : (Clips.empty.insert id "normal" "1.5" []).getLoose id "normal" "15" =
    some ⟨"normal", "1.5", []⟩ :=
    getLoose_insert (by decide +kernel) []
  have same := all Unicode.plain RegexTables.plain id _ _ built "normal" "15" ⟨"normal", "1.5", []⟩ played
  revert same
  decide +kernel

end Callora.Voices
