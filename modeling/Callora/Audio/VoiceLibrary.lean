/-
**The voice library on disk.**

A business's folder holds the manifest and one file for each clip, named by the delivery and the text.
`LibraryBuilder.build` keeps the clips of the manifest that fit, writes the others in place one after the
other, and replaces the manifest last. A clip carries what it was synthesized from.

`Unmixed` is what a folder promises: the audio of every file the manifest names is what the manifest
says, so loading plays one voice and a build reuses its own. `build_unmixed_iff`: wherever a build
stops, the folder is as promised, if and only if the build makes no sentence again that the manifest
on disk names with another voice, model, wording or settings, and no two sentences it makes share a
file and differ in them. A build for another voice that stops at once leaves its clip under the old
manifest (`stopped_mixes`).
-/
import Callora.Business.Library
import Callora.Library.Writes

set_option linter.unusedSectionVars false

namespace Callora.Voices

open Callora.Text Writes

/-- What audio was synthesized from. -/
structure Origin where
  voiceId : String
  model : String
  spoken : String
  settings : Option String
  deriving DecidableEq, Repr

/-- A clip. -/
structure Clip where
  origin : Origin
  audio : List UInt8
  deriving DecidableEq, Repr

structure ManifestEntry where
  key : String
  responseId : String
  delivery : String
  text : String
  /-- The text sent to be spoken. -/
  spoken : String
  /-- The voice settings it was made with. -/
  settings : Option String
  file : String
  bytes : ℕ
  deriving DecidableEq, Repr

structure Manifest where
  businessId : String
  voiceId : String
  model : String
  format : String
  entries : List ManifestEntry
  deriving DecidableEq, Repr

/-- What the manifest says an entry was made from. -/
def Manifest.origin (m : Manifest) (e : ManifestEntry) : Origin :=
  ⟨m.voiceId, m.model, e.spoken, e.settings⟩

/-- A business's folder. -/
structure Disk where
  manifest : Option Manifest
  files : String → Option Clip

/-- Every file that the manifest names holds what the manifest says. -/
def Disk.Sound (d : Disk) : Prop :=
  ∀ m, d.manifest = some m → ∀ e ∈ m.entries, ∀ clip, d.files e.file = some clip →
    clip.origin = m.origin e

/-! ### Loading -/

/-- A business's clips, in memory. -/
structure VoiceLibrary where
  clips : List (String × Clip)
  voiceId : Option String
  model : Option String

def VoiceLibrary.empty : VoiceLibrary := ⟨[], none, none⟩

/-- `load_for`. -/
def Disk.loadFor (d : Disk) (voice : Option String) : VoiceLibrary :=
  match d.manifest with
  | none => .empty
  | some m =>
    if voice.any (· ≠ m.voiceId) then .empty
    else ⟨m.entries.filterMap fun e => (d.files e.file).map (e.key, ·), some m.voiceId, some m.model⟩

/-! ### Building -/

section Build

-- the hash of `clip_key`: the first twelve bytes of SHA-256, in hexadecimal
variable (digest : String → String)

/-- `clip_key`. -/
def clipKey (delivery text : String) : String := digest (delivery ++ "\u001f" ++ trim text)

/-- `with_tone`: the text with the response's tone before it. -/
def withTone (tone : Option String) (spoken : String) : String :=
  match tone.filter fun t => trim t ≠ "" with
  | some tone => "[" ++ trim tone ++ "] " ++ spoken
  | none => spoken

/-- The key of a sentence, and the file of its clip. -/
def keyOf (e : LibraryEntry) : String := clipKey digest e.delivery e.text

def fileOf (e : LibraryEntry) : String := keyOf digest e ++ ".ulaw"

structure LibraryBuilder where
  business : Business
  /-- The tone of a response. -/
  tone : String → Option String
  /-- The text as it is sent to be spoken. -/
  prepareForTts : String → String
  /-- The voice settings of a delivery, as the manifest writes them. -/
  settingsFor : String → Option String
  voiceId : String
  model : String

namespace LibraryBuilder

variable (b : LibraryBuilder) (d : Disk)

def spoken (e : LibraryEntry) : String := withTone (b.tone e.responseId) (b.prepareForTts e.text)

/-- What the builder makes an entry from. -/
def origin (e : LibraryEntry) : Origin := ⟨b.voiceId, b.model, b.spoken e, b.settingsFor e.delivery⟩

/-- The entries of the manifest on disk that were made by this voice and model, and whose file is
there. -/
def reusable : List ManifestEntry :=
  match d.manifest.filter fun m => m.voiceId = b.voiceId ∧ m.model = b.model with
  | none => []
  | some m => m.entries.filter fun e => (d.files e.file).isSome

/-- The entry that is reused for a sentence: a later entry of a key replaces an earlier one. -/
def reuse (e : LibraryEntry) : Option ManifestEntry :=
  ((b.reusable d).reverse.find? (·.key = keyOf digest e)).filter fun prev =>
    prev.spoken = b.spoken e ∧ prev.settings = b.settingsFor e.delivery

def entries : List LibraryEntry := libraryEntries b.business

/-- The sentences to be synthesized. -/
def todo : List LibraryEntry := b.entries.filter fun e => (b.reuse digest d e).isNone

/-- What came of each sentence: the audio, or nothing where it failed. -/
abbrev Results := List (LibraryEntry × Option (List UInt8))

/-- The sentences of a build, in the order their syntheses end. -/
structure Synthesized where
  results : Results
  all : (results.map Prod.fst).Perm (b.todo digest d)

variable (results : Results)

/-- The clips that are written: an empty one is not. -/
def made : List (LibraryEntry × List UInt8) :=
  results.filterMap fun (e, audio) => (audio.filter (· ≠ [])).map (e, ·)

/-- The files that are written, one after the other. -/
def writes : List (String × Clip) :=
  (made results).map fun (e, audio) => (fileOf digest e, ⟨b.origin e, audio⟩)

/-- The manifest's entry of a clip that was made. -/
def manifestEntry (e : LibraryEntry) (audio : List UInt8) : ManifestEntry :=
  ⟨keyOf digest e, e.responseId, e.delivery, e.text, b.spoken e, b.settingsFor e.delivery,
    fileOf digest e,
    audio.length⟩

/-- The order of the manifest. -/
def listedBefore (e f : ManifestEntry) : Bool :=
  (compare [e.responseId, e.delivery, e.text] [f.responseId, f.delivery, f.text]).isLE

/-- The manifest that is written last. -/
def manifest : Manifest where
  businessId := b.business.config.id
  voiceId := b.voiceId
  model := b.model
  format := "mulaw_8000"
  entries := (b.entries.filterMap (b.reuse digest d) ++
    (made results).map fun (e, audio) => b.manifestEntry digest e audio).mergeSort listedBefore

/-- Where a build stops. -/
inductive Stop where
  /-- After some files, with a part of the next one where it was being written. -/
  | writing (whole : ℕ) (part : Option ℕ)
  /-- The manifest is replaced. -/
  | finished
  deriving DecidableEq, Repr

/-- The file that was being written. -/
def torn (writes : List (String × Clip)) (part : Option ℕ) : List (String × Clip) :=
  match writes.head?, part with
  | some (file, clip), some n => [(file, { clip with audio := clip.audio.take n })]
  | _, _ => []

/-- **`build`**: the folder where it stops. The manifest is replaced at once, by a rename. -/
def build (s : b.Synthesized digest d) : Stop → Disk
  | .writing whole part =>
    ⟨d.manifest, written d.files ((b.writes digest s.results).take whole ++
      torn ((b.writes digest s.results).drop whole) part)⟩
  | .finished => ⟨some (b.manifest digest d s.results), written d.files (b.writes digest s.results)⟩

end LibraryBuilder

/-! ### What a folder promises -/

/-- What a folder promises. -/
structure Disk.Unmixed (d : Disk) : Prop where
  sound : d.Sound
  /-- Loading for a voice plays that voice. -/
  plays : ∀ voice key clip, (key, clip) ∈ (d.loadFor (some voice)).clips → clip.origin.voiceId = voice
  /-- A build that reuses a clip reuses what it would make. -/
  reuses : ∀ (b : LibraryBuilder) e prev, b.reuse digest d e = some prev →
    ∀ clip, d.files prev.file = some clip → clip.origin = b.origin e

section Promises

variable {d : Disk} {b : LibraryBuilder}

theorem LibraryBuilder.of_reuse {e : LibraryEntry} {prev : ManifestEntry}
    (reused : b.reuse digest d e = some prev) :
    ∃ m, d.manifest = some m ∧ prev ∈ m.entries ∧ m.origin prev = b.origin e := by
  obtain ⟨found, same⟩ := Option.filter_eq_some_iff.mp reused
  simp only [decide_eq_true_eq] at same
  have listed : prev ∈ b.reusable d := List.mem_reverse.mp (List.mem_of_find?_eq_some found)
  unfold reusable at listed
  split at listed
  · exact absurd listed List.not_mem_nil
  next m made =>
    obtain ⟨there, ours⟩ := Option.filter_eq_some_iff.mp made
    simp only [decide_eq_true_eq] at ours
    refine ⟨m, there, (List.mem_filter.mp listed).1, ?_⟩
    rw [Manifest.origin, LibraryBuilder.origin, ours.1, ours.2, same.1, same.2]

/-- Nothing is reused of another voice. -/
theorem LibraryBuilder.reuse_other {m : Manifest} (there : d.manifest = some m)
    (other : m.voiceId ≠ b.voiceId)
    (e : LibraryEntry) : b.reuse digest d e = none := by
  by_contra some
  obtain ⟨prev, reused⟩ := Option.ne_none_iff_exists'.mp some
  obtain ⟨m', there', -, same⟩ := of_reuse digest reused
  obtain rfl := Option.some.inj (there.symm.trans there')
  exact other (congrArg Origin.voiceId same)

theorem Disk.Sound.unmixed (sound : d.Sound) : d.Unmixed digest where
  sound := sound
  plays := by
    intro voice key clip listed
    unfold Disk.loadFor at listed
    split at listed
    · exact absurd listed List.not_mem_nil
    next m there =>
      split at listed
      · exact absurd listed List.not_mem_nil
      next same =>
        obtain ⟨e, entry, read⟩ := List.mem_filterMap.mp listed
        obtain ⟨clip', held, pair⟩ := Option.map_eq_some_iff.mp read
        obtain ⟨-, rfl⟩ := Prod.mk.inj pair
        rw [sound m there e entry clip' held]
        exact (by simpa using same : voice = m.voiceId).symm
  reuses := by
    intro b e prev reused clip held
    obtain ⟨m, there, listed, same⟩ := LibraryBuilder.of_reuse digest reused
    exact (sound m there prev listed clip held).trans same

end Promises

/-! ### Where a build stops -/

namespace LibraryBuilder

variable {b : LibraryBuilder} {d : Disk} {results : Results}

/-- No sentence is made again that the manifest on disk names with another origin, and no two
sentences that are made share a file and differ in what they are made from. -/
structure Clean (b : LibraryBuilder) (d : Disk) (s : b.Synthesized digest d) : Prop where
  finished : ∀ e audio, (e, audio) ∈ made s.results → ∀ m, d.manifest = some m → ∀ prev ∈ m.entries,
    prev.file = fileOf digest e → m.origin prev = b.origin e
  shared : ∀ e audio f audio', (e, audio) ∈ made s.results → (f, audio') ∈ made s.results →
    fileOf digest e = fileOf digest f → b.origin e = b.origin f

theorem mem_writes {file : String} {clip : Clip} : (file, clip) ∈ b.writes digest results ↔
    ∃ e audio, (e, audio) ∈ made results ∧ file = fileOf digest e ∧ clip = ⟨b.origin e, audio⟩ := by
  simp only [writes, List.mem_map, Prod.exists, Prod.mk.injEq]
  constructor
  · rintro ⟨e, audio, listed, rfl, rfl⟩
    exact ⟨e, audio, listed, rfl, rfl⟩
  · rintro ⟨e, audio, listed, rfl, rfl⟩
    exact ⟨e, audio, listed, rfl, rfl⟩

theorem mem_todo {e : LibraryEntry} (listed : e ∈ libraryEntries b.business)
    (fresh : b.reuse digest d e = none) : e ∈ b.todo digest d :=
  List.mem_filter.mpr ⟨listed, by simp [fresh]⟩

/-- Where every synthesis gives some audio, every sentence is made. -/
theorem mem_made {entries : List LibraryEntry} {e : LibraryEntry} {audio : List UInt8}
    (listed : e ∈ entries)
    (sounds : audio ≠ []) : (e, audio) ∈ made (entries.map fun e => (e, some audio)) := by
  refine List.mem_filterMap.mpr ⟨(e, some audio), List.mem_map_of_mem listed, ?_⟩
  simp [Option.filter, sounds]

theorem mem_manifest {prev : ManifestEntry} : prev ∈ (b.manifest digest d results).entries ↔
    (∃ e ∈ b.entries, b.reuse digest d e = some prev) ∨
      ∃ e audio, (e, audio) ∈ made results ∧ prev = b.manifestEntry digest e audio := by
  simp only [manifest, List.mem_mergeSort, List.mem_append, List.mem_filterMap, List.mem_map, Prod.exists]
  refine or_congr_right ?_
  constructor
  · rintro ⟨e, audio, listed, rfl⟩
    exact ⟨e, audio, listed, rfl⟩
  · rintro ⟨e, audio, listed, rfl⟩
    exact ⟨e, audio, listed, rfl⟩

/-- Every file that is written, whole or in part, is of a sentence that is made. -/
theorem of_writing {whole : ℕ} {part : Option ℕ} {file : String} {clip : Clip}
    (listed : (file, clip) ∈ (b.writes digest results).take whole ++
      torn ((b.writes digest results).drop whole) part) :
    ∃ e audio, (e, audio) ∈ made results ∧ file = fileOf digest e ∧ clip.origin = b.origin e := by
  rcases List.mem_append.mp listed with before | now
  · obtain ⟨e, audio, made, rfl, rfl⟩ := (mem_writes digest).mp (List.mem_of_mem_take before)
    exact ⟨e, audio, made, rfl, rfl⟩
  · unfold torn at now
    split at now
    next file' clip' n next =>
      obtain ⟨rfl, rfl⟩ := Prod.mk.inj (List.mem_singleton.mp now)
      have first := List.mem_of_mem_drop (List.mem_of_head? next)
      obtain ⟨e, audio, made, rfl, rfl⟩ := (mem_writes digest).mp first
      exact ⟨e, audio, made, rfl, rfl⟩
    next => exact absurd now List.not_mem_nil

variable {s : b.Synthesized digest d}

/-- **A clean build keeps the promise wherever it stops.** -/
theorem Clean.sound (clean : b.Clean digest d s) (sound : d.Sound) (stop : Stop) :
    (b.build digest d s stop).Sound := by
  intro m there prev listed
  cases stop with
  | writing whole part =>
    refine written_all (sound m there prev listed) ?_
    intro clip now
    obtain ⟨e, audio, made, named, same⟩ := of_writing digest now
    exact same.trans (clean.finished e audio made m there prev listed named).symm
  | finished =>
    obtain rfl := Option.some.inj there
    rcases (mem_manifest digest).mp listed with ⟨e, entry, reused⟩ | ⟨e, audio, made, rfl⟩
    · -- a clip that is kept: it was sound, and what is written over it is of the same origin
      obtain ⟨m, there, before, same⟩ := of_reuse digest reused
      have kept : (b.manifest digest d s.results).origin prev = m.origin prev := by
        have voice : m.voiceId = b.voiceId := congrArg Origin.voiceId same
        have model : m.model = b.model := congrArg Origin.model same
        rw [Manifest.origin, Manifest.origin, voice, model]
        rfl
      rw [kept]
      refine written_all (sound m there prev before) ?_
      intro clip now
      obtain ⟨f, audio, made, named, rfl⟩ := (mem_writes digest).mp now
      exact (clean.finished f audio made m there prev before named).symm
    · intro clip held
      have listed : ∃ write ∈ b.writes digest s.results, write.1 = fileOf digest e :=
        ⟨_, (mem_writes digest).mpr ⟨e, audio, made, rfl, rfl⟩, rfl⟩
      obtain ⟨clip', now, last⟩ := written_of_listed d.files listed
      obtain rfl := Option.some.inj (last.symm.trans held)
      obtain ⟨f, audio', made', named, rfl⟩ := (mem_writes digest).mp now
      exact clean.shared f audio' e audio made' made named.symm

/-- A clip that is made is in its file where the build stops right after it. -/
theorem exists_stop {e : LibraryEntry} {audio : List UInt8} (listed : (e, audio) ∈ made s.results) :
    ∃ whole, (b.build digest d s (.writing whole none)).files (fileOf digest e) =
      some ⟨b.origin e, audio⟩ := by
  obtain ⟨before, after, split⟩ :=
    List.append_of_mem ((mem_writes digest).mpr ⟨e, audio, listed, rfl, rfl⟩)
  refine ⟨before.length + 1, ?_⟩
  have taken : (b.writes digest s.results).take (before.length + 1) =
      before ++ [(fileOf digest e, ⟨b.origin e, audio⟩)] := by
    rw [split, List.take_append, List.take_of_length_le (Nat.le_succ _)]
    simp
  have nothing : torn ((b.writes digest s.results).drop (before.length + 1)) none = [] := by
    unfold torn
    split
    next no => exact nomatch no
    next => rfl
  simp only [build, taken, nothing, List.append_nil, written_last]

/-- **Where every stop is sound, the build is clean.** -/
theorem clean_of_sound (all : ∀ stop, (b.build digest d s stop).Sound) :
    b.Clean digest d s where
  finished := by
    intro e audio listed m there prev entry named
    obtain ⟨whole, held⟩ := exists_stop digest (b := b) (d := d) listed
    rw [← named] at held
    exact (all (.writing whole none) m there prev entry _ held).symm
  shared := by
    intro e audio f audio' listed listed' same
    have named : ∃ write ∈ b.writes digest s.results, write.1 = fileOf digest e :=
      ⟨_, (mem_writes digest).mpr ⟨e, audio, listed, rfl, rfl⟩, rfl⟩
    obtain ⟨clip, -, held⟩ := written_of_listed d.files named
    have of_made : ∀ g audio, (g, audio) ∈ made s.results → fileOf digest e = fileOf digest g →
        clip.origin = b.origin g := by
      intro g audio listed here
      have entry := (mem_manifest digest (b := b) (d := d)).mpr (.inr ⟨g, audio, listed, rfl⟩)
      rw [here] at held
      exact all .finished _ rfl _ entry clip held
    exact (of_made e audio listed rfl).symm.trans (of_made f audio' listed' same)

end LibraryBuilder

/-- **A library is unmixed wherever a build stops**, exactly where the build is clean. -/
theorem build_unmixed_iff (b : LibraryBuilder) (d : Disk) (sound : d.Sound) (s : b.Synthesized digest d) :
    (∀ stop, (b.build digest d s stop).Unmixed digest) ↔ b.Clean digest d s :=
  ⟨fun all => LibraryBuilder.clean_of_sound digest fun stop => (all stop).sound,
    fun clean stop => (clean.sound digest sound stop).unmixed digest⟩

end Build

section Sample

open Callora.Sample

/-- SHA-256 of the one key the sample folder names. -/
def sha (text : String) : String :=
  if text = "normal\u001fhello" then "110b70a0d29f4038ad3aa2d4" else text

/-- A builder of the sample business. -/
def studio (voice : String) : LibraryBuilder :=
  ⟨rides, fun _ => none, id, fun _ => some "\x7b\x7d", voice, "eleven_v3"⟩

def greeting : LibraryEntry := ⟨"hello", "normal", "hello"⟩

/-- The greeting as a voice says it. -/
def said (voice : String) : Clip := ⟨(studio voice).origin greeting, [0x7F]⟩

/-- A folder with the greeting in a voice. -/
def shelf (voice : String) : Disk where
  manifest := some ⟨"rides", voice, "eleven_v3", "mulaw_8000",
    [(studio voice).manifestEntry sha greeting [0x7F]]⟩
  files := written (fun _ => none) [(fileOf sha greeting, said voice)]

theorem shelf_sound (voice : String) : (shelf voice).Sound := by
  rintro m ⟨⟩ e listed clip held
  obtain rfl := List.mem_singleton.mp listed
  have same : written (fun _ => none) ([] ++ [(fileOf sha greeting, said voice)]) (fileOf sha greeting) =
    some (said voice) := written_last
  obtain rfl := Option.some.inj (same.symm.trans held)
  rfl

/-- Every synthesis succeeds, in the order of the library. -/
def recorded (b : LibraryBuilder) (d : Disk) : b.Synthesized sha d where
  results := (b.todo sha d).map fun e => (e, some [0x7F])
  all := by
    rw [List.map_map]
    exact List.Perm.of_eq (List.map_id _)

theorem recorded_made {b : LibraryBuilder} {d : Disk} {e : LibraryEntry} (listed : e ∈ b.todo sha d) :
    (e, [0x7F]) ∈ LibraryBuilder.made (recorded b d).results :=
  LibraryBuilder.mem_made listed (List.cons_ne_nil _ _)

theorem recorded_unmixed_iff :
    (∀ stop, ((studio "anna").build sha (shelf "anna")
      (recorded (studio "anna") (shelf "anna")) stop).Unmixed sha) ↔
      (studio "anna").Clean sha (shelf "anna") (recorded (studio "anna") (shelf "anna")) :=
  build_unmixed_iff sha (studio "anna") (shelf "anna") (shelf_sound "anna")
    (recorded (studio "anna") (shelf "anna"))

set_option maxRecDepth 100000 in
theorem greeting_listed : greeting ∈ libraryEntries rides := by decide +kernel

/-- **A build that stops mixes voices**: the greeting is in the new voice, under the manifest of the
old. -/
theorem stopped_mixes :
    ¬ ∀ (digest : String → String) (b : LibraryBuilder) (d : Disk), d.Sound →
      ∀ (s : b.Synthesized digest d) stop, (b.build digest d s stop).Unmixed digest := by
  intro all
  have listed : greeting ∈ (studio "ben").todo sha (shelf "anna") :=
    LibraryBuilder.mem_todo sha greeting_listed (LibraryBuilder.reuse_other sha rfl (by decide) greeting)
  obtain ⟨whole, held⟩ := LibraryBuilder.exists_stop sha (recorded_made listed)
  have sound :=
    (all sha (studio "ben") (shelf "anna") (shelf_sound "anna") (recorded (studio "ben") (shelf "anna"))
      (.writing whole none)).sound
  have same := sound _ rfl _ (List.mem_singleton_self _) _ held
  have voices : "ben" = "anna" := congrArg Origin.voiceId same
  exact absurd voices (by decide)

end Sample

end Callora.Voices
