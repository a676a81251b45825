import Kryptan.Ui.SharedStrings

/-!
# Ui/Clipboard — a secret's way through the clipboard

    mPassword ──decode──▸ primary clip ──encode──▸ keyboard ──donePressed──▸ a field
     (bytes)               (characters)             (bytes)                  (bytes)
                               ▴
                        other apps set it

Strings are bytes, and the clipboard holds characters: what is copied is decoded, and what is pasted
is encoded again.  **Every string survives that exactly as long as no `DEL` splits a character and
what comes from a file is text** (`allStates_survive_iff`), and then a paste adds the very bytes
that were copied, whatever is done in between (`run_pastes`).
-/

namespace Kryptan

open CoreSecureStringHandler KryptanKeyboard Runs

/-- The strings of the app, and the clipboard of the phone: the plain text of its primary clip,
`none` if it has none. -/
structure Clipboard where
  strings : PlainStrings
  primaryClip : Option (List Char)
  deriving DecidableEq, Repr

/-- What is done with the strings, what copies one of them, and what another app puts on the
clipboard. -/
inductive ClipboardEvent where
  | string (e : StringEvent)
  | copyClicked (i : ℕ)
  | copyCurrentPasswordClick (i : ℕ)
  | pastePressed (k : ℕ)
  | setPrimaryClip (clip : Option (List Char))
  deriving DecidableEq, Repr

/-- The event leaves what is on the clipboard there. -/
def ClipboardEvent.LeavesClip : ClipboardEvent → Prop
  | .string _ | .pastePressed _ => True
  | _ => False

namespace Clipboard

-- `new String(arr, "UTF-8")`
variable (decode : SecureString → List Char)

/-- No keyboards and no strings yet, and a clipboard with whatever is on it. -/
def init (holders : ℕ) (primaryClip : Option (List Char)) : Clipboard :=
  ⟨.init holders, primaryClip⟩

/-- `copyToClipboard`: the bytes go into an array, and the text made of that onto the clipboard. -/
def copyToClipboard (s : Clipboard) (src : SecureString) : Clipboard :=
  let arr := (List.range (getLength src)).map fun i : ℕ => getByte src i
  { s with primaryClip := some (decode arr) }

def step (s : Clipboard) : ClipboardEvent → Option Clipboard
  -- what is pasted is what is on the clipboard
  | .string (.press _ (.paste _)) => none
  | .string e => (s.strings.step e).map fun strings => { s with strings := strings }
  | .copyClicked i => s.strings.holders[i]?.map fun text =>
      s.copyToClipboard decode (text.getD [])
  | .copyCurrentPasswordClick i => s.strings.holders[i]?.map fun text =>
      if getLength (text.getD []) > 0 then s.copyToClipboard decode (text.getD []) else s
  | .pastePressed k => (s.strings.step (.press k (.paste s.primaryClip))).map fun strings =>
      { s with strings := strings }
  | .setPrimaryClip clip => some { s with primaryClip := clip }

end Clipboard

/-! ## What is to hold -/

/-- **A string survives**: copied, and pasted into a keyboard that opens empty, it is the same. -/
def Survives (decode : SecureString → List Char) (text : SecureString) : Prop :=
  ∀ password, getSecureText (((KryptanKeyboard.init password).setSecureText none).pastePressed
    (some (decode text))) = text

/-- Every string has the property: those of the keyboards, and what else holds one. -/
structure PlainStrings.Every (P : SecureString → Prop) (s : PlainStrings) : Prop where
  keyboards : ∀ keyboard ∈ s.keyboards, P (getSecureText keyboard)
  holders : ∀ text ∈ s.holders, P (text.getD [])

/-- `DEL` meets a one-byte character, if any, and what is stored from elsewhere is a text. -/
def WholeCharacters (s : Clipboard) : ClipboardEvent → Prop
  | .string (.press k .del) => ∀ keyboard ∈ s.strings.keyboards[k]?,
      ∀ cs ∈ Utf8.decode (getSecureText keyboard), ∀ c ∈ cs.getLast?, c.utf8Size = 1
  | .string (.store _ text) => (Utf8.decode text).isSome = true
  | _ => True

/-! ## The strings that survive are the texts -/

/-- The bytes of a text. -/
def IsText (bytes : SecureString) : Prop := ∃ cs, Utf8.encode cs = bytes

theorem IsText.nil : IsText [] := ⟨[], rfl⟩

theorem IsText.append {bytes : SecureString} (h : IsText bytes) (cs : List Char) :
    IsText (bytes ++ Utf8.encode cs) := by
  obtain ⟨ds, rfl⟩ := h
  exact ⟨ds ++ cs, Utf8.encode_append ds cs⟩

/-- **A text without its last byte** is one exactly when it ends in a one-byte character, if it is
not empty. -/
theorem isText_dropLast_iff {bytes : SecureString} (h : IsText bytes) :
    IsText bytes.dropLast ↔
      ∀ cs ∈ Utf8.decode bytes, ∀ c ∈ cs.getLast?, c.utf8Size = 1 := by
  obtain ⟨cs, rfl⟩ := h
  rw [Utf8.decode_encode]
  simp only [Option.mem_some_iff, forall_eq']
  rcases List.eq_nil_or_concat cs with rfl | ⟨cs, c, rfl⟩
  · exact iff_of_true .nil nofun
  · rw [List.concat_eq_append, List.getLast?_concat]
    simp only [Option.mem_some_iff, forall_eq']
    exact Utf8.exists_encode_eq_dropLast_iff cs c

/-- A keyboard that is given a string has it, and an empty one is given an empty string. -/
theorem KryptanKeyboard.getSecureText_setSecureText (k : KryptanKeyboard)
    (newText : Option SecureString) :
    getSecureText (k.setSecureText newText) = newText.getD [] := by
  unfold KryptanKeyboard.setSecureText
  dsimp only
  split
  · next h => exact h
  · rfl

/-- **The strings that survive are the texts**, if Java decodes what it encodes. -/
theorem survives_iff {decode : SecureString → List Char}
    (hdecode : Function.LeftInverse decode Utf8.encode) {text : SecureString} :
    Survives decode text ↔ IsText text := by
  have hpasted (password : Bool) :
      getSecureText (((KryptanKeyboard.init password).setSecureText none).pastePressed
        (some (decode text))) = Utf8.encode (decode text) := by
    have hpress (k : KryptanKeyboard) : getSecureText (k.press (.paste (some (decode text))))
        = getSecureText k ++ Utf8.encode (decode text) := press_getSecureText nofun
    have hempty := hpress ((KryptanKeyboard.init password).setSecureText none)
    rwa [getSecureText_setSecureText] at hempty
  simp only [Survives, hpasted, forall_const]
  constructor
  · exact fun h => ⟨_, h⟩
  · rintro ⟨cs, rfl⟩
    rw [hdecode cs]

/-! ## One event -/

section OneEvent

variable {s t : PlainStrings}

/-- **A call on a keyboard** leaves texts exactly when it leaves that keyboard one. -/
theorem every_call_iff (hs : s.Every IsText) {k : ℕ} {f : KryptanKeyboard → KryptanKeyboard}
    (ht : s.call k f = some t) : t.Every IsText ↔
      ∀ keyboard ∈ s.keyboards[k]?, IsText (getSecureText (f keyboard)) := by
  obtain ⟨keyboard, hk, rfl⟩ := Option.map_eq_some_iff.mp ht
  rw [hk]
  simp only [Option.mem_some_iff, forall_eq']
  constructor
  · intro h
    exact h.keyboards _ (List.mem_set (List.getElem?_eq_some_iff.mp hk).1 _)
  · refine fun h => ⟨fun keyboard' hk' => ?_, hs.holders⟩
    rcases List.mem_or_eq_of_mem_set hk' with hk' | rfl
    · exact hs.keyboards keyboard' hk'
    · exact h

/-- **What a holder is given** leaves texts exactly when it is one. -/
theorem every_give_iff (hs : s.Every IsText) {i : ℕ} {text : SecureString}
    (ht : s.give i text = some t) : t.Every IsText ↔ IsText text := by
  obtain ⟨old, hi, rfl⟩ := Option.map_eq_some_iff.mp ht
  constructor
  · intro h
    exact h.holders _ (List.mem_set (List.getElem?_eq_some_iff.mp hi).1 (some text))
  · refine fun h => ⟨hs.keyboards, fun m hm => ?_⟩
    rcases List.mem_or_eq_of_mem_set hm with hm | rfl
    · exact hs.holders m hm
    · exact h

/-- A call that leaves the keyboard a text. -/
theorem every_call (hs : s.Every IsText) {k : ℕ} {f : KryptanKeyboard → KryptanKeyboard}
    (ht : s.call k f = some t)
    (hf : ∀ keyboard, IsText (getSecureText keyboard) → IsText (getSecureText (f keyboard))) :
    t.Every IsText :=
  (every_call_iff hs ht).mpr fun keyboard hk =>
    hf keyboard (hs.keyboards keyboard (List.mem_of_getElem? hk))

/-- A key that enters something leaves a text. -/
theorem isText_press {keyboard : KryptanKeyboard} (h : IsText (getSecureText keyboard)) {key : Key}
    (hkey : key ≠ .del) : IsText (getSecureText (keyboard.press key)) := by
  rw [press_getSecureText hkey]
  exact h.append key.chars

/-- `DEL` leaves texts exactly when it meets a one-byte character, if any. -/
theorem every_del_iff (hs : s.Every IsText) {k : ℕ} (ht : s.step (.press k .del) = some t) :
    t.Every IsText ↔ ∀ keyboard ∈ s.keyboards[k]?,
      ∀ cs ∈ Utf8.decode (getSecureText keyboard), ∀ c ∈ cs.getLast?, c.utf8Size = 1 := by
  rw [every_call_iff hs ht]
  refine forall₂_congr fun keyboard hk => ?_
  rw [press, deletePressed_getSecureText]
  exact isText_dropLast_iff (hs.keyboards keyboard (List.mem_of_getElem? hk))

/-- What neither deletes nor comes from elsewhere leaves texts. -/
theorem every_step (hs : s.Every IsText) {e : StringEvent} (hdel : ∀ k, e ≠ .press k .del)
    (hstore : ∀ i text, e ≠ .store i text) (ht : s.step e = some t) : t.Every IsText := by
  cases e with
  | newKeyboard password =>
    obtain rfl := Option.some.inj ht
    refine ⟨fun keyboard hk => ?_, hs.holders⟩
    rcases List.mem_append.mp hk with hk | hk
    · exact hs.keyboards keyboard hk
    · rw [List.mem_singleton.mp hk]
      exact .nil
  | openEmpty k =>
    refine every_call hs ht fun keyboard _ => ?_
    rw [getSecureText_setSecureText]
    exact .nil
  | openCopy k i =>
    obtain ⟨text, hi, ht⟩ := Option.bind_eq_some_iff.mp ht
    refine every_call hs ht fun keyboard _ => ?_
    rw [getSecureText_setSecureText]
    exact hs.holders text (List.mem_of_getElem? hi)
  | openOn k i =>
    obtain ⟨text, hi, ht⟩ := Option.bind_eq_some_iff.mp ht
    refine every_call hs ht fun keyboard _ => ?_
    rw [getSecureText_setSecureText]
    exact hs.holders text (List.mem_of_getElem? hi)
  | press k key =>
    have hkey : key ≠ .del := fun h => hdel k (h ▸ rfl)
    exact every_call hs ht fun keyboard h => isText_press h hkey
  | donePressed k i =>
    obtain ⟨keyboard, hk, ht⟩ := Option.bind_eq_some_iff.mp ht
    cases i with
    | none => exact Option.some.inj ht ▸ hs
    | some i =>
      exact (every_give_iff hs ht).mpr (hs.keyboards keyboard (List.mem_of_getElem? hk))
  | clearText k => exact every_call hs ht fun _ _ => .nil
  | assign i j =>
    obtain ⟨text, hi, ht⟩ := Option.bind_eq_some_iff.mp ht
    obtain ⟨m, hm, rfl⟩ : ∃ m, s.holders[i]? = some m ∧ m = some text :=
      ⟨some text, Option.join_eq_some_iff.mp hi, rfl⟩
    exact (every_give_iff hs ht).mpr (hs.holders _ (List.mem_of_getElem? hm))
  | store i text => exact absurd rfl (hstore i text)

end OneEvent

namespace Clipboard

variable {decode : SecureString → List Char} {s t : Clipboard}

/-- Whatever is done with the strings leaves the clipboard alone. -/
theorem exists_step_string {e : StringEvent} (ht : s.step decode (.string e) = some t) :
    ∃ strings, s.strings.step e = some strings ∧ { s with strings := strings } = t := by
  rw [step.eq_def] at ht
  split at ht
  case h_1 => exact nomatch ht
  case h_2 heq =>
    obtain rfl := ClipboardEvent.string.inj heq
    exact Option.map_eq_some_iff.mp ht
  all_goals next heq => exact nomatch heq

/-- **One event** leaves texts exactly when it splits no character and stores a text. -/
theorem every_step_iff (hs : s.strings.Every IsText) {e : ClipboardEvent}
    (ht : s.step decode e = some t) : t.strings.Every IsText ↔ WholeCharacters s e := by
  cases e with
  | string e =>
    by_cases hdel : ∃ k, e = .press k .del
    · obtain ⟨k, rfl⟩ := hdel
      obtain ⟨strings, hstrings, rfl⟩ := Option.map_eq_some_iff.mp ht
      exact every_del_iff hs hstrings
    by_cases hstore : ∃ i text, e = .store i text
    · obtain ⟨i, text, rfl⟩ := hstore
      obtain ⟨strings, hstrings, rfl⟩ := Option.map_eq_some_iff.mp ht
      exact (every_give_iff hs hstrings).trans Utf8.isSome_decode_iff.symm
    rw [not_exists] at hdel
    simp only [not_exists] at hstore
    obtain ⟨strings, hstrings, rfl⟩ := exists_step_string ht
    refine iff_of_true (every_step hs hdel hstore hstrings) ?_
    rw [WholeCharacters.eq_def]
    split
    · next heq => exact absurd (ClipboardEvent.string.inj heq) (hdel _)
    · next heq => exact absurd (ClipboardEvent.string.inj heq) (hstore _ _)
    · trivial
  | copyClicked i =>
    obtain ⟨text, -, rfl⟩ := Option.map_eq_some_iff.mp ht
    exact iff_of_true hs trivial
  | copyCurrentPasswordClick i =>
    obtain ⟨text, -, rfl⟩ := Option.map_eq_some_iff.mp ht
    refine iff_of_true ?_ trivial
    split <;> exact hs
  | pastePressed k =>
    obtain ⟨strings, hstrings, rfl⟩ := Option.map_eq_some_iff.mp ht
    exact iff_of_true (every_step hs (by simp) (by simp) hstrings) trivial
  | setPrimaryClip clip =>
    obtain rfl := Option.some.inj ht
    exact iff_of_true hs trivial

/-- No keyboards, and nothing held. -/
theorem every_init (holders : ℕ) (primaryClip : Option (List Char)) :
    (init holders primaryClip).strings.Every IsText where
  keyboards := nofun
  holders text htext := by
    rw [List.eq_of_mem_replicate htext]
    exact .nil

/-- **A secret survives the clipboard.**  Over every run every string of the app survives exactly as
long as no `DEL` splits a character and what comes from elsewhere is text. -/
theorem allStates_survive_iff (hdecode : Function.LeftInverse decode Utf8.encode) (holders : ℕ)
    (primaryClip : Option (List Char)) (es : List ClipboardEvent) :
    AllStates (step decode) (fun s => s.strings.Every (Survives decode))
        (init holders primaryClip) es ↔
      AllSteps (step decode) WholeCharacters (init holders primaryClip) es := by
  have hsurvive (s : PlainStrings) : s.Every (Survives decode) ↔ s.Every IsText := by
    rw [show Survives decode = IsText from funext fun text => propext (survives_iff hdecode)]
  exact allStates_iff_allSteps (I := fun s => s.strings.Every IsText) (N := fun _ _ => True)
    (fun _ _ _ hs _ he ht => (every_step_iff hs ht).mpr he)
    (fun s hs => (hsurvive s.strings).mpr hs)
    (fun _ _ t hs _ he ht h => he ((every_step_iff hs ht).mp ((hsurvive t.strings).mp h)))
    (every_init holders primaryClip) (allSteps_true _ _)

/-- How Java decodes bytes: those of no text to a replacement. -/
def newString (bytes : SecureString) : List Char := (Utf8.decode bytes).getD ['\uFFFD']

theorem newString_encode : Function.LeftInverse newString Utf8.encode := fun cs => by
  rw [newString, Utf8.decode_encode, Option.getD_some]

/-- An `a` after an `å` is deleted, the `å` becomes a description and is pasted into another
keyboard, and then the description is that of a file. -/
theorem allStates_survive_description :
    let es : List ClipboardEvent := [.string (.newKeyboard false),
      .string (.press 0 (.char ['å'])), .string (.press 0 (.char ['a'])), .string (.press 0 .del),
      .string (.donePressed 0 (some 0)), .string (.clearText 0), .copyClicked 0,
      .string (.newKeyboard true), .pastePressed 1, .string (.store 0 (Utf8.encode ['ö']))]
    AllStates (step newString) (fun s => s.strings.Every (Survives newString)) (init 1 none) es ∧
      ∃ t, run (step newString) (init 1 none) es = some t ∧
        t.strings.keyboards.map getSecureText = [[], Utf8.encode ['å']] ∧
          t.strings.holders = [some (Utf8.encode ['ö'])] := by
  refine ⟨(allStates_survive_iff newString_encode 1 none _).mpr ?_, _, rfl, ?_, rfl⟩
  · rintro _ ⟨⟩
    refine ⟨trivial, ?_⟩
    rintro _ ⟨⟩
    refine ⟨trivial, ?_⟩
    rintro _ ⟨⟩
    refine ⟨trivial, fun _ _ => ⟨?_, fun _ _ => ⟨trivial, fun _ _ => ⟨trivial, fun _ _ => ⟨trivial,
      fun _ _ => ⟨trivial, fun _ _ => ⟨trivial, fun _ _ => ⟨?_, trivial⟩⟩⟩⟩⟩⟩⟩⟩
    · rintro _ ⟨⟩ cs hcs c hc
      obtain rfl := Option.some.inj ((Utf8.decode_encode ['å', 'a']).symm.trans hcs)
      obtain rfl := Option.some.inj hc
      decide
    · exact Utf8.isSome_decode_iff.mpr ⟨['ö'], rfl⟩
  · change [[], Utf8.encode (newString (Utf8.encode ['å']))] = _
    rw [newString_encode]

/-- An `å` is typed, and deleted byte by byte: one byte of it does not survive. -/
theorem not_allStates_survive_after_del :
    ¬ AllStates (step newString) (fun s => s.strings.Every (Survives newString)) (init 0 none)
      [.string (.newKeyboard false), .string (.press 0 (.char ['å'])),
        .string (.press 0 .del)] := by
  intro h
  have hhalf : IsText (Utf8.encode ['å']).dropLast := by
    rw [← survives_iff newString_encode]
    exact (h.of_run rfl).keyboards _ List.mem_cons_self
  have hsize : 'å'.utf8Size = 1 := (isText_dropLast_iff ⟨['å'], rfl⟩).mp hhalf ['å']
    (Utf8.decode_encode ['å']) 'å' rfl
  exact absurd hsize (by decide)

/-! ## From one end of the clipboard to the other -/

/-- The array of `copyToClipboard` has the bytes of the string. -/
theorem map_getByte (src : SecureString) :
    ((List.range (getLength src)).map fun i : ℕ => getByte src i) = src := by
  refine List.ext_getElem (by simp [getLength]) fun i hi hi' => ?_
  rw [List.getElem_map, List.getElem_range, getByte_natCast, List.getD_eq_getElem?_getD,
    List.getElem?_eq_getElem hi', Option.getD_some]

/-- What leaves the clipboard alone. -/
theorem primaryClip_of_leavesClip {e : ClipboardEvent} (he : e.LeavesClip)
    (ht : s.step decode e = some t) : t.primaryClip = s.primaryClip := by
  cases e with
  | string e =>
    obtain ⟨strings, -, rfl⟩ := exists_step_string ht
    rfl
  | pastePressed k =>
    obtain ⟨strings, -, rfl⟩ := Option.map_eq_some_iff.mp ht
    rfl
  | _ => exact he.elim

/-- **What is pasted is what was copied**, byte for byte: in a run that splits no character a string
is copied, and whatever is done until a paste into some keyboard, as long as nothing else comes onto
the clipboard, the paste adds the string to the keyboard's text. -/
theorem run_pastes (hdecode : Function.LeftInverse decode Utf8.encode) {holders : ℕ}
    {primaryClip : Option (List Char)} {es fs : List ClipboardEvent} {s u : Clipboard}
    (hes : AllSteps (step decode) WholeCharacters (init holders primaryClip) es)
    (hs : run (step decode) (init holders primaryClip) es = some s) (i : ℕ)
    {text : Option SecureString} (hi : s.strings.holders[i]? = some text)
    (hfs : ∀ e ∈ fs, e.LeavesClip)
    (hu : run (step decode) s (.copyClicked i :: fs) = some u) (k : ℕ) {keyboard : KryptanKeyboard}
    (hk : u.strings.keyboards[k]? = some keyboard) :
    ∃ t pasted, step decode u (.pastePressed k) = some t ∧
      t.strings.keyboards[k]? = some pasted ∧
        getSecureText pasted = getSecureText keyboard ++ text.getD [] := by
  have htexts : s.strings.Every IsText :=
    (hes.allStates (I := fun s => s.strings.Every IsText)
      (fun _ _ _ hs he ht => (every_step_iff hs ht).mpr he) (every_init _ _)).of_run hs
  obtain ⟨cs, hcs⟩ := htexts.holders text (List.mem_of_getElem? hi)
  -- what is copied is the text, and it is still there when it is pasted
  obtain ⟨v, hv, hrest⟩ := run_cons_eq_some.mp hu
  have hcopied : v.primaryClip = some cs := by
    obtain ⟨text', hi', rfl⟩ := Option.map_eq_some_iff.mp hv
    obtain rfl := Option.some.inj (hi.symm.trans hi')
    rw [copyToClipboard, map_getByte, ← hcs, hdecode cs]
  have hclip : u.primaryClip = some cs :=
    ((allSteps_of_forall_mem v hfs).allStates (I := fun u => u.primaryClip = some cs)
      (fun _ _ _ hclip he ht => (primaryClip_of_leavesClip he ht).trans hclip) hcopied).of_run hrest
  let pasted := keyboard.press (.paste (some cs))
  have hpaste : u.strings.step (.press k (.paste u.primaryClip))
      = some { u.strings with keyboards := u.strings.keyboards.set k pasted } := by
    rw [hclip, PlainStrings.step, PlainStrings.call, hk, Option.map_some]
  refine ⟨_, pasted, Option.map_eq_some_iff.mpr ⟨_, hpaste, rfl⟩, ?_, ?_⟩
  · exact List.getElem?_set_self (List.getElem?_eq_some_iff.mp hk).1
  · rw [press_getSecureText (by simp), ← hcs]
    rfl

/-- A description with an `å` in it, copied and pasted behind what a keyboard has. -/
theorem run_pastes_description :
    ∃ t pasted, run (step newString) (init 1 none)
        [.string (.newKeyboard false), .string (.press 0 (.char ['å'])),
          .string (.donePressed 0 (some 0)), .copyClicked 0, .string (.newKeyboard true),
          .string (.press 1 .space), .pastePressed 1] = some t ∧
      t.strings.keyboards[1]? = some pasted ∧
        getSecureText pasted = Utf8.encode [' '] ++ Utf8.encode ['å'] := by
  have hes : AllSteps (step newString) WholeCharacters (init 1 none)
      [.string (.newKeyboard false), .string (.press 0 (.char ['å'])),
        .string (.donePressed 0 (some 0))] :=
    fun _ _ => ⟨trivial, fun _ _ => ⟨trivial, fun _ _ => ⟨trivial, trivial⟩⟩⟩
  have hfs : ∀ e ∈ [ClipboardEvent.string (.newKeyboard true), .string (.press 1 .space)],
      e.LeavesClip := by
    simp [ClipboardEvent.LeavesClip]
  obtain ⟨t, pasted, ht, hk, htext⟩ :=
    run_pastes newString_encode hes rfl 0 rfl hfs rfl 1 rfl
  exact ⟨t, pasted, ht, hk, htext⟩

end Clipboard

end Kryptan
