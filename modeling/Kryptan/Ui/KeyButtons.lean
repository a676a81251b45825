import Kryptan.Ui.Keyboard

/-!
# Ui/KeyButtons — SHIFT, and what the buttons of the keyboard enter

    KeyboardDialog   buttons ──shiftPressed, onTextChanged: toUpperCase, toLowerCase──▸ buttons
                        ▴                                                                  ▴
                     off, once, caps ────────────────────── step ─────────────────▸ off, once, caps

A key enters the text its button shows, and the text is rewritten in place each time SHIFT changes.
**It never drifts**: over every run the buttons are those of the layout in the case of a modifier
that is off, on once or locked (`run_refines`).  `ß` and `µ` would drift, and are left out.
-/

namespace Kryptan

open CoreSecureStringHandler KryptanKeyboard Runs

/-! ## Upper and lower case -/

/-- `toUpperCase(Locale.ENGLISH)` of a character of Latin-1: two letters for `ß`, a Greek one for
`µ`. -/
def upperChar (c : Char) : List Char :=
  if c = 'ß' then ['S', 'S']
  else if c = 'µ' then ['Μ']
  else if c = 'ÿ' then ['Ÿ']
  else if 'a' ≤ c ∧ c ≤ 'z' ∨ 'à' ≤ c ∧ c ≤ 'þ' ∧ c ≠ '÷' then [Char.ofNat (c.toNat - 32)]
  else [c]

/-- `toLowerCase(Locale.ENGLISH)` of a character of Latin-1, or of the upper case of one. -/
def lowerChar (c : Char) : List Char :=
  if c = 'Μ' then ['μ']
  else if c = 'Ÿ' then ['ÿ']
  else if 'A' ≤ c ∧ c ≤ 'Z' ∨ 'À' ≤ c ∧ c ≤ 'Þ' ∧ c ≠ '×' then [Char.ofNat (c.toNat + 32)]
  else [c]

def toUpperCase (s : List Char) : List Char := s.flatMap upperChar

def toLowerCase (s : List Char) : List Char := s.flatMap lowerChar

/-! ## The buttons -/

/-- The buttons the code calls by name; any other key is known by the character the layout gives
it. -/
inductive KeyId where
  | pasteButton
  | keySHIFT
  | keyDEL
  | keyCancel
  | keySpace
  | keyDone
  | keyCapitalSharpS
  | keyMy
  | key (label : Char)
  deriving DecidableEq, Repr

structure KeyButton where
  id : KeyId
  text : List Char
  deriving DecidableEq, Repr

/-- The characters of the layout, row by row. -/
def labels : List Char :=
  ['.', ',', '-', '_', '+', '!', '?', '\x22', '\x27', '\x60', '#'] ++
  ['@', '*', '§', '&', '%', ':', ';', '^', '<', '=', '>'] ++
  ['$', '~', '(', '/', ')', '\x7b', '|', '\x7d', '[', '\x5c', ']'] ++
  ['¤', '£', '¥', 'Ü', 'Æ', 'Ø', 'Å', 'Ä', 'Ö'] ++
  ['1', '2', '3', '4', '5', '6', '7', '8', '9', '0'] ++
  ['Q', 'W', 'E', 'R', 'T', 'Y', 'U', 'I', 'O', 'P'] ++
  ['A', 'S', 'D', 'F', 'G', 'H', 'J', 'K', 'L'] ++
  ['Z', 'X', 'C', 'V', 'B', 'N', 'M']

/-- The buttons below the first row of the layout. -/
def layout : List KeyButton :=
  labels.map (fun c => ⟨.key c, [c]⟩) ++
  [⟨.keyMy, ['µ']⟩, ⟨.keyCapitalSharpS, ['ß']⟩, ⟨.keySHIFT, ['⇧']⟩, ⟨.keyDEL, ['⇦']⟩,
    ⟨.keyCancel, ['c', 'a', 'n', 'c', 'e', 'l']⟩, ⟨.keySpace, ['s', 'p', 'a', 'c', 'e']⟩,
    ⟨.keyDone, ['d', 'o', 'n', 'e']⟩]

/-- `updateButtonCase`, with its exceptions. -/
def updateButtonCase (mShiftPressed : Bool) (button : KeyButton) : KeyButton :=
  match button.id with
  | .keyCapitalSharpS | .keyMy | .keyCancel | .keySpace | .keyDone | .keySHIFT | .keyDEL => button
  | _ =>
    { button with
      text := if mShiftPressed then toUpperCase button.text else toLowerCase button.text }

/-- `Global.SHIFT_DOUBLE_CLICK_TIME_MILLIS`. -/
def shiftDoubleClickTimeMillis : ℤ := 500

/-! ## The keyboard and its dialog -/

/-- The whole keyboard: its text, the state of SHIFT, its buttons, and whether the dialog shows. -/
structure KeyboardDialog where
  keyboard : KryptanKeyboard
  mShiftPressed : Bool
  mCapsOn : Bool
  mShiftPressedTimestamp : ℤ
  buttons : List KeyButton
  isShowing : Bool
  deriving DecidableEq, Repr

namespace KryptanKeyboard

/-- The text half of `clearText`. -/
def clearText (k : KryptanKeyboard) : KryptanKeyboard :=
  let currentText := clear (getSecureText k)
  { onTextChanged { k with mText := some currentText } currentText with mHintVisible := true }

/-- A press calls `onTextChanged`. -/
def changesText (k : KryptanKeyboard) : Key → Bool
  | .char _ | .space => true
  | .paste clip => clip.any fun text => 0 < text.length
  | .del => getLength (getSecureText k) ≠ 0

end KryptanKeyboard

namespace KeyboardDialog

/-- The constructor. -/
def init (password : Bool) : KeyboardDialog where
  keyboard := KryptanKeyboard.init password
  mShiftPressed := false
  mCapsOn := false
  mShiftPressedTimestamp := 0
  buttons := layout.map (updateButtonCase false)
  isShowing := false

def updateAllButtonsCase (k : KeyboardDialog) : KeyboardDialog :=
  { k with buttons := k.buttons.map (updateButtonCase k.mShiftPressed) }

/-- The SHIFT half of `onTextChanged`. -/
def onTextChanged (k : KeyboardDialog) : KeyboardDialog :=
  let k :=
    if k.mShiftPressed && !k.mCapsOn then updateAllButtonsCase { k with mShiftPressed := false }
    else k
  { k with mShiftPressedTimestamp := 0 }

/-- `shiftPressed`, whose two readings of the clock are `now` and `later`. -/
def shiftPressed (k : KeyboardDialog) (now later : ℤ) : KeyboardDialog :=
  let k := { k with mShiftPressed := !k.mShiftPressed }
  let k :=
    if !k.mShiftPressed && now - k.mShiftPressedTimestamp < shiftDoubleClickTimeMillis then
      { k with mShiftPressed := true, mCapsOn := true }
    else k
  let k :=
    if k.mShiftPressed then { k with mShiftPressedTimestamp := later }
    else { k with mCapsOn := false }
  updateAllButtonsCase k

/-- A key that may change the text. -/
def enter (k : KeyboardDialog) (key : Key) : KeyboardDialog :=
  let k' := { k with keyboard := press k.keyboard key }
  if changesText k.keyboard key then onTextChanged k' else k'

def clearText (k : KeyboardDialog) : KeyboardDialog :=
  onTextChanged { k with keyboard := k.keyboard.clearText }

def setSecureText (k : KeyboardDialog) (newText : Option SecureString) : KeyboardDialog :=
  let newText := newText.getD newSecureString
  let keyboard := { k.keyboard with mHintVisible := getLength newText = 0 }
  if getSecureText k.keyboard ≠ newText then
    onTextChanged { k with
      keyboard := KryptanKeyboard.onTextChanged { keyboard with mText := some newText } newText }
  else { k with keyboard := keyboard }

end KeyboardDialog

/-- A click on a button, at some time and with some clipboard; the keyboard's listener may accept the
text.  The dialog is dismissed, told so, and shown with a new text. -/
inductive KeyboardEvent where
  | click (id : KeyId) (now later : ℤ) (clip : Option (List Char)) (accepts : Bool)
  | setError (message : List Char)
  | back
  | onDismiss
  | shown (newText : Option SecureString)
  deriving DecidableEq, Repr

open KeyboardDialog

/-- `onClick`. -/
def KeyboardDialog.onClick (k : KeyboardDialog) (id : KeyId) (now later : ℤ)
    (clip : Option (List Char)) (accepts : Bool) : Option KeyboardDialog :=
  match id with
  | .keySHIFT => some (k.shiftPressed now later)
  | .keyDEL => some (k.enter .del)
  | .keyCancel => some { k.clearText with isShowing := false }
  | .keySpace => some (k.enter .space)
  | .keyDone => some (if accepts then { k with isShowing := false } else k)
  | .pasteButton => some (k.enter (.paste clip))
  | id => (k.buttons.find? fun button => button.id = id).map fun button =>
      k.enter (.char button.text)

/-- One event. -/
def KeyboardDialog.step (k : KeyboardDialog) : KeyboardEvent → Option KeyboardDialog
  | .click id now later clip accepts =>
    if k.isShowing then k.onClick id now later clip accepts else none
  | .setError message =>
    if k.isShowing then some { k with keyboard := { k.keyboard with mError := some message } }
    else none
  | .back => if k.isShowing then some { k with isShowing := false } else none
  | .onDismiss => some k.clearText
  | .shown newText =>
    if k.isShowing then none else some { k.setSecureText newText with isShowing := true }

/-! ## The typist's view -/

/-- What SHIFT does to the next key. -/
inductive Modifier where
  | off
  | once
  | caps
  deriving DecidableEq, Repr

/-- The keyboard without its buttons: the modifier, the last press of SHIFT if nothing was typed
since, the text, and whether the dialog shows. -/
structure Typist where
  modifier : Modifier
  since : ℤ
  text : SecureString
  isShowing : Bool
  deriving DecidableEq, Repr

/-- What a key of the layout enters. -/
def KeyId.chars (m : Modifier) : KeyId → Option (List Char)
  | .key label =>
    if label ∈ labels then
      some (if m = .off then lowerChar label else upperChar label)
    else none
  | .keyMy => some ['µ']
  | .keyCapitalSharpS => some ['ß']
  | _ => none

namespace Typist

def init : Typist := ⟨.off, 0, [], false⟩

/-- A new text: SHIFT was for one key, and the next two presses of it are no double click. -/
def changed (r : Typist) (text : SecureString) : Typist :=
  { r with modifier := if r.modifier = .once then .off else r.modifier, since := 0, text := text }

def shift (r : Typist) (now later : ℤ) : Typist :=
  if r.modifier = .off then { r with modifier := .once, since := later }
  else if now - r.since < shiftDoubleClickTimeMillis then
    { r with modifier := .caps, since := later }
  else { r with modifier := .off }

def enter (r : Typist) : Key → Typist
  | .char text => r.changed (r.text ++ Utf8.encode text)
  | .space => r.changed (r.text ++ Utf8.encode [' '])
  | .paste (some (c :: cs)) => r.changed (r.text ++ Utf8.encode (c :: cs))
  | .paste _ => r
  | .del => if r.text = [] then r else r.changed r.text.dropLast

def click (r : Typist) (id : KeyId) (now later : ℤ) (clip : Option (List Char)) (accepts : Bool) :
    Option Typist :=
  match id with
  | .keySHIFT => some (r.shift now later)
  | .keyDEL => some (r.enter .del)
  | .keyCancel => some { r.changed [] with isShowing := false }
  | .keySpace => some (r.enter .space)
  | .keyDone => some (if accepts then { r with isShowing := false } else r)
  | .pasteButton => some (r.enter (.paste clip))
  | id => (id.chars r.modifier).map fun text => r.enter (.char text)

def step (r : Typist) : KeyboardEvent → Option Typist
  | .click id now later clip accepts =>
    if r.isShowing then r.click id now later clip accepts else none
  | .setError _ => if r.isShowing then some r else none
  | .back => if r.isShowing then some { r with isShowing := false } else none
  | .onDismiss => some (r.changed [])
  | .shown newText =>
    if r.isShowing then none
    else
      let r := if r.text = newText.getD [] then r else r.changed (newText.getD [])
      some { r with isShowing := true }

end Typist

/-- The buttons of the layout in a case. -/
def casedLayout (mShiftPressed : Bool) : List KeyButton :=
  layout.map (updateButtonCase mShiftPressed)

/-- **The refinement relation**: the buttons are the layout in the modifier's case, the texts agree,
and the hint is there exactly when there is no text. -/
structure Shows (k : KeyboardDialog) (r : Typist) : Prop where
  text : getSecureText k.keyboard = r.text
  hint : k.keyboard.mHintVisible = decide (r.text = [])
  pressed : k.mShiftPressed = decide (r.modifier ≠ .off)
  caps : k.mCapsOn = decide (r.modifier = .caps)
  since : r.modifier ≠ .off → k.mShiftPressedTimestamp = r.since
  buttons : k.buttons = casedLayout k.mShiftPressed
  isShowing : k.isShowing = r.isShowing

/-! ## The case of the buttons -/

/-- **A button's case can be set again and again**: what it shows depends on the last one only. -/
theorem updateButtonCase_layout : ∀ button ∈ layout, ∀ p q : Bool,
    updateButtonCase p (updateButtonCase q button) = updateButtonCase p button := by
  decide

/-- The buttons follow SHIFT, whatever case they were in. -/
theorem map_updateButtonCase_casedLayout (p q : Bool) :
    (casedLayout q).map (updateButtonCase p) = casedLayout p := by
  rw [casedLayout, List.map_map]
  exact List.map_congr_left fun button h => updateButtonCase_layout button h p q

-- Without the exceptions `ß` and `µ` would not come back from one press of SHIFT.
example :
    toLowerCase (toUpperCase ['ß']) ≠ toLowerCase ['ß'] ∧
      toLowerCase (toUpperCase ['µ']) ≠ toLowerCase ['µ'] := by
  decide

@[simp] theorem updateButtonCase_id (p : Bool) (button : KeyButton) :
    (updateButtonCase p button).id = button.id := by
  rw [updateButtonCase]
  split <;> rfl

/-- A button is looked up in any case. -/
theorem find?_casedLayout (p : Bool) (id : KeyId) :
    ((casedLayout p).find? fun button => button.id = id)
      = (layout.find? fun button => button.id = id).map (updateButtonCase p) := by
  rw [casedLayout, List.find?_map]
  simp only [Function.comp_def, updateButtonCase_id]

/-- A labelled key enters its label, in the modifier's case. -/
theorem KeyId.chars_key (m : Modifier) (label : Char) : (KeyId.key label).chars m =
    if label ∈ labels then some (if m = .off then lowerChar label else upperChar label)
    else none :=
  rfl

theorem find?_layout_of_mem {label : Char} (h : label ∈ labels) :
    (layout.find? fun button => button.id = .key label) = some ⟨.key label, [label]⟩ := by
  have hall : labels.all fun label =>
      (layout.find? fun button => button.id = .key label) = some ⟨.key label, [label]⟩ := by
    decide
  exact of_decide_eq_true (List.all_eq_true.mp hall label h)

theorem find?_layout_of_notMem {label : Char} (h : label ∉ labels) :
    (layout.find? fun button => button.id = .key label) = none := by
  rw [List.find?_eq_none]
  intro button hbutton
  rcases List.mem_append.mp hbutton with hkey | hother
  · obtain ⟨c, hc, rfl⟩ := List.mem_map.mp hkey
    simp only [KeyId.key.injEq, decide_eq_true_eq]
    rintro rfl
    exact h hc
  · simp only [List.mem_cons, List.not_mem_nil, or_false] at hother
    rcases hother with rfl | rfl | rfl | rfl | rfl | rfl | rfl <;> simp

/-- **What a key's button shows is what the key enters.** -/
theorem find?_casedLayout_text (m : Modifier) (id : KeyId)
    (hid : id = .keyMy ∨ id = .keyCapitalSharpS ∨ ∃ label, id = .key label) :
    ((casedLayout (decide (m ≠ .off))).find? fun button => button.id = id).map KeyButton.text
      = id.chars m := by
  rw [find?_casedLayout]
  rcases hid with rfl | rfl | ⟨label, rfl⟩
  · cases m <;> decide
  · cases m <;> decide
  · rw [KeyId.chars_key]
    split
    · next h =>
      rw [find?_layout_of_mem h]
      cases m <;> simp [updateButtonCase, toUpperCase, toLowerCase]
    · next h =>
      rw [find?_layout_of_notMem h]
      rfl

/-- A key enters at least one character. -/
theorem KeyId.chars_ne_nil {m : Modifier} {id : KeyId} {text : List Char}
    (h : id.chars m = some text) : text ≠ [] := by
  have hall : labels.all fun label => lowerChar label ≠ [] ∧ upperChar label ≠ [] := by decide
  cases id with
  | key label =>
    rw [KeyId.chars_key] at h
    split at h
    · next hlabel =>
      obtain rfl := Option.some.inj h
      have hlower := of_decide_eq_true (List.all_eq_true.mp hall label hlabel)
      split
      · exact hlower.1
      · exact hlower.2
    · exact nomatch h
  | keyMy | keyCapitalSharpS => exact Option.some.inj h ▸ List.cons_ne_nil _ _
  | _ => exact nomatch h

/-! ## One event, in both views -/

section Refinement

variable {k : KeyboardDialog} {r : Typist}

/-- A new text switches a SHIFT off that was for one key. -/
theorem onTextChanged_of_once (hp : k.mShiftPressed = true) (hc : k.mCapsOn = false) :
    k.onTextChanged = { k with
      mShiftPressed := false
      mShiftPressedTimestamp := 0
      buttons := k.buttons.map (updateButtonCase false) } := by
  rw [KeyboardDialog.onTextChanged, if_pos (by rw [hp, hc]; rfl)]
  rfl

/-- A new text leaves SHIFT off or locked. -/
theorem onTextChanged_of_not (h : k.mShiftPressed = false ∨ k.mCapsOn = true) :
    k.onTextChanged = { k with mShiftPressedTimestamp := 0 } := by
  rw [KeyboardDialog.onTextChanged, if_neg]
  rcases h with h | h
  · simp [h]
  · simp [h]

/-- A new text, in both views. -/
theorem shows_changed (h : Shows k r) {keyboard : KryptanKeyboard} {text : SecureString}
    (htext : getSecureText keyboard = text)
    (hhint : keyboard.mHintVisible = decide (text = [])) :
    Shows (KeyboardDialog.onTextChanged { k with keyboard := keyboard }) (r.changed text) := by
  obtain ⟨-, -, hpressed, hcaps, -, hbuttons, hshowing⟩ := h
  cases hm : r.modifier with
  | off =>
    rw [hm] at hpressed hcaps
    rw [onTextChanged_of_not (k := { k with keyboard := keyboard }) (.inl hpressed),
      Typist.changed, hm, if_neg nofun]
    exact ⟨htext, hhint, hpressed, hcaps, fun _ => rfl, hbuttons, hshowing⟩
  | once =>
    rw [hm] at hpressed hcaps
    rw [onTextChanged_of_once (k := { k with keyboard := keyboard }) hpressed hcaps,
      Typist.changed, hm, if_pos rfl]
    refine ⟨htext, hhint, rfl, hcaps, fun _ => rfl, ?_, hshowing⟩
    rw [hbuttons]
    exact map_updateButtonCase_casedLayout _ _
  | caps =>
    rw [hm] at hpressed hcaps
    rw [onTextChanged_of_not (k := { k with keyboard := keyboard }) (.inr hcaps),
      Typist.changed, hm, if_neg nofun]
    exact ⟨htext, hhint, hpressed, hcaps, fun _ => rfl, hbuttons, hshowing⟩

/-- SHIFT where it is off: it is on. -/
theorem shiftPressed_of_off (hp : k.mShiftPressed = false) (now later : ℤ) :
    k.shiftPressed now later = { k with
      mShiftPressed := true
      mShiftPressedTimestamp := later
      buttons := k.buttons.map (updateButtonCase true) } := by
  simp [shiftPressed, updateAllButtonsCase, hp]

/-- SHIFT where it is on: it is locked by a double click, and off otherwise. -/
theorem shiftPressed_of_on (hp : k.mShiftPressed = true) (now later : ℤ) :
    k.shiftPressed now later =
      if now - k.mShiftPressedTimestamp < shiftDoubleClickTimeMillis then { k with
        mShiftPressed := true
        mCapsOn := true
        mShiftPressedTimestamp := later
        buttons := k.buttons.map (updateButtonCase true) }
      else { k with
        mShiftPressed := false
        mCapsOn := false
        buttons := k.buttons.map (updateButtonCase false) } := by
  by_cases hquick : now - k.mShiftPressedTimestamp < shiftDoubleClickTimeMillis
  · simp [shiftPressed, updateAllButtonsCase, hp, hquick]
  · simp [shiftPressed, updateAllButtonsCase, hp, hquick]

/-- SHIFT, in both views. -/
theorem shows_shift (h : Shows k r) (now later : ℤ) :
    Shows (k.shiftPressed now later) (r.shift now later) := by
  obtain ⟨htext, hhint, hpressed, hcaps, hsince, hbuttons, hshowing⟩ := h
  have hcased (p : Bool) : k.buttons.map (updateButtonCase p) = casedLayout p := by
    rw [hbuttons]
    exact map_updateButtonCase_casedLayout _ _
  by_cases hm : r.modifier = .off
  · rw [shiftPressed_of_off (by rw [hpressed, hm]; rfl), Typist.shift, if_pos hm]
    exact ⟨htext, hhint, rfl, by rw [hcaps, hm]; rfl, fun _ => rfl, hcased true, hshowing⟩
  · rw [shiftPressed_of_on (hpressed.trans (decide_eq_true hm)), Typist.shift, if_neg hm,
      hsince hm]
    split
    · exact ⟨htext, hhint, rfl, rfl, fun _ => rfl, hcased true, hshowing⟩
    · exact ⟨htext, hhint, rfl, rfl, fun hoff => absurd rfl hoff, hcased false, hshowing⟩

/-- A key enters its text, in both views. -/
theorem shows_addToText (h : Shows k r) {text : List Char} (hne : text ≠ []) :
    Shows (KeyboardDialog.onTextChanged { k with keyboard := addToText k.keyboard text })
      (r.changed (r.text ++ Utf8.encode text)) := by
  refine shows_changed h ?_ ?_
  · rw [addToText_getSecureText, h.text]
  · refine (decide_eq_false fun hnil => hne ?_).symm
    exact Utf8.encode_eq_nil_iff.mp (List.append_eq_nil_iff.mp hnil).2

/-- `DEL` brings the hint back with the last byte. -/
theorem deletePressed_mHintVisible {k : KryptanKeyboard} (hne : getSecureText k ≠ [])
    (hhint : k.mHintVisible = false) :
    (deletePressed k).mHintVisible = decide ((getSecureText k).dropLast = []) := by
  have hlen : getLength (getSecureText k) ≠ 0 := fun h0 => hne (List.eq_nil_of_length_eq_zero h0)
  simp only [deletePressed, if_neg hlen, copyBytes_pred]
  by_cases hnil : (getSecureText k).dropLast = []
  · rw [if_pos ⟨congrArg List.length hnil, hhint⟩]
    exact (decide_eq_true hnil).symm
  · rw [if_neg fun h => hnil (List.eq_nil_of_length_eq_zero h.1)]
    exact hhint.trans (decide_eq_false hnil).symm

/-- `DEL`, in both views. -/
theorem shows_del (h : Shows k r) : Shows (k.enter .del) (r.enter .del) := by
  by_cases hnil : r.text = []
  · have hk : getSecureText k.keyboard = [] := h.text.trans hnil
    rw [KeyboardDialog.enter, Typist.enter, if_pos hnil,
      if_neg (by simp [changesText, hk, getLength])]
    simpa [press, deletePressed_of_nil hk] using h
  · have hk : getSecureText k.keyboard ≠ [] := fun hk => hnil (h.text.symm.trans hk)
    rw [KeyboardDialog.enter, Typist.enter, if_neg hnil,
      if_pos (by simpa [changesText, getLength] using hk)]
    refine shows_changed h ?_ ?_
    · rw [press, deletePressed_getSecureText, h.text]
    · rw [press, deletePressed_mHintVisible hk (h.hint.trans (decide_eq_false hnil)), h.text]

/-- **Every key, in both views.** -/
theorem shows_enter (h : Shows k r) (key : Key) (hkey : ∀ text, key = .char text → text ≠ []) :
    Shows (k.enter key) (r.enter key) := by
  cases key with
  | char text => exact shows_addToText h (hkey text rfl)
  | space => exact shows_addToText h (List.cons_ne_nil _ _)
  | paste clip =>
    rcases clip with _ | (_ | ⟨c, cs⟩)
    · exact h
    · exact h
    · exact shows_addToText h (List.cons_ne_nil _ _)
  | del => exact shows_del h

/-- Clearing the text, in both views. -/
theorem shows_clearText (h : Shows k r) : Shows k.clearText (r.changed []) :=
  shows_changed h rfl rfl

/-- Setting the text, in both views: the same text is left as it is. -/
theorem shows_setSecureText (h : Shows k r) (newText : Option SecureString) :
    Shows (k.setSecureText newText)
      (if r.text = newText.getD [] then r else r.changed (newText.getD [])) := by
  have hlen : decide (getLength (newText.getD newSecureString) = 0)
      = decide (newText.getD [] = []) := decide_eq_decide.mpr List.length_eq_zero_iff
  simp only [setSecureText]
  by_cases hsame : r.text = newText.getD []
  · have hk : ¬ getSecureText k.keyboard ≠ newText.getD newSecureString :=
      not_not.mpr (h.text.trans hsame)
    rw [if_pos hsame, if_neg hk]
    exact ⟨h.text, hlen.trans (by rw [hsame]), h.pressed, h.caps, h.since, h.buttons, h.isShowing⟩
  · have hk : getSecureText k.keyboard ≠ newText.getD newSecureString := fun heq =>
      hsame (h.text.symm.trans heq)
    rw [if_neg hsame, if_pos hk]
    exact shows_changed h rfl hlen

/-- The dialog is shown or dismissed, in both views. -/
theorem Shows.isShowing_iff (h : Shows k r) (b : Bool) :
    Shows { k with isShowing := b } { r with isShowing := b } :=
  ⟨h.text, h.hint, h.pressed, h.caps, h.since, h.buttons, rfl⟩

/-- A key of the layout, in both views. -/
theorem rel_key (h : Shows k r) {id : KeyId}
    (hid : id = .keyMy ∨ id = .keyCapitalSharpS ∨ ∃ label, id = .key label) :
    Option.Rel Shows
      ((k.buttons.find? fun button => button.id = id).map fun button => k.enter (.char button.text))
      ((id.chars r.modifier).map fun text => r.enter (.char text)) := by
  have htext := find?_casedLayout_text r.modifier id hid
  rw [h.buttons, h.pressed]
  cases hfound : (casedLayout (decide (r.modifier ≠ .off))).find? fun button => button.id = id with
  | none =>
    rw [hfound] at htext
    rw [← htext]
    exact .none
  | some button =>
    rw [hfound] at htext
    rw [← htext]
    refine .some (shows_enter h _ fun text heq => ?_)
    have hchars : id.chars r.modifier = some text :=
      htext.symm.trans (congrArg some (Key.char.inj heq))
    exact KeyId.chars_ne_nil hchars

/-- **Every button, in both views.** -/
theorem rel_onClick (h : Shows k r) (id : KeyId) (now later : ℤ) (clip : Option (List Char))
    (accepts : Bool) :
    Option.Rel Shows (k.onClick id now later clip accepts) (r.click id now later clip accepts) := by
  cases id with
  | keySHIFT => exact .some (shows_shift h now later)
  | keyDEL => exact .some (shows_enter h _ nofun)
  | keyCancel => exact .some ((shows_clearText h).isShowing_iff false)
  | keySpace => exact .some (shows_enter h _ nofun)
  | keyDone =>
    cases accepts with
    | true => exact .some (h.isShowing_iff false)
    | false => exact .some h
  | pasteButton => exact .some (shows_enter h _ nofun)
  | keyCapitalSharpS => exact rel_key h (.inr (.inl rfl))
  | keyMy => exact rel_key h (.inl rfl)
  | key label => exact rel_key h (.inr (.inr ⟨label, rfl⟩))

/-- **One event, in both views.** -/
theorem rel_step (h : Shows k r) (e : KeyboardEvent) : Option.Rel Shows (k.step e) (r.step e) := by
  have hshowing := h.isShowing
  cases e with
  | click id now later clip accepts =>
    rw [KeyboardDialog.step, Typist.step, hshowing]
    split
    · exact rel_onClick h id now later clip accepts
    · exact .none
  | setError message =>
    rw [KeyboardDialog.step, Typist.step, hshowing]
    split
    · exact .some ⟨h.text, h.hint, h.pressed, h.caps, h.since, h.buttons, hshowing ▸ rfl⟩
    · exact .none
  | back =>
    rw [KeyboardDialog.step, Typist.step, hshowing]
    split
    · exact .some (h.isShowing_iff false)
    · exact .none
  | onDismiss => exact .some (shows_clearText h)
  | shown newText =>
    rw [KeyboardDialog.step, Typist.step, hshowing]
    split
    · exact .none
    · exact .some ((shows_setSecureText h newText).isShowing_iff true)

end Refinement

/-- The new keyboard is in the typist's view. -/
theorem init_shows (password : Bool) : Shows (KeyboardDialog.init password) Typist.init :=
  ⟨rfl, rfl, rfl, rfl, fun hoff => absurd rfl hoff, rfl, rfl⟩

/-- **The keyboard refines the typist's view.**  Over every run of clicks, dismissals and openings the
two go in step: what is typed, deleted, pasted or delivered is what the modifier says, and the
buttons are those of the layout in its case. -/
theorem run_refines (password : Bool) (es : List KeyboardEvent) :
    Option.Rel Shows (run KeyboardDialog.step (KeyboardDialog.init password) es)
      (run Typist.step Typist.init es) :=
  run_rel (fun _ _ e h => rel_step h e) (init_shows password) es

end Kryptan
