import Kryptan.Ui.KeyButtons
import Kryptan.Ui.LabelFilter

/-!
# Ui/SharedStrings — one native string behind several views

    mDescription ──▸ string ◂── SecureTextView of a keyboard
                       │
                 getSecureText
                       ▾
                     copy ──AddByte, Clear──▸ setSecureText

A view keeps the handle it is given, so that the description of a fragment, the view that shows it
and the keyboard that edits it are one string.  What a keyboard changes is always a copy, and the
copy takes the place of the string in its own view only.  **No string is changed once the call that
made it is over** (`run_keeps`), and so **the handles are as good as the texts themselves**
(`run_deref`): the keyboards over shared strings do what those of `Ui/Keyboard` do over texts.

The master key is none of these strings: `TcpClient`, `ChangeMasterKeyAlert` and the login task clear
it and write into it where it is (`Net/MasterKey`, `Ui/OpenPasswordFile`).
-/

namespace Kryptan

open CoreSecureStringHandler KryptanKeyboard Runs

/-- The native strings, in the order they were made; a handle is a position. -/
abbrev StringHeap := List SecureString

namespace StringHeap

/-- What is behind a handle. -/
def content (h : StringHeap) (p : ℕ) : SecureString := h.getD p []

def newSecureString (h : StringHeap) : StringHeap × ℕ :=
  (h ++ [CoreSecureStringHandler.newSecureString], h.length)

def addByte (h : StringHeap) (p : ℕ) (c : UInt8) : StringHeap :=
  h.modify p (CoreSecureStringHandler.addByte · c)

def clear (h : StringHeap) (p : ℕ) : StringHeap := h.modify p CoreSecureStringHandler.clear

/-- The loop `for(i = 0; i < n; i++) dst.AddByte(src.GetByte(i))`. -/
def copyBytes (h : StringHeap) (src dst n : ℕ) : StringHeap :=
  (List.range n).foldl (fun (h : StringHeap) (i : ℕ) => h.addByte dst (getByte (h.content src) i)) h

/-- The copy constructor. -/
def copy (h : StringHeap) (aString : ℕ) : StringHeap × ℕ :=
  let (h, p) := h.newSecureString
  (h.copyBytes aString p (getLength (h.content aString)), p)

/-- `Append(String)`. -/
def appendString (h : StringHeap) (p : ℕ) (toAppend : List Char) : StringHeap :=
  (Utf8.encode toAppend).foldl (fun (h : StringHeap) c => h.addByte p c) h

/-- `SecureTextView.setSecureText`, on the `mText` of the view.  Without a text it clears the string
that it has. -/
def setSecureText (h : StringHeap) (mText text : Option ℕ) : StringHeap × Option ℕ :=
  match text, mText with
  | none, none => (h.newSecureString.1, some h.newSecureString.2)
  | none, some p => (h.clear p, some p)
  | some p, _ => (h, some p)

/-- `SecureTextView.getSecureText`. -/
def getSecureText (h : StringHeap) : Option ℕ → StringHeap × ℕ
  | none => h.newSecureString
  | some p => h.copy p

end StringHeap

/-! ## The keyboard over handles -/

/-- A keyboard, with the handle its text view holds. -/
structure KeyboardRef where
  mText : Option ℕ
  mIsPassword : Bool
  mPasswordDottedView : List Char
  mHintVisible : Bool
  mError : Option (List Char)
  deriving DecidableEq, Repr

namespace KeyboardRef

/-- A new keyboard. -/
def init (password : Bool) : KeyboardRef where
  mText := none
  mIsPassword := password
  mPasswordDottedView := []
  mHintVisible := true
  mError := none

/-- The string of the text view, and what `onTextChanged` makes of it. -/
def setText (h : StringHeap) (k : KeyboardRef) (currentText : ℕ) : StringHeap × KeyboardRef :=
  let (h, mText) := h.setSecureText k.mText (some currentText)
  (h, { k with
    mText := mText
    mPasswordDottedView :=
      if k.mIsPassword then List.replicate (getLength (h.content currentText)) dot
      else k.mPasswordDottedView
    mError := none })

def addToText (h : StringHeap) (k : KeyboardRef) (charSequence : List Char) :
    StringHeap × KeyboardRef :=
  let (h, currentText) := h.getSecureText k.mText
  setText (h.appendString currentText charSequence) { k with mHintVisible := false } currentText

def pastePressed (h : StringHeap) (k : KeyboardRef) : Option (List Char) → StringHeap × KeyboardRef
  | none => (h, k)
  | some text => if 0 < text.length then addToText h k text else (h, k)

def deletePressed (h : StringHeap) (k : KeyboardRef) : StringHeap × KeyboardRef :=
  let (h, currentText) := h.getSecureText k.mText
  let length := getLength (h.content currentText)
  if length = 0 then (h, k)
  else
    let (h, newText) := h.newSecureString
    let h := h.copyBytes currentText newText (length - 1)
    let (h, k) := setText h k newText
    if getLength (h.content newText) = 0 ∧ k.mHintVisible = false then
      (h, { k with mHintVisible := true })
    else (h, k)

def press (h : StringHeap) (k : KeyboardRef) : Key → StringHeap × KeyboardRef
  | .char text => addToText h k text
  | .space => addToText h k [' ']
  | .paste clip => pastePressed h k clip
  | .del => deletePressed h k

def clearText (h : StringHeap) (k : KeyboardRef) : StringHeap × KeyboardRef :=
  let (h, currentText) := h.getSecureText k.mText
  let (h, k) := setText (h.clear currentText) k currentText
  (h, { k with mHintVisible := true })

/-- `setSecureText`, which never passes `null` on to its view. -/
def setSecureText (h : StringHeap) (k : KeyboardRef) (newText : Option ℕ) :
    StringHeap × KeyboardRef :=
  let (h, newText) := match newText with
    | none => h.newSecureString
    | some newText => (h, newText)
  let k := { k with mHintVisible := getLength (h.content newText) = 0 }
  let (h, currentText) := h.getSecureText k.mText
  if equals h.content currentText newText then (h, k) else setText h k newText

end KeyboardRef

/-- The texts half of `setSecureText`. -/
def KryptanKeyboard.setSecureText (k : KryptanKeyboard) (newText : Option SecureString) :
    KryptanKeyboard :=
  let newText := newText.getD newSecureString
  let k := { k with mHintVisible := getLength newText = 0 }
  if KryptanKeyboard.getSecureText k = newText then k
  else KryptanKeyboard.onTextChanged { k with mText := some newText } newText

/-! ## The keyboard of the dialog -/

theorem KeyboardDialog.onTextChanged_keyboard (k : KeyboardDialog) :
    k.onTextChanged.keyboard = k.keyboard := by
  unfold KeyboardDialog.onTextChanged
  split <;> rfl

/-- **The dialog changes its keyboard as the keyboard changes by itself**, whatever SHIFT does. -/
theorem KeyboardDialog.enter_keyboard (k : KeyboardDialog) (key : Key) :
    (k.enter key).keyboard = k.keyboard.press key := by
  unfold KeyboardDialog.enter
  split
  · exact onTextChanged_keyboard _
  · rfl

theorem KeyboardDialog.clearText_keyboard (k : KeyboardDialog) :
    k.clearText.keyboard = k.keyboard.clearText := onTextChanged_keyboard _

theorem KeyboardDialog.setSecureText_keyboard (k : KeyboardDialog) (newText : Option SecureString) :
    (k.setSecureText newText).keyboard = k.keyboard.setSecureText newText := by
  unfold KeyboardDialog.setSecureText KryptanKeyboard.setSecureText
  by_cases h : KryptanKeyboard.getSecureText k.keyboard = newText.getD newSecureString
  · rw [if_neg (not_not_intro h)]
    exact (if_pos h).symm
  · rw [if_pos h]
    exact (onTextChanged_keyboard _).trans (if_neg h).symm

/-! ## What the loops write -/

namespace StringHeap

variable {h h' : StringHeap} {p : ℕ}

theorem content_concat (h : StringHeap) (s : SecureString) : content (h ++ [s]) h.length = s := by
  simp [content]

/-- What there was is still there in a longer heap. -/
theorem content_longer (hh : h <+: h') (hp : p < h.length) : h'.content p = h.content p := by
  obtain ⟨t, rfl⟩ := hh
  rw [content, content, List.getD_eq_getElem?_getD, List.getElem?_append_left hp,
    List.getD_eq_getElem?_getD]

/-- **A change of the newest string leaves the others alone.** -/
theorem modify_concat (h : StringHeap) (s : SecureString) (f : SecureString → SecureString) :
    (h ++ [s]).modify h.length f = h ++ [f s] := by
  rw [List.modify_eq_take_cons_drop (by simp)]
  simp

theorem clear_concat (h : StringHeap) (s : SecureString) :
    StringHeap.clear (h ++ [s]) h.length = h ++ [[]] := modify_concat h s _

/-- **A copying loop into the newest string**, from any other. -/
theorem copyBytes_concat (dst : SecureString) (hp : p < h.length) (n : ℕ) :
    StringHeap.copyBytes (h ++ [dst]) p h.length n
      = h ++ [CoreSecureStringHandler.copyBytes (h.content p) dst n] := by
  rw [StringHeap.copyBytes, CoreSecureStringHandler.copyBytes]
  induction List.range n generalizing dst with
  | nil => rfl
  | cons i is ih =>
    rw [List.foldl_cons, List.foldl_cons, content_longer (List.prefix_append h [dst]) hp,
      StringHeap.addByte, modify_concat, ih]

theorem appendString_concat (h : StringHeap) (s : SecureString) (toAppend : List Char) :
    StringHeap.appendString (h ++ [s]) h.length toAppend
      = h ++ [CoreSecureStringHandler.appendString s toAppend] := by
  rw [StringHeap.appendString, CoreSecureStringHandler.appendString]
  induction Utf8.encode toAppend generalizing s with
  | nil => rfl
  | cons c cs ih => rw [List.foldl_cons, List.foldl_cons, StringHeap.addByte, modify_concat, ih]

/-- **A copy is a new string of the same bytes.** -/
theorem copy_eq (hp : p < h.length) : h.copy p = (h ++ [h.content p], h.length) := by
  rw [copy, StringHeap.newSecureString]
  simp only [content_longer (List.prefix_append h _) hp, copyBytes_concat _ hp,
    copyBytes_getLength, CoreSecureStringHandler.newSecureString, List.nil_append]

/-- The string of a view is never given away: what `getSecureText` returns is new. -/
theorem getSecureText_eq {mText : Option ℕ} (hp : ∀ p ∈ mText, p < h.length) :
    h.getSecureText mText
      = (h ++ [(mText.map h.content).getD CoreSecureStringHandler.newSecureString], h.length) := by
  cases mText with
  | none => rfl
  | some p => exact copy_eq (hp p rfl)

/-- A handle that a view or a field holds is one of the heap. -/
def Holds (h : StringHeap) (mText : Option ℕ) : Prop := ∀ p ∈ mText, p < h.length

/-- The text behind a handle that may be `null`. -/
def deref (h : StringHeap) (mText : Option ℕ) : Option SecureString := mText.map h.content

theorem Holds.mono {mText : Option ℕ} (hp : h.Holds mText) (hh : h <+: h') : h'.Holds mText :=
  fun p hmem => (hp p hmem).trans_le hh.length_le

/-- **A text stays what it is in a longer heap.** -/
theorem deref_longer {mText : Option ℕ} (hh : h <+: h') (hp : h.Holds mText) :
    h'.deref mText = h.deref mText := by
  cases mText with
  | none => rfl
  | some p => exact congrArg some (content_longer hh (hp p rfl))

end StringHeap

/-! ## One call -/

namespace KeyboardRef

variable {h : StringHeap} {k : KeyboardRef} {p : ℕ}

/-- The keyboard with the text itself. -/
def deref (h : StringHeap) (k : KeyboardRef) : KryptanKeyboard where
  mText := h.deref k.mText
  mIsPassword := k.mIsPassword
  mPasswordDottedView := k.mPasswordDottedView
  mHintVisible := k.mHintVisible
  mError := k.mError

/-- **What a call on a keyboard is to do**: it changes no string of the heap, it leaves a handle of
the new heap in the view, and the keyboard is what the call makes of one with the text itself. -/
structure Does (h : StringHeap) (v : KryptanKeyboard) (r : StringHeap × KeyboardRef) : Prop where
  keeps : h <+: r.1
  holds : r.1.Holds r.2.mText
  deref : r.2.deref r.1 = v

theorem does_nothing (hk : h.Holds k.mText) : Does h (k.deref h) (h, k) :=
  ⟨List.prefix_rfl, hk, rfl⟩

/-- A keyboard shows the same in a longer heap. -/
theorem deref_longer {h' : StringHeap} (hh : h <+: h') (hk : h.Holds k.mText) :
    k.deref h' = k.deref h := by
  rw [deref, StringHeap.deref_longer hh hk]
  rfl

/-- A call that goes on after another one. -/
theorem Does.trans {h' : StringHeap} {v : KryptanKeyboard} {r : StringHeap × KeyboardRef}
    (hr : Does h' v r) (hh : h <+: h') : Does h v r := ⟨hh.trans hr.keeps, hr.holds, hr.deref⟩

/-- The hint comes or goes. -/
theorem Does.hint {v : KryptanKeyboard} {r : StringHeap × KeyboardRef} (hr : Does h v r)
    (b : Bool) :
    Does h { v with mHintVisible := b } (r.1, { r.2 with mHintVisible := b }) where
  keeps := hr.keeps
  holds := hr.holds
  deref := congrArg (fun v : KryptanKeyboard => { v with mHintVisible := b }) hr.deref

/-- The hint comes when the text is empty. -/
theorem Does.hint_if {v : KryptanKeyboard} {r : StringHeap × KeyboardRef} (hr : Does h v r)
    (s : SecureString) :
    Does h (if getLength s = 0 ∧ v.mHintVisible = false then { v with mHintVisible := true } else v)
      (if getLength s = 0 ∧ r.2.mHintVisible = false then
        (r.1, { r.2 with mHintVisible := true }) else r) := by
  have hhint : r.2.mHintVisible = v.mHintVisible :=
    congrArg KryptanKeyboard.mHintVisible hr.deref
  rw [hhint]
  split
  · exact hr.hint true
  · exact hr

/-- The view keeps the handle, and the heap stays as it is. -/
theorem setText_eq (h : StringHeap) (k : KeyboardRef) (p : ℕ) :
    setText h k p = (h, { k with
      mText := some p
      mPasswordDottedView :=
        if k.mIsPassword then List.replicate (getLength (h.content p)) dot
        else k.mPasswordDottedView
      mError := none }) := by
  obtain ⟨_ | _, _⟩ := k <;> rfl

/-- The new text is the one behind the handle. -/
theorem does_setText (k : KeyboardRef) (hp : p < h.length) :
    Does h (KryptanKeyboard.onTextChanged { k.deref h with mText := some (h.content p) }
      (h.content p)) (setText h k p) := by
  rw [setText_eq]
  refine ⟨List.prefix_rfl, fun q hq => ?_, rfl⟩
  exact Option.mem_some.mp hq ▸ hp

/-- …and it is the string just made. -/
theorem does_setText_concat (h : StringHeap) (k : KeyboardRef) (hk : h.Holds k.mText)
    (s : SecureString) :
    Does h (KryptanKeyboard.onTextChanged { k.deref h with mText := some s } s)
      (setText (h ++ [s]) k h.length) := by
  have hset := does_setText (h := h ++ [s]) k (p := h.length) (by simp)
  rw [StringHeap.content_concat] at hset
  rw [deref_longer (List.prefix_append h [s]) hk] at hset
  exact hset.trans (List.prefix_append h [s])

/-- The text of the view, as a copy. -/
theorem getSecureText_eq (hk : h.Holds k.mText) :
    h.getSecureText k.mText
      = (h ++ [KryptanKeyboard.getSecureText (k.deref h)], h.length) :=
  StringHeap.getSecureText_eq hk

theorem does_addToText (hk : h.Holds k.mText) (cs : List Char) :
    Does h ((k.deref h).addToText cs) (addToText h k cs) := by
  rw [addToText, getSecureText_eq hk]
  simp only [StringHeap.appendString_concat]
  exact does_setText_concat h { k with mHintVisible := false } hk _

theorem does_pastePressed (hk : h.Holds k.mText) (clip : Option (List Char)) :
    Does h ((k.deref h).pastePressed clip) (pastePressed h k clip) := by
  cases clip with
  | none => exact does_nothing hk
  | some text =>
    rw [pastePressed, KryptanKeyboard.pastePressed]
    split
    · exact does_addToText hk text
    · exact does_nothing hk

theorem does_deletePressed (hk : h.Holds k.mText) :
    Does h (k.deref h).deletePressed (deletePressed h k) := by
  have htext := getSecureText_eq hk
  have hlonger : h <+: h ++ [KryptanKeyboard.getSecureText (k.deref h)] := List.prefix_append h _
  have hlt : h.length < (h ++ [KryptanKeyboard.getSecureText (k.deref h)]).length := by simp
  rw [deletePressed, KryptanKeyboard.deletePressed, htext]
  simp only [StringHeap.content_concat, StringHeap.newSecureString,
    StringHeap.copyBytes_concat _ hlt]
  split
  · -- the copy is there all the same
    have hsame := (does_nothing (hk.mono hlonger)).trans hlonger
    rwa [deref_longer hlonger hk] at hsame
  · have hset := (does_setText_concat _ k (hk.mono hlonger) (copyBytes
      (KryptanKeyboard.getSecureText (k.deref h)) CoreSecureStringHandler.newSecureString
      (getLength (KryptanKeyboard.getSecureText (k.deref h)) - 1))).trans hlonger
    rw [deref_longer hlonger hk] at hset
    have hhint := hset.hint_if (copyBytes
      (KryptanKeyboard.getSecureText (k.deref h)) CoreSecureStringHandler.newSecureString
      (getLength (KryptanKeyboard.getSecureText (k.deref h)) - 1))
    rw [setText_eq] at hhint ⊢
    simp only [StringHeap.content_concat] at hhint ⊢
    exact hhint

theorem does_press (hk : h.Holds k.mText) (key : Key) :
    Does h ((k.deref h).press key) (press h k key) := by
  cases key with
  | char text => exact does_addToText hk text
  | space => exact does_addToText hk [' ']
  | paste clip => exact does_pastePressed hk clip
  | del => exact does_deletePressed hk

theorem does_clearText (hk : h.Holds k.mText) :
    Does h (k.deref h).clearText (clearText h k) := by
  rw [clearText, getSecureText_eq hk]
  simp only [StringHeap.clear_concat]
  exact (does_setText_concat h k hk []).hint true

/-- A handle is set that the heap has. -/
theorem does_setSecureText_some (hk : h.Holds k.mText) (hp : p < h.length) :
    Does h ((k.deref h).setSecureText (some (h.content p))) (setSecureText h k (some p)) := by
  have hlonger : h <+: h ++ [KryptanKeyboard.getSecureText (k.deref h)] := List.prefix_append h _
  have hcontent := StringHeap.content_longer hlonger hp
  have hequals : (equals (StringHeap.content (h ++ [KryptanKeyboard.getSecureText (k.deref h)]))
      h.length p = true) ↔ KryptanKeyboard.getSecureText (k.deref h) = h.content p := by
    rw [equals_iff, StringHeap.content_concat, hcontent]
  rw [setSecureText, KryptanKeyboard.setSecureText]
  by_cases hsame : KryptanKeyboard.getSecureText (k.deref h) = h.content p
  · have hkept := ((does_nothing (hk.mono hlonger)).trans hlonger).hint
      (getLength (h.content p) = 0)
    rw [deref_longer hlonger hk] at hkept
    simp only [getSecureText_eq hk, if_pos (hequals.mpr hsame)]
    exact (if_pos hsame).symm ▸ hkept
  · have hset := (does_setText (h := h ++ [KryptanKeyboard.getSecureText (k.deref h)])
      { k with mHintVisible := getLength (h.content p) = 0 }
      (hp.trans_le hlonger.length_le)).trans hlonger
    rw [hcontent, deref_longer hlonger (k := { k with mHintVisible := getLength _ = 0 }) hk]
      at hset
    simp only [getSecureText_eq hk, if_neg (mt hequals.mp hsame)]
    exact (if_neg hsame).symm ▸ hset

theorem does_setSecureText (hk : h.Holds k.mText) {newText : Option ℕ} (hp : h.Holds newText) :
    Does h ((k.deref h).setSecureText (h.deref newText)) (setSecureText h k newText) := by
  cases newText with
  | none =>
    -- `null` is replaced by a new string
    have hset := (does_setSecureText_some (hk.mono (List.prefix_append h [[]]))
      (p := h.length) (by simp)).trans (List.prefix_append h [[]])
    rw [deref_longer (List.prefix_append h [[]]) hk, StringHeap.content_concat] at hset
    exact hset
  | some p => exact does_setSecureText_some hk (hp p rfl)

end KeyboardRef

/-! ## Keyboards, views and fields -/

/-- The keyboards, and whatever else holds a string: the `mText` of a view, the `mDescription` of a
fragment, the text of an edit text. -/
structure SharedStrings where
  heap : StringHeap
  keyboards : List KeyboardRef
  holders : List (Option ℕ)
  deriving DecidableEq, Repr

/-- The same with texts in the place of handles. -/
structure PlainStrings where
  keyboards : List KryptanKeyboard
  holders : List (Option SecureString)
  deriving DecidableEq, Repr

/-- What is done with them.  A keyboard `k` is opened empty, on a copy of the text of the holder
`i`, or on its very string; `donePressed` gives its text to a holder, if it is accepted; `assign`
gives the holder `j` the string of `i`, and `store` gives a holder a string from elsewhere. -/
inductive StringEvent where
  | newKeyboard (password : Bool)
  | openEmpty (k : ℕ)
  | openCopy (k i : ℕ)
  | openOn (k i : ℕ)
  | press (k : ℕ) (key : Key)
  | donePressed (k : ℕ) (i : Option ℕ)
  | clearText (k : ℕ)
  | assign (i j : ℕ)
  | store (i : ℕ) (text : SecureString)
  deriving DecidableEq, Repr

namespace SharedStrings

/-- Before the first keyboard. -/
def init (holders : ℕ) : SharedStrings := ⟨[], [], List.replicate holders none⟩

/-- A call on a keyboard. -/
def call (s : SharedStrings) (k : ℕ)
    (f : StringHeap → KeyboardRef → StringHeap × KeyboardRef) : Option SharedStrings :=
  s.keyboards[k]?.map fun keyboard =>
    let (heap, keyboard) := f s.heap keyboard
    { s with heap := heap, keyboards := s.keyboards.set k keyboard }

/-- A handle for a holder. -/
def give (s : SharedStrings) (i p : ℕ) : Option SharedStrings :=
  s.holders[i]?.map fun mText =>
    let (heap, mText) := s.heap.setSecureText mText (some p)
    { s with heap := heap, holders := s.holders.set i mText }

def step (s : SharedStrings) : StringEvent → Option SharedStrings
  | .newKeyboard password =>
    some { s with keyboards := s.keyboards ++ [KeyboardRef.init password] }
  | .openEmpty k => s.call k fun h keyboard => keyboard.setSecureText h none
  | .openCopy k i => s.holders[i]?.bind fun mText =>
      let (heap, p) := s.heap.getSecureText mText
      { s with heap := heap }.call k fun h keyboard => keyboard.setSecureText h (some p)
  | .openOn k i => s.holders[i]?.bind fun mText =>
      s.call k fun h keyboard => keyboard.setSecureText h mText
  | .press k key => s.call k fun h keyboard => keyboard.press h key
  | .donePressed k i => s.keyboards[k]?.bind fun keyboard =>
      let (heap, p) := s.heap.getSecureText keyboard.mText
      match i with
      | none => some { s with heap := heap }
      | some i => { s with heap := heap }.give i p
  | .clearText k => s.call k fun h keyboard => keyboard.clearText h
  | .assign i j => s.holders[i]?.join.bind fun p => s.give j p
  | .store i text => { s with heap := s.heap ++ [text] }.give i s.heap.length

end SharedStrings

namespace PlainStrings

def init (holders : ℕ) : PlainStrings := ⟨[], List.replicate holders none⟩

def call (s : PlainStrings) (k : ℕ) (f : KryptanKeyboard → KryptanKeyboard) :
    Option PlainStrings :=
  s.keyboards[k]?.map fun keyboard => { s with keyboards := s.keyboards.set k (f keyboard) }

def give (s : PlainStrings) (i : ℕ) (text : SecureString) : Option PlainStrings :=
  s.holders[i]?.map fun _ => { s with holders := s.holders.set i (some text) }

def step (s : PlainStrings) : StringEvent → Option PlainStrings
  | .newKeyboard password =>
    some { s with keyboards := s.keyboards ++ [KryptanKeyboard.init password] }
  | .openEmpty k => s.call k fun keyboard => keyboard.setSecureText none
  | .openCopy k i => s.holders[i]?.bind fun text =>
      s.call k fun keyboard => keyboard.setSecureText (some (text.getD []))
  | .openOn k i => s.holders[i]?.bind fun text =>
      s.call k fun keyboard => keyboard.setSecureText text
  | .press k key => s.call k fun keyboard => keyboard.press key
  | .donePressed k i => s.keyboards[k]?.bind fun keyboard =>
      match i with
      | none => some s
      | some i => s.give i (KryptanKeyboard.getSecureText keyboard)
  | .clearText k => s.call k fun keyboard => keyboard.clearText
  | .assign i j => s.holders[i]?.join.bind fun text => s.give j text
  | .store i text => s.give i text

end PlainStrings

namespace SharedStrings

variable {s t : SharedStrings}

/-- The texts behind the handles. -/
def deref (s : SharedStrings) : PlainStrings where
  keyboards := s.keyboards.map (·.deref s.heap)
  holders := s.holders.map s.heap.deref

/-- Every handle is one of the heap. -/
structure Live (s : SharedStrings) : Prop where
  keyboards : ∀ k ∈ s.keyboards, s.heap.Holds k.mText
  holders : ∀ mText ∈ s.holders, s.heap.Holds mText

/-- **What is to hold of an event**: it changes no string that was there, its handles are live, and
it does to the handles what the other does to the texts. -/
def Does (s t : SharedStrings) (v : PlainStrings) : Prop :=
  s.heap <+: t.heap ∧ t.Live ∧ t.deref = v

/-- In a longer heap everything is as it was. -/
theorem does_longer (hs : s.Live) {h : StringHeap} (hh : s.heap <+: h) :
    Does s { s with heap := h } s.deref := by
  refine ⟨hh, ⟨fun k hk => (hs.keyboards k hk).mono hh, fun m hm => (hs.holders m hm).mono hh⟩, ?_⟩
  rw [deref, deref]
  congr 1
  · exact List.map_congr_left fun k hk => KeyboardRef.deref_longer hh (hs.keyboards k hk)
  · exact List.map_congr_left fun m hm => StringHeap.deref_longer hh (hs.holders m hm)

/-- What is done in a longer heap is done in this one. -/
theorem rel_of_longer {h : StringHeap} (hh : s.heap <+: h) {a : Option SharedStrings}
    {b : Option PlainStrings} (hab : Option.Rel (Does { s with heap := h }) a b) :
    Option.Rel (Does s) a b := rel_imp (fun _ _ hdoes => ⟨hh.trans hdoes.1, hdoes.2⟩) hab

/-- **A call on a keyboard** does to its handles what it does to the texts. -/
theorem rel_call (hs : s.Live) (k : ℕ) {f : StringHeap → KeyboardRef → StringHeap × KeyboardRef}
    {g : KryptanKeyboard → KryptanKeyboard}
    (hf : ∀ keyboard, s.heap.Holds keyboard.mText →
      KeyboardRef.Does s.heap (g (keyboard.deref s.heap)) (f s.heap keyboard)) :
    Option.Rel (Does s) (s.call k f) (s.deref.call k g) := by
  rw [call, PlainStrings.call, deref, List.getElem?_map]
  cases hk : s.keyboards[k]? with
  | none => exact .none
  | some keyboard =>
    obtain ⟨hkeeps, hholds, hderef⟩ := hf keyboard (hs.keyboards _ (List.mem_of_getElem? hk))
    obtain ⟨-, hlive, hlonger⟩ := does_longer hs hkeeps
    obtain ⟨hkeyboards, hholders⟩ := PlainStrings.mk.inj hlonger
    refine .some ⟨hkeeps, ⟨fun k' hk' => ?_, hlive.holders⟩, ?_⟩
    · rcases List.mem_or_eq_of_mem_set hk' with hk' | rfl
      · exact hlive.keyboards k' hk'
      · exact hholds
    · refine congrArg₂ PlainStrings.mk ?_ hholders
      rw [List.map_set, hderef, ← hkeyboards]

/-- **A handle for a holder.** -/
theorem rel_give (hs : s.Live) (i : ℕ) {p : ℕ} (hp : p < s.heap.length) :
    Option.Rel (Does s) (s.give i p) (s.deref.give i (s.heap.content p)) := by
  rw [give, PlainStrings.give, deref, List.getElem?_map]
  cases hi : s.holders[i]? with
  | none => exact .none
  | some mText =>
    have hset : s.heap.setSecureText mText (some p) = (s.heap, some p) := by cases mText <;> rfl
    simp only [Option.map_some, hset]
    refine .some ⟨List.prefix_rfl, ⟨hs.keyboards, fun m hm => ?_⟩, ?_⟩
    · rcases List.mem_or_eq_of_mem_set hm with hm | rfl
      · exact hs.holders m hm
      · exact fun q hq => Option.mem_some.mp hq ▸ hp
    · rw [deref, List.map_set]
      rfl

/-- A keyboard is opened on a handle. -/
theorem rel_setSecureText (hs : s.Live) (k : ℕ) (mText : Option ℕ) (hm : s.heap.Holds mText) :
    Option.Rel (Does s) (s.call k fun h keyboard => keyboard.setSecureText h mText)
      (s.deref.call k fun keyboard => keyboard.setSecureText (s.heap.deref mText)) :=
  rel_call hs k (f := fun h keyboard => keyboard.setSecureText h mText)
    (g := fun keyboard => keyboard.setSecureText (s.heap.deref mText))
    fun _ hk => KeyboardRef.does_setSecureText hk hm

/-- **A new string for a holder** is given as its text is. -/
theorem rel_giveNew (hs : s.Live) (i : ℕ) (text : SecureString) :
    Option.Rel (Does s) (give { s with heap := s.heap ++ [text] } i s.heap.length)
      (s.deref.give i text) := by
  have hlonger : s.heap <+: s.heap ++ [text] := List.prefix_append _ _
  obtain ⟨-, hlive, hderef⟩ := does_longer hs hlonger
  have hgive := rel_give hlive i (p := s.heap.length) (by simp)
  rw [hderef, StringHeap.content_concat] at hgive
  exact rel_of_longer hlonger hgive

/-- **A keyboard that opens on a new string** opens as on its text. -/
theorem rel_openNew (hs : s.Live) (k : ℕ) (text : SecureString) :
    Option.Rel (Does s)
      (call { s with heap := s.heap ++ [text] } k fun h keyboard =>
        keyboard.setSecureText h (some s.heap.length))
      (s.deref.call k fun keyboard => keyboard.setSecureText (some text)) := by
  have hlonger : s.heap <+: s.heap ++ [text] := List.prefix_append _ _
  obtain ⟨-, hlive, hderef⟩ := does_longer hs hlonger
  have hopen := rel_setSecureText hlive k (some s.heap.length) (by simp [StringHeap.Holds])
  have hnew : StringHeap.deref (s.heap ++ [text]) (some s.heap.length) = some text :=
    congrArg some (StringHeap.content_concat _ _)
  simp only [hderef, hnew] at hopen
  exact rel_of_longer hlonger hopen

/-- **One event.** -/
theorem rel_step (hs : s.Live) (e : StringEvent) :
    Option.Rel (Does s) (s.step e) (s.deref.step e) := by
  cases e with
  | newKeyboard password =>
    refine .some ⟨List.prefix_rfl, ⟨fun k hk => ?_, hs.holders⟩, ?_⟩
    · rcases List.mem_append.mp hk with hk | hk
      · exact hs.keyboards k hk
      · rw [List.mem_singleton.mp hk]
        exact nofun
    · rw [deref, List.map_append]
      rfl
  | openEmpty k => exact rel_setSecureText hs k none (by simp [StringHeap.Holds])
  | openCopy k i =>
    rw [step, PlainStrings.step, deref, List.getElem?_map]
    cases hi : s.holders[i]? with
    | none => exact .none
    | some mText =>
      simp only [Option.map_some, Option.bind_some]
      rw [StringHeap.getSecureText_eq (hs.holders _ (List.mem_of_getElem? hi))]
      exact rel_openNew hs k _
  | openOn k i =>
    rw [step, PlainStrings.step, deref, List.getElem?_map]
    cases hi : s.holders[i]? with
    | none => exact .none
    | some mText => exact rel_setSecureText hs k _ (hs.holders _ (List.mem_of_getElem? hi))
  | press k key =>
    exact rel_call hs k (f := fun h keyboard => keyboard.press h key)
      (g := fun keyboard => keyboard.press key) fun _ hk => KeyboardRef.does_press hk key
  | donePressed k i =>
    rw [step, PlainStrings.step, deref, List.getElem?_map]
    cases hk : s.keyboards[k]? with
    | none => exact .none
    | some keyboard =>
      simp only [Option.map_some, Option.bind_some]
      rw [KeyboardRef.getSecureText_eq (hs.keyboards _ (List.mem_of_getElem? hk))]
      cases i with
      | none => exact .some (does_longer hs (List.prefix_append _ _))
      | some i => exact rel_giveNew hs i _
  | clearText k =>
    exact rel_call hs k (f := fun h keyboard => keyboard.clearText h)
      (g := fun keyboard => keyboard.clearText) fun _ hk => KeyboardRef.does_clearText hk
  | assign i j =>
    rw [step, PlainStrings.step, deref, List.getElem?_map]
    cases hi : s.holders[i]? with
    | none => exact .none
    | some mText =>
      cases mText with
      | none => exact .none
      | some p => exact rel_give hs j (hs.holders _ (List.mem_of_getElem? hi) p rfl)
  | store i text => exact rel_giveNew hs i text

/-! ## Every run -/

theorem live_init (holders : ℕ) : (init holders).Live where
  keyboards _ hk := absurd hk List.not_mem_nil
  holders mText hm := by
    rw [List.eq_of_mem_replicate hm]
    exact nofun

theorem deref_init (holders : ℕ) : (init holders).deref = .init holders := by
  rw [deref, init, List.map_replicate]
  rfl

/-- An event leaves live handles. -/
theorem Live.step (hs : s.Live) {e : StringEvent} (ht : s.step e = some t) :
    t.Live ∧ s.heap <+: t.heap := by
  have hrel := rel_step hs e
  rw [ht] at hrel
  generalize s.deref.step e = v at hrel
  cases hrel with
  | some hdoes => exact ⟨hdoes.2.1, hdoes.1⟩

/-- **The handles are as good as the texts**: whatever keyboards are opened, on whichever strings,
and whoever is given what they deliver, every view and every field has the text it would have if
strings were copied wherever they are handed on. -/
theorem run_deref (holders : ℕ) (es : List StringEvent) :
    Option.Rel (fun s v => s.deref = v) (run SharedStrings.step (init holders) es)
      (run PlainStrings.step (.init holders) es) := by
  have hstep : ∀ (s : SharedStrings) (v : PlainStrings) (e : StringEvent), s.Live ∧ s.deref = v →
      Option.Rel (fun s v => s.Live ∧ s.deref = v) (s.step e) (v.step e) := by
    rintro s _ e ⟨hlive, rfl⟩
    exact rel_imp (fun _ _ h => h.2) (rel_step hlive e)
  exact rel_imp (fun _ _ h => h.2) (run_rel hstep ⟨live_init holders, deref_init holders⟩ es)

/-- **No string is changed once the call that made it is over**: at any later time every handle is
that of the same bytes. -/
theorem run_keeps {holders : ℕ} {es fs : List StringEvent} {s t : SharedStrings}
    (hs : run SharedStrings.step (init holders) es = some s)
    (ht : run SharedStrings.step s fs = some t) : s.heap <+: t.heap := by
  have hlive : s.Live :=
    run_induction (fun _ _ _ h hstep => (h.step hstep).1) (live_init holders) hs
  have hkept : t.Live ∧ s.heap <+: t.heap := run_induction
    (I := fun t => t.Live ∧ s.heap <+: t.heap)
    (fun _ _ _ h hstep => ⟨(h.1.step hstep).1, h.2.trans (h.1.step hstep).2⟩)
    ⟨hlive, List.prefix_rfl⟩ ht
  exact hkept.2

/-- The description of a fragment, in a view and on a keyboard that deletes it: the string is the
same as before. -/
theorem run_keeps_description :
    let s : SharedStrings :=
      ⟨[[97], []], [⟨some 0, false, [], false, none⟩], [some 0, some 0]⟩
    let t : SharedStrings :=
      ⟨[[97], [], [97], [], [98], [98]], [⟨some 4, false, [], false, none⟩], [some 5, some 0]⟩
    run SharedStrings.step (init 2)
        [.store 0 [97], .assign 0 1, .newKeyboard false, .openOn 0 0] = some s ∧
      run SharedStrings.step s [.press 0 .del, .press 0 (.char ['b']), .donePressed 0 (some 0)]
        = some t ∧ s.heap <+: t.heap := by
  intro s t
  have hs : run SharedStrings.step (init 2)
      [.store 0 [97], .assign 0 1, .newKeyboard false, .openOn 0 0] = some s := by
    decide +kernel
  have ht : run SharedStrings.step s
      [.press 0 .del, .press 0 (.char ['b']), .donePressed 0 (some 0)] = some t := by
    decide +kernel
  exact ⟨hs, ht, run_keeps hs ht⟩

/-- A view clears its string where it is when it is given no text.  Nobody gives it none: the
keyboards make a new string of `null`, and all others have one to give. -/
example : StringHeap.setSecureText [[97]] (some 0) none = ([[]], some 0) := rfl

end SharedStrings

end Kryptan
