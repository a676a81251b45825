import Kryptan.Core.SecureString
import Kryptan.Machinery.Runs

/-!
# Ui/Keyboard — the secure keyboard against a plain character editor

    KryptanKeyboard   bytes ──press──▸ bytes      appends encoded characters, deletes one byte
                        ▴                ▴
                     encode           encode
                        │                │
    reference editor  chars ──edit───▸ chars      appends characters, deletes one character

`addToText` works on characters and `deletePressed` on bytes, and the dotted view has one dot per
byte.  The square therefore commits exactly as long as the characters that are deleted, and in
password mode the characters that are entered, take one byte each (`allStates_refines_iff`).
-/

namespace Kryptan

/-- The keyboard's text and what it shows of it.  `mText` is the string of the `SecureTextView`,
`none` before anything was stored in it; the dotted view is visible in password mode only. -/
structure KryptanKeyboard where
  mText : Option SecureString
  mIsPassword : Bool
  mPasswordDottedView : List Char
  mHintVisible : Bool
  mError : Option (List Char)
  deriving DecidableEq, Repr

namespace KryptanKeyboard

open CoreSecureStringHandler Runs

/-- The character the dotted view is filled with. -/
def dot : Char := '•'

/-- The keyboard as it is shown: no text yet. -/
def init (password : Bool) : KryptanKeyboard where
  mText := none
  mIsPassword := password
  mPasswordDottedView := []
  mHintVisible := true
  mError := none

/-- `SecureTextView.getSecureText`: a copy of the text, an empty string when there is none. -/
def getSecureText (k : KryptanKeyboard) : SecureString := k.mText.getD newSecureString

/-- `onTextChanged`: the dotted view follows when it is visible, and an error message goes away. -/
def onTextChanged (k : KryptanKeyboard) (currentText : SecureString) : KryptanKeyboard :=
  { k with
    mPasswordDottedView :=
      if k.mIsPassword then List.replicate (getLength currentText) dot else k.mPasswordDottedView
    mError := none }

/-- `addToText`. -/
def addToText (k : KryptanKeyboard) (charSequence : List Char) : KryptanKeyboard :=
  let currentText := appendString (getSecureText k) charSequence
  onTextChanged { k with mHintVisible := false, mText := some currentText } currentText

/-- `pastePressed`, on the plain text the clipboard holds: `none` when it holds none. -/
def pastePressed (k : KryptanKeyboard) : Option (List Char) → KryptanKeyboard
  | none => k
  | some text => if 0 < text.length then addToText k text else k

/-- `deletePressed`: all bytes but the last are copied into a new string. -/
def deletePressed (k : KryptanKeyboard) : KryptanKeyboard :=
  let currentText := getSecureText k
  if getLength currentText = 0 then k
  else
    let newText := copyBytes currentText newSecureString (getLength currentText - 1)
    let k := onTextChanged { k with mText := some newText } newText
    if getLength newText = 0 ∧ k.mHintVisible = false then { k with mHintVisible := true } else k

/-- The keys that change the text.  A character key appends the text its button shows. -/
inductive Key where
  | char (text : List Char)
  | space
  | paste (clip : Option (List Char))
  | del
  deriving DecidableEq, Repr

/-- `onClick`. -/
def press (k : KryptanKeyboard) : Key → KryptanKeyboard
  | .char text => addToText k text
  | .space => addToText k [' ']
  | .paste clip => pastePressed k clip
  | .del => deletePressed k

/-! ## The reference editor -/

/-- The characters a key enters. -/
def Key.chars : Key → List Char
  | .char text => text
  | .space => [' ']
  | .paste clip => clip.getD []
  | .del => []

/-- The plain editor: characters are appended, `DEL` takes the last one off. -/
def edit (cs : List Char) : Key → List Char
  | .del => cs.dropLast
  | key => cs ++ key.chars

/-- The keyboard and the reference editor, side by side. -/
abbrev Pair := KryptanKeyboard × List Char

/-- One key press, on both sides. -/
def step (p : Pair) (key : Key) : Option Pair := some (press p.1 key, edit p.2 key)

/-- **The refinement relation**: the bytes are the encoding of the reference text, and in password
mode the dotted view has one dot per character of it. -/
def Refines (p : Pair) : Prop :=
  getSecureText p.1 = Utf8.encode p.2 ∧
    (p.1.mIsPassword = true → p.1.mPasswordDottedView = List.replicate p.2.length dot)

/-- A key press that stays within one-byte characters where the keyboard counts bytes: `DEL` meets
a one-byte character, if any, and in password mode only one-byte characters are entered. -/
def OneByte (p : Pair) (key : Key) : Prop :=
  (key = .del → ∀ c ∈ p.2.getLast?, c.utf8Size = 1) ∧
    (p.1.mIsPassword = true → ∀ c ∈ key.chars, c.utf8Size = 1)

/-! ## What a key press does to the bytes and the dots -/

theorem onTextChanged_dotted {k : KryptanKeyboard} (h : k.mIsPassword = true) (t : SecureString) :
    (onTextChanged k t).mPasswordDottedView = List.replicate (getLength t) dot := if_pos h

theorem addToText_getSecureText (k : KryptanKeyboard) (cs : List Char) :
    getSecureText (addToText k cs) = getSecureText k ++ Utf8.encode cs := appendString_eq _ _

theorem addToText_dotted {k : KryptanKeyboard} (h : k.mIsPassword = true) (cs : List Char) :
    (addToText k cs).mPasswordDottedView
      = List.replicate (getSecureText k ++ Utf8.encode cs).length dot := by
  rw [← appendString_eq]
  exact onTextChanged_dotted h _

/-- `DEL` on an empty text does nothing. -/
theorem deletePressed_of_nil {k : KryptanKeyboard} (h : getSecureText k = []) :
    deletePressed k = k := if_pos (congrArg List.length h)

/-- `DEL` on a text stores all of its bytes but the last, and may bring the hint back. -/
theorem deletePressed_of_ne_nil {k : KryptanKeyboard} (h : getSecureText k ≠ []) :
    ∃ hint, deletePressed k = { onTextChanged { k with mText := some (getSecureText k).dropLast }
      (getSecureText k).dropLast with mHintVisible := hint } := by
  have hlen : getLength (getSecureText k) ≠ 0 := fun h0 => h (List.eq_nil_of_length_eq_zero h0)
  simp only [deletePressed, if_neg hlen, copyBytes_pred]
  split
  · exact ⟨true, rfl⟩
  · exact ⟨k.mHintVisible, rfl⟩

/-- **`DEL` drops the last byte.** -/
theorem deletePressed_getSecureText (k : KryptanKeyboard) :
    getSecureText (deletePressed k) = (getSecureText k).dropLast := by
  by_cases h : getSecureText k = []
  · rw [deletePressed_of_nil h, h, List.dropLast_nil]
  · obtain ⟨hint, hk⟩ := deletePressed_of_ne_nil h
    rw [hk]
    rfl

theorem deletePressed_dotted {k : KryptanKeyboard} (hp : k.mIsPassword = true)
    (h : getSecureText k ≠ []) :
    (deletePressed k).mPasswordDottedView
      = List.replicate (getSecureText k).dropLast.length dot := by
  obtain ⟨hint, hk⟩ := deletePressed_of_ne_nil h
  rw [hk]
  exact if_pos hp

/-- The keyboard stays in the mode it was opened in. -/
@[simp] theorem press_mIsPassword (k : KryptanKeyboard) (key : Key) :
    (press k key).mIsPassword = k.mIsPassword := by
  rcases key with text | _ | (_ | text) | _
  case del =>
    by_cases h : getSecureText k = []
    · exact congrArg mIsPassword (deletePressed_of_nil h)
    · obtain ⟨hint, hk⟩ := deletePressed_of_ne_nil h
      exact (congrArg mIsPassword hk :)
  case paste.some =>
    simp only [press, pastePressed]
    split <;> rfl
  all_goals rfl

/-- **A key that is not `DEL` appends the encoding of its characters.** -/
theorem press_getSecureText {k : KryptanKeyboard} {key : Key} (h : key ≠ .del) :
    getSecureText (press k key) = getSecureText k ++ Utf8.encode key.chars := by
  rcases key with text | _ | (_ | text) | _
  case del => exact absurd rfl h
  case paste.none => exact (List.append_nil _).symm
  case paste.some =>
    simp only [press, pastePressed]
    split
    · exact addToText_getSecureText k text
    · next hlen =>
      obtain rfl : text = [] := List.eq_nil_of_length_eq_zero (by omega)
      exact (List.append_nil _).symm
  all_goals exact addToText_getSecureText k _

/-- In password mode a key that is not `DEL` leaves one dot per byte. -/
theorem press_dotted {k : KryptanKeyboard} {key : Key} (h : key ≠ .del)
    (hp : k.mIsPassword = true)
    (hd : k.mPasswordDottedView = List.replicate (getSecureText k).length dot) :
    (press k key).mPasswordDottedView
      = List.replicate (getSecureText k ++ Utf8.encode key.chars).length dot := by
  rcases key with text | _ | (_ | text) | _
  case del => exact absurd rfl h
  case paste.none => simpa [press, pastePressed, Key.chars] using hd
  case paste.some =>
    simp only [press, pastePressed]
    split
    · exact addToText_dotted hp text
    · next hlen =>
      obtain rfl : text = [] := List.eq_nil_of_length_eq_zero (by omega)
      simpa [Key.chars] using hd
  all_goals exact addToText_dotted hp _

theorem edit_of_ne_del {key : Key} (h : key ≠ .del) (cs : List Char) :
    edit cs key = cs ++ key.chars := by
  cases key with
  | del => exact absurd rfl h
  | _ => rfl

/-! ## The square, one key at a time -/

/-- The invariant of the presses that stay within `OneByte`: the sides agree, and in password mode
all characters are one byte long, so that counting bytes counts them. -/
def Inv (p : Pair) : Prop :=
  Refines p ∧ (p.1.mIsPassword = true → ∀ c ∈ p.2, c.utf8Size = 1)

theorem init_inv (password : Bool) : Inv (init password, []) :=
  ⟨⟨rfl, fun _ => rfl⟩, fun _ _ hc => absurd hc List.not_mem_nil⟩

/-- Under the invariant the dots count bytes and characters alike. -/
theorem Inv.dotted {p : Pair} (h : Inv p) (hp : p.1.mIsPassword = true) :
    p.1.mPasswordDottedView = List.replicate (getSecureText p.1).length dot := by
  rw [h.1.2 hp, h.1.1, (Utf8.length_encode_eq_iff p.2).mpr (h.2 hp)]

/-- A text of one-byte characters whose dots count bytes is in the relation. -/
theorem inv_of_dotted {p : Pair} (hb : getSecureText p.1 = Utf8.encode p.2)
    (hd : p.1.mIsPassword = true →
      p.1.mPasswordDottedView = List.replicate (getSecureText p.1).length dot)
    (hone : p.1.mIsPassword = true → ∀ c ∈ p.2, c.utf8Size = 1) : Inv p :=
  ⟨⟨hb, fun hp => by rw [hd hp, hb, (Utf8.length_encode_eq_iff p.2).mpr (hone hp)]⟩, hone⟩

/-- `DEL` takes the last byte, and the last character, off together when that is one byte. -/
theorem deletePressed_inv {k : KryptanKeyboard} {cs : List Char} (h : Inv (k, cs))
    (hc : ∀ c ∈ cs.getLast?, c.utf8Size = 1) : Inv (deletePressed k, cs.dropLast) := by
  have hbytes : getSecureText k = Utf8.encode cs := h.1.1
  have hmode : (deletePressed k).mIsPassword = k.mIsPassword := press_mIsPassword k .del
  rcases List.eq_nil_or_concat' cs with rfl | ⟨ds, c, rfl⟩
  · rw [deletePressed_of_nil hbytes]
    exact h
  · rw [List.getLast?_concat] at hc
    have hdrop : (getSecureText k).dropLast = Utf8.encode ds := by
      rw [hbytes]
      exact (Utf8.dropLast_encode_concat ds c).mpr (hc c rfl)
    have hne : getSecureText k ≠ [] := by
      rw [hbytes, ne_eq, Utf8.encode_eq_nil_iff]
      exact List.concat_ne_nil c ds
    refine inv_of_dotted ?_ (fun hp => ?_) (fun hp d hd => ?_)
    · rw [deletePressed_getSecureText, hdrop, List.dropLast_concat]
    · rw [deletePressed_getSecureText]
      exact deletePressed_dotted (hmode ▸ hp) hne
    · rw [List.dropLast_concat] at hd
      exact h.2 (hmode ▸ hp) d (List.mem_append_left _ hd)

/-- **A press within `OneByte` keeps the two sides together.** -/
theorem step_inv {p q : Pair} {key : Key} (h : Inv p) (hone : OneByte p key)
    (hq : step p key = some q) : Inv q := by
  obtain rfl := Option.some.inj hq
  obtain ⟨k, cs⟩ := p
  by_cases hdel : key = .del
  · subst hdel
    exact deletePressed_inv h (hone.1 rfl)
  · have hbytes : getSecureText (press k key) = Utf8.encode (cs ++ key.chars) := by
      rw [press_getSecureText hdel, Utf8.encode_append]
      exact congrArg (· ++ _) h.1.1
    have hmode : (press k key).mIsPassword = k.mIsPassword := press_mIsPassword k key
    rw [edit_of_ne_del hdel]
    refine inv_of_dotted hbytes (fun hp => ?_) (fun hp c hc => ?_)
    · rw [press_getSecureText hdel]
      exact press_dotted hdel (hmode ▸ hp) (h.dotted (hmode ▸ hp))
    · rcases List.mem_append.mp hc with hc | hc
      · exact h.2 (hmode ▸ hp) c hc
      · exact hone.2 (hmode ▸ hp) c hc

/-- **A press outside of `OneByte` separates the sides at once**: the text loses one byte of
several, or the dots outnumber the characters. -/
theorem step_not_refines {p q : Pair} {key : Key} (h : Inv p) (hone : ¬ OneByte p key)
    (hq : step p key = some q) : ¬ Refines q := by
  obtain rfl := Option.some.inj hq
  obtain ⟨k, cs⟩ := p
  intro hr
  refine hone ⟨?_, fun hp c hc => ?_⟩
  · rintro rfl c hc
    obtain ⟨ds, rfl⟩ := List.getLast?_eq_some_iff.mp hc
    have hbytes : getSecureText (deletePressed k) = Utf8.encode (ds ++ [c]).dropLast := hr.1
    rw [deletePressed_getSecureText, List.dropLast_concat,
      show getSecureText k = _ from h.1.1] at hbytes
    exact (Utf8.dropLast_encode_concat ds c).mp hbytes
  · have hdel : key ≠ .del := by
      rintro rfl
      exact absurd hc List.not_mem_nil
    have hdots : (press k key).mPasswordDottedView
        = List.replicate (edit cs key).length dot := hr.2 ((press_mIsPassword k key).trans hp)
    rw [press_dotted hdel hp (h.dotted hp), edit_of_ne_del hdel,
      show getSecureText k = _ from h.1.1, ← Utf8.encode_append] at hdots
    have hlen := congrArg List.length hdots
    rw [List.length_replicate, List.length_replicate] at hlen
    exact (Utf8.length_encode_eq_iff _).mp hlen c (List.mem_append_right _ hc)

/-! ## Every sequence of keys -/

/-- **The keyboard refines the plain editor exactly on one-byte characters.**  From empty text, the
bytes encode the reference text after every key, with one dot per character in password mode, if
and only if every `DEL` meets a one-byte character and password mode is only given one-byte
characters. -/
theorem allStates_refines_iff (password : Bool) (keys : List Key) :
    AllStates step Refines (init password, []) keys
      ↔ AllSteps step OneByte (init password, []) keys :=
  allStates_iff_allSteps (N := fun _ _ => True) (fun _ _ _ h _ hone hq => step_inv h hone hq)
    (fun _ h => h.1) (fun _ _ _ h _ hone hq => step_not_refines h hone hq) (init_inv password)
    (allSteps_true _ _)

/-- On the layout's key `å`, `DEL` leaves the first of its two bytes behind. -/
theorem not_refines_after_del :
    ¬ ∀ (password : Bool) (keys : List Key) (q : Pair),
      run step (init password, []) keys = some q → Refines q := by
  intro h
  have hq := (h false [.char ['å'], .del] _ rfl).1
  exact absurd hq (by decide)

end KryptanKeyboard

end Kryptan
