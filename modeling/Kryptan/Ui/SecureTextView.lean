import Kryptan.Core.SecureString
import Kryptan.Machinery.Ranges
import Kryptan.Machinery.Runs

/-!
# Ui/SecureTextView — a secret on the screen, for as long as it takes to draw it

    mText ──UTF-8──▸ n units ──▸ shadow  m m - m …  ──setText──▸ layout: lines over [0, n)
                        │                                           │
                        └──onDraw, line by line──▸ mTmpArr ──▸ mTmp[line] ──▸ drawText ──▸ NUL

The view gives the layout a shadow text of the same length, and keeps a string for each line whose
characters it overwrites with the secret, draws, and overwrites again.  Lengths are all that the
buffers have to agree in (`Inv`): then **every draw shows the secret, line by line, and wipes it**
(`onDraw_eq`, `run_draws`), whether strings can be overwritten on the platform or not.
-/

namespace Kryptan

open CoreSecureStringHandler Ranges Runs

/-! ## Strings of the platform -/

/-- `overwriteStringInternalArr(String)`: whether strings can be overwritten, and the string
after it. -/
def CoreSecureStringHandler.overwriteStringInternalArr (available : Bool)
    (toOverwrite : List UInt16) : Bool × List UInt16 :=
  if available then (true, List.replicate toOverwrite.length 0) else (false, toOverwrite)

/-- `overwriteStringInternalArr(String, char[], int, int)`. -/
def CoreSecureStringHandler.overwriteStringInternalArrWith (available : Bool)
    (toOverwrite arr : List UInt16) (start charCount : ℕ) : Option (Bool × List UInt16) :=
  if available then
    (writeRange (fun i => arr[start + i]?) toOverwrite 0
      (min (min toOverwrite.length arr.length) charCount)).map fun value => (true, value)
  else some (false, toOverwrite)

/-- The characters of a range as a string, `none` for an index outside of the array. -/
def substring (arr : List UInt16) (start stop : ℕ) : Option (List UInt16) :=
  if start ≤ stop ∧ stop ≤ arr.length then some (slice arr (start, stop)) else none

/-- The line ranges of a layout. -/
abbrev Layout := List (ℕ × ℕ)

/-! ## Drawing -/

/-- The buffers of a view: a string for each line, and one array for all of them. -/
structure LineBuffers where
  mTmp : List (List UInt16)
  mTmpArr : List UInt16
  deriving DecidableEq, Repr

namespace LineBuffers

/-- One turn of the loop of `onDraw`, with the string that it draws; `unit` is the character at a
position.  `none` stands for an index out of range. -/
def drawLine (available : Bool) (unit : ℕ → Option UInt16) (b : LineBuffers)
    (currentLine start stop : ℕ) : Option (LineBuffers × List UInt16) := do
  let mTmpArr ← writeRange unit b.mTmpArr start (stop - start)
  let line ← b.mTmp[currentLine]?
  let (overwritten, line) ←
    overwriteStringInternalArrWith available line mTmpArr start (stop - start)
  let line ← if overwritten then some line else substring mTmpArr start stop
  -- `line` is drawn here, and wiped at once
  return (⟨b.mTmp.set currentLine (overwriteStringInternalArr available line).2, mTmpArr⟩, line)

/-- The loop of `onDraw`. -/
def drawLines (available : Bool) (unit : ℕ → Option UInt16) :
    LineBuffers → (currentLine : ℕ) → Layout → Option (LineBuffers × List (List UInt16))
  | b, _, [] => some (b, [])
  | b, currentLine, (start, stop) :: layout => do
    let (b, line) ← drawLine available unit b currentLine start stop
    let (b, strings) ← drawLines available unit b (currentLine + 1) layout
    return (b, line :: strings)

end LineBuffers

/-- What a call of `onDraw` draws. -/
inductive Drawing where
  | nothing
  | hint (text : List UInt16)
  | lines (strings : List (List UInt16))
  deriving DecidableEq, Repr

/-- The view.  `shadow` and `layout` are the text of the `TextView` it extends and its layout. -/
structure SecureTextView extends LineBuffers where
  mText : Option SecureString
  mLayout : Option Layout
  mTextVisible : Bool
  mRealInputType : BitVec 32
  shadow : List UInt16
  layout : Option Layout
  inputType : BitVec 32
  hint : List UInt16
  deriving DecidableEq, Repr

namespace SecureTextView

variable (decode : SecureString → List UInt16) (available : Bool)

def init (inputType : BitVec 32) (hint : List UInt16) : SecureTextView where
  mTmp := []
  mTmpArr := []
  mText := none
  mLayout := none
  mTextVisible := true
  mRealInputType := -1
  shadow := []
  layout := none
  inputType := inputType
  hint := hint

/-- The characters of the text. -/
def text (v : SecureTextView) : List UInt16 := v.mText.elim [] decode

/-- `getRealInputType`; that it remembers the answer makes no difference to it. -/
def getRealInputType (v : SecureTextView) : BitVec 32 :=
  if v.mRealInputType = -1 then v.inputType else v.mRealInputType

/-- The variation of the real input type is that of a password. -/
def isPassword (v : SecureTextView) : Bool := v.getRealInputType &&& 0xff0 = 0x80

/-- The character that the shadow has for one of the text. -/
def shadowChar (c : UInt16) : UInt16 := if c = 32 then 45 else 109

def updateShadowCopy (v : SecureTextView) : Option SecureTextView :=
  let unsecureWholeString := v.text decode
  let mTmpArr :=
    if unsecureWholeString.length ≠ v.mTmpArr.length then
      List.replicate unsecureWholeString.length 0
    else v.mTmpArr
  (writeRange (fun i => unsecureWholeString[i]?.map shadowChar) mTmpArr 0
    unsecureWholeString.length).map fun mTmpArr => { v with mTmpArr := mTmpArr }

/-- `none` also stands for a layout that is missing. -/
def updateTmpLineStrings (v : SecureTextView) : Option SecureTextView := do
  let layout ← v.layout
  let mTmp ← layout.mapM fun line => substring v.mTmpArr line.1 line.2
  return { v with mTmp := mTmp, mLayout := some layout }

/-- The text that `setSecureText` stores. -/
def stored (v : SecureTextView) : Option SecureString → SecureString
  | some text => text
  | none => v.mText.elim newSecureString clear

/-- `setSecureText`; `layout` is what `setText` makes of the new shadow. -/
def setSecureText (v : SecureTextView) (text : Option SecureString) (layout : Option Layout) :
    Option SecureTextView := do
  let v ← updateShadowCopy decode { v with mText := some (v.stored text) }
  let v := { v with shadow := v.mTmpArr, layout := layout }
  if v.layout.isSome then updateTmpLineStrings v else return v

def hasText (v : SecureTextView) : Bool := v.mText.any fun text => getLength text ≠ 0

/-- The character that `onDraw` writes at a position. -/
def unit (v : SecureTextView) (i : ℕ) : Option UInt16 :=
  if v.isPassword then some 0x2022 else (v.text decode)[i]?

def onDraw (v : SecureTextView) : Option (SecureTextView × Drawing) :=
  if !v.mTextVisible then some (v, .nothing)
  else if v.hasText then do
    let (b, strings) ← v.toLineBuffers.drawLines available (v.unit decode) 0 (v.layout.getD [])
    return ({ v with
      mTmp := b.mTmp
      mTmpArr := List.replicate b.mTmpArr.length 0
      mLayout := v.layout }, .lines strings)
  else if v.hint.length > 0 then some (v, .hint v.hint)
  else some (v, .nothing)

/-! ## The view in use -/

/-- What happens to a view.  `relayout` is a new layout that no listener has heard of yet. -/
inductive Event where
  | setSecureText (text : Option SecureString) (layout : Option Layout)
  | relayout (layout : Option Layout)
  | onLayoutChange
  | onDraw
  | setTextVisibility (visible : Bool)
  | setRealInputType (type : BitVec 32)
  deriving DecidableEq, Repr

/-- A layout splits the shadow into lines, and the text is drawn on the layout that the strings of
the lines were made for. -/
def Enabled (v : SecureTextView) : Event → Prop
  | .setSecureText text layout =>
    ∀ lines ∈ layout, Consecutive 0 (decode (v.stored text)).length lines
  | .relayout layout => ∀ lines ∈ layout, Consecutive 0 v.shadow.length lines
  | .onLayoutChange => v.layout.isSome = true
  | .onDraw => v.mTextVisible = true → v.hasText = true →
      v.layout.isSome = true ∧ v.layout = v.mLayout
  | .setTextVisibility _ | .setRealInputType _ => True

instance (v : SecureTextView) (e : Event) : Decidable (v.Enabled decode e) := by
  unfold Enabled
  split <;> infer_instance

/-- What an event does; `none` stands for an exception. -/
def act (v : SecureTextView) : Event → Option SecureTextView
  | .setSecureText text layout => v.setSecureText decode text layout
  | .relayout layout => some { v with layout := layout }
  | .onLayoutChange => v.updateTmpLineStrings
  | .onDraw => (v.onDraw decode available).map Prod.fst
  | .setTextVisibility visible => some { v with mTextVisible := visible }
  | .setRealInputType type => some { v with mRealInputType := type }

/-- One event. -/
def step (v : SecureTextView) (e : Event) : Option SecureTextView :=
  if v.Enabled decode e then v.act decode available e else none

/-- **What a draw has to show**: the text, or a bullet for each of its characters. -/
def shown (v : SecureTextView) : List UInt16 :=
  if v.isPassword then List.replicate (v.text decode).length 0x2022 else v.text decode

end SecureTextView

/-! ## One line -/

theorem substring_eq {arr : List UInt16} {r : ℕ × ℕ} (h : r.1 ≤ r.2) (h' : r.2 ≤ arr.length) :
    substring arr r.1 r.2 = some (slice arr r) :=
  if_pos ⟨h, h'⟩

/-- A string of the length of a range, overwritten with it, is the range. -/
theorem overwriteWith_eq {arr line : List UInt16} {r : ℕ × ℕ} (h : r.1 ≤ r.2)
    (h' : r.2 ≤ arr.length) (hline : line.length = r.2 - r.1) :
    overwriteStringInternalArrWith true line arr r.1 (r.2 - r.1) = some (true, slice arr r) := by
  have hcount : min (min line.length arr.length) (r.2 - r.1) = line.length := by omega
  have hlength : line.length = (slice arr r).length := by rw [length_slice h', hline]
  have hsrc : ∀ i, 0 ≤ i → i < 0 + line.length → (arr[r.1 + i]?).isSome = true := by
    intro i _ hi
    rw [List.getElem?_eq_getElem (by omega)]
    rfl
  obtain ⟨line', hwrite, hlength', hget⟩ :=
    writeRange_spec (fun i => arr[r.1 + i]?) line 0 line.length (by omega) hsrc
  rw [overwriteStringInternalArrWith, if_pos rfl, hcount, hwrite, Option.map_some]
  refine congrArg (fun value => some (true, value)) (List.ext_getElem? fun i => ?_)
  rw [hget, getElem?_slice]
  by_cases hi : i < line.length
  · rw [if_pos (by omega), if_pos (by omega)]
  · rw [if_neg (by omega), if_neg (by omega), List.getElem?_eq_none (by omega)]

/-- What is left of a string that was drawn. -/
def wiped (available : Bool) (s : List UInt16) : List UInt16 :=
  (overwriteStringInternalArr available s).2

theorem length_wiped (available : Bool) (s : List UInt16) : (wiped available s).length = s.length := by
  cases available
  · rfl
  · exact List.length_replicate

theorem eq_zero_of_mem_wiped {s : List UInt16} {c : UInt16} (h : c ∈ wiped true s) : c = 0 :=
  List.eq_of_mem_replicate h

section Lines

variable (available : Bool) {unit : ℕ → Option UInt16} {shown : List UInt16}
  (hunit : ∀ i < shown.length, unit i = shown[i]?)

include hunit

/-- **One line is drawn as it is to be shown**, by either way of getting it into a string. -/
theorem drawLine_eq {b : LineBuffers} {k : ℕ} {line : List UInt16} {r : ℕ × ℕ}
    (harr : b.mTmpArr.length = shown.length) (hr : r.1 ≤ r.2) (hr' : r.2 ≤ shown.length)
    (hk : b.mTmp[k]? = some line) (hline : line.length = r.2 - r.1) :
    ∃ mTmpArr, mTmpArr.length = shown.length ∧
      b.drawLine available unit k r.1 r.2 = some
        (⟨b.mTmp.set k (wiped available (slice shown r)), mTmpArr⟩, slice shown r) := by
  obtain ⟨mTmpArr, hwrite, hlength, hget⟩ :=
    writeRange_spec unit b.mTmpArr r.1 (r.2 - r.1) (by omega) fun i _ hi => by
        rw [hunit i (by omega), List.getElem?_eq_getElem (by omega)]
        rfl
  have harr' : mTmpArr.length = shown.length := hlength.trans harr
  have hslice : slice mTmpArr r = slice shown r := by
    refine List.ext_getElem? fun i => ?_
    rw [getElem?_slice, getElem?_slice]
    split_ifs with hi
    · rw [hget, if_pos (by omega), hunit _ (by omega)]
    · rfl
  refine ⟨mTmpArr, harr', ?_⟩
  rw [LineBuffers.drawLine, hwrite, Option.bind_eq_bind, Option.bind_some, hk,
    Option.bind_eq_bind, Option.bind_some]
  cases available with
  | true =>
    rw [overwriteWith_eq hr (harr'.symm ▸ hr') hline, hslice]
    rfl
  | false =>
    have hsub := substring_eq hr (harr'.symm ▸ hr')
    rw [hslice] at hsub
    simp only [overwriteStringInternalArrWith, Bool.false_eq_true, if_false, Option.bind_some, hsub]
    rfl

/-- **All lines from one on**: each string drawn is the piece of its range, and what is left of it
is wiped. -/
theorem drawLines_eq (done : List (List UInt16)) {todo : List (List UInt16)}
    {mTmpArr : List UInt16} {layout : Layout} {first : ℕ} (harr : mTmpArr.length = shown.length)
    (hlayout : Consecutive first shown.length layout)
    (htodo : todo.map List.length = layout.map fun r => r.2 - r.1) :
    ∃ mTmpArr', mTmpArr'.length = shown.length ∧
      LineBuffers.drawLines available unit ⟨done ++ todo, mTmpArr⟩ done.length layout = some
        (⟨done ++ layout.map fun r => wiped available (slice shown r), mTmpArr'⟩,
          layout.map (slice shown)) := by
  induction layout generalizing done todo mTmpArr first with
  | nil =>
    obtain rfl : todo = [] := List.map_eq_nil_iff.mp htodo
    exact ⟨mTmpArr, harr, rfl⟩
  | cons r layout ih =>
    obtain ⟨line, todo, rfl⟩ : ∃ line todo', todo = line :: todo' :=
      List.exists_cons_of_ne_nil fun h => by simp [h] at htodo
    rw [List.map_cons, List.map_cons, List.cons.injEq] at htodo
    obtain ⟨-, hle, hrest⟩ := hlayout
    have hk : (done ++ line :: todo)[done.length]? = some line := by simp
    obtain ⟨arr, harr', hdraw⟩ := drawLine_eq available hunit
      (b := ⟨done ++ line :: todo, mTmpArr⟩) harr hle hrest.le hk htodo.1
    obtain ⟨arr', harr'', hdraws⟩ :=
      ih (done ++ [wiped available (slice shown r)]) harr' hrest htodo.2
    have hset : (done ++ line :: todo).set done.length (wiped available (slice shown r))
        = (done ++ [wiped available (slice shown r)]) ++ todo := by
      simp
    rw [List.length_append, List.length_singleton] at hdraws
    refine ⟨arr', harr'', ?_⟩
    rw [LineBuffers.drawLines, hdraw, Option.bind_eq_bind, Option.bind_some]
    dsimp only
    rw [hset, hdraws, Option.bind_eq_bind, Option.bind_some, List.append_assoc]
    rfl

end Lines

/-! ## The buffers of a view -/

namespace SecureTextView

/-- The shadow, the array and the strings have the lengths of the text and of its lines. -/
structure Inv (decode : SecureString → List UInt16) (v : SecureTextView) : Prop where
  mTmpArr : v.mTmpArr.length = (v.text decode).length
  shadow : v.shadow.length = (v.text decode).length
  layout : ∀ lines ∈ v.layout, Consecutive 0 (v.text decode).length lines
  mTmp : ∀ lines ∈ v.mLayout, v.mTmp.map List.length = lines.map fun r => r.2 - r.1

variable {decode : SecureString → List UInt16} {available : Bool}

/-- Ranges of an array are all strings of it. -/
theorem mapM_substring {arr : List UInt16} {lines : Layout}
    (hlines : ∀ line ∈ lines, line.1 ≤ line.2 ∧ line.2 ≤ arr.length) :
    (lines.mapM fun line => substring arr line.1 line.2) = some (lines.map (slice arr)) := by
  induction lines with
  | nil => rfl
  | cons line lines ih =>
    obtain ⟨hline, hrest⟩ := List.forall_mem_cons.mp hlines
    rw [List.mapM_cons, substring_eq hline.1 hline.2, ih hrest]
    rfl

/-- **The strings of the lines** are made for the layout. -/
theorem updateTmpLineStrings_eq {v : SecureTextView} {lines : Layout} (h : v.layout = some lines)
    (hlines : Consecutive 0 v.mTmpArr.length lines) :
    v.updateTmpLineStrings = some { v with
      mTmp := lines.map (slice v.mTmpArr)
      mLayout := some lines } := by
  rw [updateTmpLineStrings, h, Option.bind_eq_bind, Option.bind_some,
    mapM_substring fun line => hlines.mem]
  rfl

/-- A new string for each line has the line's length. -/
theorem map_length_slices {arr : List UInt16} {first : ℕ} {lines : Layout}
    (hlines : Consecutive first arr.length lines) :
    (lines.map (slice arr)).map List.length = lines.map fun r => r.2 - r.1 := by
  rw [List.map_map]
  exact List.map_congr_left fun r hr => length_slice (hlines.mem hr).2

/-- **The shadow** has the length of the text. -/
theorem updateShadowCopy_eq (decode : SecureString → List UInt16) (v : SecureTextView) :
    ∃ mTmpArr, mTmpArr.length = (v.text decode).length ∧
      v.updateShadowCopy decode = some { v with mTmpArr := mTmpArr } := by
  have hlength : (if (v.text decode).length ≠ v.mTmpArr.length then
      List.replicate (v.text decode).length 0 else v.mTmpArr).length
        = (v.text decode).length := by
    split_ifs with h
    · exact List.length_replicate
    · exact (not_not.mp h).symm
  have hsrc : ∀ i, 0 ≤ i → i < 0 + (v.text decode).length →
      ((v.text decode)[i]?.map shadowChar).isSome = true := by
    intro i _ hi
    rw [List.getElem?_eq_getElem (by omega)]
    rfl
  obtain ⟨mTmpArr, hwrite, hsame, -⟩ :=
    writeRange_spec _ _ 0 _ (by rw [hlength, Nat.zero_add]) hsrc
  exact ⟨mTmpArr, hsame.trans hlength, by rw [updateShadowCopy, hwrite]; rfl⟩

theorem length_shown (decode : SecureString → List UInt16) (v : SecureTextView) :
    (v.shown decode).length = (v.text decode).length := by
  unfold shown
  split_ifs
  · exact List.length_replicate
  · rfl

/-- `onDraw` writes what is to be shown. -/
theorem unit_eq (v : SecureTextView) :
    ∀ i < (v.shown decode).length, v.unit decode i = (v.shown decode)[i]? := by
  intro i hi
  rw [length_shown] at hi
  unfold unit shown
  split_ifs
  · rw [List.getElem?_replicate, if_pos hi]
  · rfl

/-- **A draw of the text shows it, line by line, and wipes the buffers.** -/
theorem onDraw_eq {v : SecureTextView} (hv : Inv decode v) {lines : Layout}
    (hvisible : v.mTextVisible = true) (htext : v.hasText = true) (hlayout : v.layout = some lines)
    (hsame : v.layout = v.mLayout) :
    v.onDraw decode available = some
      ({ v with
        mTmp := lines.map fun r => wiped available (slice (v.shown decode) r)
        mTmpArr := List.replicate (v.text decode).length 0 },
        .lines (lines.map (slice (v.shown decode)))) := by
  have hlines := hv.layout lines hlayout
  have hmTmp := hv.mTmp lines (hsame ▸ hlayout)
  obtain ⟨mTmpArr, hlength, hdraw⟩ := drawLines_eq available v.unit_eq []
    (hv.mTmpArr.trans (v.length_shown decode).symm) ((v.length_shown decode).symm ▸ hlines) hmTmp
  rw [List.nil_append, List.length_nil, List.nil_append] at hdraw
  rw [length_shown] at hlength
  have hgetD : v.layout.getD [] = lines := by rw [hlayout]; rfl
  rw [onDraw, hvisible, htext, hgetD, Bool.not_true, if_neg Bool.false_ne_true, if_pos rfl, hdraw,
    Option.bind_eq_bind, Option.bind_some]
  dsimp only
  rw [hlength, hsame]
  rfl

/-! ## The view in use -/

theorem inv_init (inputType : BitVec 32) (hint : List UInt16) : Inv decode (init inputType hint) where
  mTmpArr := rfl
  shadow := rfl
  layout lines h := absurd h.symm (Option.some_ne_none lines)
  mTmp lines h := absurd h.symm (Option.some_ne_none lines)

/-- Making the strings of the lines keeps the invariant. -/
theorem inv_updateTmpLineStrings {v : SecureTextView} (hv : Inv decode v)
    (h : v.layout.isSome = true) : ∃ u, v.updateTmpLineStrings = some u ∧ Inv decode u := by
  obtain ⟨lines, hlines⟩ := Option.isSome_iff_exists.mp h
  have hconsecutive := hv.layout lines hlines
  rw [← hv.mTmpArr] at hconsecutive
  refine ⟨_, updateTmpLineStrings_eq hlines hconsecutive, hv.mTmpArr, hv.shadow, hv.layout,
    fun lines' h' => ?_⟩
  obtain rfl := Option.some.inj h'
  exact map_length_slices hconsecutive

/-- A new text keeps the invariant, with or without a layout for it. -/
theorem inv_setSecureText {v : SecureTextView} (hv : Inv decode v) {text : Option SecureString}
    {layout : Option Layout}
    (h : ∀ lines ∈ layout, Consecutive 0 (decode (v.stored text)).length lines) :
    ∃ u, v.setSecureText decode text layout = some u ∧ Inv decode u := by
  obtain ⟨mTmpArr, hlength, hshadow⟩ :=
    updateShadowCopy_eq decode { v with mText := some (v.stored text) }
  have hu : Inv decode { v with
      mText := some (v.stored text), mTmpArr := mTmpArr, shadow := mTmpArr, layout := layout } :=
    ⟨hlength, hlength, h, hv.mTmp⟩
  rw [setSecureText, hshadow, Option.bind_eq_bind, Option.bind_some]
  dsimp only
  split_ifs with hsome
  · exact inv_updateTmpLineStrings hu hsome
  · exact ⟨_, rfl, hu⟩

/-- A draw keeps the invariant. -/
theorem inv_onDraw (available : Bool) {v : SecureTextView} (hv : Inv decode v)
    (h : v.Enabled decode .onDraw) :
    ∃ u drawing, v.onDraw decode available = some (u, drawing) ∧ Inv decode u := by
  by_cases hvisible : v.mTextVisible = true
  · by_cases htext : v.hasText = true
    · obtain ⟨hsome, hsame⟩ := h hvisible htext
      obtain ⟨lines, hlayout⟩ := Option.isSome_iff_exists.mp hsome
      have hlines := hv.layout lines hlayout
      refine ⟨_, _, onDraw_eq hv hvisible htext hlayout hsame, List.length_replicate, hv.shadow,
        hv.layout, fun lines' h' => ?_⟩
      obtain rfl := Option.some.inj ((hsame.symm.trans hlayout).symm.trans h')
      rw [List.map_map]
      refine List.map_congr_left fun r hr => ?_
      rw [Function.comp_apply, length_wiped,
        length_slice (v.length_shown decode ▸ (hlines.mem hr).2)]
    · rw [onDraw, hvisible, Bool.not_true, if_neg Bool.false_ne_true, if_neg htext]
      split_ifs
      · exact ⟨_, _, rfl, hv⟩
      · exact ⟨_, _, rfl, hv⟩
  · rw [onDraw, Bool.eq_false_of_not_eq_true hvisible]
    exact ⟨_, _, rfl, hv⟩

/-- **One event**: no index is out of range, and the lengths go on to agree. -/
theorem Inv.act (available : Bool) {v : SecureTextView} (hv : Inv decode v) {e : Event}
    (he : v.Enabled decode e) : ∃ u, v.act decode available e = some u ∧ Inv decode u := by
  cases e with
  | setSecureText text layout => exact inv_setSecureText hv he
  | relayout layout =>
    exact ⟨_, rfl, hv.mTmpArr, hv.shadow, fun lines h => hv.shadow ▸ he lines h, hv.mTmp⟩
  | onLayoutChange => exact inv_updateTmpLineStrings hv he
  | onDraw =>
    obtain ⟨u, drawing, hdraw, hu⟩ := inv_onDraw available hv he
    exact ⟨u, by rw [SecureTextView.act, hdraw]; rfl, hu⟩
  | setTextVisibility visible => exact ⟨_, rfl, hv.mTmpArr, hv.shadow, hv.layout, hv.mTmp⟩
  | setRealInputType type => exact ⟨_, rfl, hv.mTmpArr, hv.shadow, hv.layout, hv.mTmp⟩

/-! ## Every run -/

theorem run_inv {inputType : BitVec 32} {hint : List UInt16} {es : List Event} {v : SecureTextView}
    (h : run (step decode available) (init inputType hint) es = some v) : Inv decode v := by
  refine run_induction (fun v e u hv hstep => ?_) (inv_init inputType hint) h
  unfold step at hstep
  split_ifs at hstep with he
  obtain ⟨u', hu', hinv⟩ := hv.act available he
  exact Option.some.inj (hu'.symm.trans hstep) ▸ hinv

/-- **The view draws exactly the secret and wipes it afterwards**, after any run: no event has an
index out of range; the strings of a draw make up the text, or its bullets; and where strings can be
overwritten, the array and the strings of the lines are all NUL after it. -/
theorem run_draws {inputType : BitVec 32} {hint : List UInt16} {es : List Event}
    {v : SecureTextView} (h : run (step decode available) (init inputType hint) es = some v) :
    (∀ e, v.Enabled decode e → (v.act decode available e).isSome = true) ∧
      (v.Enabled decode .onDraw → v.mTextVisible = true → v.hasText = true →
        ∃ u strings, v.onDraw decode available = some (u, .lines strings) ∧
          strings.flatten = v.shown decode ∧
          (available = true → (∀ c ∈ u.mTmpArr, c = 0) ∧ ∀ s ∈ u.mTmp, ∀ c ∈ s, c = 0)) := by
  have hv := run_inv h
  refine ⟨fun e he => ?_, fun he hvisible htext => ?_⟩
  · obtain ⟨u, hu, -⟩ := hv.act available he
    exact Option.isSome_iff_exists.mpr ⟨u, hu⟩
  · obtain ⟨hsome, hsame⟩ := he hvisible htext
    obtain ⟨lines, hlayout⟩ := Option.isSome_iff_exists.mp hsome
    refine ⟨_, _, onDraw_eq hv hvisible htext hlayout hsame, ?_, fun havailable => ?_⟩
    · rw [flatten_slices (hv.layout lines hlayout), slice, List.drop_zero, Nat.sub_zero,
        ← length_shown, List.take_length]
    · subst havailable
      refine ⟨fun c hc => List.eq_of_mem_replicate hc, fun s hs c hc => ?_⟩
      obtain ⟨r, -, rfl⟩ := List.mem_map.mp hs
      exact eq_zero_of_mem_wiped hc

/-- A text of two lines, drawn twice. -/
theorem run_draws_twice :
    let decode : SecureString → List UInt16 := List.map UInt8.toUInt16
    ∃ v, run (step decode true) (init 0 [])
        [.setSecureText (some [104, 105, 32, 120]) none, .relayout (some [(0, 3), (3, 4)]),
          .onLayoutChange, .onDraw] = some v ∧
      ∃ u strings, v.onDraw decode true = some (u, .lines strings) ∧
        strings.flatten = [104, 105, 32, 120] ∧ (∀ c ∈ u.mTmpArr, c = 0) := by
  intro decode
  have hcheck : (run (step decode true) (init 0 [])
      [.setSecureText (some [104, 105, 32, 120]) none, .relayout (some [(0, 3), (3, 4)]),
        .onLayoutChange, .onDraw]).any (fun v => v.Enabled decode .onDraw ∧ v.mTextVisible = true ∧
          v.hasText = true ∧ v.shown decode = [104, 105, 32, 120]) = true := by decide +kernel
  obtain ⟨v, hrun, hv⟩ := (Option.any_eq_true _ _).mp hcheck
  obtain ⟨henabled, hvisible, htext, hshown⟩ := of_decide_eq_true hv
  obtain ⟨u, strings, hdraw, hflatten, hwiped⟩ := (run_draws hrun).2 henabled hvisible htext
  exact ⟨v, hrun, u, strings, hdraw, hflatten.trans hshown, (hwiped rfl).1⟩

end SecureTextView

end Kryptan
