import Kryptan.Ui.KeyButtons
import Mathlib.Data.List.FinRange
import Mathlib.Data.List.OfFn

/-!
# Ui/PasswordGenerator — what can be generated, and what can be typed

    generatePasswordClicked   characterPool ──random──▸ text ──Append──▸ bytes
                                    ║                                      ▴
    keyboard                  labels in both cases ──clicks, SHIFT─────────╯

The dialog for a new password and the keyboard are written apart, with an alphabet each.  **The
alphabets are the same**, up to the space bar (`typeable_iff`): a generated password can be typed
again wherever it is asked for (`generated_typeable`).
-/

namespace Kryptan

open CoreSecureStringHandler KryptanKeyboard Runs

namespace GeneratePasswordDialog

def alphaNumericals : List Char :=
  ['0', '1', '2', '3', '4', '5', '6', '7', '8', '9'] ++
  ['a', 'b', 'c', 'd', 'e', 'f', 'g', 'h', 'i', 'j', 'k', 'l', 'm'] ++
  ['n', 'o', 'p', 'q', 'r', 's', 't', 'u', 'v', 'w', 'x', 'y', 'z'] ++
  ['A', 'B', 'C', 'D', 'E', 'F', 'G', 'H', 'I', 'J', 'K', 'L', 'M'] ++
  ['N', 'O', 'P', 'Q', 'R', 'S', 'T', 'U', 'V', 'W', 'X', 'Y', 'Z']

def specials : List Char :=
  ['.', ',', '-', '_', '+', '!', '?', '\x22', '\x27', '\x60', '#', '@', '*', '§', '&', '%', ':',
    ';', '^', '<', '=', '>', '$', '~', '(', '/', ')', '\x7b', '|', '\x7d', '[', '\x5c', ']']

def nonEnglish : List Char :=
  ['¤', '£', '¥', 'ß', 'Ü', 'ü', 'µ', 'Æ', 'æ', 'Ø', 'ø', 'Å', 'å', 'Ä', 'ä', 'Ö', 'ö']

/-- The characters a password is made of, by the two toggles. -/
def characterPool (useSpecials useNonEnglish : Bool) : List Char :=
  alphaNumericals ++ (if useSpecials then specials else []) ++
    (if useNonEnglish then nonEnglish else [])

/-- `Global.GENERATE_CHARACTERS_MIN`. -/
def generateCharactersMin : ℕ := 4

/-- `generatePasswordClicked`, on the random numbers that are drawn from the pool. -/
def generatePasswordClicked (progress : ℕ) (useSpecials useNonEnglish : Bool)
    (randomnumber : Fin (progress + generateCharactersMin) →
      Fin (characterPool useSpecials useNonEnglish).length) : SecureString :=
  (List.finRange (progress + generateCharactersMin)).foldl
    (fun password i =>
      appendString password [(characterPool useSpecials useNonEnglish).get (randomnumber i)])
    newSecureString

/-- **A generated password is as many characters of the pool as were asked for**, in UTF-8. -/
theorem generatePasswordClicked_eq {progress : ℕ} {useSpecials useNonEnglish : Bool}
    (randomnumber : Fin (progress + generateCharactersMin) →
      Fin (characterPool useSpecials useNonEnglish).length) :
    generatePasswordClicked progress useSpecials useNonEnglish randomnumber
      = Utf8.encode ((List.finRange _).map fun i =>
          (characterPool useSpecials useNonEnglish).get (randomnumber i)) := by
  have hloop (l : List (Fin (progress + generateCharactersMin))) (password : SecureString) :
      l.foldl (fun password i => appendString password
        [(characterPool useSpecials useNonEnglish).get (randomnumber i)]) password
      = password ++ Utf8.encode (l.map fun i =>
          (characterPool useSpecials useNonEnglish).get (randomnumber i)) := by
    induction l generalizing password with
    | nil => simp
    | cons i l ih =>
      rw [List.foldl_cons, ih, appendString_eq, List.append_assoc, ← Utf8.encode_append]
      rfl
  rw [generatePasswordClicked, hloop]
  rfl

/-- Either toggle only adds characters. -/
theorem characterPool_subset (useSpecials useNonEnglish : Bool) :
    characterPool useSpecials useNonEnglish ⊆ characterPool true true := by
  cases useSpecials <;> cases useNonEnglish <;> simp [characterPool]

end GeneratePasswordDialog

open GeneratePasswordDialog

/-! ## The two alphabets -/

/-- The characters the keyboard is to type. -/
def Alphabet (c : Char) : Prop := c ∈ characterPool true true ∨ c = ' '

/-- The key a character is on, and the modifier it needs. -/
def keyFor (c : Char) : KeyId × Modifier :=
  if c = 'µ' then (.keyMy, .off)
  else if c = 'ß' then (.keyCapitalSharpS, .off)
  else if c ∈ labels then (.key c, .once)
  else (.key ((upperChar c).headD c), .off)

/-- **Every character of the pool is on a key**, and no key needs SHIFT locked. -/
theorem exists_key {c : Char} (hc : c ∈ characterPool true true) :
    ∃ id m, m ≠ Modifier.caps ∧ KeyId.chars m id = some [c] := by
  have hall : (characterPool true true).all fun c =>
      (keyFor c).2 ≠ .caps ∧ (keyFor c).1.chars (keyFor c).2 = some [c] := by
    decide +kernel
  exact ⟨_, _, of_decide_eq_true (List.all_eq_true.mp hall c hc)⟩

/-- **Every key enters a character of the pool.** -/
theorem mem_characterPool_of_chars {m : Modifier} {id : KeyId} {text : List Char}
    (h : id.chars m = some text) : ∀ c ∈ text, c ∈ characterPool true true := by
  have hall : labels.all fun label =>
      lowerChar label ⊆ characterPool true true ∧ upperChar label ⊆ characterPool true true := by
    decide +kernel
  cases id with
  | key label =>
    rw [KeyId.chars_key] at h
    split at h
    · next hlabel =>
      obtain rfl := Option.some.inj h
      have hcases := of_decide_eq_true (List.all_eq_true.mp hall label hlabel)
      split
      · exact hcases.1
      · exact hcases.2
    · exact nomatch h
  | keyMy | keyCapitalSharpS =>
    obtain rfl := Option.some.inj h
    rintro c (_ | ⟨_, ⟨⟩⟩)
    decide
  | _ => exact nomatch h

/-! ## Typing -/

/-- The keys one types with: those that have a character, the space bar, and SHIFT. -/
def KeyId.types : KeyId → Bool
  | .key _ | .keyMy | .keyCapitalSharpS | .keySpace | .keySHIFT => true
  | _ => false

/-- A click on a key one types with. -/
def KeyboardEvent.Types : KeyboardEvent → Prop
  | .click id _ _ _ _ => id.types = true
  | _ => False

section Typing

variable {r : Typist} {c : Char}

/-- A key that has characters enters them. -/
theorem click_eq_map (r : Typist) {id : KeyId}
    (hid : id = .keyMy ∨ id = .keyCapitalSharpS ∨ ∃ label, id = .key label) (now later : ℤ)
    (clip : Option (List Char)) (accepts : Bool) : r.click id now later clip accepts
      = (id.chars r.modifier).map fun text => r.changed (r.text ++ Utf8.encode text) := by
  rcases hid with rfl | rfl | ⟨label, rfl⟩ <;> rfl

/-- A key with the characters of some modifier is one of those. -/
theorem KeyId.isKey_of_chars {m : Modifier} {id : KeyId} {text : List Char}
    (h : id.chars m = some text) :
    id = .keyMy ∨ id = .keyCapitalSharpS ∨ ∃ label, id = .key label := by
  cases id with
  | key label => exact .inr (.inr ⟨label, rfl⟩)
  | keyMy => exact .inl rfl
  | keyCapitalSharpS => exact .inr (.inl rfl)
  | _ => exact nomatch h

/-- A key with the right characters is clicked. -/
theorem click_of_chars {id : KeyId} {text : List Char} (h : id.chars r.modifier = some text)
    (now later : ℤ) (clip : Option (List Char)) (accepts : Bool) :
    r.click id now later clip accepts = some (r.changed (r.text ++ Utf8.encode text)) ∧
      id.types = true := by
  have hid := KeyId.isKey_of_chars h
  rw [click_eq_map r hid, h]
  refine ⟨rfl, ?_⟩
  rcases hid with rfl | rfl | ⟨label, rfl⟩ <;> rfl

/-- **One character can be typed**, with SHIFT first if the key needs it, and SHIFT is off again. -/
theorem exists_clicks_char (hoff : r.modifier = .off) (hshowing : r.isShowing = true)
    (hc : Alphabet c) : ∃ es r', (∀ e ∈ es, e.Types) ∧ run Typist.step r es = some r' ∧
      r'.modifier = .off ∧ r'.isShowing = true ∧ r'.text = r.text ++ Utf8.encode [c] := by
  rcases hc with hpool | rfl
  · obtain ⟨id, m, hm, hkey⟩ := exists_key hpool
    cases m with
    | off =>
      rw [← hoff] at hkey
      obtain ⟨hclick, htypes⟩ := click_of_chars hkey 0 0 none false
      exact ⟨[.click id 0 0 none false], _, List.forall_mem_singleton.mpr htypes,
        run_cons_eq_some.mpr ⟨_, (if_pos hshowing).trans hclick, rfl⟩,
        by rw [Typist.changed, hoff]; rfl, hshowing, rfl⟩
    | once =>
      let r₁ : Typist := { r with modifier := .once, since := 0 }
      have hshift : r.step (.click .keySHIFT 0 0 none false) = some r₁ :=
        (if_pos hshowing).trans (congrArg some (if_pos hoff))
      obtain ⟨hclick, htypes⟩ := click_of_chars (r := r₁) hkey 0 0 none false
      exact ⟨[.click .keySHIFT 0 0 none false, .click id 0 0 none false], _,
        List.forall_mem_cons.mpr ⟨rfl, List.forall_mem_singleton.mpr htypes⟩,
        run_cons_eq_some.mpr ⟨_, hshift, run_cons_eq_some.mpr
          ⟨_, (if_pos hshowing).trans hclick, rfl⟩⟩, rfl, hshowing, rfl⟩
    | caps => exact absurd rfl hm
  · exact ⟨[.click .keySpace 0 0 none false], _, List.forall_mem_singleton.mpr rfl,
      run_cons_eq_some.mpr ⟨_, if_pos hshowing, rfl⟩,
      by rw [Typist.enter, Typist.changed, hoff]; rfl, hshowing, rfl⟩

/-- **Every text of the alphabet can be typed**, character by character. -/
theorem exists_clicks (text : List Char) (htext : ∀ c ∈ text, Alphabet c) {r : Typist}
    (hoff : r.modifier = .off) (hshowing : r.isShowing = true) : ∃ es r', (∀ e ∈ es, e.Types) ∧
      run Typist.step r es = some r' ∧ r'.text = r.text ++ Utf8.encode text := by
  induction text generalizing r with
  | nil => exact ⟨[], r, fun e he => absurd he List.not_mem_nil, rfl, (List.append_nil _).symm⟩
  | cons c text ih =>
    obtain ⟨hc, htext'⟩ := List.forall_mem_cons.mp htext
    obtain ⟨es, r₁, hes, hrun, hoff₁, hshowing₁, hchar⟩ := exists_clicks_char hoff hshowing hc
    obtain ⟨es', r', hes', hrun', htyped⟩ := ih htext' hoff₁ hshowing₁
    refine ⟨es ++ es', r', ?_, run_append_eq_some.mpr ⟨_, hrun, hrun'⟩, ?_⟩
    · exact fun e he => (List.mem_append.mp he).elim (hes e) (hes' e)
    · rw [htyped, hchar, List.append_assoc, ← Utf8.encode_append]
      rfl

/-- A key one types with, SHIFT apart, enters characters of the alphabet. -/
theorem entered_of_types {id : KeyId} {now later : ℤ} {clip : Option (List Char)} {accepts : Bool}
    {r' : Typist} (htypes : id.types = true) (hshift : id ≠ .keySHIFT)
    (h : r.click id now later clip accepts = some r') :
    ∃ text, r' = r.changed (r.text ++ Utf8.encode text) ∧ ∀ c ∈ text, Alphabet c := by
  by_cases hspace : id = .keySpace
  · subst hspace
    exact ⟨[' '], (Option.some.inj h).symm, fun c hc => .inr (List.mem_singleton.mp hc)⟩
  · have hid : id = .keyMy ∨ id = .keyCapitalSharpS ∨ ∃ label, id = .key label := by
      cases id with
      | key label => exact .inr (.inr ⟨label, rfl⟩)
      | keyMy => exact .inl rfl
      | keyCapitalSharpS => exact .inr (.inl rfl)
      | keySpace => exact absurd rfl hspace
      | keySHIFT => exact absurd rfl hshift
      | _ => exact nomatch htypes
    rw [click_eq_map r hid] at h
    obtain ⟨text, htext, rfl⟩ := Option.map_eq_some_iff.mp h
    exact ⟨text, rfl, fun c hc => .inl (mem_characterPool_of_chars htext c hc)⟩

/-- **What is typed is a text of the alphabet**, one click after the other. -/
theorem typed_alphabet {es : List KeyboardEvent} (hes : ∀ e ∈ es, e.Types) {r r' : Typist}
    (hrun : run Typist.step r es = some r') {cs : List Char} (hr : r.text = Utf8.encode cs)
    (hcs : ∀ c ∈ cs, Alphabet c) :
    ∃ ds, r'.text = Utf8.encode ds ∧ ∀ c ∈ ds, Alphabet c := by
  have hclick (r : Typist) (e : KeyboardEvent) (r' : Typist)
      (h : ∃ ds, r.text = Utf8.encode ds ∧ ∀ c ∈ ds, Alphabet c) (he : e.Types)
      (hstep : r.step e = some r') : ∃ ds, r'.text = Utf8.encode ds ∧ ∀ c ∈ ds, Alphabet c := by
    obtain ⟨ds, htext, hds⟩ := h
    cases e with
    | click id now later clip accepts =>
      rw [Typist.step] at hstep
      split_ifs at hstep
      by_cases hshift : id = .keySHIFT
      · subst hshift
        obtain rfl := Option.some.inj hstep
        refine ⟨ds, ?_, hds⟩
        rw [Typist.shift]
        split_ifs <;> exact htext
      · obtain ⟨text, rfl, hin⟩ := entered_of_types he hshift hstep
        refine ⟨ds ++ text, ?_, fun c hc => (List.mem_append.mp hc).elim (hds c) (hin c)⟩
        rw [Utf8.encode_append, ← htext]
        rfl
    | _ => exact he.elim
  exact ((allSteps_of_forall_mem r hes).allStates hclick ⟨cs, hr, hcs⟩).of_run hrun

end Typing

/-- Every text of the alphabet can be typed on a keyboard that opens empty. -/
theorem exists_typing (password : Bool) (text : List Char) (htext : ∀ c ∈ text, Alphabet c) :
    ∃ es k, (∀ e ∈ es, e.Types) ∧
      run KeyboardDialog.step (.init password) (.shown none :: es) = some k ∧
        getSecureText k.keyboard = Utf8.encode text := by
  obtain ⟨es, r, hes, hr, htyped⟩ := exists_clicks text htext
    (r := { Typist.init with isShowing := true }) rfl rfl
  have hshown : run Typist.step Typist.init (.shown none :: es) = some r := hr
  obtain ⟨k, hk, hshows⟩ :=
    exists_run_right (fun _ _ e h => rel_step h e) (init_shows password) hshown
  exact ⟨es, k, hes, hk, hshows.text.trans htyped⟩

/-- **The texts that can be typed are those over the generator's alphabet and the space bar**: on a
keyboard that opens empty, without pasting and deleting. -/
theorem typeable_iff (password : Bool) (text : List Char) :
    (∃ es k, (∀ e ∈ es, e.Types) ∧
      run KeyboardDialog.step (.init password) (.shown none :: es) = some k ∧
        getSecureText k.keyboard = Utf8.encode text) ↔
      ∀ c ∈ text, c ∈ characterPool true true ∨ c = ' ' := by
  constructor
  · rintro ⟨es, k, hes, hrun, htext⟩
    obtain ⟨r, hr, hshows⟩ := exists_run_left (fun _ _ e h => rel_step h e) (init_shows password)
      hrun
    have hempty : Typist.init.text = Utf8.encode [] := rfl
    obtain ⟨ds, hds, halphabet⟩ := typed_alphabet hes (r := { Typist.init with isShowing := true })
      hr hempty fun c hc => absurd hc List.not_mem_nil
    rwa [Utf8.encode_injective (htext.symm.trans (hshows.text.trans hds))]
  · exact exists_typing password text

/-- **A generated password can be typed again**, on any keyboard that opens empty: whatever the
number of characters, the toggles and the random numbers. -/
theorem generated_typeable (password : Bool) (progress : ℕ) (useSpecials useNonEnglish : Bool)
    (randomnumber : Fin (progress + generateCharactersMin) →
      Fin (characterPool useSpecials useNonEnglish).length) :
    ∃ es k, (∀ e ∈ es, e.Types) ∧
      run KeyboardDialog.step (.init password) (.shown none :: es) = some k ∧
        getSecureText k.keyboard
          = generatePasswordClicked progress useSpecials useNonEnglish randomnumber := by
  rw [generatePasswordClicked_eq]
  refine exists_typing password _ fun c hc => .inl ?_
  obtain ⟨i, -, rfl⟩ := List.mem_map.mp hc
  exact characterPool_subset useSpecials useNonEnglish (List.get_mem _ _)

end Kryptan
