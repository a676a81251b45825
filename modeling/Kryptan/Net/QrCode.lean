import Kryptan.Machinery.Fields
import Kryptan.Net.Connections
import Mathlib.Algebra.Order.Ring.Int

/-!
# Net/QrCode — the text of the QR code, and the clients it starts

    ip₁,ip₂,port,key     ──split──▸ [ip₁, ip₂, port, key]   two clients
    ip₁,ip₂,port,        ──split──▸ [ip₁, ip₂, port]        one client, with port ip₂ and key port

`tryConnectToServers` takes the fields by their position from the end of an array, and
`String.split` leaves the empty fields at the end out of it.  A text whose key field is empty is
therefore read as one that is a field shorter, though the comment says that the encryption key is
last in the message: **exactly the format starts clients, but for the formats with commas after
them** (`readsExactly_iff`).

The executor may refuse a task; `tryConnectToServers` catches that as it does every exception.
-/

namespace Kryptan

/-- An exception, of which `getMessage` is shown. -/
structure JavaException where
  getMessage : Option String
  deriving DecidableEq, Repr

/-- What of the Java library depends on Unicode or on the release: `Character.digit` in base ten and
two exceptions. -/
structure JavaLibrary where
  digit : Char → Option ℕ
  nullPointer : JavaException
  numberFormat : List Char → JavaException

/-- What the constructor of a `TcpClient` is given by `tryConnectToServers`. -/
structure Desktop where
  mServerIp : List Char
  mServerPort : ℤ
  mEncryptionKey : List Char
  deriving DecidableEq, Repr

/-- The client of a constructor call, before it runs. -/
def Desktop.client {F : Type*} (d : Desktop) : TcpClient F := .new d.mEncryptionKey

/-- The activity, as far as it connects.  `started` are the clients the executor took and `stopped`
those that `stopClient` was called on, `failures` the calls of `SyncFailed` with their messages; the
latest is last. -/
structure ConnectActivity where
  mEncryptionKey : Option (List Char)
  mTcpClients : List Desktop
  mTcpClientResponsive : Option Desktop
  started : List Desktop
  stopped : List Desktop
  failures : List (Option String)
  deriving DecidableEq, Repr

/-- `Integer.parseInt`, `none` where it throws. -/
def JavaLibrary.parseInt (J : JavaLibrary) (s : List Char) : Option ℤ :=
  let negative := s.head? = some '-'
  let digits := if s.head? = some '-' ∨ s.head? = some '+' then s.tail else s
  if digits = [] then none
  else
    (digits.mapM J.digit).bind fun ds =>
      let n : ℤ := ds.foldl (fun m d => 10 * m + d) 0
      let value := if negative then -n else n
      if -2 ^ 31 ≤ value ∧ value < 2 ^ 31 then some value else none

namespace ConnectActivity

variable (J : JavaLibrary) (executor : ℕ → Option JavaException)

/-- `SyncFailed`. -/
def syncFailed (a : ConnectActivity) (message : Option String) : ConnectActivity :=
  { a with
    mTcpClients := []
    mTcpClientResponsive := none
    stopped := a.stopped ++ a.mTcpClients ++ a.mTcpClientResponsive.toList
    failures := a.failures ++ [message] }

/-- `executeOnExecutor` on a client, once it is accepted, and `mTcpClients.add`. -/
def execute (a : ConnectActivity) (client : Desktop) : ConnectActivity :=
  { a with
    mTcpClients := a.mTcpClients ++ [client]
    started := a.started ++ [client] }

/-- The loop of `tryConnectToServers`, and the exception that ends it.  `executor i` is what it
throws at the `i`-th task, if anything. -/
def startClients (port : ℤ) (key : List Char) :
    ℕ → List (List Char) → ConnectActivity → ConnectActivity × Option JavaException
  | _, [], a => (a, none)
  | i, ip :: ips, a =>
    match executor i with
    | some e => (a, some e)
    | none => startClients port key (i + 1) ips (a.execute ⟨ip, port, key⟩)

/-- The `try` of `tryConnectToServers`, and the exception that ends it. -/
def connectToServers (a : ConnectActivity) :
    Option (List Char) → ConnectActivity × Option JavaException
  | none => (a, some J.nullPointer)
  | some urls =>
    let parts := Fields.split ',' urls
    if h : parts.length < 3 then (a.syncFailed (some "Malformed QR code data"), none)
    else
      let key := parts[parts.length - 1]
      let a := { a with mEncryptionKey := some key }
      match J.parseInt parts[parts.length - 2] with
      | none => (a, some (J.numberFormat parts[parts.length - 2]))
      | some port => startClients executor port key 0 (parts.take (parts.length - 2)) a

/-- `tryConnectToServers`. -/
def tryConnectToServers (a : ConnectActivity) (urls : Option (List Char)) : ConnectActivity :=
  match connectToServers J executor a urls with
  | (a, none) => a
  | (a, some e) => a.syncFailed e.getMessage

end ConnectActivity

/-! ## The format -/

/-- The fields of a QR code. -/
structure Payload (J : JavaLibrary) where
  ips : List (List Char)
  portField : List Char
  port : ℤ
  key : List Char
  ips_ne_nil : ips ≠ []
  comma_notMem : ∀ f ∈ ips ++ [portField, key], ',' ∉ f
  parseInt_portField : J.parseInt portField = some port
  key_ne_nil : key ≠ []

namespace Payload

variable {J : JavaLibrary} (p : Payload J)

/-- All fields, in the order they are written in. -/
def fields : List (List Char) := p.ips ++ [p.portField, p.key]

/-- `ip1,...,ipn,port,key`. -/
def text : List Char := Fields.join ',' p.fields

/-- A client for each address. -/
def clients : List Desktop := p.ips.map fun ip => ⟨ip, p.port, p.key⟩

theorem fields_ne_nil : p.fields ≠ [] := List.append_ne_nil_of_right_ne_nil _ (List.cons_ne_nil _ _)

theorem getLast?_fields : p.fields.getLast? = some p.key := by
  rw [fields, List.getLast?_append_of_ne_nil _ (List.cons_ne_nil _ _)]
  rfl

/-- **The fields are what the text is split into**, commas after it or not. -/
theorem split_text (k : ℕ) : Fields.split ',' (p.text ++ List.replicate k ',') = p.fields := by
  refine Fields.split_join p.fields_ne_nil p.comma_notMem (fun f hf => ?_) k
  rw [p.getLast?_fields, Option.mem_some_iff] at hf
  exact hf ▸ p.key_ne_nil

/-- A text with commas after it is no text of the format. -/
theorem text_append_ne (q : Payload J) (k : ℕ) :
    q.text ≠ p.text ++ List.replicate (k + 1) ',' := by
  intro heq
  have hq := q.split_text 0
  rw [List.replicate_zero, List.append_nil, heq, p.split_text] at hq
  have hlen := congrArg List.length heq
  rw [text, text, hq, List.length_append, List.length_replicate] at hlen
  omega

/-- **What is split into three fields or more, with a port in its place, is a text of the format**
with commas after it. -/
theorem exists_of_split {s : List Char} {ips : List (List Char)} {portField key : List Char}
    {port : ℤ} (h : Fields.split ',' s = ips ++ [portField, key]) (hips : ips ≠ [])
    (hport : J.parseInt portField = some port) :
    ∃ (p : Payload J) (k : ℕ), p.text ++ List.replicate k ',' = s := by
  have hne : ips ++ [portField, key] ≠ [] :=
    List.append_ne_nil_of_right_ne_nil _ (List.cons_ne_nil _ _)
  have hs : s ≠ [] := by
    rintro rfl
    have hlen := congrArg List.length h
    have hpos := List.length_pos_iff.mpr hips
    rw [Fields.split, if_pos rfl, List.length_append] at hlen
    simp at hlen
  obtain ⟨hcomma, hlast, k, hk⟩ := Fields.exists_eq_join_of_split h hne hs
  have hkey : key ≠ [] := hlast key (by simp)
  exact ⟨⟨ips, portField, port, key, hips, hcomma, hport, hkey⟩, k, hk.symm⟩

end Payload

/-! ## The loop -/

namespace ConnectActivity

variable (J : JavaLibrary) (executor : ℕ → Option JavaException) (port : ℤ) (key : List Char)

/-- Some clients accepted by the executor, one after the other. -/
def executeAll (a : ConnectActivity) (clients : List Desktop) : ConnectActivity :=
  { a with
    mTcpClients := a.mTcpClients ++ clients
    started := a.started ++ clients }

theorem executeAll_nil (a : ConnectActivity) : a.executeAll [] = a := by
  rw [executeAll, List.append_nil, List.append_nil]

theorem executeAll_cons (a : ConnectActivity) (client : Desktop) (clients : List Desktop) :
    a.executeAll (client :: clients) = (a.execute client).executeAll clients := by
  simp only [executeAll, execute, List.append_assoc, List.singleton_append]

/-- An executor that takes all tasks gets a client for each address. -/
theorem startClients_of_accepts {i : ℕ} {ips : List (List Char)}
    (h : ∀ j < ips.length, executor (i + j) = none) (a : ConnectActivity) :
    startClients executor port key i ips a
      = (a.executeAll (ips.map fun ip => ⟨ip, port, key⟩), none) := by
  induction ips generalizing i a with
  | nil => rw [startClients, List.map_nil, executeAll_nil]
  | cons ip ips ih =>
    have hi : executor i = none := h 0 (Nat.succ_pos _)
    have hrest : ∀ j < ips.length, executor (i + 1 + j) = none := fun j hj => by
      have hj' := h (j + 1) (Nat.succ_lt_succ hj)
      rwa [Nat.add_right_comm, Nat.add_assoc]
    simp only [startClients, hi]
    rw [ih hrest, List.map_cons, executeAll_cons]

/-- An executor that refuses a task gets no client for the address. -/
theorem accepts_of_started {i : ℕ} {ips : List (List Char)} {a : ConnectActivity}
    (h : (startClients executor port key i ips a).1.started
      = a.started ++ ips.map fun ip => ⟨ip, port, key⟩) :
    ∀ j < ips.length, executor (i + j) = none := by
  induction ips generalizing i a with
  | nil => exact fun j hj => absurd hj (Nat.not_lt_zero j)
  | cons ip ips ih =>
    rw [startClients] at h
    split at h
    · exact absurd (List.self_eq_append_right.mp h) (List.cons_ne_nil _ _)
    · next hi =>
      have hrest := ih (h.trans (by simp only [execute, List.map_cons, List.append_assoc,
        List.singleton_append]))
      intro j hj
      cases j with
      | zero => exact hi
      | succ j =>
        have hj' := hrest j (Nat.lt_of_succ_lt_succ hj)
        rwa [Nat.add_right_comm] at hj'

/-- No client that was started is forgotten. -/
theorem isPrefix_startClients (i : ℕ) (ips : List (List Char)) (a : ConnectActivity) :
    a.started <+: (startClients executor port key i ips a).1.started := by
  induction ips generalizing i a with
  | nil => exact List.prefix_refl _
  | cons ip ips ih =>
    rw [startClients]
    split
    · exact List.prefix_refl _
    · exact (List.prefix_append _ _).trans (ih (i + 1) (a.execute ⟨ip, port, key⟩))

/-- The first address gets a client unless the executor refuses. -/
theorem started_startClients_ne {i : ℕ} {ips : List (List Char)} (hips : ips ≠ [])
    (hi : executor i = none) (a : ConnectActivity) :
    (startClients executor port key i ips a).1.started ≠ a.started := by
  obtain ⟨ip, ips, rfl⟩ := List.exists_cons_of_ne_nil hips
  intro heq
  simp only [startClients, hi] at heq
  have hlen := (isPrefix_startClients executor port key (i + 1) ips (a.execute ⟨ip, port, key⟩)).length_le
  rw [heq, execute, List.length_append] at hlen
  exact absurd hlen (Nat.not_succ_le_self _)

/-! ## One scan -/

/-- `SyncFailed` starts nothing, so what is started is what the `try` started. -/
theorem started_tryConnectToServers (a : ConnectActivity) (urls : Option (List Char)) :
    (tryConnectToServers J executor a urls).started
      = (connectToServers J executor a urls).1.started := by
  rw [tryConnectToServers]
  split
  · next h => rw [h]
  · next h => rw [h, syncFailed]

variable {J executor key}

/-- Three fields or more are addresses, a port and a key. -/
theorem exists_fields {parts : List (List Char)} (h : ¬ parts.length < 3) :
    ∃ ips portField key, ips ≠ [] ∧ parts = ips ++ [portField, key] := by
  rcases List.eq_nil_or_concat' parts with rfl | ⟨init, key, rfl⟩
  · exact absurd (Nat.zero_lt_succ 2) h
  rcases List.eq_nil_or_concat' init with rfl | ⟨ips, portField, rfl⟩
  · exact absurd (Nat.lt_add_of_pos_right (Nat.zero_lt_succ 1)) h
  refine ⟨ips, portField, key, ?_, List.append_assoc _ _ _⟩
  rintro rfl
  exact h (Nat.lt_succ_self 2)

/-- **The fields are taken by their position from the end.** -/
theorem connectToServers_of_split {s portField : List Char} {ips : List (List Char)}
    (h : Fields.split ',' s = ips ++ [portField, key]) (hips : ips ≠ []) (a : ConnectActivity) :
    connectToServers J executor a (some s)
      = match J.parseInt portField with
        | none => ({ a with mEncryptionKey := some key }, some (J.numberFormat portField))
        | some port =>
          startClients executor port key 0 ips { a with mEncryptionKey := some key } := by
  have hlen : ¬ (ips ++ [portField, key]).length < 3 := by
    have hpos := List.length_pos_iff.mpr hips
    rw [List.length_append, List.length_cons, List.length_cons, List.length_nil]
    omega
  simp only [connectToServers, h, dif_neg hlen]
  simp

/-- Of fields with no port in its place nothing is started, and `SyncFailed` is called once. -/
theorem tryConnectToServers_of_noPort {s : List Char}
    (h : ∀ ips portField key, ips ≠ [] → Fields.split ',' s = ips ++ [portField, key] →
      J.parseInt portField = none) (a : ConnectActivity) :
    (tryConnectToServers J executor a (some s)).started = a.started ∧
      ∃ m, (tryConnectToServers J executor a (some s)).failures = a.failures ++ [m] := by
  by_cases hlen : (Fields.split ',' s).length < 3
  · simp only [tryConnectToServers, connectToServers, dif_pos hlen]
    exact ⟨rfl, _, rfl⟩
  · obtain ⟨ips, portField, key, hips, hs⟩ := exists_fields hlen
    have hport := h ips portField key hips hs
    rw [tryConnectToServers, connectToServers_of_split hs hips, hport]
    exact ⟨rfl, _, rfl⟩

/-- **A text of the format is read as its fields**, commas after it or not. -/
theorem connectToServers_commas (p : Payload J) (k : ℕ) (a : ConnectActivity) :
    connectToServers J executor a (some (p.text ++ List.replicate k ','))
      = startClients executor p.port p.key 0 p.ips { a with mEncryptionKey := some p.key } := by
  rw [connectToServers_of_split (p.split_text k) p.ips_ne_nil, p.parseInt_portField]

theorem connectToServers_text (p : Payload J) (a : ConnectActivity) :
    connectToServers J executor a (some p.text)
      = startClients executor p.port p.key 0 p.ips { a with mEncryptionKey := some p.key } := by
  rw [← connectToServers_commas p 0, List.replicate_zero, List.append_nil]

/-- Nothing of it is started if the first client is refused. -/
theorem tryConnectToServers_of_refused (p : Payload J) (k : ℕ) {e : JavaException}
    (he : executor 0 = some e) (a : ConnectActivity) :
    (tryConnectToServers J executor a (some (p.text ++ List.replicate k ','))).started
        = a.started ∧
      ∃ m, (tryConnectToServers J executor a (some (p.text ++ List.replicate k ','))).failures
        = a.failures ++ [m] := by
  obtain ⟨ip, ips, hips⟩ := List.exists_cons_of_ne_nil p.ips_ne_nil
  rw [tryConnectToServers, connectToServers_commas, hips]
  simp only [startClients, he]
  exact ⟨rfl, _, rfl⟩

/-- **A text that is not of the format, with commas after it or not, starts nothing**; nor does one
that is, if the first client is refused. -/
theorem nothing_started {s : List Char}
    (h : ∀ (p : Payload J) (k : ℕ), p.text ++ List.replicate k ',' = s → executor 0 ≠ none)
    (a : ConnectActivity) :
    (tryConnectToServers J executor a (some s)).started = a.started ∧
      ∃ m, (tryConnectToServers J executor a (some s)).failures = a.failures ++ [m] := by
  by_cases hs : ∃ (p : Payload J) (k : ℕ), p.text ++ List.replicate k ',' = s
  · obtain ⟨p, k, rfl⟩ := hs
    obtain ⟨e, he⟩ := Option.ne_none_iff_exists'.mp (h p k rfl)
    exact tryConnectToServers_of_refused p k he a
  · refine tryConnectToServers_of_noPort (fun ips portField key hips hsplit => ?_) a
    by_contra hport
    obtain ⟨port, hport⟩ := Option.ne_none_iff_exists'.mp hport
    obtain ⟨p, k, hp⟩ := Payload.exists_of_split hsplit hips hport
    exact hs ⟨p, k, hp⟩

/-- **Of a text of the format every address gets a client, and nothing fails**, if the executor
takes them. -/
theorem tryConnectToServers_text (p : Payload J) (h : ∀ i < p.ips.length, executor i = none)
    (a : ConnectActivity) :
    tryConnectToServers J executor a (some p.text)
      = { a with mEncryptionKey := some p.key }.executeAll p.clients := by
  have haccepts : ∀ i < p.ips.length, executor (0 + i) = none := by
    simpa only [Nat.zero_add] using h
  rw [tryConnectToServers, connectToServers_text, startClients_of_accepts _ _ _ haccepts]
  rfl

/-- Those are the clients of a new attempt. -/
theorem clients_text {F : Type*} (p : Payload J) (h : ∀ i < p.ips.length, executor i = none)
    {a : ConnectActivity} (ha : a.mTcpClients = []) :
    (tryConnectToServers J executor a (some p.text)).mTcpClients.map Desktop.client
      = List.ofFn (Connections.start (F := F) p.ips.length p.key).clients := by
  rw [tryConnectToServers_text p h, executeAll, ha, List.nil_append, Payload.clients,
    List.map_map]
  simp [Connections.start, Desktop.client, Function.comp_def, List.map_const']

/-! ## Exactly the format -/

/-- Of the texts it scans the activity takes those of the format: it starts a client for each of
their addresses, and of any other text none, with one call of `SyncFailed`. -/
def ReadsExactly (J : JavaLibrary) (executor : ℕ → Option JavaException) (a : ConnectActivity)
    (s : List Char) : Prop :=
  ((tryConnectToServers J executor a (some s)).started ≠ a.started ↔
      ∃ p : Payload J, p.text = s) ∧
    (∀ p : Payload J, p.text = s →
      (tryConnectToServers J executor a (some s)).started = a.started ++ p.clients) ∧
    ((∀ p : Payload J, p.text ≠ s) →
      (tryConnectToServers J executor a (some s)).started = a.started ∧
        ∃ m, (tryConnectToServers J executor a (some s)).failures = a.failures ++ [m])

/-- The executor takes the clients of a text of the format; and the text is not one of the format
with commas after it, unless the executor refuses its first client. -/
def NoCommasAfter (J : JavaLibrary) (executor : ℕ → Option JavaException) (s : List Char) : Prop :=
  (∀ p : Payload J, p.text = s → ∀ i < p.ips.length, executor i = none) ∧
    ∀ (p : Payload J) (k : ℕ), p.text ++ List.replicate (k + 1) ',' = s → executor 0 ≠ none

/-- A text with commas after it starts clients, though it is not of the format. -/
theorem not_readsExactly_of_commas (p : Payload J) (k : ℕ) (h : executor 0 = none)
    (a : ConnectActivity) :
    ¬ ReadsExactly J executor a (p.text ++ List.replicate (k + 1) ',') := by
  rintro ⟨-, -, hother⟩
  have hnothing := (hother fun q => p.text_append_ne q k).1
  rw [started_tryConnectToServers, connectToServers_commas] at hnothing
  exact started_startClients_ne executor p.port p.key p.ips_ne_nil h
    { a with mEncryptionKey := some p.key } hnothing

/-- **Exactly the format starts clients, but for the formats with commas after them.** -/
theorem readsExactly_iff (J : JavaLibrary) (executor : ℕ → Option JavaException)
    (a : ConnectActivity) (s : List Char) :
    ReadsExactly J executor a s ↔ NoCommasAfter J executor s := by
  constructor
  · refine fun hreads => ⟨fun p hp i hi => ?_, fun p k hs h0 => ?_⟩
    · have hstarted := hreads.2.1 p hp
      rw [started_tryConnectToServers, ← hp, connectToServers_text] at hstarted
      have haccepts := accepts_of_started executor p.port p.key hstarted i hi
      rwa [Nat.zero_add] at haccepts
    · exact not_readsExactly_of_commas p k h0 a (hs ▸ hreads)
  · rintro ⟨hall, hcommas⟩
    have hpayload : ∀ p : Payload J, p.text = s →
        (tryConnectToServers J executor a (some s)).started = a.started ++ p.clients := by
      rintro p rfl
      rw [tryConnectToServers_text p (hall p rfl)]
      rfl
    have hother : (∀ p : Payload J, p.text ≠ s) →
        (tryConnectToServers J executor a (some s)).started = a.started ∧
          ∃ m, (tryConnectToServers J executor a (some s)).failures = a.failures ++ [m] := by
      refine fun hne => nothing_started (fun p k hs => ?_) a
      cases k with
      | zero => exact absurd (by rw [← hs, List.replicate_zero, List.append_nil]) (hne p)
      | succ k => exact hcommas p k hs
    refine ⟨⟨fun hstarted => ?_, ?_⟩, hpayload, hother⟩
    · by_contra hs
      exact hstarted (hother fun p hp => hs ⟨p, hp⟩).1
    · rintro ⟨p, hp⟩ heq
      rw [hpayload p hp] at heq
      exact p.ips_ne_nil (List.map_eq_nil_iff.mp (List.append_right_eq_self.mp heq))

/-! ## A key field left empty -/

/-- A library that knows the digits of ASCII. -/
def asciiLibrary : JavaLibrary where
  digit c := if c.isDigit then some (c.toNat - '0'.toNat) else none
  nullPointer := ⟨none⟩
  numberFormat s := ⟨some ("For input string: \"" ++ String.ofList s ++ "\"")⟩

/-- The activity as it is created. -/
def opened : ConnectActivity := ⟨none, [], none, [], [], []⟩

/-- What the text of an empty key field is taken for. -/
def shortened : Payload asciiLibrary where
  ips := ["192.168.1.64".toList]
  portField := "4321".toList
  port := 4321
  key := "4322".toList
  ips_ne_nil := List.cons_ne_nil _ _
  comma_notMem := by decide
  parseInt_portField := by decide
  key_ne_nil := by decide

/-- Two addresses, the second of them `4321`, the port `4322` and no key: a client is started for
the first address, with `4322` as its key. -/
theorem not_readsExactly_emptyKey :
    ¬ ReadsExactly asciiLibrary (fun _ => none) opened "192.168.1.64,4321,4322,".toList :=
  not_readsExactly_of_commas shortened 0 rfl opened

end ConnectActivity

end Kryptan
