import Kryptan.Core.SecureString
import Mathlib.Data.Set.Insert

/-!
# Net/TcpClient — one worker, between a server and the UI thread

    connect ─▸ read … '#' ─▸ HandleRead ─▸ mLock.wait ─▸ _sendMessage ─▸ close ─▸ FINISHED
                 │               │             │               │            │
                 ╰── return null ┴───────────  exceptions ─────┴────────────╯

`doInBackground` runs on a thread of its own; `stopClient`, `sendMergedPwdFile` and the listener
run on the UI thread, between any two of its steps.  `work` is one step of the worker; what the
socket and the scheduler do with it is its `Outcome`.  Every exit of the worker ends in the same
`onPostExecute`, which tells them apart by `mError` alone.
-/

namespace Kryptan

open CoreSecureStringHandler

/-- The native methods of `CorePwdFile` that a sync calls, for files with contents in `F`. -/
structure PwdFileNatives (F : Type*) where
  /-- `TryOpenAndParse` on a file with the given text: `none` if it is not open afterwards. -/
  tryOpenAndParse : (masterkey : SecureString) → (data : List Char) → Option F
  /-- `SaveToString`, with the randomness the encryption draws. -/
  saveToString : (file : F) → (masterkey : SecureString) → (mashCount : ℕ) → (seed : ℕ) → List Char

/-- `mState`. -/
inductive STATES where
  | init
  | reading
  | decrypting
  | waiting
  | sending
  | finished
  deriving DecidableEq, Repr

/-- How the inner `try` was left while `socket.close()` is called. -/
inductive Exit where
  | returns
  | fallsThrough
  | throws (message : String)
  deriving DecidableEq, Repr

/-- The next statement of `doInBackground`.  The statements `mState = s; publishProgress();` are
`setState s` and `publish s`. -/
inductive WorkerPc where
  | notStarted
  | setRun
  | connect
  | openOut
  | openIn
  | setState (s : STATES)
  | publish (s : STATES)
  | loop
  | read
  | afterLoop
  | handleRead
  | lock
  | waiting
  | afterWait
  | checkBuffer
  | encrypt
  | print (messageToSend : List Char)
  | closing (exit : Exit)
  | returning
  | done
  deriving DecidableEq, Repr

/-- What the socket has seen: the characters taken from it, those it took, and whether a write
failed, which is the flag behind `checkError`. -/
structure Socket where
  read : List Char
  accepted : List Char
  trouble : Bool
  deriving DecidableEq, Repr

/-- A `TcpClient`.  Of the listener and the two buffers it matters whether they are null. -/
structure TcpClient (F : Type*) where
  mEncryptionKey : List Char
  mMessageListener : Bool
  mRun : Bool
  mBufferOut : Bool
  mBufferIn : Bool
  mFileToSend : Option F
  mNewFile : Option F
  mError : Option String
  mState : STATES
  serverMessage : List Char
  isCancelled : Bool
  socket : Socket
  pc : WorkerPc

/-- What the UI thread finds in its queue from a client.  A progress message says nothing; which
state it was published for is kept for the statements only. -/
inductive Message where
  | progress (publishedFor : STATES)
  | result
  deriving DecidableEq, Repr

/-- What comes of a step.  `ok` also ends a wait, with or without a reason; `writeError k` is a
write that fails once the stream has taken `k` characters. -/
inductive Outcome where
  | ok
  | char (ch : Char)
  | eof
  | saved (seed : ℕ)
  | writeError (k : ℕ)
  | throws (message : String)
  deriving DecidableEq, Repr

namespace TcpClient

variable {F : Type*}

/-- The constructor. -/
def new (encryptionkey : List Char) : TcpClient F where
  mEncryptionKey := encryptionkey
  mMessageListener := true
  mRun := false
  mBufferOut := false
  mBufferIn := false
  mFileToSend := none
  mNewFile := none
  mError := none
  mState := .init
  serverMessage := []
  isCancelled := false
  socket := ⟨[], [], false⟩
  pc := .notStarted

/-! ## On the UI thread -/

/-- `sendMergedPwdFile`; the worker in `waiting` may go on. -/
def sendMergedPwdFile (c : TcpClient F) (toSend : F) : TcpClient F :=
  { c with mFileToSend := some toSend }

/-- `stopClient`. -/
def stopClient (c : TcpClient F) : TcpClient F :=
  { c with
    mRun := false
    isCancelled := true
    mMessageListener := false
    mBufferIn := false
    mBufferOut := false }

/-- The test of `onPostExecute`: `mError != null && mError.length() > 0`. -/
def hasError (c : TcpClient F) : Bool := c.mError.any fun m => 0 < m.length

/-! ## The worker -/

/-- The master key of a file that is sent or received: cleared, then the transmission key. -/
def transmissionKey (c : TcpClient F) : SecureString :=
  appendString newSecureString c.mEncryptionKey

/-- Where `doInBackground` goes on after it published a state.  It never publishes `INIT`. -/
def afterPublish : STATES → WorkerPc
  | .reading => .loop
  | .decrypting => .handleRead
  | .waiting => .lock
  | .sending => .checkBuffer
  | .finished | .init => .returning

/-- On to the statement `pc`. -/
def goto (c : TcpClient F) (pc : WorkerPc) : TcpClient F := { c with pc := pc }

/-- `mError = …; return null;` inside the inner `try`. -/
def returnsError (c : TcpClient F) (message : String) : TcpClient F :=
  { c with mError := some message, pc := .closing .returns }

/-- `catch(Exception e)`: `e.getMessage()` goes into `mError`. -/
def caught (c : TcpClient F) (message : String) : TcpClient F :=
  { c with mError := some ("Failed: " ++ message), pc := .setState .finished }

/-- The body of the loop, once it has read a character. -/
def readChar (c : TcpClient F) (ch : Char) : TcpClient F :=
  let socket := { c.socket with read := c.socket.read ++ [ch] }
  if ch = '#' then { c with socket := socket, pc := .afterLoop }
  else { c with socket := socket, serverMessage := c.serverMessage ++ [ch], pc := .loop }

/-- `HandleRead`, when it does not throw. -/
def handleRead (N : PwdFileNatives F) (c : TcpClient F) : TcpClient F :=
  match N.tryOpenAndParse c.transmissionKey c.serverMessage with
  | some newFile => { c with mNewFile := some newFile, pc := .setState .waiting }
  | none => c.returnsError "Failed to decrypt data"

/-- The stream takes some characters, and may fail. -/
def writes (c : TcpClient F) (chars : List Char) (fails : Bool) : TcpClient F :=
  { c with socket := { c.socket with
      accepted := c.socket.accepted ++ chars, trouble := c.socket.trouble || fails } }

/-- A statement that comes back, and the messages it puts into the queue of the UI thread. -/
def advance (N : PwdFileNatives F) (c : TcpClient F) : Option (TcpClient F × List Message) :=
  match c.pc with
  | .notStarted => some (c.goto (if c.isCancelled then .returning else .setRun), [])
  | .setRun => some ({ c with mRun := true, pc := .connect }, [])
  | .connect => some (c.goto .openOut, [])
  | .openOut => some ({ c with mBufferOut := true, pc := .openIn }, [])
  | .openIn => some ({ c with mBufferIn := true, pc := .setState .reading }, [])
  | .setState s => some ({ c with mState := s, pc := .publish s }, [])
  | .publish s => some (c.goto (afterPublish s), if c.isCancelled then [] else [.progress s])
  | .loop => some (c.goto (if c.mRun then .read else .afterLoop), [])
  | .afterLoop =>
    some (c.goto (if 0 < c.serverMessage.length then .setState .decrypting
      else .closing .fallsThrough), [])
  | .handleRead => some (c.handleRead N, [])
  | .lock => some (c.goto (if c.mFileToSend.isNone then .waiting else .afterWait), [])
  | .waiting => some (c.goto .afterWait, [])
  | .afterWait =>
    some (c.goto (if c.mRun then .setState .sending else .closing .fallsThrough), [])
  | .checkBuffer =>
    some (c.goto (if c.mBufferOut && !c.socket.trouble then .encrypt
      else .closing .fallsThrough), [])
  | .print messageToSend =>
    if c.mBufferOut then
      some ((c.writes (messageToSend ++ ['#']) false).goto (.closing .fallsThrough), [])
    else none
  | .closing .returns => some (c.goto .returning, [])
  | .closing .fallsThrough => some (c.goto (.setState .finished), [])
  | .closing (.throws m) => some (c.caught m, [])
  | .returning => some (c.goto .done, [.result])
  -- these come back with something
  | .read | .encrypt => none
  | .done => none

/-- A statement that throws. -/
def throwing (c : TcpClient F) (message : String) : Option (TcpClient F) :=
  match c.pc with
  | .connect | .closing _ => some (c.caught message)
  | .handleRead => some (c.returnsError "Failed read")
  | .openOut | .openIn | .read | .waiting | .checkBuffer | .encrypt | .print _ =>
    some (c.goto (.closing (.throws message)))
  | _ => none

/-- A write that fails.  `checkError` flushes first. -/
def failing (c : TcpClient F) (k : ℕ) : Option (TcpClient F) :=
  if c.mBufferOut then
    match c.pc with
    | .checkBuffer => some ((c.writes [] true).goto (.closing .fallsThrough))
    | .print messageToSend =>
      some ((c.writes ((messageToSend ++ ['#']).take k) true).goto (.closing .fallsThrough))
    | _ => none
  else none

/-- One step of `doInBackground` and the messages it puts into the queue of the UI thread. -/
def work (N : PwdFileNatives F) (c : TcpClient F) : Outcome → Option (TcpClient F × List Message)
  | .ok => c.advance N
  | .char ch => if c.pc = .read ∧ c.mBufferIn then some (c.readChar ch, []) else none
  | .eof =>
    if c.pc = .read ∧ c.mBufferIn then some (c.returnsError "Failed read", []) else none
  | .saved seed =>
    match c.pc, c.mFileToSend with
    | .encrypt, some file =>
      some (c.goto (.print (N.saveToString file c.transmissionKey 100 seed)), [])
    | _, _ => none
  | .writeError k => (c.failing k).map (·, [])
  | .throws m => (c.throwing m).map (·, [])

/-! ## What a step is -/

/-- A step, by what it does: a statement comes back, or it is one of the exits and exceptions, the
`read` of a character, the `SaveToString` of a file. -/
inductive WorkStep (N : PwdFileNatives F) (c : TcpClient F) :
    TcpClient F → List Message → Prop where
  | advance {c' msgs} (h : c.advance N = some (c', msgs)) : WorkStep N c c' msgs
  | readChar (hpc : c.pc = .read) (ch : Char) : WorkStep N c (c.readChar ch) []
  | failedRead (hpc : c.pc = .read ∨ c.pc = .handleRead) :
    WorkStep N c (c.returnsError "Failed read") []
  | encrypt (hpc : c.pc = .encrypt) {file} (hfile : c.mFileToSend = some file) (seed : ℕ) :
    WorkStep N c (c.goto (.print (N.saveToString file c.transmissionKey 100 seed))) []
  | failedWrite (hpc : c.pc = .checkBuffer ∨ ∃ text, c.pc = .print text) (chars : List Char) :
    WorkStep N c ((c.writes chars true).goto (.closing .fallsThrough)) []
  | throws (m : String) : WorkStep N c (c.goto (.closing (.throws m))) []
  | caught (m : String) : WorkStep N c (c.caught m) []

theorem workStep_of_failing {N : PwdFileNatives F} {c c' : TcpClient F} {k : ℕ}
    (h : c.failing k = some c') : WorkStep N c c' [] := by
  obtain ⟨-, h⟩ := Option.ite_none_right_eq_some.mp h
  split at h
  · next hpc => exact Option.some.inj h ▸ .failedWrite (.inl hpc) _
  · next text hpc => exact Option.some.inj h ▸ .failedWrite (.inr ⟨text, hpc⟩) _
  · exact absurd h.symm (Option.some_ne_none _)

theorem workStep_of_throwing {N : PwdFileNatives F} {c c' : TcpClient F} {m : String}
    (h : c.throwing m = some c') : WorkStep N c c' [] := by
  unfold throwing at h
  split at h
  case h_3 hpc => exact Option.some.inj h ▸ .failedRead (.inr hpc)
  all_goals first
    | exact Option.some.inj h ▸ .caught m
    | exact Option.some.inj h ▸ .throws m
    | exact absurd h.symm (Option.some_ne_none _)

/-- **Every step is one of these.** -/
theorem workStep_of_work {N : PwdFileNatives F} {c c' : TcpClient F} {o : Outcome}
    {msgs : List Message} (h : c.work N o = some (c', msgs)) : WorkStep N c c' msgs := by
  cases o with
  | ok => exact .advance h
  | char ch =>
    obtain ⟨hpc, heq⟩ := Option.ite_none_right_eq_some.mp h
    obtain ⟨rfl, rfl⟩ := Prod.mk.inj (Option.some.inj heq)
    exact .readChar hpc.1 ch
  | eof =>
    obtain ⟨hpc, heq⟩ := Option.ite_none_right_eq_some.mp h
    obtain ⟨rfl, rfl⟩ := Prod.mk.inj (Option.some.inj heq)
    exact .failedRead (.inl hpc.1)
  | saved seed =>
    unfold work at h
    dsimp only at h
    split at h
    · next hpc hfile =>
      obtain ⟨rfl, rfl⟩ := Prod.mk.inj (Option.some.inj h)
      exact .encrypt hpc hfile seed
    · exact absurd h.symm (Option.some_ne_none _)
  | writeError k =>
    obtain ⟨d, hd, heq⟩ := Option.map_eq_some_iff.mp h
    obtain ⟨rfl, rfl⟩ := Prod.mk.inj heq
    exact workStep_of_failing hd
  | throws m =>
    obtain ⟨d, hd, heq⟩ := Option.map_eq_some_iff.mp h
    obtain ⟨rfl, rfl⟩ := Prod.mk.inj heq
    exact workStep_of_throwing hd

/-! ## What a step leaves alone -/

/-- `c'` is `c` up to what the worker alone writes. -/
structure SameUi (c c' : TcpClient F) : Prop where
  mEncryptionKey : c'.mEncryptionKey = c.mEncryptionKey
  mMessageListener : c'.mMessageListener = c.mMessageListener
  mFileToSend : c'.mFileToSend = c.mFileToSend
  isCancelled : c'.isCancelled = c.isCancelled

/-- `c'` is `c` up to what the UI thread may write. -/
structure SameWorker (c c' : TcpClient F) : Prop where
  mEncryptionKey : c'.mEncryptionKey = c.mEncryptionKey
  socket : c'.socket = c.socket
  pc : c'.pc = c.pc

theorem SameWorker.refl (c : TcpClient F) : SameWorker c c := ⟨rfl, rfl, rfl⟩

theorem sameWorker_stopClient (c : TcpClient F) : SameWorker c c.stopClient := ⟨rfl, rfl, rfl⟩

theorem sameWorker_sendMergedPwdFile (c : TcpClient F) (g : F) :
    SameWorker c (c.sendMergedPwdFile g) := ⟨rfl, rfl, rfl⟩

theorem sameUi_readChar (c : TcpClient F) (ch : Char) : SameUi c (c.readChar ch) := by
  unfold readChar
  split <;> exact ⟨rfl, rfl, rfl, rfl⟩

theorem sameUi_handleRead (N : PwdFileNatives F) (c : TcpClient F) : SameUi c (c.handleRead N) := by
  unfold handleRead
  split <;> exact ⟨rfl, rfl, rfl, rfl⟩

/-- A statement that comes back leaves the listener, the file to send and the cancellation to the
UI thread. -/
theorem sameUi_of_advance {N : PwdFileNatives F} {c c' : TcpClient F} {msgs : List Message}
    (h : c.advance N = some (c', msgs)) : SameUi c c' := by
  revert h
  fun_cases advance N c <;> intro h <;>
    simp only [Option.some.injEq, Prod.mk.injEq, reduceCtorEq] at h <;> obtain ⟨rfl, rfl⟩ := h
  all_goals first
    | exact sameUi_handleRead N c
    | exact ⟨rfl, rfl, rfl, rfl⟩

/-- So does every step of the worker. -/
theorem sameUi_of_work {N : PwdFileNatives F} {c c' : TcpClient F} {o : Outcome}
    {msgs : List Message} (h : c.work N o = some (c', msgs)) : SameUi c c' := by
  cases workStep_of_work h with
  | advance h => exact sameUi_of_advance h
  | readChar _ ch => exact sameUi_readChar c ch
  | _ => exact ⟨rfl, rfl, rfl, rfl⟩

/-! ## The end of a worker -/

/-- A worker that is done takes no step. -/
theorem pc_ne_done_of_work {N : PwdFileNatives F} {c c' : TcpClient F} {o : Outcome}
    {msgs : List Message} (h : c.work N o = some (c', msgs)) : c.pc ≠ .done := by
  intro hdone
  cases o <;> simp [work, advance, failing, throwing, hdone] at h

/-- The result is what a worker leaves behind when it is done. -/
theorem pc_eq_done_of_result {N : PwdFileNatives F} {c c' : TcpClient F} {o : Outcome}
    {msgs : List Message} (h : c.work N o = some (c', msgs)) (hresult : .result ∈ msgs) :
    c'.pc = .done := by
  cases workStep_of_work h with
  | advance h =>
    revert h
    fun_cases advance N c <;> intro h <;>
      simp only [Option.some.injEq, Prod.mk.injEq, reduceCtorEq] at h <;> obtain ⟨rfl, rfl⟩ := h
    all_goals first
      | rfl
      | exact absurd hresult List.not_mem_nil
      | split at hresult <;> simp at hresult
  | _ => exact absurd hresult List.not_mem_nil

end TcpClient

end Kryptan
