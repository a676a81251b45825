import Kryptan.Machinery.Runs
import Kryptan.Net.TcpClient
import Mathlib.Data.Finset.Option
import Mathlib.Data.Fintype.Basic
import Mathlib.Logic.Function.Basic

/-!
# Net/Connections — the clients of one attempt and the activity that listens to them

    worker c ──publishProgress / result──▸ queue ──▸ UI thread ──▸ tcpClientPwdFileReceived, …
        ▴                                                 │
        ╰──────────── stopClient, sendMergedPwdFile ──────╯

The QR code names several addresses of one desktop, and `SyncronizeDesktopActivity` starts a
`TcpClient` for each.  The first that has a password file to show is the responsive one; the others
are stopped.  A message tells the UI thread only *whose* it is: `onProgressUpdate` looks at the
`mState` the worker has reached by the time it is delivered.

`received`, `handed`, `finished` and `errors` record the calls made, the latest first.
-/

namespace Kryptan

open Runs

/-- The clients, the queue of the UI thread, and the activity. -/
structure Connections (n : ℕ) (F : Type*) where
  clients : Fin n → TcpClient F
  queue : List (Fin n × Message)
  mTcpClients : Finset (Fin n)
  mTcpClientResponsive : Option (Fin n)
  received : List (Fin n × Option F)
  handed : List (Fin n × F)
  finished : List (Fin n)
  errors : List String

/-- What happens: a worker takes a step, the UI thread takes the next message from its queue, the
user accepts the choices or cancels.  The handler of a message may throw, and so may applying the
choices. -/
inductive ConnectionsEvent (n : ℕ) (F : Type*) where
  | work (c : Fin n) (o : Outcome)
  | deliver (throws : Option String)
  | accept (merged : Except String F)
  | cancel

namespace Connections

variable {n : ℕ} {F : Type*}

/-- `tryConnectToServers`, once the QR code is read: a client for each of `n` addresses. -/
def start (n : ℕ) (mEncryptionKey : List Char) : Connections n F where
  clients := fun _ => .new mEncryptionKey
  queue := []
  mTcpClients := Finset.univ
  mTcpClientResponsive := none
  received := []
  handed := []
  finished := []
  errors := []

/-! ## The handlers of the activity -/

/-- `stopClient` on some clients, one after the other. -/
def stopClients (s : Connections n F) (cs : Finset (Fin n)) : Connections n F :=
  { s with clients := fun d => if d ∈ cs then (s.clients d).stopClient else s.clients d }

/-- `SyncFailed`. -/
def syncFailed (s : Connections n F) (message : String) : Connections n F :=
  { s.stopClients (s.mTcpClients ∪ s.mTcpClientResponsive.toFinset) with
    mTcpClients := ∅
    mTcpClientResponsive := none
    errors := message :: s.errors }

/-- `tcpClientPwdFileReceived`, which may throw once it has stopped the other clients. -/
def tcpClientPwdFileReceived (s : Connections n F) (client : Fin n) (newFile : Option F)
    (throws : Option String) : Connections n F :=
  let s := { s.stopClients (s.mTcpClients.erase client) with
    mTcpClients := ∅
    mTcpClientResponsive := some client
    received := (client, newFile) :: s.received }
  throws.elim s s.syncFailed

/-- `tcpClientFailed`. -/
def tcpClientFailed (s : Connections n F) (client : Fin n) (message : String) :
    Connections n F :=
  let s := { s.stopClients {client} with mTcpClients := s.mTcpClients.erase client }
  if s.mTcpClients = ∅ then s.syncFailed message else s

/-- `tcpClientFinished`. -/
def tcpClientFinished (s : Connections n F) (client : Fin n) : Connections n F :=
  { s with finished := client :: s.finished }

/-- `sendResponseButtonClicked`, with what comes of applying the choices. -/
def sendResponseButtonClicked (s : Connections n F) : Except String F → Connections n F
  | .error message => s.syncFailed message
  | .ok mLocalPwdFile =>
    match s.mTcpClientResponsive with
    | none => s.syncFailed "null"
    | some c =>
      { s with
        clients := Function.update s.clients c ((s.clients c).sendMergedPwdFile mLocalPwdFile)
        handed := (c, mLocalPwdFile) :: s.handed }

/-- `onProgressUpdate` of a client. -/
def onProgressUpdate (s : Connections n F) (c : Fin n) (throws : Option String) :
    Connections n F :=
  if (s.clients c).mMessageListener then
    match (s.clients c).mState with
    | .waiting => s.tcpClientPwdFileReceived c (s.clients c).mNewFile throws
    -- tcpClientProgressChanged changes the text of the dialog
    | .init | .reading | .decrypting | .sending | .finished => s
  else s

/-- `onPostExecute` of a client. -/
def onPostExecute (s : Connections n F) (c : Fin n) : Connections n F :=
  if (s.clients c).mMessageListener then
    if (s.clients c).hasError then s.tcpClientFailed c ((s.clients c).mError.getD "")
    else s.tcpClientFinished c
  else s

/-- The UI thread handles a message.  The result of a cancelled task goes unnoticed. -/
def handleMessage (s : Connections n F) (c : Fin n) (throws : Option String) :
    Message → Connections n F
  | .progress _ => s.onProgressUpdate c throws
  | .result => if (s.clients c).isCancelled then s else s.onPostExecute c

/-- One event.  The button that accepts the choices is shown once a file was received. -/
def step (N : PwdFileNatives F) (s : Connections n F) :
    ConnectionsEvent n F → Option (Connections n F)
  | .work c o =>
    ((s.clients c).work N o).map fun r =>
      { s with
        clients := Function.update s.clients c r.1
        queue := s.queue ++ r.2.map (Prod.mk c) }
  | .deliver throws =>
    match s.queue with
    | [] => none
    | (c, message) :: queue => some ({ s with queue := queue }.handleMessage c throws message)
  | .accept merged =>
    if s.received.isEmpty then none else some (s.sendResponseButtonClicked merged)
  | .cancel => some (s.syncFailed "sync_desktop_cancelled")

/-! ## What an event is -/

theorem deliver_eq_some {N : PwdFileNatives F} {s t : Connections n F} {throws : Option String}
    (h : s.step N (.deliver throws) = some t) :
    ∃ c message queue, s.queue = (c, message) :: queue ∧
      t = { s with queue := queue }.handleMessage c throws message := by
  unfold step at h
  dsimp only at h
  split at h
  · exact absurd h.symm (Option.some_ne_none t)
  · next c message queue hqueue => exact ⟨c, message, queue, hqueue, (Option.some.inj h).symm⟩

theorem accept_eq_some {N : PwdFileNatives F} {s t : Connections n F} {merged : Except String F}
    (h : s.step N (.accept merged) = some t) : t = s.sendResponseButtonClicked merged := by
  unfold step at h
  dsimp only at h
  split_ifs at h
  exact (Option.some.inj h).symm

/-! ## What stopping some clients does to one of them -/

/-- A stopped client stays stopped. -/
theorem isCancelled_stopClients {s : Connections n F} {cs : Finset (Fin n)} {d : Fin n} :
    ((s.stopClients cs).clients d).isCancelled = false ↔
      d ∉ cs ∧ (s.clients d).isCancelled = false := by
  unfold stopClients
  by_cases h : d ∈ cs
  · simp [h, TcpClient.stopClient]
  · simp [h]

/-- A client that has not been stopped is as it was. -/
theorem clients_stopClients {s : Connections n F} {cs : Finset (Fin n)} {d : Fin n}
    (h : d ∉ cs) : (s.stopClients cs).clients d = s.clients d := if_neg h

/-- The worker of a stopped client stands where it stood. -/
theorem sameWorker_stopClients (s : Connections n F) (cs : Finset (Fin n)) (d : Fin n) :
    (s.clients d).SameWorker ((s.stopClients cs).clients d) := by
  unfold stopClients
  dsimp only
  split
  · exact TcpClient.sameWorker_stopClient _
  · exact TcpClient.SameWorker.refl _

/-! ## A desktop that behaves -/

/-- Files that are written as the key, byte by byte, and their contents. -/
def plainFiles : PwdFileNatives (List Char) where
  tryOpenAndParse key data :=
    let keyChars := key.map fun b => Char.ofNat b.toNat
    if keyChars.isPrefixOf data then some (data.drop keyChars.length) else none
  saveToString file key _ _ := key.map (fun b => Char.ofNat b.toNat) ++ file

/-- Steps of the only worker. -/
def workerSteps (os : List Outcome) : List (ConnectionsEvent 1 (List Char)) :=
  os.map (ConnectionsEvent.work 0)

/-- A desktop sends a password file and gets one back. -/
def plainExchange : List (ConnectionsEvent 1 (List Char)) := List.flatten
  [workerSteps (List.replicate 8 .ok),
    workerSteps [.char 'k', .ok, .char 'a', .ok, .char '#'], [.deliver none],
    workerSteps [.ok, .ok, .ok], [.deliver none],
    workerSteps [.ok, .ok, .ok, .ok], [.deliver none, .accept (.ok ['b'])],
    workerSteps [.ok, .ok, .ok, .ok, .ok, .saved 0, .ok, .ok, .ok, .ok, .ok],
    List.replicate 3 (.deliver none)]

end Connections

end Kryptan
