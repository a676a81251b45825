import Kryptan.Machinery.Runs
import Kryptan.Machinery.Matching
import Kryptan.Machinery.Ticked
import Kryptan.Machinery.Ranges
import Kryptan.Machinery.Fields
import Kryptan.Core.SecureString
import Kryptan.Core.SPointer
import Kryptan.Core.Handlers
import Kryptan.Core.PwdList
import Kryptan.Core.Filter
import Kryptan.Ui.Keyboard
import Kryptan.Ui.Saving
import Kryptan.Ui.SecretAdapter
import Kryptan.Ui.LabelFilter
import Kryptan.Ui.LabelEditor
import Kryptan.Ui.SecureTextView
import Kryptan.Net.TcpClient
import Kryptan.Net.MasterKey
import Kryptan.Net.Connections
import Kryptan.Net.QrCode
import Kryptan.Net.Stages
import Kryptan.Net.Exchange
import Kryptan.Net.Delivery
import Kryptan.Net.Monitor
import Kryptan.Net.Handover
import Kryptan.Sync.ConflictChoice
import Kryptan.Sync.SyncAdapter
import Kryptan.Sync.Symmetry
import Kryptan.Sync.Merge
import Kryptan.Sync.OneSided
import Kryptan.Sync.DefaultMerge
import Kryptan.Sync.Descriptions
import Kryptan.Sync.History
import Kryptan.Sync.Inference
import Kryptan.Sync.Peers
import Kryptan.Ui.SecretDetail
import Kryptan.Ui.OpenPasswordFile
import Kryptan.Ui.KeyButtons
import Kryptan.Ui.PasswordGenerator
import Kryptan.Machinery.LastWriter
import Kryptan.Sync.Convergence
import Kryptan.Sync.BreakOff
import Kryptan.Sync.DesktopSync
import Kryptan.Sync.Failure
import Kryptan.Ui.Screens
import Kryptan.Ui.SharedStrings
import Kryptan.Ui.Clipboard
