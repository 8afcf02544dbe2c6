import Sshx.Fmt
import Sshx.Types
import Sshx.Sender
import Sshx.KnownHosts
import Sshx.MailboxModel
import Sshx.MailboxInvariant
import Sshx.MailboxOwnership
import Sshx.MailboxAccounting
import Sshx.MailboxSerial
import Sshx.MailboxReference
import Sshx.MailboxDelivery
import Sshx.MailboxTermination
