import BootImage.Main
import BootImage.Proofs.Header.Cursor
import BootImage.Proofs.Layout.Tight
import BootImage.Proofs.Print.Terminated
import BootImage.Proofs.Program.Source
import BootImage.Proofs.RoundTrip
import BootImage.Proofs.Script.Distinct
import BootImage.Proofs.Script.Sink
import BootImage.Proofs.Unpack.Blocked
import BootImage.Proofs.Unpack.History
import BootImage.Proofs.Unpack.Overwrite
import BootImage.Proofs.Unpack.Safe
import BootImage.Shell.Words
import BootImage.Proofs.Layout.Rounding
import BootImage.Proofs.Shell.Quoting
import BootImage.Proofs.Print.ShellLine
import BootImage.Proofs.Header.Strings
import BootImage.Proofs.Header.Front
import BootImage.Proofs.Program.Untouched
import BootImage.Proofs.OsRelease.Order
import BootImage.Proofs.ImageId
import BootImage.Proofs.Path
import BootImage.Proofs.Copy.Progress
