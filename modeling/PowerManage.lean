import PowerManage.Client.Receipts
import PowerManage.Client.Correlation
import PowerManage.Service.Continuation
import PowerManage.Firewall.Isolation
import PowerManage.Firewall.Race
import PowerManage.Firewall.Traffic
import PowerManage.Firewall.Listing
import PowerManage.Crypto.FieldContext
import PowerManage.CaTrust.Anchors
import PowerManage.Maintenance.Window
import PowerManage.Client.Runs
import PowerManage.Auth.Store
import PowerManage.Cli.Rotation
import PowerManage.Exec.FreeText
import PowerManage.Repo.Apt
import PowerManage.Pkg.Apt
import PowerManage.Fs.ReadBack
import PowerManage.Exec.Environment
import PowerManage.Net.Dns
import PowerManage.Net.Interface
import PowerManage.Remote.Redirect
import PowerManage.Remote.Listing
import PowerManage.Remote.NotModified
import PowerManage.Remote.Traceless
import PowerManage.Remote.Digest
import PowerManage.Remote.Additive
import PowerManage.Client.Send
import PowerManage.Client.Heartbeat
import PowerManage.Exec.Streaming
import PowerManage.Fs.Replace
import PowerManage.Fs.RemoveDir
import PowerManage.Offline.Drafts
import PowerManage.Cli.Credential
import PowerManage.Cli.SessionText
