import Urc.Agent.Acceptance
import Urc.Agent.Backoff
import Urc.Agent.Coordinator
import Urc.Agent.Health
import Urc.Agent.InstallConfig
import Urc.Agent.KeyboardRestore
import Urc.Agent.RelayLeg
import Urc.Agent.RelayedTunnel
import Urc.Agent.RepeatGuard
import Urc.Agent.SessionDetector
import Urc.Agent.Supervisor
import Urc.Agent.TlsIdentity
import Urc.Agent.Tunnels
import Urc.Agent.VncPipes
import Urc.Agent.X11Start
import Urc.Agent.Xauthority
import Urc.Android.Admission
import Urc.Android.LinkForms
import Urc.Android.ProxyPumps
import Urc.Android.ProxyState
import Urc.Android.SavedHosts
import Urc.Client.Addressing
import Urc.Client.Bookkeeping
import Urc.Client.Signals
import Urc.Common.MagicDns
import Urc.Coordinator.ClientProtocol
import Urc.Coordinator.Connect
import Urc.Coordinator.ControlFrames
import Urc.Coordinator.Lifetimes
import Urc.Coordinator.Noninterference
import Urc.Coordinator.Registry
import Urc.Coordinator.RelayStream
import Urc.Coordinator.Rendezvous
import Urc.Files.Confinement
import Urc.Files.Failures
import Urc.Files.PathText
import Urc.Files.RoundTrip
import Urc.Files.Router
import Urc.Files.Zip
import Urc.Web.BridgedSession
import Urc.Web.Clipboard
import Urc.Web.DragLock
import Urc.Web.Drop
import Urc.Web.EditRegion
import Urc.Web.FocalPoint
import Urc.Web.Keyboard
import Urc.Web.Magnify
import Urc.Web.Paths
import Urc.Web.Reconnect
import Urc.Web.SendQueue
import Urc.Web.SessionRuns
import Urc.Web.SoftKeyboard
import Urc.Web.TouchCapture
import Urc.Web.WalkEntry
