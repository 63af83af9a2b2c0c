import UzOS.Tcp.Agreement
import UzOS.Tcp.Reconnect
import UzOS.Fs.Path
import UzOS.Ipv4.RoundTrip
import UzOS.Mem.KheapRun
import UzOS.Proc.VmConfine
import UzOS.Kernel.ExitStatus
import UzOS.Kernel.Sandbox
import UzOS.Kernel.Wakeup
import UzOS.Kernel.SigRestore
import UzOS.Unix.PeerCred
import UzOS.Cpu.Nice
import UzOS.Cpu.Throttle
import UzOS.Kernel.Sessions
import UzOS.Net.Receivers
import UzOS.Kernel.Arrivals
import UzOS.Kernel.Reports
import UzOS.Tcp.Blind
import UzOS.Tcp.Idle
import UzOS.Tcp.Backlog
import UzOS.Tcp.Tuples
import UzOS.Fs.HardLinks
import UzOS.Fs.Opening
import UzOS.Dhcp.Validated
import UzOS.Dns.RoundTrip
import UzOS.Mem.Execve
import UzOS.Tcp.Cookies
import UzOS.Udp.Ephemeral
import UzOS.Dns.Cache
import UzOS.Ipv4.Routes
import UzOS.Ipv4.OutputFilter
import UzOS.Cpu.Loadavg
import UzOS.Kernel.ClockSleep
import UzOS.Net.Options
