import KernelHacking.Lib.Prog
import KernelHacking.Lib.Ring
import KernelHacking.Lib.Word
import KernelHacking.Circlist
import KernelHacking.Sched.Circular
import KernelHacking.Sched.Rt
import KernelHacking.Sched.Classes
import KernelHacking.Sched.Core
import KernelHacking.Lib.Monitor
import KernelHacking.Sched.Inv
import KernelHacking.Sched.CircularSpec
import KernelHacking.Sched.RtSpec
import KernelHacking.Sched.ClassesSpec
import KernelHacking.Sched.PickSpec
import KernelHacking.Sched.Tasks
import KernelHacking.Sched.CoreSpec
import KernelHacking.Sched.StepSpec
import KernelHacking.Sched.Run
import KernelHacking.Sched.FastPath
import KernelHacking.Sched.Normalize
import KernelHacking.Sched.Prio
import KernelHacking.Lib.Fifo
import KernelHacking.Sched.Overtaking
import KernelHacking.Sched.TimeFrame
import KernelHacking.Sched.Accounting
import KernelHacking.CharDev.Device
import KernelHacking.Lib.CString
import KernelHacking.CharDev.Spec
import KernelHacking.CharDev.Cursor
import KernelHacking.CharDev.Confinement
import KernelHacking.CharDev.RoundTrip
import KernelHacking.CharDev.Faults
import KernelHacking.Procfs
import KernelHacking.Sched.Rotation
import KernelHacking.CharDev.Chunks
import KernelHacking.CharDev.Client
import KernelHacking.Sched.Charging
import KernelHacking.Sched.YieldTo
import KernelHacking.Cgroup.CfsHierarchy
import KernelHacking.Cgroup.RtGroup
import KernelHacking.Cgroup.RtHierarchy
import KernelHacking.Lib.Ledger
import KernelHacking.Smp.Conservation
import KernelHacking.Lib.Layout
import KernelHacking.Sched.Params
import KernelHacking.Syscall.Calls
import KernelHacking.Syscall.Privilege
import KernelHacking.Syscall.RoundTrip
import KernelHacking.Lib.Frame
import KernelHacking.Sched.Marks
import KernelHacking.Sched.Preempt
import KernelHacking.Sched.Prompt
import KernelHacking.Sched.StrictPriority
import KernelHacking.Lib.BoundedMap
import KernelHacking.Sched.Waiting
import KernelHacking.Tools.Latency
import KernelHacking.Smp.PushPullInv
