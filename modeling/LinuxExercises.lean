import LinuxExercises.Sync.Trans
import LinuxExercises.Sync.Weight
import LinuxExercises.Sync.Chain
import LinuxExercises.Sync.Owner
import LinuxExercises.Sync.Lease
import LinuxExercises.Sync.Ring
import LinuxExercises.Sync.Table
import LinuxExercises.Sync.Priority
import LinuxExercises.Sync.RwLock
import LinuxExercises.Sync.Program
import LinuxExercises.Spec.Bytes
import LinuxExercises.Spec.ChatMem
import LinuxExercises.Spec.Chat
import LinuxExercises.Spec.View
import LinuxExercises.Spec.Uses
import LinuxExercises.Spec.Outgoing
import LinuxExercises.Spec.Reap
import LinuxExercises.Spec.Input
import LinuxExercises.Spec.Echo
import LinuxExercises.Spec.Datagram
import LinuxExercises.Spec.Restaurant
import LinuxExercises.Spec.Cleanup
import LinuxExercises.Spec.OneShot
import LinuxExercises.Spec.NConsumer
import LinuxExercises.Spec.Handoff
import LinuxExercises.Spec.Tasks
import LinuxExercises.Spec.Numbers
import LinuxExercises.Spec.Words
import LinuxExercises.Spec.Select
import LinuxExercises.Spec.Pause
import LinuxExercises.Spec.Counter
import LinuxExercises.Spec.Pipe
import LinuxExercises.Spec.RwLock
import LinuxExercises.Spec.Sigusr1
import LinuxExercises.Spec.Receive
import LinuxExercises.Spec.Talk
import LinuxExercises.Spec.Sends
import LinuxExercises.Spec.SetUp
import LinuxExercises.Spec.SelfConnect
import LinuxExercises.Spec.Terminate
import LinuxExercises.Proof.Sim
import LinuxExercises.Proof.Records
import LinuxExercises.Proof.Mutex
import LinuxExercises.Proof.Registry
import LinuxExercises.Proof.Flow
import LinuxExercises.Proof.WaitCycle
import LinuxExercises.Proof.Frame
import LinuxExercises.Proof.Flags
import LinuxExercises.Proof.Join
import LinuxExercises.Proof.Release
import LinuxExercises.Proof.Closing
import LinuxExercises.Proof.Sockets
import LinuxExercises.Proof.Pass
import LinuxExercises.Proof.Accounting
import LinuxExercises.Proof.Attribution
import LinuxExercises.Proof.Routing
import LinuxExercises.Proof.Outgoing
import LinuxExercises.Proof.Shutdown
import LinuxExercises.Proof.Leaks
import LinuxExercises.Proof.Rows
import LinuxExercises.Proof.Reap
import LinuxExercises.Proof.Talk
import LinuxExercises.Proof.Framing
import LinuxExercises.Proof.Input
import LinuxExercises.Proof.Echo
import LinuxExercises.Proof.Streams
import LinuxExercises.Proof.Datagram
import LinuxExercises.Proof.Udp
import LinuxExercises.Proof.Answers
import LinuxExercises.Proof.Restaurant
import LinuxExercises.Proof.Cleanup
import LinuxExercises.Proof.OneShot
import LinuxExercises.Proof.Outcome
import LinuxExercises.Proof.Waiting
import LinuxExercises.Proof.Deadlock
import LinuxExercises.Proof.NConsumer
import LinuxExercises.Proof.Wakeup
import LinuxExercises.Proof.Ending
import LinuxExercises.Proof.Handoff
import LinuxExercises.Proof.Handover
import LinuxExercises.Proof.Tasks
import LinuxExercises.Proof.Numbers
import LinuxExercises.Proof.Words
import LinuxExercises.Proof.Select
import LinuxExercises.Proof.Pause
import LinuxExercises.Proof.Counter
import LinuxExercises.Proof.Pipe
import LinuxExercises.Proof.Queue
import LinuxExercises.Proof.RwLock
import LinuxExercises.Proof.Sigusr1
import LinuxExercises.Proof.Receive
import LinuxExercises.Proof.Sends
import LinuxExercises.Proof.Disturb
import LinuxExercises.Proof.SetUp
import LinuxExercises.Proof.SelfConnect
import LinuxExercises.Proof.Terminate
