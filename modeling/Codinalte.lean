import Codinalte.Lib.Machine
import Codinalte.Hwcomposer.Types
import Codinalte.Hwcomposer.Prepare
import Codinalte.Hwcomposer.Set
import Codinalte.Hwcomposer.Cache
import Codinalte.Hwcomposer.Grab
import Codinalte.Hwcomposer.LayerCache
import Codinalte.Hwcomposer.Worker
import Codinalte.HostEE.Queue
import Codinalte.HostEE.Scheduler
import Codinalte.HostEE.Wakeup
import Codinalte.HostEE.Serialisation
import Codinalte.HostEE.Channel
import Codinalte.Lib.Ring
import Codinalte.Mpc.Fifo
import Codinalte.Mpc.LowScheduler
import Codinalte.Mpc.Scheduler
import Codinalte.Mpc.Communication
import Codinalte.Mpc.CommandPath
import Codinalte.Gralloc.Buffers
import Codinalte.Gralloc.Bookkeeping
import Codinalte.Gralloc.BufferRuns
import Codinalte.Hwcomposer.Image
import Codinalte.Lib.Coalesce
import Codinalte.Sensors.MessageQueue
import Codinalte.Sensors.Hal
import Codinalte.Sensors.Polling
import Codinalte.Sensors.Threads
import Codinalte.B2r2.Callback
import Codinalte.B2r2.Delivery
import Codinalte.B2r2.Handles
import Codinalte.Copybit.Clipping
import Codinalte.HostEE.ListImp
import Codinalte.HostEE.Registry
import Codinalte.HostEE.RegistryRuns
import Codinalte.Gralloc.Framebuffer
import Codinalte.Gralloc.FramebufferSlots
import Codinalte.Gralloc.PmemLock
import Codinalte.Gralloc.PmemLockRuns
import Codinalte.HostEE.Startup
import Codinalte.HostEE.StartupRuns
import Codinalte.Bindings.Callback
import Codinalte.Bindings.CallbackInvariant
import Codinalte.Bindings.CallbackRuns
import Codinalte.Bindings.Event
import Codinalte.Bindings.EventInvariant
import Codinalte.Bindings.EventRuns
import Codinalte.CmProxy.Channels
import Codinalte.CmProxy.ChannelRuns
import Codinalte.Idl.Emit
import Codinalte.Idl.Run
import Codinalte.Lib.Stores
import Codinalte.Idl.Layout
import Codinalte.Idl.Execution
import Codinalte.Idl.Marshalling
import Codinalte.Idl.RoundTrip
import Codinalte.Composite.Generated
import Codinalte.Composite.Construction
import Codinalte.Composite.RollBack
import Codinalte.Composite.LifeCycle
import Codinalte.Composite.LifeCycleRuns
import Codinalte.Graph.Check
import Codinalte.Graph.Follow
import Codinalte.Graph.Accepted
import Codinalte.Graph.Soundness
import Codinalte.Graph.Binder
import Codinalte.Graph.Bound
import Codinalte.Graph.Preserved
import Codinalte.Graph.Boundaries
import Codinalte.Graph.Architecture
import Codinalte.Build.Dependencies
import Codinalte.Build.Names
import Codinalte.Build.Runner
import Codinalte.Idl.CppEE
import Codinalte.Idl.Declarations
import Codinalte.Idl.Events
import Codinalte.Idl.EventShapes
import Codinalte.Idl.EventRuns
import Codinalte.CmProxy.UserBindings
import Codinalte.CmProxy.UserBindingRuns
import Codinalte.Build.Maker
import Codinalte.Build.Products
import Codinalte.Build.ToolRuns
import Codinalte.Build.Plan
import Codinalte.Build.Incremental
import Codinalte.Conf.Loops
import Codinalte.Lib.Descent
import Codinalte.Copybit.StretchRuns
import Codinalte.Gralloc.SizesAgree
import Codinalte.Gralloc.FbPostRuns
import Codinalte.Sensors.Activation
import Codinalte.Hwcomposer.HdmiRuns
import Codinalte.Hwcomposer.VsyncRuns
import Codinalte.Hwcomposer.Hdmi
import Codinalte.Hwcomposer.VsyncMonitor
import Codinalte.Lib.Words
import Codinalte.Los.TimedWait
import Codinalte.Mpc.Synchronous
import Codinalte.Mpc.Load
import Codinalte.CmProxy.Repository
import Codinalte.CmProxy.ComponentInfo
import Codinalte.Lib.Lines
import Codinalte.Stelp.CircularBuffer
import Codinalte.Stelp.CircularDump
import Codinalte.Stelp.Format
import Codinalte.Stelp.Sinks
import Codinalte.CmProxy.Rotation
import Codinalte.Stelp.BufferDump
import Codinalte.Conf.Sharing
import Codinalte.HostEE.QueueRuns
import Codinalte.Mpc.Ulp
import Codinalte.Mpc.UlpRuns
import Codinalte.Power.Hint
import Codinalte.Power.HintRuns
import Codinalte.Ril.PreferredNetwork
import Codinalte.Ril.PreferredNetworkRuns
import Codinalte.Assembly.Leaves
import Codinalte.Assembly.MutexOrder
import Codinalte.Conf.Acceptance
import Codinalte.Conf.Merging
import Codinalte.Lib.StampedRules
import Codinalte.Alsa.Interval
import Codinalte.Alsa.Cuts
import Codinalte.Alsa.Fixpoint
