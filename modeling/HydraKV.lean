import HydraKV.Go.Basic
import HydraKV.Go.Strconv
import HydraKV.Config.Env
import HydraKV.AOF.Frame
import HydraKV.Hash.XXHash64
import HydraKV.Store.Chain
import HydraKV.Store.TTLManager
import HydraKV.Store.Operations
import HydraKV.Store.Invariant
import HydraKV.Store.Resize
import HydraKV.Store.Replay
import HydraKV.Store.Refinement
import HydraKV.Store.Expiry
import HydraKV.Store.Sweep
import HydraKV.Store.Counts
import HydraKV.Store.Durability
import HydraKV.Store.Writer
import HydraKV.Store.Reopen
import HydraKV.Store.Restart
import HydraKV.Store.Counter
import HydraKV.Store.Logged
import HydraKV.Store.Items
import HydraKV.Routes.Registry
import HydraKV.Routes.Reload
import HydraKV.Routes.Faults
import HydraKV.AOF.Compaction
import HydraKV.Routes.Interleaving
import HydraKV.Routes.Locks
import HydraKV.Routes.Http
import HydraKV.Routes.Grpc
import HydraKV.Routes.Requests
import HydraKV.Routes.Limiter
import HydraKV.Routes.Frontends
import HydraKV.Routes.Tables
