import HydraKV.Go.Basic

/-! `EnvHandler.LoadENVs`. Each field of `EnvHandler` whose `env` tag the
switch maps to a variable takes that variable's value when it is set; every
other field keeps the default that `init` gave it with `flag.*` (`flag.Parse`
is never called, so the defaults stand). The switch compares the tags of the
last six fields with the variable names themselves (`case GRPC_PORT:` holds
`"HKV_GRPC_PORT"` where the tag is `GRPC_PORT`), so of those six only
`GRPC_MAX_CONCURRENT_STREAMS`, whose variable has no `HKV_` prefix, is ever
read: `CPU_MULTIPLIER` keeps its default `16` in every environment. -/

namespace HydraKV.Config

open Go

/-- The `switch envKey` of `LoadENVs`: the variable the field with `env` tag
`envKey` is read from, `none` for `default: continue`. -/
def actualEnvKey : String → Option String
  | "BIND_ADDRESS" => some "HKV_BIND_ADDRESS"
  | "PORT" => some "HKV_PORT"
  | "DB_FOLDER" => some "HKV_DB_FOLDER"
  | "MAX_ENTRIES" => some "HKV_MAX_ENTRIES"
  | "WRITE_TIMEOUT" => some "HKV_WRITE_TIMEOUT"
  | "APIKEY_ENABLED" => some "HKV_APIKEY_ENABLED"
  | "READ_TIMEOUT" => some "HKV_READ_TIMEOUT"
  | "IDLE_TIMEOUT" => some "HKV_IDLE_TIMEOUT"
  | "METRICS" => some "HKV_METRICS_ENABLED"
  | "ENTRY_SIZE" => some "HKV_ENTRY_SIZE"
  | "MAX_HEADER_BYTES" => some "HKV_MAX_HEADER_BYTES"
  | "XXHASH_SEED" => some "HKV_XXHASH_SEED"
  | "REQUEST_LIMIT" => some "HKV_REQUEST_LIMIT"
  | "GRPC_ENABLED" => some "HKV_GRPC_ENABLED"
  | "HKV_GRPC_PORT" => some "HKV_GRPC_PORT"
  | "HKV_GRPC_BIND_ADDRESS" => some "HKV_GRPC_BIND_ADDRESS"
  | "HKV_GRPC_REQUEST_LIMIT" => some "HKV_GRPC_REQUEST_LIMIT"
  | "HKV_GRPC_MAX_DURATION" => some "HKV_GRPC_MAX_DURATION"
  | "GRPC_MAX_CONCURRENT_STREAMS" => some "GRPC_MAX_CONCURRENT_STREAMS"
  | "HKV_CPU_MULTIPLIER" => some "HKV_CPU_MULTIPLIER"
  | _ => none

/-- `LoadENVs` on a `string` field with tag `tag` and value `v`. -/
def loadString (env : String → Option String) (tag v : String) : String :=
  match actualEnvKey tag with
  | none => v
  | some key => (env key).getD v

/-- `LoadENVs` on an `int` field with tag `tag` and value `v`: `strconv.Atoi`
of a set variable, and `log.Fatalf` when it does not parse. -/
def loadInt (env : String → Option String) (tag : String) (v : Int64) : Except String Int64 :=
  match actualEnvKey tag with
  | none => .ok v
  | some key =>
    match env key with
    | none => .ok v
    | some s =>
      match parseInt (ofString s) with
      | some i => .ok i
      | none => .error ("Invalid int for " ++ key)

/-- `init`'s `DB_FOLDER`. -/
def defaultDbFolder : String := "./data"

/-- `init`'s `CPU_MULTIPLIER`. -/
def defaultCpuMultiplier : Int64 := 16

/-- `LoadENVs` never changes `CPU_MULTIPLIER`. -/
theorem loadInt_cpuMultiplier (env : String → Option String) (v : Int64) :
    loadInt env "CPU_MULTIPLIER" v = .ok v := rfl

end HydraKV.Config
