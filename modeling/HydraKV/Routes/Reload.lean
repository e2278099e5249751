import HydraKV.Routes.Registry
import HydraKV.Store.Durability

/-! Registering databases and their API keys, and reloading the registry from
the DB folder on restart: `NewDB`, `CreateApiKey`, `DBDelete`, `CloseDbs` and
`ReloadDb`, with `SaveApiKey`, `RestoreApiKeys`, `ReadApiKey` and
`RestartCheck.Check`. The folder maps file names to contents. A database's
log is `<name>.bin` under the name `NewDB` was given, and the hash of its key
is kept in `.<NAME>.apikey`. `RestoreApiKeys` strips only the suffix
`.apikey` from a key file's name, so it asks `ReadApiKey` for the file
`..<NAME>.apikey`, which does not exist; with keys enabled, `ReloadDb` stops
with that error before it registers any database. The random token of
`CreateRandomApiKey` and the hash `sha256.Sum256` are parameters; the folder
listing's sorted order is left out, as nothing here depends on it. -/

namespace HydraKV.Routes

open Go Store

/-- The DB folder: file name to contents. -/
abbrev Folder := AList fun _ : Bytes => Bytes

/-- The configuration and the primitives a process reads. -/
structure Env where
  xxhash : Bytes → UInt64
  numCPU : Int64
  multiplier : Int64
  sha256 : Bytes → Bytes
  apikeyEnabled : Bool

/-- One server process: its registry, `Utils.apiKeys`, and the DB folder. -/
structure Node where
  server : Server
  apiKeys : AList fun _ : Bytes => Bytes
  folder : Folder

/-- `strings.HasSuffix`. -/
def hasSuffix (s suffix : Bytes) : Bool := suffix.isSuffixOf s

/-- `strings.TrimSuffix`. -/
def trimSuffix (s suffix : Bytes) : Bytes :=
  if hasSuffix s suffix then s.take (s.length - suffix.length) else s

/-- `strings.Split(s, ".")[0]`. -/
def beforeDot (s : Bytes) : Bytes := s.takeWhile (· != 46)

/-- The log file `NewAOF` opens for `name`. -/
def binFile (name : Bytes) : Bytes := name ++ ofString ".bin"

/-- The key file `SaveApiKey` writes for `db`. -/
def apikeyFile (db : Bytes) : Bytes := ofString "." ++ toUpper db ++ ofString ".apikey"

/-- `RestartCheck.Check`: the name before the first dot of each `.bin` file. -/
def check (f : Folder) : List Bytes :=
  (f.keys.filter fun x => hasSuffix x (ofString ".bin")).map beforeDot

namespace Node

variable (env : Env)

/-- A new process over the folder `f`. -/
def fresh (f : Folder) (maxEntries : Int64) : Node := ⟨⟨∅, maxEntries⟩, ∅, f⟩

/-- `SaveApiKey(db, hash)`. -/
def saveApiKey (db hash : Bytes) (n : Node) : Node :=
  { n with apiKeys := n.apiKeys.insert (toUpper db) hash, folder := n.folder.insert (apikeyFile db) hash }

/-- `CreateApiKey(db)`, drawing the token `token`. -/
def createApiKey (token db : Bytes) (n : Node) : Bytes × Node :=
  (token, n.saveApiKey db (env.sha256 token))

/-- `IsApiKeyValid(db, apiKey)`. -/
def isApiKeyValid (db apiKey : Bytes) (n : Node) : Bool :=
  match n.apiKeys.lookup (toUpper db) with
  | some hash => hash == env.sha256 apiKey
  | none => false

/-- `DBExists(name)`. -/
def dbExists (name : Bytes) (n : Node) : Bool := (n.server.dbs.lookup (toUpper name)).isSome

/-- `NewDB(name)` at clock second `now`, drawing `token` for its key:
`(exists, created, apikey)`. The log file is created empty unless it is
there. -/
def newDB (now : Int64) (token name : Bytes) (n : Node) : (Bool × Bool × Bytes) × Node :=
  if n.dbExists name then ((true, false, []), n)
  else
    let log := (n.folder.lookup (binFile name)).getD []
    let d : Db := ⟨newHashMap env.xxhash env.numCPU env.multiplier now log, binFile name⟩
    let n := { n with
      server := { n.server with dbs := n.server.dbs.insert (toUpper name) d }
      folder := n.folder.insert (binFile name) log }
    if env.apikeyEnabled then ((false, true, (n.createApiKey env token name).1),
      (n.createApiKey env token name).2)
    else ((false, true, []), n)

/-- `DBDelete(name)`: the database's log file is removed and the name leaves
the registry. -/
def dbDelete (name : Bytes) (n : Node) : Node :=
  match n.server.dbs.lookup (toUpper name) with
  | some d => { n with
      server := { n.server with dbs := n.server.dbs.erase (toUpper name) }
      folder := n.folder.erase d.fileName }
  | none => n

/-- `CloseDbs`: each table's writer drains its queue into its log file. -/
def closeDbs (n : Node) : Node :=
  { n with folder := n.server.dbs.entries.foldl (fun f e =>
      f.insert e.2.fileName (e.2.table.close ((f.lookup e.2.fileName).getD []))) n.folder }

/-- `ReadApiKey(db)`; `none` for a missing file. -/
def readApiKey (db : Bytes) (n : Node) : Option Bytes := n.folder.lookup (apikeyFile db)

/-- The loop of `RestoreApiKeys` over the listed files; `false` when a read
fails. -/
def restoreFiles : List Bytes → Node → Node × Bool
  | [], n => (n, true)
  | f :: fs, n =>
    if hasSuffix f (ofString ".apikey") then
      match n.readApiKey (trimSuffix f (ofString ".apikey")) with
      | some key => restoreFiles fs (n.saveApiKey (trimSuffix f (ofString ".apikey")) key)
      | none => (n, false)
    else restoreFiles fs n

/-- `RestoreApiKeys`. -/
def restoreApiKeys (n : Node) : Node × Bool := restoreFiles n.folder.keys n

/-- `ReloadDb` at clock second `now`, the `i`-th `NewDB` drawing `token i`:
the process afterwards, and whether it succeeded. -/
def reloadDb (now : Int64) (token : Nat → Bytes) (n : Node) : Node × Bool :=
  let dbs := check n.folder
  let r := if env.apikeyEnabled then n.restoreApiKeys else (n, true)
  if r.2 then (dbs.enum.foldl (fun n x => (n.newDB env now (token x.1) x.2).2) r.1, true)
  else r

end Node

/-! ### Names and files -/

/-- An ASCII letter or digit. -/
def isAlnum (b : UInt8) : Bool :=
  (48 ≤ b.toNat && b.toNat ≤ 57) || (65 ≤ b.toNat && b.toNat ≤ 90) || (97 ≤ b.toNat && b.toNat ≤ 122)

/-- `CheckDbName`: `^[a-zA-Z0-9]{1,100}$`, which every name reaching `NewDB`
passes. -/
def checkDbName (name : Bytes) : Bool := 1 ≤ name.length && name.length ≤ 100 && name.all isAlnum

theorem toNat_toUpperByte (b : UInt8) :
    (toUpperByte b).toNat = if 97 ≤ b.toNat ∧ b.toNat ≤ 122 then b.toNat - 32 else b.toNat := by
  unfold toUpperByte
  split_ifs with h
  · exact UInt8.toNat_sub_of_le _ _ (by rw [UInt8.le_def, BitVec.le_def]; show 32 ≤ b.toNat; omega)
  · rfl

/-- Upper-casing keeps a letter or digit one, and never makes it a dot. -/
theorem toUpperByte_ne_dot {b : UInt8} (h : isAlnum b = true) : toUpperByte b ≠ 46 := by
  intro he
  have h46 : (toUpperByte b).toNat = 46 := by rw [he]; rfl
  simp only [isAlnum, Bool.or_eq_true, Bool.and_eq_true, decide_eq_true_eq] at h
  rw [toNat_toUpperByte] at h46
  split_ifs at h46 <;> omega

theorem ne_dot {b : UInt8} (h : isAlnum b = true) : b ≠ 46 := by
  rintro rfl; cases h

theorem hasSuffix_iff {s t : Bytes} : hasSuffix s t = true ↔ t <:+ s := List.isSuffixOf_iff_suffix

theorem trimSuffix_append (s t : Bytes) : trimSuffix (s ++ t) t = s := by
  rw [trimSuffix, if_pos (hasSuffix_iff.mpr (List.suffix_append _ _)), List.length_append,
    Nat.add_sub_cancel, List.take_left]

theorem hasSuffix_binFile (n : Bytes) : hasSuffix (binFile n) (ofString ".apikey") = false := by
  rw [Bool.eq_false_iff]
  intro h
  have h₂ : ofString ".bin" <:+ binFile n := List.suffix_append _ _
  have := List.suffix_of_suffix_length_le h₂ (hasSuffix_iff.mp h) (by decide)
  revert this; decide

theorem apikeyFile_eq (db : Bytes) : apikeyFile db = 46 :: (toUpper db ++ ofString ".apikey") := rfl

theorem trimSuffix_apikeyFile (db : Bytes) :
    trimSuffix (apikeyFile db) (ofString ".apikey") = 46 :: toUpper db := by
  rw [apikeyFile_eq, ← List.cons_append, trimSuffix_append]

/-- The file `ReadApiKey` opens for a key file's name without its suffix:
two dots, then the name. -/
theorem apikeyFile_trimSuffix (db : Bytes) :
    apikeyFile (trimSuffix (apikeyFile db) (ofString ".apikey")) =
      46 :: 46 :: (toUpper (toUpper db) ++ ofString ".apikey") := by
  rw [trimSuffix_apikeyFile, apikeyFile_eq]; rfl

/-- Every file of the folder is the log or the key file of a valid name. -/
def Shaped (f : Folder) : Prop :=
  ∀ x ∈ f.keys, ∃ name, checkDbName name = true ∧ (x = binFile name ∨ x = apikeyFile name)

/-- No file of a shaped folder starts with two dots. -/
theorem Shaped.lookup_dots {f : Folder} (hf : Shaped f) (u : Bytes) :
    f.lookup (46 :: 46 :: u) = none := by
  rw [AList.lookup_eq_none, AList.mem_keys]
  intro hx
  obtain ⟨name, hn, h | h⟩ := hf _ hx
  · match name, hn with
    | c :: _, hn =>
      simp only [checkDbName, List.all_cons, Bool.and_eq_true] at hn
      exact ne_dot hn.2.1 (List.cons.inj (h.trans rfl)).1.symm
  · match name, hn with
    | c :: _, hn =>
      simp only [checkDbName, List.all_cons, Bool.and_eq_true] at hn
      exact toUpperByte_ne_dot hn.2.1 (List.cons.inj (List.cons.inj h).2).1.symm

theorem Shaped.insert {f : Folder} (hf : Shaped f) {x c : Bytes}
    (hx : ∃ name, checkDbName name = true ∧ (x = binFile name ∨ x = apikeyFile name)) :
    Shaped (f.insert x c) := by
  intro y hy
  rcases (AList.mem_insert _).mp (AList.mem_keys.mpr hy) with rfl | hy
  · exact hx
  · exact hf y (AList.mem_keys.mp hy)

theorem Shaped.erase {f : Folder} (hf : Shaped f) (x : Bytes) : Shaped (f.erase x) := fun y hy =>
  hf y (AList.mem_keys.mp (AList.mem_erase.mp (AList.mem_keys.mpr hy)).2)

/-! ### Reloading -/

namespace Node

variable (env : Env) {n : Node}

/-- Over a shaped folder, `RestoreApiKeys` fails at the first key file it
lists, before it saves any key. -/
theorem restoreFiles_shaped (hf : Shaped n.folder) :
    ∀ fs : List Bytes, (∀ x ∈ fs, x ∈ n.folder.keys) →
      (∃ x ∈ fs, hasSuffix x (ofString ".apikey") = true) → restoreFiles fs n = (n, false)
  | [], _, ⟨_, hx, _⟩ => absurd hx (List.not_mem_nil _)
  | x :: fs, hfs, ⟨y, hy, hys⟩ => by
    rw [restoreFiles]
    split_ifs with hs
    · obtain ⟨name, -, h | h⟩ := hf x (hfs x (List.mem_cons_self _ _))
      · rw [h, hasSuffix_binFile] at hs; cases hs
      · rw [readApiKey, h, apikeyFile_trimSuffix, hf.lookup_dots]
    · refine restoreFiles_shaped hf fs (fun z hz => hfs z (List.mem_cons_of_mem _ hz)) ⟨y, ?_, hys⟩
      rcases List.mem_cons.mp hy with rfl | hy
      · exact absurd hys hs
      · exact hy

/-- With keys enabled, a new process over a shaped folder that holds a key
file stops `ReloadDb` with an error, and registers no database and no key. -/
theorem reloadDb_fresh (h : env.apikeyEnabled = true) {f : Folder} (hf : Shaped f)
    (hk : ∃ x ∈ f.keys, hasSuffix x (ofString ".apikey") = true) (m now : Int64)
    (token : Nat → Bytes) : (fresh f m).reloadDb env now token = (fresh f m, false) := by
  have := restoreFiles_shaped (n := fresh f m) hf f.keys (fun _ hx => hx) hk
  simp only [reloadDb, h, if_true, restoreApiKeys]
  rw [show (fresh f m).folder = f from rfl, this]
  rfl

/-! ### Registry operations keep the folder shaped -/

/-- What a run of registry operations on valid names keeps: a shaped folder,
and every registered database's log named after a valid name. -/
structure Good (n : Node) : Prop where
  shaped : Shaped n.folder
  files : ∀ u d, n.server.dbs.lookup u = some d →
    ∃ name, checkDbName name = true ∧ d.fileName = binFile name

theorem fresh_good {f : Folder} (hf : Shaped f) (m : Int64) : Good (fresh f m) :=
  ⟨hf, fun _ _ h => by cases h⟩

theorem Good.saveApiKey (hg : Good n) {db : Bytes} (hn : checkDbName db = true) (hash : Bytes) :
    Good (n.saveApiKey db hash) :=
  ⟨hg.shaped.insert ⟨db, hn, .inr rfl⟩, hg.files⟩

theorem Good.newDB (hg : Good n) {name : Bytes} (hn : checkDbName name = true) (now : Int64)
    (token : Bytes) : Good (n.newDB env now token name).2 := by
  have hreg : ∀ (hm : HashMap) (log : Bytes), Good { n with
      server := { n.server with dbs := n.server.dbs.insert (toUpper name) ⟨hm, binFile name⟩ }
      folder := n.folder.insert (binFile name) log } := by
    refine fun hm log => ⟨hg.shaped.insert ⟨name, hn, .inl rfl⟩, fun u d hd => ?_⟩
    by_cases hu : u = toUpper name
    · subst hu
      rw [AList.lookup_insert] at hd
      cases hd
      exact ⟨name, hn, rfl⟩
    · exact hg.files u d (by rwa [AList.lookup_insert_ne hu] at hd)
  unfold Node.newDB
  split_ifs
  · exact hg
  · exact (hreg _ _).saveApiKey hn _
  · exact hreg _ _

theorem Good.dbDelete (hg : Good n) (name : Bytes) : Good (n.dbDelete name) := by
  unfold Node.dbDelete
  split
  · refine ⟨hg.shaped.erase _, fun u d hd => hg.files u d ?_⟩
    by_cases hu : u = toUpper name
    · subst hu; rw [AList.lookup_erase] at hd; cases hd
    · rwa [AList.lookup_erase_ne hu] at hd
  · exact hg

theorem Good.closeDbs (hg : Good n) : Good n.closeDbs :=
  ⟨List.foldlRecOn (motive := Shaped) n.server.dbs.entries _ n.folder hg.shaped
    fun _ hf e he => hf.insert (by
      obtain ⟨name, hn, h⟩ := hg.files e.1 e.2 (AList.mem_lookup_iff.mpr he)
      exact ⟨name, hn, .inl h⟩), hg.files⟩

theorem mem_keys_closeDbs {x : Bytes} (hx : x ∈ n.folder.keys) : x ∈ n.closeDbs.folder.keys :=
  List.foldlRecOn (motive := fun f : Folder => x ∈ f.keys) n.server.dbs.entries _ n.folder hx
    fun _ hf _ _ => by
      dsimp only
      rw [← AList.mem_keys, AList.mem_insert]; exact .inr (AList.mem_keys.mpr hf)

end Node

theorem hasSuffix_apikeyFile (db : Bytes) : hasSuffix (apikeyFile db) (ofString ".apikey") = true :=
  hasSuffix_iff.mpr (List.suffix_append _ _)

/-- With keys enabled, a new process creates the database `a`, issues token
`token` for it, and closes; the process restarted over its folder stops
`ReloadDb` with an error, registers no database, and rejects the token. -/
theorem reloadDb_loses_databases (xxhash : Bytes → UInt64) (numCPU multiplier now now' m : Int64)
    (sha256 : Bytes → Bytes) (token : Bytes) (tokens : Nat → Bytes) :
    let env : Env := ⟨xxhash, numCPU, multiplier, sha256, true⟩
    let n := (Node.newDB env now token (ofString "a") (Node.fresh ∅ m)).2.closeDbs
    let r := (Node.fresh n.folder m).reloadDb env now' tokens
    (Node.newDB env now token (ofString "a") (Node.fresh ∅ m)).1 = (false, true, token) ∧
      n.server.dbs.keys = [ofString "A"] ∧ n.isApiKeyValid env (ofString "a") token = true ∧
      r.2 = false ∧ r.1.server.dbs.keys = [] ∧ r.1.isApiKeyValid env (ofString "a") token = false := by
  intro env n r
  have hA : toUpper (ofString "a") = ofString "A" := by decide
  have hg : n.Good :=
    ((Node.fresh_good (fun _ h => by cases h) m).newDB env (by decide) now token).closeDbs
  have hk : apikeyFile (ofString "a") ∈ n.folder.keys := Node.mem_keys_closeDbs
    (by rw [← AList.mem_keys]; exact (AList.mem_insert _).mpr (.inl rfl))
  have hr : r = (Node.fresh n.folder m, false) :=
    Node.reloadDb_fresh env rfl hg.shaped ⟨_, hk, hasSuffix_apikeyFile _⟩ m now' tokens
  refine ⟨rfl, ?_, ?_, by rw [hr], by rw [hr]; rfl, by rw [hr]; rfl⟩
  · show ((∅ : Registry).insert (toUpper (ofString "a")) _).keys = _
    rw [hA]; rfl
  · show (match ((∅ : AList fun _ : Bytes => Bytes).insert (toUpper (ofString "a")) (sha256 token)).lookup
        (toUpper (ofString "a")) with
      | some hash => hash == sha256 token
      | none => false) = true
    rw [AList.lookup_insert]; exact beq_self_eq_true _

end HydraKV.Routes
