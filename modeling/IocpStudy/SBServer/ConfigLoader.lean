import IocpStudy.Lib.Dictionary
import IocpStudy.Lib.Json

/-! `ConfigLoader::LoadConfig` on the JSON value that the configuration file holds.  A member of
another type than the one expected is an exception, and so is a value that is no object.  The host
"MainServer" is the server itself, whatever the file says of a host of this name. -/

namespace IocpStudy.SBServer

open Dictionary Json

/-- `HostType`, with the values that have no name. -/
inductive HostType
  | None
  | Acceptor
  | other (value : ℤ)
deriving Repr, DecidableEq

/-- `static_cast<HostType>`. -/
def HostType.ofInt (n : ℤ) : HostType :=
  if n = 0 then .None else if n = 1 then .Acceptor else .other n

structure ServerHost where
  mHostType : HostType := .None
  mHostAddress : String := ""
  mHostPort : ℤ := 0
deriving Repr, DecidableEq

structure NetworkConfig where
  mMaxSessionCount : ℤ := 0
  mServerAddress : String := ""
  mServerPort : ℤ := 0
  mServerHosts : AList fun _ : String => ServerHost := ∅

structure ConfigLoader where
  mIsLoaded : Bool := false
  mNetworkConfig : NetworkConfig := {}

variable {F : Type}

/-- The entry of `mServerHosts` that an element of `Hosts` makes. -/
def readHost (truncate : F → ℤ) (host : Json F) : Except TypeError (String × ServerHost) := do
  let hostName ← host.value getString "Name" ""
  let mHostType ← host.value (getInt truncate) "HostType" 0
  let mHostAddress ← host.value getString "HostAddress" ""
  let mHostPort ← host.value (getInt truncate) "HostPort" 0
  return (hostName, { mHostType := .ofInt mHostType, mHostAddress, mHostPort })

/-- The main server's own entry of `mServerHosts`. -/
def NetworkConfig.mainServer (config : NetworkConfig) : ServerHost :=
  { mHostType := .Acceptor
    mHostAddress := config.mServerAddress
    mHostPort := config.mServerPort }

/-- `mServerHosts` with the main server and then the elements of `hosts`, of which null has none. -/
def loadHosts (truncate : F → ℤ) (config : NetworkConfig) (hosts : Json F) :
    Except TypeError (AList fun _ : String => ServerHost) :=
  let mServerHosts := emplace ∅ "MainServer" config.mainServer
  if hosts.isNull then .ok mServerHosts
  else fill (readHost truncate) (fun m host => emplace m host.1 host.2) mServerHosts hosts.elements

/-- `LoadConfig`, where `data` is what `json::parse` made of the file. -/
def ConfigLoader.loadConfig (truncate : F → ℤ) (loader : ConfigLoader) (data : Json F) :
    Except TypeError (ConfigLoader × Bool) :=
  if data.isNull then .ok ({ loader with mIsLoaded := false }, false)
  else do
    -- The source compares `mMaxSessionCount` with the member "a" and leaves it as it is.
    let _ ← data.value (getInt truncate) "a" 0
    let mServerAddress ← data.value getString "ServerAddress" ""
    let mServerPort ← data.value (getInt truncate) "ServerPort" 0
    let config := { loader.mNetworkConfig with mServerAddress, mServerPort }
    let hosts ← data.subscript "Hosts"
    let mServerHosts ← loadHosts truncate config hosts
    return ({ mIsLoaded := true, mNetworkConfig := { config with mServerHosts } }, true)

/-! ### The files that can be read -/

/-- An object whose members, where there are any under these names, have the types of a host. -/
def IsHost (host : Json F) : Prop :=
  ∃ members, host = .object members ∧ Field IsString members "Name" ∧
    Field IsNumber members "HostType" ∧ Field IsString members "HostAddress" ∧
    Field IsNumber members "HostPort"

/-- The elements of the member "Hosts". -/
def hostElements (members : List (String × Json F)) : List (Json F) :=
  (member members "Hosts").elements

/-- The file holds null, or an object whose members have the types that are expected of them. -/
def Readable (data : Json F) : Prop :=
  data = .null ∨ ∃ members, data = .object members ∧ Field IsNumber members "a" ∧
    Field IsString members "ServerAddress" ∧ Field IsNumber members "ServerPort" ∧
    ∀ host ∈ hostElements members, IsHost host

variable {truncate : F → ℤ} {loader : ConfigLoader} {data : Json F}
  {members : List (String × Json F)}

theorem readHost_isOk_iff {host : Json F} :
    (∃ entry, readHost truncate host = .ok entry) ↔ IsHost host := by
  constructor
  · rintro ⟨entry, h⟩
    obtain ⟨name, hname, h⟩ := bind_eq_ok.mp h
    obtain ⟨hostType, htype, h⟩ := bind_eq_ok.mp h
    obtain ⟨address, haddress, h⟩ := bind_eq_ok.mp h
    obtain ⟨port, hport, -⟩ := bind_eq_ok.mp h
    obtain ⟨members, rfl⟩ := object_of_value hname
    exact ⟨members, rfl, (string_isOk_iff _ _ _).mp ⟨_, hname⟩,
      (int_isOk_iff _ _ _ _).mp ⟨_, htype⟩,
      (string_isOk_iff _ _ _).mp ⟨_, haddress⟩, (int_isOk_iff _ _ _ _).mp ⟨_, hport⟩⟩
  · rintro ⟨members, rfl, hname, htype, haddress, hport⟩
    obtain ⟨name, hname⟩ := (string_isOk_iff _ _ "").mpr hname
    obtain ⟨hostType, htype⟩ := (int_isOk_iff truncate _ _ 0).mpr htype
    obtain ⟨address, haddress⟩ := (string_isOk_iff _ _ "").mpr haddress
    obtain ⟨port, hport⟩ := (int_isOk_iff truncate _ _ 0).mpr hport
    exact ⟨_, bind_eq_ok.mpr ⟨_, hname, bind_eq_ok.mpr ⟨_, htype,
      bind_eq_ok.mpr ⟨_, haddress, bind_eq_ok.mpr ⟨_, hport, rfl⟩⟩⟩⟩⟩

theorem loadHosts_eq (config : NetworkConfig) (hosts : Json F) :
    loadHosts truncate config hosts = (entries (readHost truncate) hosts.elements).map
      fun made => made.foldl (fun m host => emplace m host.1 host.2)
        (emplace ∅ "MainServer" config.mainServer) := by
  simp only [loadHosts, fill_eq]
  split_ifs with hnull
  · cases hosts with
    | null => rfl
    | _ => cases hnull
  · rfl

theorem loadHosts_isOk_iff (truncate : F → ℤ) (config : NetworkConfig) (hosts : Json F) :
    (∃ m, loadHosts truncate config hosts = .ok m) ↔ ∀ host ∈ hosts.elements, IsHost host := by
  have hentries : (∃ made, entries (readHost truncate) hosts.elements = .ok made) ↔
      ∀ host ∈ hosts.elements, IsHost host := by
    rw [entries_isOk_iff]
    exact forall₂_congr fun host _ => readHost_isOk_iff
  rw [← hentries, loadHosts_eq]
  cases entries (readHost truncate) hosts.elements <;> simp [Except.map]

/-- What `LoadConfig` finds under the name of a host: itself under "MainServer", and else the first
element of "Hosts" with the name. -/
def HostsOf (made : List (String × ServerHost)) (config : NetworkConfig) : Prop :=
  ∀ name, config.mServerHosts.lookup name =
    if name = "MainServer" then some config.mainServer else made.lookup name

theorem hostsOf_foldl (config : NetworkConfig) (made : List (String × ServerHost)) :
    HostsOf made { config with
      mServerHosts := made.foldl (fun m host => emplace m host.1 host.2)
        (emplace ∅ "MainServer" config.mainServer) } := by
  intro name
  rw [lookup_foldl_emplace, lookup_emplace, AList.lookup_empty, Option.none_or]
  split_ifs <;> rfl

/-- The members that were read, the rest of the configuration as it was, and the hosts. -/
structure Loads (truncate : F → ℤ) (old new : ConfigLoader) (members : List (String × Json F)) :
    Prop where
  loaded : new.mIsLoaded = true
  count : new.mNetworkConfig.mMaxSessionCount = old.mNetworkConfig.mMaxSessionCount
  address : (Json.object members).value getString "ServerAddress" "" =
    .ok new.mNetworkConfig.mServerAddress
  port : (Json.object members).value (getInt truncate) "ServerPort" 0 =
    .ok new.mNetworkConfig.mServerPort
  hosts : ∃ made, entries (readHost truncate) (hostElements members) = .ok made ∧
    HostsOf made new.mNetworkConfig

theorem loadConfig_object {result : ConfigLoader × Bool}
    (h : loader.loadConfig truncate (.object members) = .ok result) :
    result.2 = true ∧ Loads truncate loader result.1 members := by
  obtain ⟨a, -, h⟩ := bind_eq_ok.mp h
  obtain ⟨mServerAddress, haddress, h⟩ := bind_eq_ok.mp h
  obtain ⟨mServerPort, hport, h⟩ := bind_eq_ok.mp h
  obtain ⟨hosts, hhosts, h⟩ := bind_eq_ok.mp h
  obtain ⟨mServerHosts, hmap, h⟩ := bind_eq_ok.mp h
  obtain rfl := Except.ok.inj h
  obtain rfl := Except.ok.inj hhosts
  rw [loadHosts_eq] at hmap
  cases hmade : entries (readHost truncate) (hostElements members) with
  | error e =>
    rw [← hostElements, hmade] at hmap
    cases hmap
  | ok made =>
    rw [← hostElements, hmade] at hmap
    obtain rfl := Except.ok.inj hmap
    exact ⟨rfl, rfl, rfl, haddress, hport, made, hmade, hostsOf_foldl _ made⟩

theorem loadConfig_isOk_iff (truncate : F → ℤ) (loader : ConfigLoader)
    (members : List (String × Json F)) :
    (∃ result, loader.loadConfig truncate (.object members) = .ok result) ↔
      Readable (.object members) := by
  constructor
  · rintro ⟨result, h⟩
    obtain ⟨a, ha, h⟩ := bind_eq_ok.mp h
    obtain ⟨mServerAddress, haddress, h⟩ := bind_eq_ok.mp h
    obtain ⟨mServerPort, hport, h⟩ := bind_eq_ok.mp h
    obtain ⟨hosts, hhosts, h⟩ := bind_eq_ok.mp h
    obtain ⟨mServerHosts, hmap, -⟩ := bind_eq_ok.mp h
    obtain rfl := Except.ok.inj hhosts
    exact Or.inr ⟨members, rfl, (int_isOk_iff _ _ _ _).mp ⟨a, ha⟩,
      (string_isOk_iff _ _ _).mp ⟨_, haddress⟩,
      (int_isOk_iff _ _ _ _).mp ⟨_, hport⟩, (loadHosts_isOk_iff _ _ _).mp ⟨_, hmap⟩⟩
  · rintro (h | ⟨members', h, ha, haddress, hport, hhosts⟩)
    · cases h
    · obtain rfl := Json.object.inj h
      obtain ⟨a, ha⟩ := (int_isOk_iff truncate _ _ 0).mpr ha
      obtain ⟨mServerAddress, haddress⟩ := (string_isOk_iff _ _ "").mpr haddress
      obtain ⟨mServerPort, hport⟩ := (int_isOk_iff truncate _ _ 0).mpr hport
      let config := { loader.mNetworkConfig with mServerAddress, mServerPort }
      obtain ⟨mServerHosts, hmap⟩ := (loadHosts_isOk_iff truncate config _).mpr hhosts
      exact ⟨_, bind_eq_ok.mpr ⟨a, ha, bind_eq_ok.mpr ⟨_, haddress, bind_eq_ok.mpr ⟨_, hport,
        bind_eq_ok.mpr ⟨_, rfl, bind_eq_ok.mpr ⟨_, hmap, rfl⟩⟩⟩⟩⟩⟩

/-- `LoadConfig` throws exactly on the files that cannot be read.  It refuses null, and of an object
it loads the members with their defaults, the main server, and the first host of each other name.
`mMaxSessionCount` stays as it was. -/
theorem loadConfig_spec (truncate : F → ℤ) (loader : ConfigLoader) (data : Json F) :
    match loader.loadConfig truncate data with
    | .error _ => ¬Readable data
    | .ok (loader', loaded) =>
      if loaded then ∃ members, data = .object members ∧ Readable data ∧
        Loads truncate loader loader' members
      else data = .null ∧ loader' = { loader with mIsLoaded := false } := by
  cases data with
  | null => exact ⟨rfl, rfl⟩
  | object members =>
    cases hresult : loader.loadConfig truncate (.object members) with
    | error e =>
      intro hreads
      obtain ⟨result, h⟩ := (loadConfig_isOk_iff truncate loader members).mpr hreads
      cases hresult.symm.trans h
    | ok result =>
      obtain ⟨loader', loaded⟩ := result
      obtain ⟨rfl, hloads⟩ := loadConfig_object hresult
      exact ⟨members, rfl, (loadConfig_isOk_iff _ _ _).mp ⟨_, hresult⟩, hloads⟩
  | _ =>
    rintro (h | ⟨members, h, -⟩) <;> cases h

/-- The repository's own file, where "MaxSessionCount" has no effect. -/
example : (ConfigLoader.loadConfig (fun n : ℤ => n) {} (.object [("MaxSessionCount",
      .numberUnsigned 100), ("ServerAddress", .string "127.0.0.1"),
      ("ServerPort", .numberUnsigned 8000)])).map
    (fun (loader, _) =>
      (loader.mNetworkConfig.mMaxSessionCount, loader.mNetworkConfig.mServerPort)) =
    .ok (0, 8000) := rfl

end IocpStudy.SBServer
