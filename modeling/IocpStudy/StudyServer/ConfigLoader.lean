import IocpStudy.Lib.Dictionary
import IocpStudy.Lib.Json

/-! `ConfigLoader::Load` on the JSON value that the configuration file holds.  A file without the
member "system" is accepted at once, with every number of the configuration zero, and one without
"server" is refused behind that.  "hosts" counts only as an array, and of its elements the last one
with a name. -/

namespace IocpStudy.StudyServer

open Dictionary Json

structure ServerHost where
  mHostAddress : String := ""
  mHostPort : ℤ := 0
  mHostType : ℤ := 0
deriving Repr, DecidableEq

structure ServerConfig where
  mServerPort : ℤ := 0
  mServerAddress : String := ""
  mServerHosts : AList fun _ : String => ServerHost := ∅

structure SystemConfig where
  mPacketPoolSize : ℤ := 0
  mMaxClientCount : ℤ := 0
  mThreadPerCore : ℤ := 0
deriving Repr, DecidableEq

structure ConfigLoader where
  mServerConfig : ServerConfig := {}
  mSystemConfig : SystemConfig := {}

variable {F : Type}

/-- The entry of `mServerHosts` that an element of "hosts" makes, which is none without a name. -/
def readHost (truncate : F → ℤ) (hostInfo : Json F) :
    Except TypeError (Option (String × ServerHost)) := do
  let name ← hostInfo.value getString "name" ""
  if name = "" then return none
  else do
    let mHostAddress ← hostInfo.value getString "ip" ""
    let mHostPort ← hostInfo.value (getInt truncate) "port" 0
    let mHostType ← hostInfo.value (getInt truncate) "type" 0
    return some (name, { mHostAddress, mHostPort, mHostType })

def assignHost (m : AList fun _ : String => ServerHost) :
    Option (String × ServerHost) → AList fun _ : String => ServerHost
  | none => m
  | some host => assign m host.1 host.2

/-- `mServerHosts` with the elements of `hosts`. -/
def loadHosts (truncate : F → ℤ) (m : AList fun _ : String => ServerHost) (hosts : Json F) :
    Except TypeError (AList fun _ : String => ServerHost) :=
  if hosts.isNull || hosts.isEmpty then .ok m
  else if hosts.isArray then fill (readHost truncate) assignHost m hosts.elements
  else .ok m

def loadSystem (truncate : F → ℤ) (system : Json F) : Except TypeError SystemConfig := do
  let mThreadPerCore ← system.value (getInt truncate) "thread_per_core" 1
  let mMaxClientCount ← system.value (getInt truncate) "max_client_count" 1
  let mPacketPoolSize ← system.value (getInt truncate) "packet_pool_size" 10
  return { mPacketPoolSize, mMaxClientCount, mThreadPerCore }

/-- The members "ip" and "port" of `server`, and `hosts`. -/
def loadServer (truncate : F → ℤ) (old : ServerConfig) (server hosts : Json F) :
    Except TypeError ServerConfig := do
  let mServerAddress ← server.value getString "ip" ""
  let mServerPort ← server.value (getInt truncate) "port" 0
  let mServerHosts ← loadHosts truncate old.mServerHosts hosts
  return { mServerPort, mServerAddress, mServerHosts }

/-- `Load`, where `config` is what `json::parse` made of the file. -/
def ConfigLoader.load (truncate : F → ℤ) (loader : ConfigLoader) (config : Json F) :
    Except TypeError (ConfigLoader × Bool) :=
  if config.isNull then .ok (loader, false)
  else do
    let system ← config.subscript "system"
    if system.isNull then return (loader, true)
    else do
      let mSystemConfig ← loadSystem truncate system
      let server ← config.subscript "server"
      if server.isNull then return ({ loader with mSystemConfig }, false)
      else do
        let hosts ← config.subscript "hosts"
        let mServerConfig ← loadServer truncate loader.mServerConfig server hosts
        return ({ mServerConfig, mSystemConfig }, true)

/-! ### The files that can be read -/

/-- An object with a name that is a string, and where that is not empty, with the types of a
host. -/
def IsHost (host : Json F) : Prop :=
  ∃ members, host = .object members ∧ Field IsString members "name" ∧
    ((Json.object members).value getString "name" "" = .ok "" ∨
      Field IsString members "ip" ∧ Field IsNumber members "port" ∧ Field IsNumber members "type")

/-- The elements of the member "hosts", if it is an array. -/
def hostElements : Json F → List (Json F)
  | .array elements => elements
  | _ => []

def IsSystem (system : Json F) : Prop :=
  ∃ members, system = .object members ∧ Field IsNumber members "thread_per_core" ∧
    Field IsNumber members "max_client_count" ∧ Field IsNumber members "packet_pool_size"

def IsServer (server hosts : Json F) : Prop :=
  (∃ members, server = .object members ∧ Field IsString members "ip" ∧
    Field IsNumber members "port") ∧ ∀ host ∈ hostElements hosts, IsHost host

/-- The file holds null, or an object whose members, as far as they are read, have the types that
are expected of them. -/
def Readable (config : Json F) : Prop :=
  config = .null ∨ ∃ members, config = .object members ∧
    (member members "system" = .null ∨ IsSystem (member members "system") ∧
      (member members "server" = .null ∨
        IsServer (member members "server") (member members "hosts")))

variable {truncate : F → ℤ} {loader : ConfigLoader} {members : List (String × Json F)}
  {host system server hosts : Json F} {m : AList fun _ : String => ServerHost}

theorem readHost_isOk_iff : (∃ entry, readHost truncate host = .ok entry) ↔ IsHost host := by
  constructor
  · rintro ⟨entry, h⟩
    obtain ⟨name, hname, h⟩ := bind_eq_ok.mp h
    obtain ⟨members, rfl⟩ := object_of_value hname
    refine ⟨members, rfl, (string_isOk_iff _ _ _).mp ⟨name, hname⟩, ?_⟩
    by_cases hempty : name = ""
    · subst hempty
      exact Or.inl hname
    · simp only [hempty, if_false] at h
      obtain ⟨address, haddress, h⟩ := bind_eq_ok.mp h
      obtain ⟨port, hport, h⟩ := bind_eq_ok.mp h
      obtain ⟨hostType, htype, -⟩ := bind_eq_ok.mp h
      exact Or.inr ⟨(string_isOk_iff _ _ _).mp ⟨_, haddress⟩, (int_isOk_iff _ _ _ _).mp ⟨_, hport⟩,
        (int_isOk_iff _ _ _ _).mp ⟨_, htype⟩⟩
  · rintro ⟨members, rfl, hname, hrest⟩
    obtain ⟨name, hname⟩ := (string_isOk_iff _ _ "").mpr hname
    by_cases hempty : name = ""
    · refine ⟨none, bind_eq_ok.mpr ⟨name, hname, ?_⟩⟩
      rw [if_pos hempty]
      rfl
    · rcases hrest with hnone | ⟨haddress, hport, htype⟩
      · exact absurd (Except.ok.inj (hname.symm.trans hnone)) hempty
      · obtain ⟨address, haddress⟩ := (string_isOk_iff _ _ "").mpr haddress
        obtain ⟨port, hport⟩ := (int_isOk_iff truncate _ _ 0).mpr hport
        obtain ⟨hostType, htype⟩ := (int_isOk_iff truncate _ _ 0).mpr htype
        refine ⟨some (name, ⟨address, port, hostType⟩), bind_eq_ok.mpr ⟨name, hname, ?_⟩⟩
        rw [if_neg hempty]
        exact bind_eq_ok.mpr ⟨_, haddress, bind_eq_ok.mpr ⟨_, hport,
          bind_eq_ok.mpr ⟨_, htype, rfl⟩⟩⟩

/-- Only the elements of an array are taken for hosts. -/
theorem loadHosts_eq : loadHosts truncate m hosts =
    (entries (readHost truncate) (hostElements hosts)).map fun made => made.foldl assignHost m := by
  rw [← fill_eq]
  cases hosts with
  | array elements => cases elements <;> rfl
  | object members => cases members <;> rfl
  | _ => rfl

theorem loadHosts_isOk_iff (truncate : F → ℤ) (m : AList fun _ : String => ServerHost)
    (hosts : Json F) : (∃ m', loadHosts truncate m hosts = .ok m') ↔
    ∀ host ∈ hostElements hosts, IsHost host := by
  have hentries : (∃ made, entries (readHost truncate) (hostElements hosts) = .ok made) ↔
      ∀ host ∈ hostElements hosts, IsHost host := by
    rw [entries_isOk_iff]
    exact forall₂_congr fun host _ => readHost_isOk_iff
  rw [← hentries, loadHosts_eq]
  cases entries (readHost truncate) (hostElements hosts) <;> simp [Except.map]

/-- Under a name stands the last host that was made with it. -/
theorem lookup_foldl_assignHost (made : List (Option (String × ServerHost))) (name : String) :
    (made.foldl assignHost m).lookup name =
      ((made.filterMap id).reverse.lookup name).or (m.lookup name) := by
  rw [← lookup_foldl_assign]
  congr 1
  induction made generalizing m with
  | nil => rfl
  | cons host made ih =>
    cases host with
    | none => exact ih
    | some host => exact ih

theorem loadSystem_isOk_iff (truncate : F → ℤ) (system : Json F) :
    (∃ config, loadSystem truncate system = .ok config) ↔ IsSystem system := by
  constructor
  · rintro ⟨config, h⟩
    obtain ⟨threads, hthreads, h⟩ := bind_eq_ok.mp h
    obtain ⟨clients, hclients, h⟩ := bind_eq_ok.mp h
    obtain ⟨packets, hpackets, -⟩ := bind_eq_ok.mp h
    obtain ⟨members, rfl⟩ := object_of_value hthreads
    exact ⟨members, rfl, (int_isOk_iff _ _ _ _).mp ⟨_, hthreads⟩,
      (int_isOk_iff _ _ _ _).mp ⟨_, hclients⟩, (int_isOk_iff _ _ _ _).mp ⟨_, hpackets⟩⟩
  · rintro ⟨members, rfl, hthreads, hclients, hpackets⟩
    obtain ⟨threads, hthreads⟩ := (int_isOk_iff truncate _ _ 1).mpr hthreads
    obtain ⟨clients, hclients⟩ := (int_isOk_iff truncate _ _ 1).mpr hclients
    obtain ⟨packets, hpackets⟩ := (int_isOk_iff truncate _ _ 10).mpr hpackets
    exact ⟨_, bind_eq_ok.mpr ⟨_, hthreads, bind_eq_ok.mpr ⟨_, hclients,
      bind_eq_ok.mpr ⟨_, hpackets, rfl⟩⟩⟩⟩

theorem loadServer_isOk_iff (truncate : F → ℤ) (old : ServerConfig) (server hosts : Json F) :
    (∃ config, loadServer truncate old server hosts = .ok config) ↔ IsServer server hosts := by
  constructor
  · rintro ⟨config, h⟩
    obtain ⟨address, haddress, h⟩ := bind_eq_ok.mp h
    obtain ⟨port, hport, h⟩ := bind_eq_ok.mp h
    obtain ⟨m, hhosts, -⟩ := bind_eq_ok.mp h
    obtain ⟨members, rfl⟩ := object_of_value haddress
    exact ⟨⟨members, rfl, (string_isOk_iff _ _ _).mp ⟨_, haddress⟩,
      (int_isOk_iff _ _ _ _).mp ⟨_, hport⟩⟩,
      (loadHosts_isOk_iff _ _ _).mp ⟨m, hhosts⟩⟩
  · rintro ⟨⟨members, rfl, haddress, hport⟩, hhosts⟩
    obtain ⟨address, haddress⟩ := (string_isOk_iff _ _ "").mpr haddress
    obtain ⟨port, hport⟩ := (int_isOk_iff truncate _ _ 0).mpr hport
    obtain ⟨m, hhosts⟩ := (loadHosts_isOk_iff truncate old.mServerHosts hosts).mpr hhosts
    exact ⟨_, bind_eq_ok.mpr ⟨_, haddress, bind_eq_ok.mpr ⟨_, hport,
      bind_eq_ok.mpr ⟨_, hhosts, rfl⟩⟩⟩⟩

/-- The numbers of "system", each with its default. -/
structure LoadsSystem (truncate : F → ℤ) (config : SystemConfig) (system : Json F) : Prop where
  threads : system.value (getInt truncate) "thread_per_core" 1 = .ok config.mThreadPerCore
  clients : system.value (getInt truncate) "max_client_count" 1 = .ok config.mMaxClientCount
  packets : system.value (getInt truncate) "packet_pool_size" 10 = .ok config.mPacketPoolSize

/-- The members of "server", each with its default, and the last host of each name. -/
structure LoadsServer (truncate : F → ℤ) (old new : ServerConfig) (server hosts : Json F) :
    Prop where
  address : server.value getString "ip" "" = .ok new.mServerAddress
  port : server.value (getInt truncate) "port" 0 = .ok new.mServerPort
  hosts : ∃ made, entries (readHost truncate) (hostElements hosts) = .ok made ∧
    ∀ name, new.mServerHosts.lookup name =
      ((made.filterMap id).reverse.lookup name).or (old.mServerHosts.lookup name)

theorem loadsSystem_of_ok {config : SystemConfig} (h : loadSystem truncate system = .ok config) :
    LoadsSystem truncate config system := by
  obtain ⟨threads, hthreads, h⟩ := bind_eq_ok.mp h
  obtain ⟨clients, hclients, h⟩ := bind_eq_ok.mp h
  obtain ⟨packets, hpackets, h⟩ := bind_eq_ok.mp h
  obtain rfl := Except.ok.inj h
  exact ⟨hthreads, hclients, hpackets⟩

theorem loadsServer_of_ok {old new : ServerConfig}
    (h : loadServer truncate old server hosts = .ok new) :
    LoadsServer truncate old new server hosts := by
  obtain ⟨address, haddress, h⟩ := bind_eq_ok.mp h
  obtain ⟨port, hport, h⟩ := bind_eq_ok.mp h
  obtain ⟨m, hhosts, h⟩ := bind_eq_ok.mp h
  obtain rfl := Except.ok.inj h
  rw [loadHosts_eq] at hhosts
  cases hmade : entries (readHost truncate) (hostElements hosts) with
  | error e =>
    rw [hmade] at hhosts
    cases hhosts
  | ok made =>
    rw [hmade] at hhosts
    obtain rfl := Except.ok.inj hhosts
    exact ⟨haddress, hport, made, hmade, lookup_foldl_assignHost made⟩

theorem load_of_no_system (hsystem : member members "system" = .null) :
    loader.load truncate (.object members) = .ok (loader, true) := by
  simp only [ConfigLoader.load, isNull, subscript_object, hsystem]
  rfl

theorem load_of_system (hsystem : member members "system" ≠ .null) :
    loader.load truncate (.object members) =
      (loadSystem truncate (member members "system")).bind fun mSystemConfig =>
        if (member members "server").isNull then .ok ({ loader with mSystemConfig }, false)
        else (loadServer truncate loader.mServerConfig (member members "server")
          (member members "hosts")).bind fun mServerConfig =>
            .ok ({ mServerConfig, mSystemConfig }, true) := by
  have hnull : ¬(member members "system").isNull = true := fun h => hsystem (isNull_iff.mp h)
  change (if (member members "system").isNull then Except.ok (loader, true) else _) = _
  rw [if_neg hnull]
  rfl

/-- `Load` throws exactly on the files that cannot be read.  It refuses null, and an object with
"system" and without "server".  An object without "system" is accepted as it is, and every other one
with its numbers, its server and its hosts. -/
theorem load_spec (truncate : F → ℤ) (loader : ConfigLoader) (config : Json F) :
    match loader.load truncate config with
    | .error _ => ¬Readable config
    | .ok (loader', loaded) => Readable config ∧
      (config = .null ∧ loaded = false ∧ loader' = loader ∨ ∃ members, config = .object members ∧
        (member members "system" = .null ∧ loaded = true ∧ loader' = loader ∨
          member members "system" ≠ .null ∧
            LoadsSystem truncate loader'.mSystemConfig (member members "system") ∧
            if loaded then LoadsServer truncate loader.mServerConfig loader'.mServerConfig
              (member members "server") (member members "hosts")
            else member members "server" = .null ∧
              loader'.mServerConfig = loader.mServerConfig)) := by
  cases config with
  | null => exact ⟨Or.inl rfl, Or.inl ⟨rfl, rfl, rfl⟩⟩
  | object members =>
    by_cases hsystem : member members "system" = .null
    · rw [load_of_no_system hsystem]
      exact ⟨Or.inr ⟨members, rfl, Or.inl hsystem⟩,
        Or.inr ⟨members, rfl, Or.inl ⟨hsystem, rfl, rfl⟩⟩⟩
    · have hreads : Readable (.object members) ↔ IsSystem (member members "system") ∧
          (member members "server" = .null ∨
            IsServer (member members "server") (member members "hosts")) := by
        constructor
        · rintro (h | ⟨members', h, hnull | hrest⟩)
          · cases h
          · obtain rfl := Json.object.inj h
            exact absurd hnull hsystem
          · obtain rfl := Json.object.inj h
            exact hrest
        · exact fun h => Or.inr ⟨members, rfl, Or.inr h⟩
      rw [load_of_system hsystem, hreads, ← loadSystem_isOk_iff truncate]
      cases hload : loadSystem truncate (member members "system") with
      | error e =>
        rintro ⟨⟨systemConfig, h⟩, -⟩
        cases h
      | ok systemConfig =>
        have hnumbers := loadsSystem_of_ok hload
        simp only [Except.bind]
        by_cases hserver : member members "server" = .null
        · rw [if_pos (isNull_iff.mpr hserver)]
          exact ⟨⟨⟨_, rfl⟩, Or.inl hserver⟩, Or.inr ⟨members, rfl, Or.inr ⟨hsystem, hnumbers,
            hserver, rfl⟩⟩⟩
        · have hnull : ¬(member members "server").isNull = true :=
            fun h => hserver (isNull_iff.mp h)
          rw [if_neg hnull, ← loadServer_isOk_iff truncate loader.mServerConfig]
          cases hserverConfig : loadServer truncate loader.mServerConfig
              (member members "server") (member members "hosts") with
          | error e =>
            rintro ⟨-, h | ⟨serverConfig, h⟩⟩
            · exact hserver h
            · cases h
          | ok serverConfig =>
            exact ⟨⟨⟨_, rfl⟩, Or.inr ⟨_, rfl⟩⟩, Or.inr ⟨members, rfl, Or.inr ⟨hsystem, hnumbers,
              loadsServer_of_ok hserverConfig⟩⟩⟩
  | _ =>
    rintro (h | ⟨members, h, -⟩) <;> cases h

end IocpStudy.StudyServer
