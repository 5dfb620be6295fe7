import Mathlib.Logic.Function.Basic
import IocpStudy.ChatServer.User

/-! `PacketManager`: the queue of client indices that `ReceivePacket` fills, the queue of system
packets, and the iterations of the process thread, which take one entry of each.  The handlers are
those that `Init` registers. -/

namespace IocpStudy.ChatServer

/-! ### `PACKET_ID` and `ERROR_CODE` -/

def sysUserConnect : UInt16 := 11

def sysUserDisconnect : UInt16 := 12

def sysEnd : UInt16 := 30

def loginRequest : UInt16 := 201

/-- `LOGIN_REQUEST_PACKET_SIZE`. -/
def loginRequestPacketSize : UInt16 := 71

inductive ErrorCode
  | NONE
  | LOGIN_USER_ALREADY
  | LOGIN_USER_USED_ALL_OBJ
deriving Repr, DecidableEq

/-- `mUserPool` has a user for every index of a client. -/
structure UserManager where
  mMaxUserCount : ℤ
  mCurrentUserCount : ℤ := 0
  mUserPool : ℕ → User
  mUserIDMap : List (List UInt8 × ℤ) := []

namespace UserManager

def getUserByConnectionIndex (m : UserManager) (connectionIndex : ℕ) : User :=
  m.mUserPool connectionIndex

def findUserIndexByID (m : UserManager) (userID : List UInt8) : ℤ :=
  (m.mUserIDMap.lookup userID).getD (-1)

/-- `AddUser`.  The `insert` of the map keeps the entry that the ID has. -/
def addUser (m : UserManager) (userID : List UInt8) (clientIndex : ℕ) : UserManager × ErrorCode :=
  ({ m with
      mUserPool :=
        Function.update m.mUserPool clientIndex ((m.mUserPool clientIndex).setLogin userID)
      mUserIDMap :=
        if (m.mUserIDMap.lookup userID).isSome then m.mUserIDMap
        else m.mUserIDMap ++ [(userID, (clientIndex : ℤ))] }, .NONE)

/-- `DeleteUserInfo` of a user in the pool. -/
def deleteUserInfo (m : UserManager) (connectionIndex : ℕ) : UserManager :=
  let user := m.mUserPool connectionIndex
  { m with
    mUserPool := Function.update m.mUserPool connectionIndex user.clear
    mUserIDMap := m.mUserIDMap.filter fun entry => entry.1 ≠ user.mUserID }

end UserManager

/-- The members of a `LOGIN_RESPONSE_PACKET` that `ProcessLogin` writes. -/
structure LoginResponsePacket where
  PacketLength : UInt16
  PacketID : UInt16
  Result : ErrorCode
deriving Repr, DecidableEq

/-- A call of `ProcessRecvPacket`: its packet, the bytes behind `pPacketData`, and the response that
its handler sent to the client. -/
structure RecvCall where
  packetData : PacketInfo
  bytes : List UInt8
  response : Option LoginResponsePacket := none
deriving Repr, DecidableEq

structure PacketManager where
  mUserManager : UserManager
  mIncomingPacketUserIndex : List ℕ := []
  mSystemPacketQueue : List PacketInfo := []

namespace PacketManager

/-- The manager after `Init`, where the buffers of the users may hold anything. -/
def start (maxClient : ℤ) (buffers : ℕ → Memory UInt8) : PacketManager :=
  { mUserManager :=
      { mMaxUserCount := maxClient
        mUserPool := fun i => { mIndex := i, mPacketDataBuffer := buffers i } } }

def user (m : PacketManager) (clientIndex : ℕ) : User :=
  m.mUserManager.getUserByConnectionIndex clientIndex

def setUser (m : PacketManager) (clientIndex : ℕ) (user : User) : PacketManager :=
  { m with mUserManager :=
      { m.mUserManager with
        mUserPool := Function.update m.mUserManager.mUserPool clientIndex user } }

def enqueuePacket (m : PacketManager) (clientIndex : ℕ) : PacketManager :=
  { m with mIncomingPacketUserIndex := m.mIncomingPacketUserIndex ++ [clientIndex] }

/-- `ReceivePacket(clientIndex, size, pData)`, with `pData` the bytes behind the pointer. -/
def receivePacket (m : PacketManager) (clientIndex : ℕ) (pData : List UInt8) : PacketManager :=
  (m.setUser clientIndex ((m.user clientIndex).setPacketData pData)).enqueuePacket clientIndex

def enqueueSystemPacket (m : PacketManager) (packet : PacketInfo) : PacketManager :=
  { m with mSystemPacketQueue := m.mSystemPacketQueue ++ [packet] }

def dequeuePacket (m : PacketManager) : PacketInfo × PacketManager :=
  match m.mIncomingPacketUserIndex with
  | [] => ({}, m)
  | userIndex :: rest =>
    let (packetData, user) := (m.user userIndex).getPacket
    ({ packetData with ClientIndex := userIndex },
      { m with mIncomingPacketUserIndex := rest }.setUser userIndex user)

def dequeueSystemPacket (m : PacketManager) : PacketInfo × PacketManager :=
  match m.mSystemPacketQueue with
  | [] => ({}, m)
  | packetData :: rest => (packetData, { m with mSystemPacketQueue := rest })

def processUserConnect (m : PacketManager) (clientIndex : ℕ) : PacketManager :=
  m.setUser clientIndex (m.user clientIndex).clear

def processUserDisconnect (m : PacketManager) (clientIndex : ℕ) : PacketManager :=
  m.setUser clientIndex (m.user clientIndex).clear

/-- `ProcessLogin`, with the packet's bytes: the response it sends, if it sends one. -/
def processLogin (m : PacketManager) (p : PacketInfo) (bytes : List UInt8) :
    Option LoginResponsePacket :=
  if loginRequestPacketSize ≠ p.DataSize ∨ p.pPacketData = none then none
  else
    let userID := (bytes.drop 5).takeWhile (· ≠ 0)
    let response (result : ErrorCode) : LoginResponsePacket :=
      ⟨loginRequestPacketSize, loginRequest, result⟩
    if m.mUserManager.mMaxUserCount ≤ m.mUserManager.mCurrentUserCount then
      some (response .LOGIN_USER_USED_ALL_OBJ)
    else if m.mUserManager.findUserIndexByID userID ≠ -1 then some (response .NONE)
    else some (response .LOGIN_USER_ALREADY)

def processRecvPacket (m : PacketManager) (p : PacketInfo) : PacketManager × RecvCall :=
  let bytes := (m.user p.ClientIndex).packetData p
  if p.PacketID = sysUserConnect then (m.processUserConnect p.ClientIndex, ⟨p, bytes, none⟩)
  else if p.PacketID = sysUserDisconnect then
    (m.processUserDisconnect p.ClientIndex, ⟨p, bytes, none⟩)
  else if p.PacketID = loginRequest then (m, ⟨p, bytes, m.processLogin p bytes⟩)
  else (m, ⟨p, bytes, none⟩)

/-- The first half of an iteration of `ProcessPacket`, which gives the packet of a user to
`ProcessRecvPacket`. -/
def processUserPacket (m : PacketManager) : PacketManager × Option RecvCall :=
  let (packetData, m) := m.dequeuePacket
  if sysEnd < packetData.PacketID then
    let (m, call) := m.processRecvPacket packetData
    (m, some call)
  else (m, none)

/-- The second half, for a system packet.  The packet that an empty queue yields passes the test. -/
def processSystemPacket (m : PacketManager) : PacketManager × Option RecvCall :=
  let (packetData, m) := m.dequeueSystemPacket
  if packetData.PacketID ≤ sysEnd then
    let (m, call) := m.processRecvPacket packetData
    (m, some call)
  else (m, none)

/-- An iteration of `ProcessPacket`, with the calls of `ProcessRecvPacket` for a user's packet and
for a system packet. -/
def processPacket (m : PacketManager) : PacketManager × Option RecvCall × Option RecvCall :=
  let (m, userCall) := m.processUserPacket
  let (m, systemCall) := m.processSystemPacket
  (m, userCall, systemCall)

/-! ### What an iteration does -/

variable {m : PacketManager} {p : PacketInfo} {i j : ℕ} {rest : List ℕ}

theorem user_setUser (i j : ℕ) (u : User) :
    (m.setUser i u).user j = if j = i then u else m.user j := by
  simp [user, setUser, UserManager.getUserByConnectionIndex, Function.update_apply]

theorem user_receivePacket (i j : ℕ) (pData : List UInt8) :
    (m.receivePacket i pData).user j =
      if j = i then (m.user i).setPacketData pData else m.user j :=
  user_setUser i j _

theorem ordered_receivePacket {pData : List UInt8} (hm : ∀ j, (m.user j).Ordered)
    (hsize : pData.length ≤ 256) (i j : ℕ) : ((m.receivePacket i pData).user j).Ordered := by
  rw [user_receivePacket]
  split_ifs
  · exact (hm i).setPacketData hsize
  · exact hm j

/-- A packet with an ID above `SYS_END` is no packet of a system event. -/
theorem packetID_ne_of_user (h : sysEnd < p.PacketID) :
    p.PacketID ≠ sysUserConnect ∧ p.PacketID ≠ sysUserDisconnect := by
  constructor
  · intro hid
    rw [hid] at h
    exact absurd h (by decide)
  · intro hid
    rw [hid] at h
    exact absurd h (by decide)

theorem processRecvPacket_of_user (h : sysEnd < p.PacketID) :
    (m.processRecvPacket p).1 = m ∧ (m.processRecvPacket p).2.packetData = p ∧
      (m.processRecvPacket p).2.bytes = (m.user p.ClientIndex).packetData p := by
  obtain ⟨hconnect, hdisconnect⟩ := packetID_ne_of_user h
  rw [processRecvPacket]
  simp only [hconnect, hdisconnect, if_false]
  split_ifs <;> exact ⟨rfl, rfl, rfl⟩

theorem processUserPacket_nil (h : m.mIncomingPacketUserIndex = []) :
    m.processUserPacket = (m, none) := by
  have hidle : ¬sysEnd < ({} : PacketInfo).PacketID := by decide
  simp only [processUserPacket, dequeuePacket, h, hidle, if_false]

theorem processUserPacket_cons (h : m.mIncomingPacketUserIndex = i :: rest) :
    m.processUserPacket.1 =
      { m with mIncomingPacketUserIndex := rest }.setUser i (m.user i).getPacket.2 ∧
    ((m.user i).getPacket.1.PacketID ≤ sysEnd → m.processUserPacket.2 = none) ∧
    (sysEnd < (m.user i).getPacket.1.PacketID → ∃ call, m.processUserPacket.2 = some call ∧
      call.packetData = { (m.user i).getPacket.1 with ClientIndex := i } ∧
      call.bytes = (m.user i).getPacket.2.packetData (m.user i).getPacket.1) := by
  rw [processUserPacket]
  simp only [dequeuePacket, h]
  split_ifs with hid
  · obtain ⟨hsame, hpacket, hbytes⟩ := processRecvPacket_of_user
      (m := { m with mIncomingPacketUserIndex := rest }.setUser i (m.user i).getPacket.2)
      (p := { (m.user i).getPacket.1 with ClientIndex := i }) hid
    refine ⟨hsame, fun hle => absurd hid (UInt16.not_lt.mpr hle), fun _ => ?_⟩
    refine ⟨_, rfl, hpacket, hbytes.trans ?_⟩
    rw [user_setUser, if_pos rfl]
    rfl
  · exact ⟨rfl, fun _ => rfl, fun hlt => absurd hlt hid⟩

theorem user_processUserPacket_cons (h : m.mIncomingPacketUserIndex = i :: rest) (j : ℕ) :
    m.processUserPacket.1.user j = if j = i then (m.user i).getPacket.2 else m.user j := by
  rw [(processUserPacket_cons h).1]
  exact user_setUser i j _

theorem ordered_processUserPacket_cons (hm : ∀ j, (m.user j).Ordered)
    (h : m.mIncomingPacketUserIndex = i :: rest) (j : ℕ) :
    (m.processUserPacket.1.user j).Ordered := by
  rw [user_processUserPacket_cons h]
  split_ifs
  · exact (hm i).getPacket
  · exact hm j

theorem processSystemPacket_nil (h : m.mSystemPacketQueue = []) : m.processSystemPacket.1 = m := by
  have hpass : ({} : PacketInfo).PacketID ≤ sysEnd := by decide
  have hconnect : ({} : PacketInfo).PacketID ≠ sysUserConnect := by decide
  have hdisconnect : ({} : PacketInfo).PacketID ≠ sysUserDisconnect := by decide
  have hlogin : ({} : PacketInfo).PacketID ≠ loginRequest := by decide
  simp only [processSystemPacket, dequeueSystemPacket, h, hpass, if_true, processRecvPacket,
    hconnect, hdisconnect, hlogin, if_false]

theorem processSystemPacket_connect {rest : List PacketInfo} (hid : p.PacketID = sysUserConnect)
    (h : m.mSystemPacketQueue = p :: rest) :
    m.processSystemPacket.1 =
      { m with mSystemPacketQueue := rest }.setUser p.ClientIndex
        (m.user p.ClientIndex).clear := by
  have hpass : p.PacketID ≤ sysEnd := by
    rw [hid]
    decide
  simp only [processSystemPacket, dequeueSystemPacket, h, if_pos hpass, processRecvPacket,
    if_pos hid]
  rfl

theorem user_processSystemPacket_connect {rest : List PacketInfo}
    (hid : p.PacketID = sysUserConnect) (h : m.mSystemPacketQueue = p :: rest) (j : ℕ) :
    m.processSystemPacket.1.user j =
      if j = p.ClientIndex then (m.user p.ClientIndex).clear else m.user j := by
  rw [processSystemPacket_connect hid h]
  exact user_setUser _ j _

theorem processPacket_of_no_system (h : m.processUserPacket.1.mSystemPacketQueue = []) :
    m.processPacket.1 = m.processUserPacket.1 ∧
      m.processPacket.2.1 = m.processUserPacket.2 :=
  ⟨processSystemPacket_nil h, rfl⟩

end PacketManager

end IocpStudy.ChatServer
