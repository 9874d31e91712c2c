import Rtl88x2bu.Lib.Buckets
import Rtl88x2bu.Bridge.Skb

/-!
# The NAT2.5 database

An entry is named by its network address, so `scdb_entry` is a key.
-/

namespace Rtl88x2bu.Bridge

open Rx (MacAddr nullAddr)

/-- The three forms of `networkAddr`. -/
inductive NetworkAddr
  | ipv4 (ip : IpAddr)
  | pppoe (sid : Vector Byte 2) (acMac : MacAddr)
  | ipv6 (ip : Vector Byte 16)
  deriving DecidableEq

/-- The bytes of an address, folded for its hash. -/
def xorBytes (bytes : List Byte) : Byte :=
  bytes.foldl (· ^^^ ·) 0

def nat25HashSize : ℕ := 16

/-- `__nat25_network_hash`; the type byte of PPPoE is part of its hash. -/
def networkHash : NetworkAddr → ℕ
  | .ipv4 ip => (xorBytes ip.toList).toNat &&& (nat25HashSize - 1)
  | .pppoe sid acMac => (xorBytes (5 :: sid.toList ++ acMac.toList)).toNat &&& (nat25HashSize - 1)
  | .ipv6 ip => (xorBytes ip.toList).toNat &&& (nat25HashSize - 1)

/-- `struct nat25_network_db_entry`, without its links. -/
structure DbEntry where
  networkAddr : NetworkAddr
  macAddr : MacAddr
  useCount : ℤ
  ageingTimer : ℕ

/-- What the functions take from their surroundings. -/
structure Env where
  order : ByteOrder
  hz : ℕ
  -- the log level reaches `_DRV_INFO_`, so that the arguments of `RTW_INFO` are read
  logInfo : Bool
  -- the memory from `tag_buf` on, before anything is written to it
  stack : ℕ → Byte
  -- `rtw_malloc` finds room for an entry
  malloc : Bool := true

variable (env : Env)

/-- `struct br_ext_info`. -/
structure BrExtInfo where
  nat25Disable : Bool := false
  dhcpBcstDisable : Bool := false
  addPPPoETag : Bool := false
  nat25scDisable : Bool := false

def nullIp : IpAddr := Vector.replicate 4 0

/-- The fields of `_adapter` that the bridge extension has. -/
structure Adapter where
  nethash : ℕ → List DbEntry := fun _ => []
  pppoeConnectionInProgress : ℕ := 0
  pppoeAddr : MacAddr := nullAddr
  scdbMac : MacAddr := nullAddr
  scdbIp : IpAddr := nullIp
  scdbEntry : Option NetworkAddr := none
  brMac : MacAddr := nullAddr
  brIp : IpAddr := nullIp
  ethBrExtInfo : BrExtInfo := {}
  macAddr : MacAddr
  -- the address of the bridge device, if `netdev_br_init` finds it
  brNetdev : Option MacAddr := none
  jiffies : ℕ := 0

variable (priv : Adapter)

def nat25AgeingTime : ℕ := 300

/-- `__nat25_has_expired`, with times that do not wrap around. -/
def nat25HasExpired (jiffies : ℕ) (fdb : DbEntry) : Bool :=
  decide (fdb.ageingTimer + nat25AgeingTime * env.hz ≤ jiffies)

/-- The loop over a chain that compares addresses. -/
def Adapter.find (addr : NetworkAddr) : Option DbEntry :=
  Buckets.find networkHash DbEntry.networkAddr priv.nethash addr

/-- A change to the entry of an address. -/
def Adapter.modify (priv : Adapter) (addr : NetworkAddr) (f : DbEntry → DbEntry) : Adapter :=
  { priv with nethash := Buckets.modify networkHash DbEntry.networkAddr priv.nethash addr f }

/-- `__nat25_db_network_insert`. -/
def dbNetworkInsert (malloc : Bool) (priv : Adapter) (macAddr : MacAddr) (addr : NetworkAddr) :
    Adapter :=
  match priv.find addr with
  | some _ => priv.modify addr fun db => { db with macAddr, ageingTimer := priv.jiffies }
  | none =>
    if malloc then
      { priv with
        nethash := Buckets.push networkHash DbEntry.networkAddr priv.nethash
          { networkAddr := addr, macAddr, useCount := 1, ageingTimer := priv.jiffies } }
    else priv

/-- `__nat25_db_network_lookup_and_replace`. An expired entry counts as found. -/
def dbNetworkLookupAndReplace (skb : SkBuff) (addr : NetworkAddr) : Adapter × SkBuff × Bool :=
  match priv.find addr with
  | some db =>
    if nat25HasExpired env priv.jiffies db then (priv, skb, true)
    else
      (priv.modify addr fun db => { db with useCount := db.useCount + 1 },
        skb.store 0 db.macAddr.toList, true)
  | none => (priv, skb, false)

/-- The shortcut is dropped. -/
def Adapter.clearScdb : Adapter :=
  { priv with scdbMac := nullAddr, scdbIp := nullIp, scdbEntry := none }

/-- What `nat25_db_expire` leaves of an entry. -/
def afterExpiry (jiffies : ℕ) (f : DbEntry) : Option DbEntry :=
  if nat25HasExpired env jiffies f then
    if f.useCount - 1 = 0 then none else some { f with useCount := f.useCount - 1 }
  else some f

/-- `nat25_db_expire`. -/
def nat25DbExpire : Adapter :=
  let unlinked := priv.scdbEntry.any fun addr =>
    (priv.find addr).any fun f => (afterExpiry env priv.jiffies f).isNone
  let kept := if unlinked then priv.clearScdb else priv
  { kept with nethash := Buckets.sieve priv.nethash (afterExpiry env priv.jiffies) }

/-- `scdb_findEntry`. -/
def scdbFindEntry (ipAddr : IpAddr) : Option NetworkAddr :=
  (priv.find (.ipv4 ipAddr)).map DbEntry.networkAddr

/-- `netdev_br_init`. -/
def netdevBrInit : Adapter :=
  { priv with
    brMac := priv.brNetdev.getD priv.brMac
    ethBrExtInfo := { priv.ethBrExtInfo with addPPPoETag := true } }

def littleHost : Env :=
  { order := .little, hz := 100, logInfo := false, stack := fun _ => 0 }

end Rtl88x2bu.Bridge
