import Cix.Lib.CString
import Cix.Lib.Machine
import Cix.Lib.Slots

/-!
# The throttle of failing sources

`daemon/src/connthrottle.c`: for each address the failures of two classes, TLS
handshakes and credential checks, and what is refused because of them.  Times
are seconds; the clock of a call is part of the call.
-/

namespace Cix.Throttle

open Cix.Lib

def maxEntries : Nat := 256

abbrev Ip := BoundedStr 16

def Ip.store (text : CStr) : Ip :=
  BoundedStr.store 16 pos_16 text

/-- `struct throttle_config` in the ranges of `connthrottle_config_set`. -/
structure Config where
  enabled : Bool
  (threshold windowSeconds blockSeconds logIntervalSeconds : Nat)
  thresholdRange : 1 ≤ threshold ∧ threshold ≤ 100000
  windowRange : 1 ≤ windowSeconds ∧ windowSeconds ≤ 86400
  blockRange : 1 ≤ blockSeconds ∧ blockSeconds ≤ 604800
  logIntervalRange : logIntervalSeconds ≤ 3600

structure Counter where
  (failCount windowStart : Nat)
  /-- 0 is not blocked. -/
  blockedUntil : Nat
  deriving DecidableEq

structure Entry where
  ip : Ip
  (tls auth : Counter)
  /-- 0 is never. -/
  lastLogged : Nat
  deriving DecidableEq

abbrev Table := Slots Entry maxEntries

def Counter.fresh (now : Nat) : Counter := ⟨0, now, 0⟩

def findEntry (table : Table) (ip : Ip) : Option (Nat × Entry) :=
  table.find fun e => e.ip = ip

def getOrCreateEntry (table : Table) (ip : Ip) (now : Nat) : Option (Nat × Entry × Table) :=
  match findEntry table ip with
  | some (slot, e) => some (slot, e, table)
  | none =>
    match table.firstFree with
    | none => none
    | some slot =>
      let e : Entry := ⟨ip, Counter.fresh now, Counter.fresh now, 0⟩
      some (slot, e, table.put slot (some e))

def isLoopback (ip : Ip) : Bool :=
  decide (ip.str = CStr.ofString "127.0.0.1")

def Counter.window (config : Config) (now : Nat) (c : Counter) : Counter :=
  if now - c.windowStart > config.windowSeconds then
    { c with windowStart := now, failCount := 0 }
  else c

def Counter.counted (config : Config) (now : Nat) (c : Counter) : Counter :=
  { c.window config now with failCount := (c.window config now).failCount + 1 }

def Counter.failTls (config : Config) (now : Nat) (c : Counter) : Counter :=
  let counted := c.counted config now
  if counted.failCount ≥ config.threshold then
    { counted with blockedUntil := now + config.blockSeconds }
  else counted

def Counter.failAuth (config : Config) (now : Nat) (c : Counter) : Counter :=
  let counted := c.counted config now
  if counted.failCount ≥ config.threshold ∧ counted.blockedUntil = 0 then
    { counted with blockedUntil := now + config.blockSeconds }
  else counted

def Counter.expire (now : Nat) (c : Counter) : Counter :=
  if c.blockedUntil ≠ 0 ∧ c.blockedUntil ≤ now then
    { c with blockedUntil := 0, failCount := 0 }
  else c

def Counter.left (now : Nat) (c : Counter) : Nat :=
  c.blockedUntil - now

def Counter.cleared (c : Counter) : Counter :=
  { c with failCount := 0, blockedUntil := 0 }

def Table.edit (table : Table) (ip : Ip) (change : Entry → Entry) : Table :=
  match findEntry table ip with
  | none => table
  | some (slot, e) => table.put slot (some (change e))

def Table.editOrCreate (table : Table) (ip : Ip) (now : Nat) (change : Entry → Entry) : Table :=
  match getOrCreateEntry table ip now with
  | none => table
  | some (slot, e, table) => table.put slot (some (change e))

def shouldBlock (config : Config) (ip : Ip) (now : Nat) (table : Table) : Bool × Table :=
  if !config.enabled || isLoopback ip then (false, table)
  else
    match findEntry table ip with
    | none => (false, table)
    | some (_, e) =>
      (decide (0 < e.tls.left now), table.edit ip fun e => { e with tls := e.tls.expire now })

def recordFailure (config : Config) (ip : Ip) (now : Nat) (table : Table) :
    Table :=
  if !config.enabled then table
  else
    table.editOrCreate ip now fun e =>
      { e with tls := e.tls.failTls config now }

def shouldLogFailure (config : Config) (ip : Ip) (now : Nat) (table : Table) : Bool × Table :=
  match getOrCreateEntry table ip now with
  | none => (true, table)
  | some (slot, e, table) =>
    if config.logIntervalSeconds > 0 ∧ e.lastLogged ≠ 0 ∧
        now - e.lastLogged < config.logIntervalSeconds then (false, table)
    else (true, table.put slot (some { e with lastLogged := now }))

def recordSuccess (ip : Ip) (table : Table) : Table :=
  table.edit ip fun e => { e with tls := e.tls.cleared }

def authExempt (ip : Ip) : Bool :=
  decide (ip.str.length = 0) || isLoopback ip

def authBlocked (config : Config) (ip : Ip) (now : Nat) (table : Table) : Nat × Table :=
  if !config.enabled || authExempt ip then (0, table)
  else
    match findEntry table ip with
    | none => (0, table)
    | some (_, e) =>
      (e.auth.left now, table.edit ip fun e => { e with auth := e.auth.expire now })

/-- `connthrottle_record_auth_failure`: whether the failure trips a block. -/
def recordAuthFailure (config : Config) (ip : Ip) (now : Nat) (table : Table) : Bool × Table :=
  if !config.enabled || authExempt ip then (false, table)
  else
    match getOrCreateEntry table ip now with
    | none => (false, table)
    | some (slot, e, table) =>
      let failed := e.auth.failAuth config now
      (decide (failed.blockedUntil ≠ e.auth.blockedUntil),
        table.put slot (some { e with auth := failed }))

def recordAuthSuccess (ip : Ip) (table : Table) : Table :=
  if ip.str.length = 0 then table
  else table.edit ip fun e => { e with auth := e.auth.cleared }

inductive Event where
  | shouldBlock (ip : Ip)
  | recordFailure (ip : Ip)
  | shouldLogFailure (ip : Ip)
  | recordSuccess (ip : Ip)
  | authBlocked (ip : Ip)
  | recordAuthFailure (ip : Ip)
  | recordAuthSuccess (ip : Ip)
  deriving DecidableEq

def serve (config : Config) (now : Nat) (table : Table) : Event → Table
  | .shouldBlock ip => (shouldBlock config ip now table).2
  | .recordFailure ip => recordFailure config ip now table
  | .shouldLogFailure ip => (shouldLogFailure config ip now table).2
  | .recordSuccess ip => recordSuccess ip table
  | .authBlocked ip => (authBlocked config ip now table).2
  | .recordAuthFailure ip => (recordAuthFailure config ip now table).2
  | .recordAuthSuccess ip => recordAuthSuccess ip table

end Cix.Throttle
