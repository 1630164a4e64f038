import Urc.Android.Cgnat

/-! # Saved hosts

A saved host, and the list of them that the app keeps in its data store.
-/

namespace Urc

open Kotlin

/-- `DEFAULT_WEB_TLS_PORT`. -/
def Android.defaultWebTlsPort : ℤ := 15901

/-- The port is an `Int`: only links and the dialog check or restrict it. -/
structure Host where
  host : String
  port : ℤ
  magicDns : Option String
  name : Option String
  deriving DecidableEq

namespace Host

def key (h : Host) : String := h.host ++ ":" ++ toString h.port

def displayName (h : Host) : String :=
  ((h.name.filter fun s => !isBlank s).or (h.magicDns.filter fun s => !isBlank s)).getD h.host

def isTailnet (h : Host) : Bool := Cgnat.isTailnetAddress h.host

/-- What `fromJson` reads from the object that `toJson` writes. -/
def reload (h : Host) : Host :=
  { h with magicDns := h.magicDns.bind nullIfBlank, name := h.name.bind nullIfBlank }

end Host

/-- The hosts that `decode` reads from the preferences. -/
abbrev HostStore := List Host

namespace HostStore

def add (stored : HostStore) (host : Host) : HostStore :=
  let current := match stored.findIdx? fun it => it.key = host.key with
    | some idx => stored.set idx host
    | none => stored ++ [host]
  current.map Host.reload

def remove (stored : HostStore) (host : Host) : HostStore :=
  (stored.filter fun it => it.key ≠ host.key).map Host.reload

end HostStore

end Urc
