import Urc.Android.Host

/-! # Pairing links

`UrcUri.parse` reads a pairing link with the URIs of Android. They are a parameter here.
-/

namespace Urc

open Kotlin

/-- `android.net.Uri`. `parse` is none where it throws, and a getter where it returns null. -/
structure UriApi (U : Type) where
  parse : String → Option U
  scheme : U → Option String
  host : U → Option String
  schemeSpecificPart : U → Option String
  isHierarchical : U → Bool
  getQueryParameter : U → String → Option String
  decode : String → String

namespace UrcUri

variable {U : Type} (api : UriApi U)

/-- One pair of a raw query; a pair without a key is dropped. -/
def rawPair (pair : List Char) : Option (String × String) :=
  let key := pair.takeWhile (· ≠ '=')
  if key = [] ∨ '=' ∉ pair then none
  else some (api.decode (.ofList key), api.decode (.ofList (pair.dropWhile (· ≠ '=')).tail))

def parseRawQuery (query : Option String) : List (String × String) :=
  match query with
  | none => []
  | some query =>
    if query = "" then [] else (query.toList.splitOn '&').filterMap (rawPair api)

/-- A lookup in the map: the last of several pairs with one key counts. -/
def lookup (pairs : List (String × String)) (key : String) : Option String :=
  (pairs.reverse.find? (·.1 = key)).map (·.2)

def params (uri : U) : String → Option String :=
  if api.isHierarchical uri then api.getQueryParameter uri
  else lookup (parseRawQuery api ((api.schemeSpecificPart uri).map (substringAfter '?')))

def label (value : Option String) : Option String := (value.map Kotlin.trim).bind nullIfBlank

def portOf (value : Option String) : ℤ :=
  ((value.bind fun s => toIntOrNull s.toList).filter fun p => 1 ≤ p && p ≤ 65535).getD
    Android.defaultWebTlsPort

def parse (raw : String) : Option Host :=
  match api.parse (Kotlin.trim raw) with
  | none => none
  | some uri =>
    if !(api.scheme uri).any (equalsIgnoreCase · "urc") then none
    else
      let action := (api.host uri).or ((api.schemeSpecificPart uri).map (substringBefore '?'))
      if !action.all (equalsIgnoreCase · "connect") then none
      else
        let host := ((params api uri "host").map Kotlin.trim).getD ""
        if host = "" then none
        else if (Cgnat.parseIpv4Literal host).isNone then none
        else some ⟨host, portOf (params api uri "port"), label (params api uri "magicdns"),
          label (params api uri "name")⟩

end UrcUri

end Urc
