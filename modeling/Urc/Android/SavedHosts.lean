import Urc.Android.Host
import Urc.Common.JsonText
import Urc.Library.OrderedMap
import Urc.Library.Run

/-! # The store of saved hosts

`HostStore` keeps its list as one JSON text in the preferences, and every change reads the whole
text and writes it again. Hosts as the app saves them go through the text unchanged, so the list
behaves as a map from addresses to hosts that keeps its order.
-/

namespace Urc

open Kotlin JsonText

/-- `org.json`: what it prints it reads again, an array as a text in brackets. The two coercions
are those of values that are no string, or no `Int`. -/
structure OrgJson extends JsonCodec where
  coerceString : Json → String
  coerceInt : Json → Option ℤ
  bracket : ∀ items, (print (.array items)).toList.head? = some '['

def OrgJson.compact : OrgJson where
  toJsonCodec := .compact
  coerceString _ := ""
  coerceInt _ := none
  bracket items := by cases items <;> simp [JsonCodec.compact, JsonText.print]

/-- The values of `Int`. -/
def Kotlin.IsInt (z : ℤ) : Prop := -0x80000000 ≤ z ∧ z < 0x80000000

instance (z : ℤ) : Decidable (IsInt z) := inferInstanceAs (Decidable (_ ∧ _))

namespace OrgJson

variable (json : OrgJson)

/-- `JSON.toString`. -/
def asString : Json → String
  | .string s => s
  | j => json.coerceString j

/-- `JSON.toInteger`. -/
def asInt : Json → Option ℤ
  | .number text =>
    match readInt text.toList with
    | some z => if IsInt z then some z else json.coerceInt (.number text)
    | none => json.coerceInt (.number text)
  | j => json.coerceInt j

/-- `getString`, which throws where the name is missing. -/
def getString (o : Json) (name : String) : Option String := (o.get name).map json.asString

def optInt (o : Json) (name : String) (fallback : ℤ) : ℤ :=
  ((o.get name).bind json.asInt).getD fallback

def optString (o : Json) (name fallback : String) : String :=
  ((o.get name).map json.asString).getD fallback

end OrgJson

namespace Host

def toJson (h : Host) : Json :=
  .object ([("host", .string h.host), ("port", .number (toString h.port))] ++
    h.magicDns.toList.map (fun s => ("magicdns", .string s)) ++
    h.name.toList.map (fun s => ("name", .string s)))

/-- `fromJson` of an item of the array; an item that is no object makes `getJSONObject` throw. -/
def fromJson (json : OrgJson) (o : Json) : Option Host :=
  o.asObject.bind fun _ => (json.getString o "host").map fun host =>
    { host := host
      port := json.optInt o "port" 0
      magicDns := nullIfBlank (json.optString o "magicdns" "")
      name := nullIfBlank (json.optString o "name" "") }

end Host

/-- The preference `hosts_json`. -/
abbrev HostPrefs := Option String

inductive HostOp
  | add (host : Host)
  | remove (host : Host)
  deriving DecidableEq

def HostOp.host : HostOp → Host
  | .add h | .remove h => h

namespace HostPrefs

variable (json : OrgJson)

def encode (list : List Host) : String := json.print (.array (list.map Host.toJson))

/-- `decode`: an entry that does not parse is left out, a text that does not parse is empty. -/
def decode : HostPrefs → List Host
  | none => []
  | some raw =>
    if isBlank raw then []
    else
      match json.parse raw with
      | some (.array items) => items.filterMap (Host.fromJson json)
      | _ => []

def list (prefs : HostPrefs) : List Host := decode json prefs

def add (prefs : HostPrefs) (host : Host) : HostPrefs :=
  let current := decode json prefs
  some (encode json (match current.findIdx? fun it => it.key = host.key with
    | some idx => current.set idx host
    | none => current ++ [host]))

def remove (prefs : HostPrefs) (host : Host) : HostPrefs :=
  some (encode json ((decode json prefs).filter fun it => it.key ≠ host.key))

def step (prefs : HostPrefs) : HostOp → HostPrefs
  | .add host => add json prefs host
  | .remove host => remove json prefs host

end HostPrefs

/-! ### What goes through the text -/

section Text

variable {json : OrgJson} {h : Host} {l : List Host}

theorem wellFormed_toJson (h : Host) : WellFormed h.toJson := by
  obtain ⟨host, port, magicDns, name⟩ := h
  have hport := isNumber_int port
  cases magicDns <;> cases name <;> simp only [Host.toJson, Option.toList, List.map_cons,
    List.map_nil, List.cons_append, List.nil_append, List.append_nil, WellFormed,
    WellFormedMembers, hport, and_self]

theorem asInt_toString {z : ℤ} (hz : IsInt z) : json.asInt (.number (toString z)) = some z := by
  simp only [OrgJson.asInt, readInt_toString]
  exact if_pos hz

theorem nullIfBlank_empty : nullIfBlank "" = none := rfl

theorem fromJson_toJson (hport : IsInt h.port) : Host.fromJson json h.toJson = some h.reload := by
  obtain ⟨host, port, magicDns, name⟩ := h
  have hint : json.asInt (.number port.repr) = some port := asInt_toString hport
  cases magicDns <;> cases name <;> simp [Host.fromJson, Host.toJson, Host.reload, Json.asObject,
    OrgJson.getString, OrgJson.optInt, OrgJson.optString, Json.get, OrgJson.asString, hint,
    nullIfBlank_empty]

theorem wellFormed_items (l : List Host) : WellFormedItems (l.map Host.toJson) := by
  induction l with
  | nil => trivial
  | cons h l ih => exact ⟨wellFormed_toJson h, ih⟩

theorem isBlank_encode (l : List Host) : isBlank (HostPrefs.encode json l) = false := by
  have hhead := json.bracket (l.map Host.toJson)
  obtain ⟨s, hs⟩ : ∃ s, (HostPrefs.encode json l).toList = '[' :: s := by
    cases he : (HostPrefs.encode json l).toList with
    | nil =>
      rw [HostPrefs.encode] at he
      rw [he] at hhead
      cases hhead
    | cons c s =>
      rw [HostPrefs.encode] at he
      rw [he] at hhead
      exact ⟨s, by rw [Option.some.inj hhead]⟩
  rw [isBlank, hs]
  rfl

theorem decode_encode (h : ∀ x ∈ l, IsInt x.port) :
    HostPrefs.decode json (some (HostPrefs.encode json l)) = l.map Host.reload := by
  have hwf : WellFormed (.array (l.map Host.toJson)) := wellFormed_items l
  have hparse : json.parse (HostPrefs.encode json l) = some (.array (l.map Host.toJson)) :=
    json.parse_print _ hwf
  simp only [HostPrefs.decode, isBlank_encode, hparse]
  rw [List.filterMap_map, ← List.filterMap_eq_map]
  exact List.filterMap_congr fun x hx => fromJson_toJson (h x hx)

variable {prefs : HostPrefs}

theorem HostStore.add_eq (stored : HostStore) (host : Host) : stored.add host =
    (OrderedMap.upsert (fun it => it.key = host.key) host stored).map Host.reload := by
  unfold HostStore.add
  split
  · rw [OrderedMap.upsert_of_findIdx? ‹_›]
  · rw [OrderedMap.upsert_of_findIdx?_eq_none ‹_›]

theorem HostPrefs.add_eq : prefs.add json h = some (HostPrefs.encode json
    (OrderedMap.upsert (fun it => it.key = h.key) h (prefs.list json))) := by
  unfold HostPrefs.add HostPrefs.list
  dsimp only
  split
  · rw [OrderedMap.upsert_of_findIdx? ‹_›]
  · rw [OrderedMap.upsert_of_findIdx?_eq_none ‹_›]

/-- On texts, `add` and `remove` do what they do on the lists that the texts hold. -/
theorem list_add (hl : ∀ x ∈ prefs.list json, IsInt x.port) (hh : IsInt h.port) :
    (prefs.add json h).list json = HostStore.add (prefs.list json) h := by
  rw [HostPrefs.add_eq, HostStore.add_eq]
  refine decode_encode fun x hx => ?_
  rcases OrderedMap.mem_upsert hx with rfl | hx
  · exact hh
  · exact hl x hx

theorem list_remove (hl : ∀ x ∈ prefs.list json, IsInt x.port) :
    (prefs.remove json h).list json = HostStore.remove (prefs.list json) h :=
  decode_encode fun x hx => hl x (List.mem_filter.mp hx).1

end Text

/-! ### Keys -/

section Keys

variable {h h' : Host}

theorem toString_inj {z z' : ℤ} (h : toString z = toString z') : z = z' := by
  have hread := readInt_toString z
  rw [h, readInt_toString] at hread
  exact (Option.some.inj hread).symm

/-- Without a colon in the host, the key tells the host and the port apart. -/
theorem key_eq_iff (hh : ':' ∉ h.host.toList) (hh' : ':' ∉ h'.host.toList) :
    h.key = h'.key ↔ h.host = h'.host ∧ h.port = h'.port := by
  constructor
  · intro he
    have hchars := congrArg String.toList he
    simp only [Host.key, String.toList_append] at hchars
    have hcolon : ∀ s t : List Char, s ++ ":".toList ++ t = s ++ ':' :: t := by simp
    obtain ⟨hhost, hport⟩ := cut_append hh (toString h.port).toList
    obtain ⟨hhost', hport'⟩ := cut_append hh' (toString h'.port).toList
    rw [hcolon, hcolon] at hchars
    rw [hchars, hhost'] at hhost
    rw [hchars, hport'] at hport
    exact ⟨String.toList_inj.mp hhost.symm,
      toString_inj (String.toList_inj.mp (List.cons.inj hport).2.symm)⟩
  · rintro ⟨hhost, hport⟩
    rw [Host.key, Host.key, hhost, hport]

end Keys

/-! ### The map that the store keeps -/

open Transition

/-- A host as the callers save it: no label is blank, and the host is an IPv4 literal, of which
only counts that it has no colon. -/
structure Host.Normal (h : Host) : Prop where
  host : ':' ∉ h.host.toList
  port : IsInt h.port
  magicDns : ∀ s, h.magicDns = some s → isBlank s = false
  name : ∀ s, h.name = some s → isBlank s = false

theorem not_mem_of_isLiteral {s : String} (hs : Cgnat.IsLiteral s) : ':' ∉ s.toList := by
  obtain ⟨a, b, c, d, -, -, -, -, rfl⟩ := hs
  rw [Cgnat.toList_dottedQuad]
  intro hmem
  have hdigits : ∀ n, ':' ∉ Nat.toDigits 10 n := fun n hn =>
    absurd ((Decimal.isNumeral_toDigits n).digits ':' hn) (by decide)
  simp [List.intercalate, List.intersperse, hdigits] at hmem

namespace Host

def addr (h : Host) : String × ℤ := (h.host, h.port)

theorem Normal.reload {h : Host} (hn : h.Normal) : h.reload = h := by
  obtain ⟨host, port, magicDns, name⟩ := h
  have hlabel : ∀ {label : Option String}, (∀ s, label = some s → isBlank s = false) →
      label.bind nullIfBlank = label := by
    intro label hs
    cases label with
    | none => rfl
    | some s => simp [nullIfBlank, hs s rfl]
  rw [Host.reload, hlabel hn.magicDns, hlabel hn.name]

theorem Normal.key_eq_iff {h h' : Host} (hn : h.Normal) (hn' : h'.Normal) :
    h.key = h'.key ↔ h.addr = h'.addr := by
  rw [Urc.key_eq_iff hn.host hn'.host, addr, addr, Prod.mk.injEq]

end Host

abbrev SavedHosts := OrderedMap (String × ℤ) Host

def SavedHosts.step (m : SavedHosts) : HostOp → SavedHosts
  | .add h => m.insert h.addr h
  | .remove h => m.erase h.addr

/-- The preferences hold the text of the map. -/
structure Stores (json : OrgJson) (prefs : HostPrefs) (m : SavedHosts) : Prop where
  list : prefs.list json = m.values
  addr : ∀ e ∈ m.entries, e.1 = e.2.addr
  normal : ∀ e ∈ m.entries, e.2.Normal

variable {json : OrgJson} {prefs : HostPrefs} {m : SavedHosts} {h : Host} {op : HostOp}

theorem stores_empty : Stores json none ∅ := ⟨rfl, by simp [EmptyCollection.emptyCollection], by
  simp [EmptyCollection.emptyCollection]⟩

theorem map_reload {l : List Host} (hl : ∀ x ∈ l, x.Normal) : l.map Host.reload = l :=
  (List.map_congr_left fun x hx => (hl x hx).reload).trans l.map_id

theorem Stores.list_normal (hs : Stores json prefs m) : ∀ x ∈ prefs.list json, x.Normal := by
  intro x hx
  rw [hs.list] at hx
  obtain ⟨e, he, rfl⟩ := List.mem_map.mp hx
  exact hs.normal e he

theorem Stores.add_list (hs : Stores json prefs m) (hn : h.Normal) : (prefs.add json h).list json =
    OrderedMap.upsert (fun it => it.key = h.key) h (prefs.list json) := by
  rw [list_add (fun x hx => (hs.list_normal x hx).port) hn.port, HostStore.add_eq]
  refine map_reload fun x hx => ?_
  rcases OrderedMap.mem_upsert hx with rfl | hx
  · exact hn
  · exact hs.list_normal x hx

theorem Stores.remove_list (hs : Stores json prefs m) : (prefs.remove json h).list json =
    (prefs.list json).filter fun it => it.key ≠ h.key := by
  rw [list_remove fun x hx => (hs.list_normal x hx).port, HostStore.remove]
  exact map_reload fun x hx => hs.list_normal x (List.mem_filter.mp hx).1

theorem Stores.key_iff (hs : Stores json prefs m) (hn : h.Normal) {e : (String × ℤ) × Host}
    (he : e ∈ m.entries) : e.2.key = h.key ↔ e.1 = h.addr := by
  rw [(hs.normal e he).key_eq_iff hn, hs.addr e he]

theorem Stores.add (hs : Stores json prefs m) (hn : h.Normal) :
    Stores json (prefs.add json h) (m.insert h.addr h) := by
  have hmem : ∀ e ∈ (m.insert h.addr h).entries, e = (h.addr, h) ∨ e ∈ m.entries := fun e he =>
    OrderedMap.mem_upsert he
  refine ⟨?_, fun e he => ?_, fun e he => ?_⟩
  · rw [hs.add_list hn, hs.list]
    exact (OrderedMap.map_upsert (·.1 = h.addr) (·.key = h.key) (·.2)
      (fun e he => decide_eq_decide.mpr (hs.key_iff hn he)) (h.addr, h)).symm
  · rcases hmem e he with rfl | he
    · rfl
    · exact hs.addr e he
  · rcases hmem e he with rfl | he
    · exact hn
    · exact hs.normal e he

theorem Stores.remove (hs : Stores json prefs m) (hn : h.Normal) :
    Stores json (prefs.remove json h) (m.erase h.addr) := by
  have hmem : ∀ e ∈ (m.erase h.addr).entries, e ∈ m.entries := fun e he =>
    (List.mem_filter.mp he).1
  refine ⟨?_, fun e he => hs.addr e (hmem e he), fun e he => hs.normal e (hmem e he)⟩
  rw [hs.remove_list, hs.list, OrderedMap.values, OrderedMap.values, List.filter_map]
  refine congrArg _ (List.filter_congr fun e he => ?_)
  exact decide_eq_decide.mpr (not_congr (hs.key_iff hn he))

theorem Stores.step (hs : Stores json prefs m) (hn : op.host.Normal) :
    Stores json (prefs.step json op) (m.step op) := by
  cases op with
  | add h => exact hs.add hn
  | remove h => exact hs.remove hn

theorem Stores.run {ops : List HostOp} (hs : Stores json prefs m)
    (h : ∀ op ∈ ops, op.host.Normal) :
    Stores json (Transition.run (HostPrefs.step json) prefs ops)
      (Transition.run SavedHosts.step m ops) := by
  induction ops generalizing prefs m with
  | nil => exact hs
  | cons op ops ih =>
    exact ih (hs.step (h op List.mem_cons_self)) fun o ho => h o (List.mem_cons_of_mem _ ho)

theorem Stores.unique (hs : Stores json prefs m) : ((prefs.list json).map Host.key).Nodup := by
  have hkeys : m.entries.Pairwise fun e e' => e.1 ≠ e'.1 := List.pairwise_map.mp m.nodup
  rw [hs.list, OrderedMap.values, List.map_map]
  refine List.pairwise_map.mpr (hkeys.imp_of_mem fun {e e'} he he' hne hkey => hne ?_)
  rw [hs.addr e he, hs.addr e' he']
  exact ((hs.normal e he).key_eq_iff (hs.normal e' he')).mp hkey

/-- A step leaves all hosts with another key as they are. -/
theorem Stores.others (hs : Stores json prefs m) (hn : op.host.Normal) :
    ((prefs.step json op).list json).filter (fun x => x.key ≠ op.host.key) =
      (prefs.list json).filter fun x => x.key ≠ op.host.key := by
  cases op with
  | add h =>
    have hlist : (prefs.step json (.add h)).list json =
        OrderedMap.upsert (fun it => it.key = h.key) h (prefs.list json) := hs.add_list hn
    have hother : ∀ x : Host, decide (x.key ≠ h.key) = !decide (x.key = h.key) := fun x =>
      decide_not
    rw [hlist]
    exact OrderedMap.filter_upsert hother (decide_eq_true rfl) _
  | remove h =>
    have hlist : (prefs.step json (.remove h)).list json =
        (prefs.list json).filter fun it => it.key ≠ h.key := hs.remove_list
    rw [hlist, List.filter_filter]
    exact List.filter_congr fun x _ => Bool.and_self _

/-- The store behaves as a map: its list is that of the map, no key comes twice, and a further
change leaves the hosts with other keys as they are, in their order. -/
structure BehavesAsMap (json : OrgJson) (ops : List HostOp) : Prop where
  list : (run (HostPrefs.step json) none ops).list json = (run SavedHosts.step ∅ ops).values
  unique : (((run (HostPrefs.step json) none ops).list json).map Host.key).Nodup
  others : ∀ op : HostOp, op.host.Normal →
    ((run (HostPrefs.step json) none (ops ++ [op])).list json).filter
        (fun x => x.key ≠ op.host.key) =
      ((run (HostPrefs.step json) none ops).list json).filter fun x => x.key ≠ op.host.key

theorem saved_hosts_behave_as_map (json : OrgJson) (ops : List HostOp)
    (h : ∀ op ∈ ops, op.host.Normal) : BehavesAsMap json ops := by
  have hs : Stores json (run (HostPrefs.step json) none ops) (run SavedHosts.step ∅ ops) :=
    stores_empty.run h
  refine ⟨hs.list, hs.unique, fun op hn => ?_⟩
  rw [run_append]
  exact hs.others hn

/-- Two machines behind one address, told apart by their ports, and one of them renamed. -/
def officeHosts : List HostOp :=
  [.add ⟨"100.64.0.7", 15901, none, some "desk"⟩,
    .add ⟨"100.64.0.7", 15902, some "lab.ts.net", none⟩,
    .add ⟨"100.64.0.7", 15901, none, some "office"⟩]

theorem saved_hosts_behave_as_map_office : BehavesAsMap .compact officeHosts := by
  have hliteral : Cgnat.IsLiteral "100.64.0.7" :=
    ⟨100, 64, 0, 7, by decide, by decide, by decide, by decide, by decide +kernel⟩
  refine saved_hosts_behave_as_map .compact officeHosts fun op hop => ?_
  simp only [officeHosts, List.mem_cons, List.not_mem_nil, or_false] at hop
  rcases hop with rfl | rfl | rfl
  · exact ⟨not_mem_of_isLiteral hliteral, by decide, by rintro _ ⟨⟩, by rintro _ ⟨⟩; decide⟩
  · exact ⟨not_mem_of_isLiteral hliteral, by decide, by rintro _ ⟨⟩; decide, by rintro _ ⟨⟩⟩
  · exact ⟨not_mem_of_isLiteral hliteral, by decide, by rintro _ ⟨⟩, by rintro _ ⟨⟩; decide⟩

end Urc
