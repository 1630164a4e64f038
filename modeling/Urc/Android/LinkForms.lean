import Urc.Android.Pairing

/-! # The two forms of a pairing link

The app takes a link with an authority, `urc://connect?…`, and one without, `urc:connect?…`. The
parameters of the first are read by Android. Those of the second are read by the app, from a part
of the link that Android has already decoded.
-/

namespace Urc

open Kotlin

def plusToSpace (c : Char) : Char := if c = '+' then ' ' else c

/-- What is documented of `Uri.decode`: it undoes escapes, each run of them as bytes of UTF-8, and
nothing else. -/
structure UriApi.Decodes (decode : String → String) : Prop where
  plain : ∀ plain rest : String, '%' ∉ plain.toList → decode (plain ++ rest) = plain ++ decode rest
  escaped : ∃ read, Percent.ReadsUtf8 read ∧ ∀ text, Percent.WellEscaped text →
    decode (.ofList text) = .ofList (Percent.decodeText read [] text)

/-- What is documented of a link with an authority, whose parameters are those of its query, and of
one without, which has a decoded scheme-specific part instead. A fragment belongs to neither. -/
structure UriApi.BothForms {U : Type} (api : UriApi U) : Prop where
  decodes : UriApi.Decodes api.decode
  authority : ∀ scheme authority rest : String, IsWord scheme → IsWord authority → ∃ uri,
    api.parse (scheme ++ "://" ++ authority ++ "?" ++ rest) = some uri ∧
    api.scheme uri = some scheme ∧ api.host uri = some authority ∧ api.isHierarchical uri = true ∧
    ∀ key, IsWord key → api.getQueryParameter uri key =
      (firstValue (rest.toList.takeWhile (· ≠ '#')) key.toList).map fun raw =>
        api.decode (.ofList (raw.map plusToSpace))
  part : ∀ scheme action rest : String, IsWord scheme → IsWord action → ∃ uri,
    api.parse (scheme ++ ":" ++ action ++ "?" ++ rest) = some uri ∧
    api.scheme uri = some scheme ∧ api.host uri = none ∧ api.isHierarchical uri = false ∧
    api.schemeSpecificPart uri =
      some (api.decode (action ++ "?" ++ .ofList (rest.toList.takeWhile (· ≠ '#'))))

theorem IsWord.head_ne {s : String} (hs : IsWord s) {c : Char} (hc : c.isAlphanum = false)
    (rest : List Char) : (s.toList ++ rest).head? ≠ some c := by
  have hne : s.toList ≠ [] := by simpa using hs.1
  have hmem := hs.not_mem hc
  obtain ⟨d, ds, hds⟩ := List.exists_cons_of_ne_nil hne
  rw [hds] at hmem ⊢
  rintro ⟨⟩
  exact hmem List.mem_cons_self

namespace UrcUri

/-- The query of a link that ends in this text: `parse` trims it, and a fragment is cut off. -/
def sentQuery (q : String) : List Char :=
  (q.toList.rdropWhile Kotlin.isWhitespace).takeWhile (· ≠ '#')

/-- The first value of a key, decoded once, with plus signs as spaces. -/
def readOnce (decode : String → String) (query : List Char) (key : String) : Option String :=
  (firstValue query key.toList).map fun raw => decode (.ofList (raw.map plusToSpace))

def rawKey (pair : List Char) : List Char := pair.takeWhile (· ≠ '=')

def rawValue (pair : List Char) : List Char := (pair.dropWhile (· ≠ '=')).tail

/-- The value of a pair with this key; both are decoded behind the cut. -/
def pairValue (decode : String → String) (key : String) (pair : List Char) : Option String :=
  if '=' ∈ pair ∧ pair.head? ≠ some '=' ∧ decode (.ofList (rawKey pair)) = key then
    some (decode (.ofList (rawValue pair)))
  else none

/-- The last value of a key among the pairs that have one. -/
def lastValue (decode : String → String) (query : List Char) (key : String) : Option String :=
  (query.splitOn '&').reverse.findSome? (pairValue decode key)

/-- The last value of a key in the decoded query, decoded again. -/
def readTwice (decode : String → String) (query : List Char) (key : String) : Option String :=
  lastValue decode (decode (.ofList query)).toList key

def address (params : String → Option String) : String :=
  ((params "host").map Kotlin.trim).getD ""

/-- What `parse` makes of the parameters. -/
def hostOf (params : String → Option String) : Option Host :=
  if address params = "" then none
  else if (Cgnat.parseIpv4Literal (address params)).isNone then none
  else some ⟨address params, portOf (params "port"), label (params "magicdns"),
    label (params "name")⟩

/-- The parameters that `parse` looks up. -/
def fieldKeys : List String := ["host", "port", "magicdns", "name"]

variable {U : Type} {api : UriApi U} {params reread : String → Option String}

/-- A parameter that is missing reads like an empty one. -/
theorem hostOf_congr (h : ∀ key ∈ fieldKeys, (params key).getD "" = (reread key).getD "") :
    hostOf params = hostOf reread := by
  have haddress : ∀ params, address params = Kotlin.trim ((params "host").getD "") := by
    intro params
    unfold address
    cases params "host" <;> rfl
  have hport : ∀ value, portOf value = portOf (some (value.getD "")) := by
    intro value
    cases value <;> rfl
  have hlabel : ∀ value, label value = label (some (value.getD "")) := by
    intro value
    cases value <;> rfl
  simp only [fieldKeys, List.mem_cons, List.not_mem_nil, or_false, forall_eq_or_imp,
    forall_eq] at h
  obtain ⟨hhost, hnumber, hmagic, hname⟩ := h
  unfold hostOf
  rw [haddress params, haddress reread, hhost, hport (params "port"), hnumber,
    ← hport (reread "port"), hlabel (params "magicdns"), hmagic, ← hlabel (reread "magicdns"),
    hlabel (params "name"), hname, ← hlabel (reread "name")]

/-! ### The link with an authority -/

theorem trim_link {pre : String} {c : Char} {cs : List Char} (hpre : pre.toList = c :: cs)
    (hc : Kotlin.isWhitespace c = false) (hmark : (c :: cs).getLast? = some '?') (q : String) :
    Kotlin.trim (pre ++ q) = pre ++ .ofList (q.toList.rdropWhile Kotlin.isWhitespace) := by
  have hlast : ∀ d ∈ (c :: cs).getLast?, Kotlin.isWhitespace d = false := by
    rw [hmark]
    rintro _ ⟨⟩
    decide
  rw [Kotlin.trim, String.toList_append, hpre, trimChars_append hc hlast, ← hpre,
    String.ofList_append, String.ofList_toList]

theorem isWord_key : ∀ key ∈ fieldKeys, IsWord key := by decide

/-- `parse` goes on to the parameters where the scheme and the action are those of a link. -/
theorem parse_eq_hostOf {raw : String} {uri : U} (hparse : api.parse (Kotlin.trim raw) = some uri)
    (hscheme : api.scheme uri = some "urc")
    (haction : (api.host uri).or ((api.schemeSpecificPart uri).map (substringBefore '?')) =
      some "connect") : parse api raw = hostOf (UrcUri.params api uri) := by
  have hurc : equalsIgnoreCase "urc" "urc" = true := by decide
  have hconnect : equalsIgnoreCase "connect" "connect" = true := by decide
  rw [parse, hparse]
  simp only [hscheme, haction, Option.any_some, Option.all_some, hurc, hconnect, Bool.not_true,
    Bool.false_eq_true, if_false]
  rfl

theorem parse_authority (hapi : api.BothForms) (q : String) :
    parse api ("urc://connect?" ++ q) = hostOf (readOnce api.decode (sentQuery q)) := by
  obtain ⟨uri, hparse, hscheme, hhost, hhier, hget⟩ := hapi.authority "urc" "connect"
    (.ofList (q.toList.rdropWhile Kotlin.isWhitespace)) (by decide) (by decide)
  have htrim : Kotlin.trim ("urc://connect?" ++ q) =
      "urc" ++ "://" ++ "connect" ++ "?" ++ .ofList (q.toList.rdropWhile Kotlin.isWhitespace) :=
    trim_link rfl (by decide) rfl q
  rw [parse_eq_hostOf (by rw [htrim]; exact hparse) hscheme (by rw [hhost]; rfl)]
  refine hostOf_congr fun key hkey => congrArg (Option.getD · "") ?_
  rw [UrcUri.params, if_pos hhier, hget key (isWord_key key hkey), String.toList_ofList]
  rfl

/-! ### The link without an authority -/

theorem rawPair_eq (pair : List Char) : rawPair api pair =
    if '=' ∈ pair ∧ pair.head? ≠ some '=' then
      some (api.decode (.ofList (rawKey pair)), api.decode (.ofList (rawValue pair)))
    else none := by
  have hkey : (pair.takeWhile (· ≠ '=') = [] ∨ '=' ∉ pair) ↔
      ¬ ('=' ∈ pair ∧ pair.head? ≠ some '=') := by
    cases pair with
    | nil => simp
    | cons c pair =>
      by_cases hc : c = '='
      · simp [hc]
      · simp [hc]
  rw [rawPair]
  simp only [hkey, ite_not]
  rfl

theorem lookup_parseRawQuery (query : List Char) (key : String) :
    lookup (parseRawQuery api (some (.ofList query))) key = lastValue api.decode query key := by
  have hpairs : parseRawQuery api (some (.ofList query)) =
      (query.splitOn '&').filterMap (rawPair api) := by
    unfold parseRawQuery
    dsimp only
    split_ifs with hempty
    · obtain rfl : query = [] := by simpa using hempty
      rfl
    · rw [String.toList_ofList]
  rw [lookup, hpairs, ← List.filterMap_reverse, lastValue]
  generalize (query.splitOn '&').reverse = pairs
  induction pairs with
  | nil => rfl
  | cons pair pairs ih =>
    rw [List.findSome?_cons, ← ih, List.filterMap_cons, rawPair_eq, pairValue]
    by_cases hpair : '=' ∈ pair ∧ pair.head? ≠ some '='
    · by_cases hkey : api.decode (.ofList (rawKey pair)) = key
      · rw [if_pos hpair, if_pos ⟨hpair.1, hpair.2, hkey⟩]
        dsimp only
        rw [List.find?_cons_of_pos (by simp [hkey])]
        rfl
      · rw [if_pos hpair, if_neg fun h => hkey h.2.2]
        dsimp only
        rw [List.find?_cons_of_neg (by simp [hkey])]
    · rw [if_neg hpair, if_neg fun h => hpair ⟨h.1, h.2.1⟩]

theorem parse_part (hapi : api.BothForms) (q : String) :
    parse api ("urc:connect?" ++ q) = hostOf (readTwice api.decode (sentQuery q)) := by
  obtain ⟨uri, hparse, hscheme, hhost, hhier, hpart⟩ := hapi.part "urc" "connect"
    (.ofList (q.toList.rdropWhile Kotlin.isWhitespace)) (by decide) (by decide)
  rw [String.toList_ofList, hapi.decodes.plain _ _ (by decide)] at hpart
  have htrim : Kotlin.trim ("urc:connect?" ++ q) =
      "urc" ++ ":" ++ "connect" ++ "?" ++ .ofList (q.toList.rdropWhile Kotlin.isWhitespace) :=
    trim_link rfl (by decide) rfl q
  have hcut := @cut_append '?' "connect".toList (by decide)
    (api.decode (.ofList (sentQuery q))).toList
  have htext : ("connect" ++ "?" ++ api.decode (.ofList (sentQuery q))).toList =
      "connect".toList ++ '?' :: (api.decode (.ofList (sentQuery q))).toList := by
    simp
  have hbefore : substringBefore '?' ("connect" ++ "?" ++
      api.decode (.ofList (sentQuery q))) = "connect" := by
    rw [substringBefore, htext, hcut.1, String.ofList_toList]
  have hafter : substringAfter '?' ("connect" ++ "?" ++
      api.decode (.ofList (sentQuery q))) = api.decode (.ofList (sentQuery q)) := by
    rw [substringAfter, htext, hcut.2, List.tail_cons, String.ofList_toList]
  rw [parse_eq_hostOf (by rw [htrim]; exact hparse) hscheme
    (by rw [hhost, hpart]; exact congrArg some hbefore)]
  refine hostOf_congr fun key _ => congrArg (Option.getD · "") ?_
  rw [UrcUri.params, if_neg (by simp [hhier]), hpart, readTwice, ← lookup_parseRawQuery,
    String.ofList_toList]
  exact congrArg (fun query => lookup (parseRawQuery api (some query)) key) hafter

/-! ### Queries that both forms read alike -/

/-- A pair that is the same whether its escapes are undone before it is cut or behind that. Its key
escapes no equals sign and no percent sign, and spells none of the parameters by escapes; the value
of a parameter has no plus sign and escapes no percent sign. -/
@[mk_iff]
structure ClearPair (pair : List Char) : Prop where
  equals : Percent.byteOf '=' ∉ Percent.escapes (rawKey pair)
  percent : Percent.byteOf '%' ∉ Percent.escapes (rawKey pair)
  spelled : ∀ key ∈ fieldKeys, Percent.decode (rawKey pair) = Percent.utf8 key.toList →
    rawKey pair = key.toList
  value : ∀ key ∈ fieldKeys, rawKey pair = key.toList →
    '+' ∉ rawValue pair ∧ Percent.byteOf '%' ∉ Percent.escapes (rawValue pair)

/-- Clear pairs with well-formed escapes, none of them of an ampersand, that give no parameter
twice. -/
@[mk_iff]
structure ClearQuery (query : List Char) : Prop where
  escaped : Percent.WellEscaped query
  ampersand : Percent.byteOf '&' ∉ Percent.escapes query
  pairs : ∀ pair ∈ query.splitOn '&', ClearPair pair
  unrepeated : (query.splitOn '&').Pairwise fun pair later =>
    ∀ key ∈ fieldKeys, rawKey pair = key.toList → rawKey later ≠ key.toList

instance : DecidablePred ClearPair := fun pair => decidable_of_iff _ (clearPair_iff pair).symm

instance : DecidablePred ClearQuery := fun query => decidable_of_iff _ (clearQuery_iff query).symm

/-- The value of a pair with this key, as it is spelled. -/
def spelledValue (key : String) (pair : List Char) : Option (List Char) :=
  if rawKey pair = key.toList then some (rawValue pair) else none

section Clear

open Percent

variable {read : List UInt8 → List Char} {decode : String → String} {pair query : List Char}
  {key : String}

theorem equals_not_mem_rawKey : '=' ∉ rawKey pair := by
  intro hmem
  simpa using List.mem_takeWhile_imp hmem

theorem pair_eq (h : '=' ∈ pair) : pair = rawKey pair ++ '=' :: rawValue pair := by
  have hne : pair.dropWhile (· ≠ '=') ≠ [] := by
    rw [ne_eq, List.dropWhile_eq_nil_iff]
    intro hall
    simpa using hall _ h
  obtain ⟨c, rest, hdrop⟩ := List.exists_cons_of_ne_nil hne
  have hc : c = '=' := by
    have hhead := List.head?_dropWhile_not (· ≠ '=') pair
    rw [hdrop] at hhead
    simpa using hhead
  have happend := List.takeWhile_append_dropWhile (p := (· ≠ '=')) (l := pair)
  rw [hdrop, hc] at happend
  rw [rawKey, rawValue, hdrop, List.tail_cons, happend]

theorem rawKey_eq_self (h : '=' ∉ pair) : rawKey pair = pair :=
  List.takeWhile_eq_self_iff.mpr (decide_ne_of_not_mem h)

theorem rawValue_eq_nil (h : '=' ∉ pair) : rawValue pair = [] := by
  rw [rawValue, List.dropWhile_eq_nil_iff.mpr (decide_ne_of_not_mem h), List.tail_nil]

theorem decode_of_plain (hescaped : ∀ text, WellEscaped text →
    decode (.ofList text) = .ofList (decodeText read [] text)) (hread : ReadsUtf8 read)
    {text : List Char} (h : '%' ∉ text) : decode (.ofList text) = .ofList text := by
  rw [hescaped _ (.of_not_mem h), decodeText_of_not_mem hread h]

theorem wellEscaped_cut (hs : WellEscaped pair) (h : '=' ∈ pair) :
    WellEscaped (rawKey pair) ∧ WellEscaped (rawValue pair) :=
  (wellEscaped_append_cons (c := '=') (by decide) (by decide)).mp (pair_eq h ▸ hs)

/-- A clear pair is cut at the same equals sign behind its decoding. -/
theorem ClearPair.cut (hclear : ClearPair pair) (hread : ReadsUtf8 read) (hs : WellEscaped pair)
    (h : '=' ∈ pair) : '=' ∈ decodeText read [] pair ∧
      rawKey (decodeText read [] pair) = decodeText read [] (rawKey pair) ∧
      rawValue (decodeText read [] pair) = decodeText read [] (rawValue pair) := by
  have hkey := (wellEscaped_cut hs h).1
  have hequals : '=' ∉ decodeText read [] (rawKey pair) :=
    not_mem_decodeText hread hkey (by decide) (.inr equals_not_mem_rawKey) hclear.equals
  have htext : decodeText read [] pair =
      decodeText read [] (rawKey pair) ++ '=' :: decodeText read [] (rawValue pair) := by
    conv_lhs => rw [pair_eq h]
    exact decodeText_append_cons hkey (by decide) [] _
  obtain ⟨htake, hdrop⟩ := cut_append hequals (decodeText read [] (rawValue pair))
  rw [htext]
  exact ⟨by simp, htake, congrArg List.tail hdrop⟩

/-- A key that reads as a parameter is spelled without escapes. -/
theorem ClearPair.decodeText_key_iff (hclear : ClearPair pair) (hread : ReadsUtf8 read)
    (hs : WellEscaped (rawKey pair)) (hkey : key ∈ fieldKeys) :
    decodeText read [] (rawKey pair) = key.toList ↔ rawKey pair = key.toList := by
  have hword := isWord_key key hkey
  constructor
  · intro hsame
    have hbytes : [] ++ Percent.decode (rawKey pair) =
        utf8 (decodeText read [] (rawKey pair)) := decode_eq_utf8 hread hs (by
      rw [hsame]
      exact hword.not_mem (by decide))
    rw [List.nil_append, hsame] at hbytes
    exact hclear.spelled key hkey hbytes
  · intro hname
    rw [hname]
    exact decodeText_of_not_mem hread (hword.not_mem (by decide))

theorem pairValue_decodeText (hread : ReadsUtf8 read) (hescaped : ∀ text, WellEscaped text →
    decode (.ofList text) = .ofList (decodeText read [] text))
    (hs : WellEscaped pair) (hclear : ClearPair pair) (hkey : key ∈ fieldKeys) :
    pairValue decode key (decodeText read [] pair) =
      if '=' ∈ pair then
        (spelledValue key pair).map fun raw => .ofList (decodeText read [] raw)
      else none := by
  by_cases h : '=' ∈ pair
  · have hcut := wellEscaped_cut hs h
    have hpercent : '%' ∉ decodeText read [] (rawKey pair) :=
      not_mem_decodeText hread hcut.1 (by decide) (.inl rfl) hclear.percent
    obtain ⟨hmem, hk, hv⟩ := hclear.cut hread hs h
    have hiff := hclear.decodeText_key_iff hread hcut.1 hkey
    rw [if_pos h, pairValue, hk, hv, decode_of_plain hescaped hread hpercent, spelledValue]
    by_cases hname : rawKey pair = key.toList
    · have hhead : (decodeText read [] pair).head? ≠ some '=' := by
        rw [pair_eq hmem, hk, hiff.mpr hname]
        exact (isWord_key key hkey).head_ne (by decide) _
      have hvalue : '%' ∉ decodeText read [] (rawValue pair) :=
        not_mem_decodeText hread hcut.2 (by decide) (.inl rfl) (hclear.value key hkey hname).2
      rw [if_pos hname, if_pos ⟨hmem, hhead, by rw [hiff.mpr hname, String.ofList_toList]⟩,
        decode_of_plain hescaped hread hvalue, Option.map_some]
    · rw [if_neg hname, Option.map_none, if_neg]
      rintro ⟨-, -, hread'⟩
      exact hname (hiff.mp (by rw [← hread', String.toList_ofList]))
  · rw [if_neg h, pairValue, if_neg]
    rintro ⟨hmem, -, -⟩
    refine not_mem_decodeText hread hs (by decide) (.inr h) ?_ hmem
    rw [← rawKey_eq_self h]
    exact hclear.equals

theorem findSome?_of_others {α β : Type} {f : α → Option β} {pre post : List α} {a : α}
    (h : ∀ b ∈ pre ++ post, f b = none) : (pre ++ a :: post).findSome? f = f a := by
  rw [List.forall_mem_append] at h
  rw [List.findSome?_append, List.findSome?_eq_none_iff.mpr h.1, List.findSome?_cons,
    List.findSome?_eq_none_iff.mpr h.2]
  cases f a <;> rfl

theorem ClearQuery.rawKey_ne (hq : ClearQuery query) (hkey : key ∈ fieldKeys)
    {pre post : List (List Char)} (hsplit : query.splitOn '&' = pre ++ pair :: post)
    (hname : rawKey pair = key.toList) : ∀ other ∈ pre ++ post, rawKey other ≠ key.toList := by
  have hunrepeated := hq.unrepeated
  rw [hsplit, List.pairwise_append, List.pairwise_cons] at hunrepeated
  obtain ⟨-, ⟨hpost, -⟩, hpre⟩ := hunrepeated
  intro other hmem
  rcases List.mem_append.mp hmem with hmem | hmem
  · exact fun hname' => hpre other hmem pair List.mem_cons_self key hkey hname' hname
  · exact hpost other hmem key hkey hname

theorem firstValue_eq : firstValue query key.toList =
    (query.splitOn '&').findSome? (spelledValue key) := rfl

theorem readTwice_eq (hread : ReadsUtf8 read) (hescaped : ∀ text, WellEscaped text →
    decode (.ofList text) = .ofList (decodeText read [] text)) (hq : ClearQuery query) :
    readTwice decode query key = (query.splitOn '&').reverse.findSome?
      fun pair => pairValue decode key (decodeText read [] pair) := by
  rw [readTwice, lastValue, hescaped _ hq.escaped, String.toList_ofList,
    splitOn_decodeText hread (by decide) (by decide) (by decide) hq.escaped hq.ampersand
      fun part => not_mem_of_mem_splitOn, ← List.map_reverse, List.findSome?_map]
  rfl

theorem ClearPair.map_plusToSpace (hclear : ClearPair pair) (hkey : key ∈ fieldKeys)
    (hname : rawKey pair = key.toList) : (rawValue pair).map plusToSpace = rawValue pair := by
  refine (List.map_congr_left fun c hc => ?_).trans (List.map_id _)
  rw [plusToSpace, if_neg, id]
  rintro rfl
  exact (hclear.value key hkey hname).1 hc

theorem pairValue_of_ne (hread : ReadsUtf8 read) (hescaped : ∀ text, WellEscaped text →
    decode (.ofList text) = .ofList (decodeText read [] text))
    (hs : WellEscaped pair) (hclear : ClearPair pair) (hkey : key ∈ fieldKeys)
    (hne : rawKey pair ≠ key.toList) : spelledValue key pair = none ∧
      pairValue decode key (decodeText read [] pair) = none := by
  have hnone : spelledValue key pair = none := if_neg hne
  rw [pairValue_decodeText hread hescaped hs hclear hkey, hnone, Option.map_none, ite_self]
  exact ⟨rfl, rfl⟩

/-- The two readings of the value of one pair. -/
theorem values_agree (hread : ReadsUtf8 read) (hescaped : ∀ text, WellEscaped text →
    decode (.ofList text) = .ofList (decodeText read [] text))
    (hs : WellEscaped pair) (hclear : ClearPair pair) (hkey : key ∈ fieldKeys)
    (hname : rawKey pair = key.toList) : ((spelledValue key pair).map fun raw =>
        decode (.ofList (raw.map plusToSpace))).getD "" =
      (pairValue decode key (decodeText read [] pair)).getD "" := by
  rw [pairValue_decodeText hread hescaped hs hclear hkey, spelledValue, if_pos hname,
    Option.map_some, Option.map_some, hclear.map_plusToSpace hkey hname]
  by_cases h : '=' ∈ pair
  · rw [if_pos h, hescaped _ (wellEscaped_cut hs h).2]
  · rw [if_neg h, rawValue_eq_nil h, decode_of_plain hescaped hread List.not_mem_nil]
    rfl

/-- The two readings of a parameter of a clear query: one may miss it where the other has an empty
text. -/
theorem readings_agree (hdecode : UriApi.Decodes decode) (hq : ClearQuery query)
    (hkey : key ∈ fieldKeys) :
    (readOnce decode query key).getD "" = (readTwice decode query key).getD "" := by
  obtain ⟨read, hread, hescaped⟩ := hdecode.escaped
  have hparts := wellEscaped_splitOn (c := '&') (by decide) (by decide) hq.escaped
  have hother : ∀ pair ∈ query.splitOn '&', rawKey pair ≠ key.toList →
      spelledValue key pair = none ∧ pairValue decode key (decodeText read [] pair) = none :=
    fun pair hpair => pairValue_of_ne hread hescaped (hparts pair hpair).1 (hq.pairs pair hpair)
      hkey
  rw [readOnce, firstValue_eq, readTwice_eq hread hescaped hq]
  by_cases hgiven : ∃ pair ∈ query.splitOn '&', rawKey pair = key.toList
  · obtain ⟨pair, hpair, hname⟩ := hgiven
    obtain ⟨pre, post, hsplit⟩ := List.append_of_mem hpair
    have hothers := fun other hmem =>
      hother other (by rw [hsplit]; simpa [or_left_comm] using Or.inr (List.mem_append.mp hmem))
        (hq.rawKey_ne hkey hsplit hname other hmem)
    rw [hsplit, findSome?_of_others fun other hmem => (hothers other hmem).1, List.reverse_append,
      List.reverse_cons, List.append_assoc, List.singleton_append,
      findSome?_of_others fun other hmem => (hothers other (by simpa [or_comm] using hmem)).2]
    exact values_agree hread hescaped (hparts pair hpair).1 (hq.pairs pair hpair) hkey hname
  · have hnone := fun pair hpair => hother pair hpair fun hname => hgiven ⟨pair, hpair, hname⟩
    rw [List.findSome?_eq_none_iff.mpr fun pair hpair => (hnone pair hpair).1,
      List.findSome?_eq_none_iff.mpr fun pair hpair => (hnone pair (List.mem_reverse.mp hpair)).2]
    rfl

end Clear

/-! ### URIs that are their texts -/

def afterColon (uri : List Char) : List Char := (uri.dropWhile (· ≠ ':')).tail

def uriDecode (s : String) : String := .ofList (Percent.decodeText Percent.runText [] s.toList)

/-- URIs without their fragments. -/
def textApi : UriApi (List Char) where
  parse raw := some (raw.toList.takeWhile (· ≠ '#'))
  scheme uri := some (.ofList (uri.takeWhile (· ≠ ':')))
  host uri :=
    if (afterColon uri).head? = some '/' then
      some (.ofList (((afterColon uri).drop 2).takeWhile (· ≠ '?')))
    else none
  schemeSpecificPart uri := some (uriDecode (.ofList (afterColon uri)))
  isHierarchical uri := (afterColon uri).head? = some '/'
  getQueryParameter uri key :=
    (firstValue ((afterColon uri).dropWhile (· ≠ '?')).tail key.toList).map fun raw =>
      uriDecode (.ofList (raw.map plusToSpace))
  decode := uriDecode

theorem uriDecode_decodes : UriApi.Decodes uriDecode where
  plain plain rest hplain := by
    simp [uriDecode, Percent.decodeText_plain Percent.readsUtf8_runText hplain]
  escaped := ⟨Percent.runText, Percent.readsUtf8_runText, fun text _ => by
    rw [uriDecode, String.toList_ofList]⟩

theorem textApi_bothForms : textApi.BothForms where
  decodes := uriDecode_decodes
  authority scheme authority rest hscheme hauthority := by
    have hhash : '#' ∉ scheme.toList ++ "://".toList ++ authority.toList ++ "?".toList := by
      have hs := hscheme.not_mem (c := '#') (by decide)
      have ha := hauthority.not_mem (c := '#') (by decide)
      simp [hs, ha]
    obtain ⟨hs, hrest⟩ := cut_append (hscheme.not_mem (c := ':') (by decide))
      ('/' :: '/' :: (authority.toList ++ '?' :: rest.toList.takeWhile (· ≠ '#')))
    obtain ⟨ha, hafter⟩ := cut_append (hauthority.not_mem (c := '?') (by decide))
      (rest.toList.takeWhile (· ≠ '#'))
    have htext : (scheme ++ "://" ++ authority ++ "?" ++ rest).toList.takeWhile (· ≠ '#') =
        scheme.toList ++ ':' ::
          '/' :: '/' :: (authority.toList ++ '?' :: rest.toList.takeWhile (· ≠ '#')) := by
      simp only [String.toList_append]
      rw [takeWhile_append_of_not_mem hhash]
      simp
    refine ⟨_, rfl, ?_, ?_, ?_, fun key _ => ?_⟩
    · simp only [textApi, htext, hs, String.ofList_toList]
    · simp only [textApi, htext, afterColon, hrest, List.tail_cons, List.head?_cons, if_true,
        List.drop_succ_cons, List.drop_zero, ha, String.ofList_toList]
    · simp only [textApi, htext, afterColon, hrest, List.tail_cons, List.head?_cons, decide_true]
    · have hslash : ('/' :: '/' :: (authority.toList ++ '?' ::
          rest.toList.takeWhile (· ≠ '#'))).dropWhile (· ≠ '?') =
          '?' :: rest.toList.takeWhile (· ≠ '#') := by
        rw [List.dropWhile_cons_of_pos (by decide), List.dropWhile_cons_of_pos (by decide), hafter]
      simp only [textApi, htext, afterColon, hrest, List.tail_cons, hslash]
  part scheme action rest hscheme haction := by
    have hhash : '#' ∉ scheme.toList ++ ":".toList ++ action.toList ++ "?".toList := by
      have hs := hscheme.not_mem (c := '#') (by decide)
      have ha := haction.not_mem (c := '#') (by decide)
      simp [hs, ha]
    obtain ⟨hs, hrest⟩ := cut_append (hscheme.not_mem (c := ':') (by decide))
      (action.toList ++ '?' :: rest.toList.takeWhile (· ≠ '#'))
    have htext : (scheme ++ ":" ++ action ++ "?" ++ rest).toList.takeWhile (· ≠ '#') =
        scheme.toList ++ ':' :: (action.toList ++ '?' :: rest.toList.takeWhile (· ≠ '#')) := by
      simp only [String.toList_append]
      rw [takeWhile_append_of_not_mem hhash]
      simp
    have hhead : (action.toList ++ '?' :: rest.toList.takeWhile (· ≠ '#')).head? ≠ some '/' :=
      haction.head_ne (by decide) _
    refine ⟨_, rfl, ?_, ?_, ?_, ?_⟩
    · simp only [textApi, htext, hs, String.ofList_toList]
    · simp only [textApi, htext, afterColon, hrest, List.tail_cons, if_neg hhead]
    · simp only [textApi, htext, afterColon, hrest, List.tail_cons, hhead, decide_false]
    · simp only [textApi, htext, afterColon, hrest, List.tail_cons]
      congr 2
      simp [← String.toList_inj]

/-! ### The two forms -/

/-- Both forms of a link with a clear query give the same. -/
theorem forms_agree {U : Type} (api : UriApi U) (hapi : api.BothForms) {q : String}
    (hq : ClearQuery (sentQuery q)) :
    parse api ("urc://connect?" ++ q) = parse api ("urc:connect?" ++ q) := by
  rw [parse_authority hapi, parse_part hapi]
  exact hostOf_congr fun key hkey => readings_agree hapi.decodes hq hkey

/-- A link with an escaped space and an escaped equals sign in a name, and a parameter of its
own. -/
theorem forms_agree_space : parse textApi "urc://connect?host=100.64.0.1&name=My%20PC%3D1&v=a+b%25" =
    parse textApi "urc:connect?host=100.64.0.1&name=My%20PC%3D1&v=a+b%25" :=
  forms_agree (q := "host=100.64.0.1&name=My%20PC%3D1&v=a+b%25") textApi textApi_bothForms
    (by decide +kernel)

/-- An escaped ampersand cuts the value where the query is decoded first. -/
theorem ampersand_cuts : ¬ ∀ (U : Type) (api : UriApi U), api.BothForms → ∀ q : String,
    parse api ("urc://connect?" ++ q) = parse api ("urc:connect?" ++ q) := by
  intro h
  have hq := h _ textApi textApi_bothForms "host=100.64.0.1&name=a%26b"
  rw [parse_authority textApi_bothForms, parse_part textApi_bothForms] at hq
  exact absurd hq (by decide +kernel)

/-- A plus sign, an escaped percent sign, a repetition and a key with escapes are read differently,
too. -/
example : ∀ q ∈ ["name=a+b", "name=a%2541", "name=a&name=b", "name%3Da=b", "n%2561me=a", "n%61me=a"],
    readOnce uriDecode q.toList "name" ≠ readTwice uriDecode q.toList "name" := by decide +kernel

/-! ### The links of the agent -/

/-- A value without the characters that the decoded query is cut or decoded at. -/
structure Sturdy (value : String) : Prop where
  ampersand : '&' ∉ value.toList
  percent : '%' ∉ value.toList

theorem sentQuery_query {h m n : String} {p : UInt16} :
    sentQuery (Share.query h m p n) = (Share.query h m p n).toList := by
  have htrim : Kotlin.trim ("urc://connect?" ++ Share.query h m p n) = _ :=
    trim_link rfl (by decide) rfl _
  have hsame : Kotlin.trim ("urc://connect?" ++ Share.query h m p n) =
      "urc://connect?" ++ Share.query h m p n := trim_buildUri
  rw [hsame, String.append_right_inj, ← String.toList_inj, String.toList_ofList] at htrim
  rw [sentQuery, ← htrim, List.takeWhile_eq_self_iff]
  exact decide_ne_of_not_mem hash_not_mem_query

theorem sturdy_port (p : UInt16) : Sturdy (toString p.toNat) := by
  have hkeep : ∀ c ∈ (toString p.toNat).toList, Share.keep c = true := by
    intro c hc
    rw [Nat.toString_eq_repr, Nat.toList_repr] at hc
    exact keep_of_isDigit ((Decimal.isNumeral_toDigits _).digits c hc)
  have hno : ∀ c, Share.keep c = false → c ∉ (toString p.toNat).toList := by
    intro c hc hmem
    rw [hkeep c hmem] at hc
    cases hc
  exact ⟨hno _ (by decide), hno _ (by decide)⟩

theorem rawKey_fieldText {field : String × String} (hkey : field.1 ∈ fieldKeys) :
    rawKey (fieldText field) = field.1.toList ∧
      rawValue (fieldText field) = (Share.encode field.2).toList := by
  obtain ⟨htake, hdrop⟩ := cut_append ((isWord_key _ hkey).not_mem (c := '=') (by decide))
    (Share.encode field.2).toList
  exact ⟨htake, by rw [rawValue, fieldText, hdrop, List.tail_cons]⟩

theorem clearPair_fieldText {field : String × String} (hkey : field.1 ∈ fieldKeys)
    (hvalue : Sturdy field.2) : ClearPair (fieldText field) := by
  obtain ⟨hk, hv⟩ := rawKey_fieldText hkey
  have hnone : Percent.escapes field.1.toList = [] :=
    Percent.escapes_of_not_mem ((isWord_key _ hkey).not_mem (by decide))
  have hplus : '+' ∉ (Share.encode field.2).toList := not_mem_encode (by decide) (by decide)
  have hpercent : Percent.byteOf '%' ∉ Percent.escapes (Share.encode field.2).toList := by
    rw [Share.toList_encode]
    exact fun h => hvalue.percent (Percent.mem_escapes_encode (by decide) (by decide) h)
  have hspelled : ∀ key ∈ fieldKeys, ∀ key' ∈ fieldKeys,
      Percent.decode key.toList = Percent.utf8 key'.toList → key.toList = key'.toList := by
    decide +kernel
  refine ⟨?_, ?_, ?_, ?_⟩
  · simp [hk, hnone]
  · simp [hk, hnone]
  · rw [hk]
    exact hspelled _ hkey
  · rw [hv]
    exact fun key _ _ => ⟨hplus, hpercent⟩

theorem wellEscaped_fieldText {field : String × String} (hkey : field.1 ∈ fieldKeys) :
    Percent.WellEscaped (fieldText field) ∧ Percent.escapes (fieldText field) =
      Percent.escapes (Share.encode field.2).toList := by
  have hplain : '%' ∉ field.1.toList := (isWord_key _ hkey).not_mem (by decide)
  have hword := Percent.WellEscaped.of_not_mem hplain
  rw [fieldText, Percent.escapes_append hword, Percent.escapes_of_not_mem hplain,
    Percent.escapes_cons (by decide), List.nil_append,
    Percent.wellEscaped_append_cons (by decide) (by decide), Share.toList_encode]
  exact ⟨⟨hword, Percent.wellEscaped_encode (by decide) _⟩, rfl⟩

/-- The encoder of the agent writes no others than well-formed escapes of characters of the
values. -/
theorem clearQuery_query {h m n : String} {p : UInt16} (hh : Sturdy h) (hm : Sturdy m)
    (hn : Sturdy n) : ClearQuery (Share.query h m p n).toList := by
  have hfields : ∀ field ∈ linkFields h m p n, field.1 ∈ fieldKeys ∧ Sturdy field.2 := by
    simp only [linkFields, List.forall_mem_cons, List.not_mem_nil, false_imp_iff, implies_true,
      and_true]
    exact ⟨⟨by decide, hh⟩, ⟨by decide, hm⟩, ⟨by decide, sturdy_port p⟩, ⟨by decide, hn⟩⟩
  have hparts : ∀ part ∈ (linkFields h m p n).map fieldText, Percent.WellEscaped part := by
    simp only [List.forall_mem_map]
    exact fun field hf => (wellEscaped_fieldText (hfields field hf).1).1
  refine ⟨?_, ?_, ?_, ?_⟩
  · rw [toList_query]
    exact (Percent.wellEscaped_intercalate (by decide) (by decide)).mpr hparts
  · rw [toList_query, Percent.escapes_intercalate (by decide) hparts, List.flatMap_map]
    intro hmem
    obtain ⟨field, hf, hescape⟩ := List.mem_flatMap.mp hmem
    rw [(wellEscaped_fieldText (hfields field hf).1).2, Share.toList_encode] at hescape
    exact (hfields field hf).2.ampersand
      (Percent.mem_escapes_encode (by decide) (by decide) hescape)
  · rw [splitOn_query, List.forall_mem_map]
    exact fun field hf => clearPair_fieldText (hfields field hf).1 (hfields field hf).2
  · have hdistinct : (linkFields h m p n).Pairwise fun field later => field.1 ≠ later.1 := by
      simp [linkFields]
    rw [splitOn_query, List.pairwise_map]
    refine hdistinct.imp_of_mem fun hf hlater hne key _ hname hname' => hne ?_
    rw [(rawKey_fieldText (hfields _ hf).1).1] at hname
    rw [(rawKey_fieldText (hfields _ hlater).1).1] at hname'
    exact String.toList_inj.mp (hname.trans hname'.symm)

/-- The app reads a link of the agent the same in both forms, unless a name in it has an ampersand
or a percent sign. -/
theorem share_forms_agree (hapi : api.BothForms) {h m n : String} {p : UInt16} (hh : Sturdy h)
    (hm : Sturdy m) (hn : Sturdy n) : parse api (Share.buildUri h m p n) =
      parse api ("urc:connect?" ++ Share.query h m p n) := by
  rw [Share.buildUri, parse_authority hapi, parse_part hapi, sentQuery_query]
  exact hostOf_congr fun key hkey => readings_agree hapi.decodes (clearQuery_query hh hm hn) hkey

end UrcUri

end Urc
