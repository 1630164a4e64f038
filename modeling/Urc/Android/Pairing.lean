import Urc.Agent.Share
import Urc.Android.UrcUri

/-! # The round trip of a pairing link

What `urc-agent share` writes, the app reads back, given what is documented of the URIs of
Android.
-/

namespace Urc

open Kotlin

/-- The encoded value of the first parameter of that name in a query. -/
def firstValue (query key : List Char) : Option (List Char) :=
  (query.splitOn '&').findSome? fun pair =>
    if pair.takeWhile (· ≠ '=') = key then some (pair.dropWhile (· ≠ '=')).tail else none

def IsWord (s : String) : Prop := s ≠ "" ∧ s.toList.all Char.isAlphanum = true

instance (s : String) : Decidable (IsWord s) :=
  inferInstanceAs (Decidable (s ≠ "" ∧ s.toList.all Char.isAlphanum = true))

/-- What is documented of a link that consists of a scheme, an authority and a query: it is
hierarchical, it has these parts, and `getQueryParameter` decodes the first value of the name, in
which a plus sign is a space, and escapes are bytes of UTF-8. -/
structure UriApi.Documented {U : Type} (api : UriApi U) : Prop where
  hierarchical : ∀ scheme authority query : String, IsWord scheme → IsWord authority →
    '#' ∉ query.toList → ∃ uri,
      api.parse (scheme ++ "://" ++ authority ++ "?" ++ query) = some uri ∧
      api.scheme uri = some scheme ∧ api.host uri = some authority ∧ api.isHierarchical uri = true ∧
      ∀ key raw bytes value, IsWord key → firstValue query.toList key.toList = some raw →
        Percent.decodeForm raw = some bytes → Percent.decodeUtf8 bytes = some value →
          api.getQueryParameter uri key = some value

/-- A text that is not blank, without white space at its ends. -/
structure Kotlin.Trimmed (s : String) : Prop where
  not_blank : isBlank s = false
  head : ∀ c ∈ s.toList.head?, Kotlin.isWhitespace c = false
  last : ∀ c ∈ s.toList.getLast?, Kotlin.isWhitespace c = false

variable {U : Type} {api : UriApi U} {h m n s : String} {p : UInt16} {c : Char}

theorem trim_of_forall (hs : ∀ c ∈ s.toList, Kotlin.isWhitespace c = false) :
    Kotlin.trim s = s := by
  rw [Kotlin.trim, trimChars_of_forall hs, String.ofList_toList]

theorem Kotlin.Trimmed.trim_eq (hs : Trimmed s) : Kotlin.trim s = s := by
  rw [Kotlin.trim, trimChars_eq_self hs.head hs.last, String.ofList_toList]

theorem label_of_trimmed (hs : Trimmed s) : UrcUri.label (some s) = some s := by
  simp [UrcUri.label, hs.trim_eq, nullIfBlank, hs.not_blank]

/-! ### The text of the link -/

theorem mem_encode (hc : c ∈ (Share.encode s).toList) : Share.keep c = true ∨ c = '%' := by
  rw [Share.toList_encode] at hc
  rcases Percent.mem_encode hc with hkeep | rfl | ⟨k, hk, rfl⟩
  · exact .inl hkeep
  · exact .inr rfl
  · have hall : ∀ k : Fin 16, Share.keep (Percent.hexDigit k.val) = true := by decide +kernel
    exact .inl (hall ⟨k, hk⟩)

theorem not_mem_encode (hkeep : Share.keep c = false) (hc : c ≠ '%') :
    c ∉ (Share.encode s).toList := by
  intro hmem
  rcases mem_encode hmem with htrue | rfl
  · rw [hkeep] at htrue
    cases htrue
  · exact hc rfl

theorem isWhitespace_of_keep (hc : Share.keep c = true) : Kotlin.isWhitespace c = false := by
  have hall : ∀ k : Fin 128, Share.unreserved (.ofNat k.val) = true →
      Kotlin.isWhitespace (Char.ofNat k.val) = false := by decide +kernel
  simp only [Share.keep, Bool.and_eq_true, decide_eq_true_eq] at hc
  have hk := hall ⟨c.toNat, hc.1⟩ hc.2
  rwa [Char.ofNat_toNat] at hk

theorem isWhitespace_of_mem_encode (hc : c ∈ (Share.encode s).toList) :
    Kotlin.isWhitespace c = false := by
  rcases mem_encode hc with hkeep | rfl
  · exact isWhitespace_of_keep hkeep
  · decide

theorem keep_of_isDigit (hc : c.isDigit = true) : Share.keep c = true := by
  obtain ⟨hlow, hhigh⟩ := Decimal.isDigit_iff.mp hc
  have hall : ∀ k : Fin 58, 48 ≤ k.val → Share.keep (Char.ofNat k.val) = true := by decide +kernel
  have hk := hall ⟨c.toNat, by omega⟩ hlow
  rwa [Char.ofNat_toNat] at hk

theorem encode_port (p : UInt16) : Share.encode (toString p.toNat) = toString p.toNat := by
  rw [← String.toList_inj, Share.toList_encode]
  refine Percent.encode_of_keep fun c hc => keep_of_isDigit ?_
  rw [Nat.toString_eq_repr, Nat.toList_repr] at hc
  exact (Decimal.isNumeral_toDigits _).digits c hc

def linkFields (h m : String) (p : UInt16) (n : String) : List (String × String) :=
  [("host", h), ("magicdns", m), ("port", toString p.toNat), ("name", n)]

def fieldText (field : String × String) : List Char :=
  field.1.toList ++ '=' :: (Share.encode field.2).toList

theorem toList_query : (Share.query h m p n).toList =
    ['&'].intercalate ((linkFields h m p n).map fieldText) := by
  simp only [linkFields, List.map_cons, List.map_nil, fieldText, encode_port]
  simp [Share.query, List.intercalate]

theorem mem_linkFields {field : String × String} (hf : field ∈ linkFields h m p n) :
    '&' ∉ field.1.toList ∧ '=' ∉ field.1.toList := by
  simp only [linkFields, List.mem_cons, List.not_mem_nil, or_false] at hf
  rcases hf with rfl | rfl | rfl | rfl <;> dsimp only <;> decide

theorem splitOn_query : (Share.query h m p n).toList.splitOn '&' =
    (linkFields h m p n).map fieldText := by
  rw [toList_query]
  refine List.splitOn_intercalate '&' ?_ (by simp [linkFields])
  intro text htext
  obtain ⟨field, hfield, rfl⟩ := List.mem_map.mp htext
  have hvalue : '&' ∉ (Share.encode field.2).toList := not_mem_encode (by decide) (by decide)
  simp [fieldText, (mem_linkFields hfield).1, hvalue]

/-- The first value of a name in the query is that of the first field with this name. -/
theorem firstValue_query (key : String) : firstValue (Share.query h m p n).toList key.toList =
    ((linkFields h m p n).find? (·.1 = key)).map fun field => (Share.encode field.2).toList := by
  have hfields := fun field (hf : field ∈ linkFields h m p n) =>
    cut_append (mem_linkFields hf).2 (Share.encode field.2).toList
  rw [firstValue, splitOn_query]
  generalize linkFields h m p n = fields at hfields
  induction fields with
  | nil => rfl
  | cons field fields ih =>
    obtain ⟨htake, hdrop⟩ := hfields field List.mem_cons_self
    rw [List.map_cons, List.findSome?_cons]
    by_cases hkey : field.1 = key
    · rw [fieldText, if_pos (by rw [htake, hkey]), hdrop, List.find?_cons_of_pos (by simp [hkey])]
      rfl
    · rw [fieldText, if_neg (by rwa [htake, String.toList_inj]),
        List.find?_cons_of_neg (by simp [hkey])]
      exact ih fun field hf => hfields field (List.mem_cons_of_mem _ hf)

theorem decodeForm_encode (s : String) : Percent.decodeForm (Share.encode s).toList =
    some (Percent.utf8 s.toList) := by
  rw [Share.toList_encode]
  exact Percent.decodeForm_encode (by decide) (by decide) s.toList

/-! ### What the app reads -/

theorem trim_buildUri : Kotlin.trim (Share.buildUri h m p n) = Share.buildUri h m p n := by
  refine trim_of_forall ?_
  rw [Share.buildUri, Share.query, ← encode_port]
  simp only [String.toList_append, List.forall_mem_append]
  have henc := fun (s : String) c (hc : c ∈ (Share.encode s).toList) =>
    isWhitespace_of_mem_encode hc
  have hplain : ∀ text : String, (text.toList.all fun c => !Kotlin.isWhitespace c) = true →
      ∀ c ∈ text.toList, Kotlin.isWhitespace c = false := by
    intro text htext c hc
    simpa using List.all_eq_true.mp htext c hc
  refine ⟨hplain _ ?_, ⟨⟨⟨⟨⟨⟨hplain _ ?_, henc h⟩, hplain _ ?_⟩, henc m⟩, hplain _ ?_⟩, henc _⟩,
    hplain _ ?_⟩, henc n⟩
  all_goals decide

theorem hash_not_mem_query : '#' ∉ (Share.query h m p n).toList := by
  rw [Share.query, ← encode_port]
  have henc := fun s : String => not_mem_encode (s := s) (c := '#') (by decide) (by decide)
  simp [henc]

/-- A field of the link, as the app gets it. -/
theorem getQueryParameter_buildUri (hapi : api.Documented) : ∃ uri,
    api.parse (Share.buildUri h m p n) = some uri ∧ api.scheme uri = some "urc" ∧
      api.host uri = some "connect" ∧ api.isHierarchical uri = true ∧
      ∀ key value, IsWord key →
        (linkFields h m p n).find? (·.1 = key) = some (key, value) →
          api.getQueryParameter uri key = some value := by
  obtain ⟨uri, hparse, hscheme, hhost, hhier, hget⟩ := hapi.hierarchical "urc" "connect"
    (Share.query h m p n) (by decide) (by decide) hash_not_mem_query
  refine ⟨uri, hparse, hscheme, hhost, hhier, fun key value hkey hfield => ?_⟩
  have hfirst := firstValue_query (h := h) (m := m) (p := p) (n := n) key
  rw [hfield] at hfirst
  have hutf8 := Percent.decodeUtf8_utf8 value.toList
  rw [String.ofList_toList] at hutf8
  exact hget key _ _ value hkey hfirst (decodeForm_encode value) hutf8

theorem portOf_port (hp : p ≠ 0) : UrcUri.portOf (some (toString p.toNat)) = p.toNat := by
  have hnum := Decimal.isNumeral_toDigits p.toNat
  have hlt : p.toNat < 65536 := p.toNat_lt
  have hpos : p.toNat ≠ 0 := fun h0 => hp (UInt16.toNat_inj.mp h0)
  have hint : toIntOrNull (toString p.toNat).toList = some (p.toNat : ℤ) := by
    rw [Nat.toString_eq_repr, Nat.toList_repr, toIntOrNull_digits hnum.ne_nil hnum.digits
      (by rw [Decimal.value_toDigits]; omega), Decimal.value_toDigits]
  have hrange : (decide (1 ≤ (p.toNat : ℤ)) && decide ((p.toNat : ℤ) ≤ 65535)) = true := by
    rw [Bool.and_eq_true, decide_eq_true_eq, decide_eq_true_eq]
    omega
  rw [UrcUri.portOf, Option.bind_some, hint, Option.filter_some, if_pos hrange, Option.getD_some]

theorem trim_literal (hh : Cgnat.IsLiteral h) : Kotlin.trim h = h := by
  obtain ⟨a, b, c, d, -, -, -, -, rfl⟩ := hh
  refine trim_of_forall fun x hx => isWhitespace_of_keep ?_
  have hdigits := fun k x (hx : x ∈ Nat.toDigits 10 k) =>
    keep_of_isDigit ((Decimal.isNumeral_toDigits k).digits x hx)
  rw [Cgnat.toList_dottedQuad] at hx
  simp only [List.intercalate, List.intersperse, List.flatten_cons, List.flatten_nil,
    List.mem_append, List.mem_singleton, List.not_mem_nil, or_false] at hx
  rcases hx with hx | rfl | hx | rfl | hx | rfl | hx
  · exact hdigits a x hx
  · decide
  · exact hdigits b x hx
  · decide
  · exact hdigits c x hx
  · decide
  · exact hdigits d x hx

/-- The app reads back what the agent shares. -/
theorem parse_buildUri {U : Type} (api : UriApi U) (hapi : api.Documented) {h m n : String}
    {p : UInt16} (hh : Cgnat.IsLiteral h) (hp : p ≠ 0) (hm : Kotlin.Trimmed m)
    (hn : Kotlin.Trimmed n) :
    UrcUri.parse api (Share.buildUri h m p n) = some ⟨h, p.toNat, some m, some n⟩ := by
  obtain ⟨uri, hparse, hscheme, hhost, hhier, hget⟩ :=
    getQueryParameter_buildUri (h := h) (m := m) (p := p) (n := n) hapi
  have hparams : UrcUri.params api uri = api.getQueryParameter uri := by
    rw [UrcUri.params, if_pos hhier]
  have hfield_host := hget "host" h (by decide) rfl
  have hfield_magicdns := hget "magicdns" m (by decide) rfl
  have hport : UrcUri.portOf (api.getQueryParameter uri "port") = p.toNat := by
    rw [hget "port" (toString p.toNat) (by decide) rfl, portOf_port hp]
  have hfield_name := hget "name" n (by decide) rfl
  have hnonempty : h ≠ "" := by
    obtain ⟨_, _, _, _, _, _, _, _, rfl⟩ := hh
    rw [ne_eq, ← String.toList_inj, Cgnat.toList_dottedQuad]
    simp [List.intercalate]
  have hliteral : (Cgnat.parseIpv4Literal h).isNone = false := by
    rw [← Option.not_isSome, Cgnat.parseIpv4Literal_isSome.mpr hh]
    rfl
  have hurc : equalsIgnoreCase "urc" "urc" = true := by decide
  have hconnect : equalsIgnoreCase "connect" "connect" = true := by decide
  rw [UrcUri.parse, trim_buildUri, hparse]
  simp [hparams, hscheme, hhost, hfield_host, hfield_magicdns, hfield_name, hport, hurc, hconnect,
    trim_literal hh, hnonempty, hliteral, label_of_trimmed hm, label_of_trimmed hn]

/-- URIs that are a scheme, an authority and a query. -/
def linkApi : UriApi (List Char × List Char × List Char) where
  parse raw :=
    let rest := (raw.toList.dropWhile (· ≠ ':')).drop 3
    some (raw.toList.takeWhile (· ≠ ':'), rest.takeWhile (· ≠ '?'),
      (rest.dropWhile (· ≠ '?')).tail.takeWhile (· ≠ '#'))
  scheme uri := some (.ofList uri.1)
  host uri := some (.ofList uri.2.1)
  schemeSpecificPart uri := some (.ofList ("//".toList ++ uri.2.1 ++ '?' :: uri.2.2))
  isHierarchical _ := true
  getQueryParameter uri key :=
    ((firstValue uri.2.2 key.toList).bind Percent.decodeForm).bind Percent.decodeUtf8
  decode s := (Percent.decodeUtf8 (Percent.decode s.toList)).getD s

theorem IsWord.not_mem (hs : IsWord s) (hc : c.isAlphanum = false) : c ∉ s.toList := by
  intro hmem
  rw [List.all_eq_true.mp hs.2 c hmem] at hc
  cases hc

theorem linkApi_documented : linkApi.Documented where
  hierarchical scheme authority query hscheme hauthority hquery := by
    obtain ⟨hs, hrest⟩ := cut_append (hscheme.not_mem (c := ':') (by decide))
      ("//".toList ++ (authority.toList ++ '?' :: query.toList))
    obtain ⟨ha, hafter⟩ := cut_append (hauthority.not_mem (c := '?') (by decide)) query.toList
    have hq : query.toList.takeWhile (· ≠ '#') = query.toList :=
      List.takeWhile_eq_self_iff.mpr (decide_ne_of_not_mem hquery)
    have htext : (scheme ++ "://" ++ authority ++ "?" ++ query).toList =
        scheme.toList ++ ':' :: ("//".toList ++ (authority.toList ++ '?' :: query.toList)) := by
      simp
    refine ⟨(scheme.toList, authority.toList, query.toList), ?_, ?_, ?_, rfl, ?_⟩
    · have hauth : (':' :: ("//".toList ++ (authority.toList ++ '?' :: query.toList))).drop 3 =
          authority.toList ++ '?' :: query.toList := rfl
      simp only [linkApi, htext, hs, hrest, hauth, ha, hafter, List.tail_cons, hq]
    · simp [linkApi]
    · simp [linkApi]
    · intro key raw bytes value _ hfirst hbytes hvalue
      simp [linkApi, hfirst, hbytes, hvalue]

theorem parse_buildUri_linkApi :
    UrcUri.parse linkApi (Share.buildUri "100.64.0.1" "a&b=c%2B+d.ts.net" 15901 "Büro #1 / who?") =
      some ⟨"100.64.0.1", 15901, some "a&b=c%2B+d.ts.net", some "Büro #1 / who?"⟩ := by
  have hm : Kotlin.Trimmed "a&b=c%2B+d.ts.net" := by
    refine ⟨by decide, ?_, ?_⟩
    · rintro _ ⟨⟩
      decide
    · rintro _ ⟨⟩
      decide
  have hn : Kotlin.Trimmed "Büro #1 / who?" := by
    refine ⟨by decide, ?_, ?_⟩
    · rintro _ ⟨⟩
      decide
    · rintro _ ⟨⟩
      decide
  have hh : Cgnat.IsLiteral "100.64.0.1" :=
    ⟨100, 64, 0, 1, by omega, by omega, by omega, by omega, by decide +kernel⟩
  exact parse_buildUri linkApi linkApi_documented hh (by decide) hm hn

end Urc
