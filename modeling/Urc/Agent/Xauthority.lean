import Urc.Agent.SessionDetector
import Urc.Files.PathText
import Urc.Library.Decimal

/-! # The Xwayland authority

`glob_xauthority` looks for a file in a directory by a pattern with a star at its end. It takes the
text behind the star for what the names start with.
-/

namespace Urc

/-- `str::rsplit_once`: what is in front of the last of the characters and behind it. -/
def rsplitOnce (c : Char) : List Char → Option (List Char × List Char)
  | [] => none
  | d :: s =>
    match rsplitOnce c s with
    | some (base, rest) => some (d :: base, rest)
    | none => if d = c then some ([], s) else none

instance (n : OsStr) : Decidable (LegalName n) := inferInstanceAs (Decidable (_ ∧ _))

/-- What `read_dir` returns for a path: an entry that cannot be read has no name. -/
abbrev ReadDir := List Char → Option (List (Option {n : OsStr // LegalName n}))

namespace Xauthority

/-- `e.path()` of an entry, as a text. -/
def pathOf (base : List Char) (n : OsStr) : String :=
  OsStr.toStringLossy (OsStr.push (.ofChars base) n)

/-- `glob_xauthority`. -/
def globXauthority (readDir : ReadDir) (pattern : String) : Option String := do
  let base ← (rsplitOnce '/' pattern.toList).map (·.1)
  let pre ← (rsplitOnce '*' pattern.toList).map (·.2)
  let entries ← readDir base
  let entry ← entries.reduceOption.find? fun n =>
    let name := (OsStr.toStringLossy n.1).toList
    pre.dropWhile (· = '.') <+: name ∨ "Xwaylandauth".toList <:+: name
  some (pathOf base entry.1)

/-- A pattern: a directory, what the names in it start with, and a star. -/
structure GlobPattern where
  dir : String
  pre : String
  no_separator : '/' ∉ pre.toList

namespace GlobPattern

def text (p : GlobPattern) : String := p.dir ++ "/" ++ p.pre ++ "*"

/-- A name fits the pattern, or is that of an Xwayland authority in any case. -/
def Matches (p : GlobPattern) (n : OsStr) : Prop :=
  OsStr.ofChars p.pre.toList <+: n ∨ OsStr.ofChars "Xwaylandauth".toList <:+: n

end GlobPattern

/-- The names in a directory, as they are listed; there are none if it cannot be read. -/
def names (readDir : ReadDir) (dir : String) : List {n : OsStr // LegalName n} :=
  ((readDir dir.toList).getD []).reduceOption

/-- Only the path of an entry that matches is returned, and nothing if no entry matches. -/
structure Correct (readDir : ReadDir) (p : GlobPattern) (result : Option String) : Prop where
  sound : ∀ path, result = some path → ∃ n ∈ names readDir p.dir,
    OsStr.ofChars path.toList = OsStr.push (.ofChars p.dir.toList) n.1 ∧ p.Matches n.1
  falls_through : (∀ n ∈ names readDir p.dir, ¬ p.Matches n.1) → result = none

/-- Nothing is listed, or the name that is listed first matches. If it is no text, it is read as
one, which has to be the name of an entry. -/
def FirstMatches (readDir : ReadDir) (p : GlobPattern) : Prop :=
  ∀ first ∈ (names readDir p.dir).head?, ∃ n ∈ names readDir p.dir,
    n.1 = OsStr.ofChars (OsStr.toStringLossy first.1).toList ∧ p.Matches n.1

/-! ### Names and paths as texts -/

theorem rsplitOnce_eq_none {c : Char} {s : List Char} (h : c ∉ s) : rsplitOnce c s = none := by
  induction s with
  | nil => rfl
  | cons d s ih =>
    rw [List.mem_cons, not_or] at h
    rw [rsplitOnce, ih h.2]
    exact if_neg (Ne.symm h.1)

theorem rsplitOnce_append {c : Char} (base : List Char) {rest : List Char} (h : c ∉ rest) :
    rsplitOnce c (base ++ c :: rest) = some (base, rest) := by
  induction base with
  | nil =>
    rw [List.nil_append, rsplitOnce, rsplitOnce_eq_none h]
    exact if_pos rfl
  | cons d base ih => rw [List.cons_append, rsplitOnce, ih]

theorem invalidLen_pos (bs : List UInt8) : 0 < invalidLen bs := by
  unfold invalidLen
  split
  · split_ifs
    · split
      · split_ifs <;> decide
      · decide
    · decide
  · decide

theorem lossy_of_le {bs : List UInt8} {k k' : ℕ} (hk : bs.length ≤ k) (hk' : bs.length ≤ k') :
    lossy k bs = lossy k' bs := by
  induction k generalizing bs k' with
  | zero =>
    obtain rfl := List.eq_nil_of_length_eq_zero (Nat.le_zero.mp hk)
    cases k' <;> rfl
  | succ k ih =>
    cases bs with
    | nil => cases k' <;> rfl
    | cons b bs =>
      obtain ⟨k', rfl⟩ : ∃ j, k' = j + 1 := ⟨k' - 1, by
        rw [List.length_cons] at hk'
        omega⟩
      have hdrop : ∀ n, 0 < n → ((b :: bs).drop n).length ≤ k ∧
          ((b :: bs).drop n).length ≤ k' := by
        intro n hn
        rw [List.length_cons] at hk hk'
        rw [List.length_drop, List.length_cons]
        omega
      rw [lossy, lossy]
      split
      · obtain ⟨h, h'⟩ := hdrop _ (Char.utf8Size_pos _)
        rw [ih h h']
      · obtain ⟨h, h'⟩ := hdrop _ (invalidLen_pos _)
        rw [ih h h']

theorem toStringLossy_append (s : List Char) (n : OsStr) :
    OsStr.toStringLossy (OsStr.ofChars s ++ n) = .ofList (s ++ (OsStr.toStringLossy n).toList) := by
  have hlen := length_le_ofChars s
  have hrest : lossy ((OsStr.ofChars s ++ n).length - s.length) n = lossy n.length n := by
    apply lossy_of_le
    · rw [List.length_append]
      omega
    · exact le_rfl
  rw [OsStr.toStringLossy, OsStr.toStringLossy, String.toList_ofList,
    lossy_append s n (by rw [List.length_append]; omega), hrest]

theorem isName_of_legalName {n : OsStr} (hn : LegalName n) : n.IsName := by
  obtain ⟨hnil, -, -, hslash, hdot, hdots⟩ := hn
  exact ⟨hnil, hslash, hdot, hdots⟩

theorem push_eq {base n : OsStr} (hn : LegalName n) : OsStr.push base n =
    (if base = [] ∨ base.getLast? = some 47 then base else base ++ [47]) ++ n := by
  rw [OsStr.push, if_neg (isName_of_legalName hn).head?_ne]
  split_ifs
  · rfl
  · rw [List.append_assoc, List.singleton_append]

theorem ofChars_separator (base : List Char) :
    OsStr.ofChars (base ++ ['/']) = OsStr.ofChars base ++ [47] := by
  have hslash : OsStr.ofChars ['/'] = [47] := by decide
  rw [OsStr.ofChars_append, hslash]

theorem exists_push (base : List Char) : ∃ base' : List Char, ∀ n, LegalName n →
    OsStr.push (.ofChars base) n = OsStr.ofChars base' ++ n := by
  by_cases hsep : OsStr.ofChars base = [] ∨ (OsStr.ofChars base).getLast? = some 47
  · exact ⟨base, fun n hn => by rw [push_eq hn, if_pos hsep]⟩
  · refine ⟨base ++ ['/'], fun n hn => ?_⟩
    rw [push_eq hn, if_neg hsep, ofChars_separator]

/-! ### What the pattern finds -/

variable {readDir : ReadDir} {p : GlobPattern}

theorem find?_of_forall {α : Type*} {f : α → Bool} (h : ∀ x, f x = true) (l : List α) :
    l.find? f = l.head? := by
  cases l with
  | nil => rfl
  | cons x l => rw [List.find?_cons_of_pos (h x), List.head?_cons]

/-- Nothing stands behind the star, so that every name fits: the entry that is listed first is
returned. -/
theorem globXauthority_text (readDir : ReadDir) (p : GlobPattern) :
    globXauthority readDir p.text =
      (names readDir p.dir).head?.map fun n => pathOf p.dir.toList n.1 := by
  have htext : p.text.toList = p.dir.toList ++ '/' :: (p.pre.toList ++ ['*']) := by
    simp [GlobPattern.text]
  have hstar : p.text.toList = (p.dir.toList ++ '/' :: p.pre.toList) ++ '*' :: [] := by
    simp [htext]
  have hslash : '/' ∉ p.pre.toList ++ ['*'] := by simpa using p.no_separator
  have hbase : rsplitOnce '/' p.text.toList = some (p.dir.toList, p.pre.toList ++ ['*']) := by
    rw [htext, rsplitOnce_append _ hslash]
  have hpre : rsplitOnce '*' p.text.toList = some (p.dir.toList ++ '/' :: p.pre.toList, []) := by
    rw [hstar, rsplitOnce_append _ List.not_mem_nil]
  simp only [globXauthority, hbase, hpre, Option.map_some, Option.bind_eq_bind, Option.bind_some]
  rw [names]
  cases readDir p.dir.toList with
  | none => rfl
  | some entries =>
    rw [Option.bind_some, Option.getD_some, find?_of_forall, Option.map_eq_bind]
    · rfl
    · simp

theorem correct_iff (readDir : ReadDir) (p : GlobPattern) :
    Correct readDir p (globXauthority readDir p.text) ↔ FirstMatches readDir p := by
  obtain ⟨base, hpush⟩ := exists_push p.dir.toList
  have hpath : ∀ first : {n : OsStr // LegalName n},
      OsStr.ofChars (pathOf p.dir.toList first.1).toList =
        OsStr.ofChars base ++ OsStr.ofChars (OsStr.toStringLossy first.1).toList := by
    intro first
    rw [pathOf, hpush first.1 first.2, toStringLossy_append, String.toList_ofList,
      OsStr.ofChars_append]
  rw [globXauthority_text]
  constructor
  · intro h first hfirst
    obtain ⟨n, hn, heq, hmatches⟩ := h.sound _ (by rw [Option.mem_def.mp hfirst, Option.map_some])
    rw [hpath, hpush n.1 n.2] at heq
    exact ⟨n, hn, (List.append_cancel_left heq).symm, hmatches⟩
  · intro h
    constructor
    · intro path hresult
      obtain ⟨first, hfirst, rfl⟩ := Option.map_eq_some_iff.mp hresult
      obtain ⟨n, hn, heq, hmatches⟩ := h first hfirst
      refine ⟨n, hn, ?_, hmatches⟩
      rw [hpath, hpush n.1 n.2, heq]
    · intro hno
      cases hhead : (names readDir p.dir).head? with
      | none => rfl
      | some first =>
        obtain ⟨n, hn, -, hmatches⟩ := h first hhead
        exact absurd hmatches (hno n hn)

/-! ### The detector -/

def xauthGlob (uid : UInt32) : GlobPattern where
  dir := "/run/user/" ++ toString uid.toNat
  pre := ".mutter-Xwaylandauth."
  no_separator := by decide

/-- A path in the runtime directory does not need the bytes of its name. -/
theorem pathOf_runUser (uid : UInt32) {n : OsStr} (hn : LegalName n) :
    pathOf (xauthGlob uid).dir.toList n = LoginHost.runUserPath uid (OsStr.toStringLossy n) := by
  have hdigits : '/' ∉ Nat.toDigits 10 uid.toNat := fun h =>
    absurd ((Decimal.isNumeral_toDigits uid.toNat).digits '/' h) (by decide)
  have hdir : (xauthGlob uid).dir.toList = "/run/user/".toList ++ Nat.toDigits 10 uid.toNat := by
    simp [xauthGlob, Nat.toString_eq_repr, Nat.toList_repr]
  have hsep : ¬ (OsStr.ofChars (xauthGlob uid).dir.toList = [] ∨
      (OsStr.ofChars (xauthGlob uid).dir.toList).getLast? = some 47) := by
    have hbytes : OsStr.ofChars (xauthGlob uid).dir.toList =
        OsStr.ofChars "/run/user/".toList ++ OsStr.ofChars (Nat.toDigits 10 uid.toNat) := by
      rw [hdir, OsStr.ofChars_append]
    have hne : OsStr.ofChars (Nat.toDigits 10 uid.toNat) ≠ [] := fun h =>
      Nat.toDigits_ne_nil (OsStr.ofChars_injective (h.trans rfl))
    rintro (hnil | hlast)
    · rw [hbytes] at hnil
      exact hne (List.append_eq_nil_iff.mp hnil).2
    · rw [hbytes, List.getLast?_append_of_ne_nil _ hne] at hlast
      exact OsStr.separator_not_mem hdigits (List.mem_of_getLast? hlast)
  rw [pathOf, push_eq hn, if_neg hsep, ← ofChars_separator, toStringLossy_append]
  rw [← String.toList_inj, String.toList_ofList, hdir]
  simp [LoginHost.runUserPath, Nat.toString_eq_repr, Nat.toList_repr]

end Xauthority

/-- The machine with the directories that `read_dir` lists. -/
def LoginHost.reading (m : LoginHost) (readDir : ReadDir) : LoginHost :=
  { m with runUser := fun uid =>
      (readDir (Xauthority.xauthGlob uid).dir.toList).map fun entries =>
        entries.reduceOption.map fun n => OsStr.toStringLossy n.1 }

namespace Xauthority

theorem globXauthority_reading (m : LoginHost) (readDir : ReadDir) (uid : UInt32) :
    (m.reading readDir).globXauthority uid = globXauthority readDir (xauthGlob uid).text := by
  have hlisted : (m.reading readDir).runUser uid =
      (readDir (xauthGlob uid).dir.toList).map fun entries =>
        entries.reduceOption.map fun n => OsStr.toStringLossy n.1 := rfl
  rw [globXauthority_text, LoginHost.globXauthority, hlisted, names]
  cases readDir (xauthGlob uid).dir.toList with
  | none => rfl
  | some entries =>
    rw [Option.map_some, Option.bind_some, Option.getD_some, List.head?_map, Option.map_map]
    exact congrArg (Option.map · _) (funext fun n => (pathOf_runUser uid n.2).symm)

/-- The pattern finds only what matches exactly if nothing is listed or the first entry matches. A
session that is not one of X11 takes what it finds, and the other search if that is nothing. -/
theorem glob_correct_iff (readDir : ReadDir) :
    (∀ p : GlobPattern,
      Correct readDir p (globXauthority readDir p.text) ↔ FirstMatches readDir p) ∧
    ∀ (m : LoginHost) (uid : UInt32) (s : Shown),
      SessionDetector.xauthority (m.reading readDir) uid s =
        if s.type = "x11" then ((m.reading readDir).resolveXauthority uid).or
          (some (LoginHost.runUserPath uid "gdm/Xauthority"))
        else (globXauthority readDir (xauthGlob uid).text).or
          ((m.reading readDir).resolveXauthority uid) := by
  refine ⟨correct_iff readDir, fun m uid s => ?_⟩
  rw [SessionDetector.xauthority, globXauthority_reading]

def busFirst : ReadDir := fun _ => some [some ⟨.ofChars "bus".toList, by decide⟩,
  some ⟨.ofChars ".mutter-Xwaylandauth.AB12".toList, by decide⟩]

theorem bus_returned :
    ¬ Correct busFirst (xauthGlob 1000) (globXauthority busFirst (xauthGlob 1000).text) := by
  intro h
  obtain ⟨n, hn, heq, hmatches⟩ := (correct_iff _ _).mp h
    ⟨.ofChars "bus".toList, by decide⟩ rfl
  rw [toStringLossy_ofChars] at heq
  rw [heq] at hmatches
  revert hmatches
  simp only [GlobPattern.Matches]
  decide

end Xauthority

end Urc
