import Urc.Common.Text
import Urc.Files.SafePath
import Urc.Files.Zip

/-! # Request paths as texts

`safe_path` on the bytes of a path: `push` appends the name of a component behind a separator, and
`components` finds it there again. So the components of the result are those of the root and the
names of the request, and nothing else of the request counts.
-/

namespace Urc

open FileTree

namespace OsStr

/-- One part of a path between separators, as `component` for bytes: 46 is the dot. -/
def component : OsStr → Option (Component OsStr)
  | [] => none
  | [46] => none
  | [46, 46] => some .parentDir
  | s => some (.normal s)

/-- `Path::components`; 47 is the separator. -/
def components (path : OsStr) : PathBuf :=
  let parts := path.splitOn 47
  (if path.head? = some 47 then [.rootDir]
    else if parts.head? = some [46] then [.curDir] else []) ++ parts.filterMap component

/-- `PathBuf::push`; an absolute path replaces the other. -/
def push (path p : OsStr) : OsStr :=
  if p.head? = some 47 then p
  else if path = [] ∨ path.getLast? = some 47 then path ++ p
  else path ++ 47 :: p

/-- The loop of `safe_path` over the components of the request. -/
def pushParts (path : OsStr) : PathBuf → Except StatusCode OsStr
  | [] => .ok path
  | .normal p :: rest => pushParts (path.push p) rest
  | .parentDir :: _ | .rootDir :: _ => .error .badRequest
  | .curDir :: rest => pushParts path rest

/-- `safe_path`. -/
def safePath (root : OsStr) (rel : String) : Except StatusCode OsStr :=
  let rel := rel.toList.dropWhile (· = '/')
  match pushParts root (Urc.components rel) with
  | .error e => .error e
  | .ok path => if root.components.isPrefixOf path.components then .ok path else .error .forbidden

structure IsName (p : OsStr) : Prop where
  ne_nil : p ≠ []
  no_separator : 47 ∉ p
  ne_dot : p ≠ [46]
  ne_dots : p ≠ [46, 46]

variable {path p q : OsStr}

theorem IsName.component_eq (hp : p.IsName) : component p = some (.normal p) := by
  unfold component
  split
  · exact absurd rfl hp.ne_nil
  · exact absurd rfl hp.ne_dot
  · exact absurd rfl hp.ne_dots
  · rfl

theorem IsName.head?_ne (hp : p.IsName) : p.head? ≠ some 47 := by
  intro h
  obtain ⟨rest, rfl⟩ := List.head?_eq_some_iff.mp h
  exact hp.no_separator List.mem_cons_self

theorem IsName.splitOn_eq (hp : p.IsName) : p.splitOn 47 = [p] :=
  List.splitOn_eq_singleton hp.no_separator

theorem filterMap_singleton (q : OsStr) : [q].filterMap component = (component q).toList := by
  cases hq : component q <;> simp [hq]

theorem components_separator (hq : 47 ∉ q) : components (path ++ 47 :: q) =
    components (path ++ [47]) ++ (component q).toList := by
  have hhead : ∀ rest : OsStr, (path ++ 47 :: rest).head? = (path ++ [47]).head? := by
    intro rest
    cases path <;> rfl
  obtain ⟨first, parts, hparts⟩ := List.exists_cons_of_ne_nil (List.splitOn_ne_nil 47 path)
  have hempty : [[]].filterMap component = [] := rfl
  unfold components
  dsimp only
  rw [hhead, List.splitOn_append_cons_self, List.splitOn_append_cons_self,
    List.splitOn_eq_singleton hq, List.splitOn_nil, hparts, List.filterMap_append,
    List.filterMap_append, filterMap_singleton, hempty, List.append_nil, List.append_assoc]
  rfl

/-- A separator at the end counts for nothing, unless it is the root. -/
theorem components_trailing (hne : path ≠ []) : components (path ++ [47]) = components path := by
  have hhead : (path ++ [47]).head? = path.head? := by
    cases path with
    | nil => exact absurd rfl hne
    | cons b path => rfl
  obtain ⟨first, parts, hparts⟩ := List.exists_cons_of_ne_nil (List.splitOn_ne_nil 47 path)
  have hempty : [[]].filterMap component = [] := rfl
  unfold components
  dsimp only
  rw [hhead, List.splitOn_append_cons_self, List.splitOn_nil, hparts, List.filterMap_append,
    hempty, List.append_nil]
  rfl

/-- What `push` appends is read as one component. -/
theorem components_push (hp : p.IsName) : (path.push p).components =
    path.components ++ [.normal p] := by
  unfold push
  rw [if_neg hp.head?_ne]
  by_cases hnil : path = []
  · have hempty : components [] = [] := by decide
    have hfirst : ¬ [p].head? = some [46] := fun h => hp.ne_dot (Option.some.inj h)
    rw [if_pos (.inl hnil), hnil, List.nil_append, hempty, components, hp.splitOn_eq,
      filterMap_singleton, hp.component_eq, if_neg hp.head?_ne, if_neg hfirst]
    rfl
  · by_cases hlast : path.getLast? = some 47
    · obtain ⟨init, rfl⟩ := List.getLast?_eq_some_iff.mp hlast
      rw [if_pos (.inr hlast), List.append_assoc, List.singleton_append,
        components_separator hp.no_separator, hp.component_eq]
      rfl
    · rw [if_neg (not_or.mpr ⟨hnil, hlast⟩), components_separator hp.no_separator,
        components_trailing hnil, hp.component_eq]
      rfl

theorem pushParts_eq (path : OsStr) (rest : PathBuf) : pushParts path rest =
    if .parentDir ∈ rest ∨ .rootDir ∈ rest then .error .badRequest
    else .ok ((normals rest).foldl push path) := by
  induction rest generalizing path with
  | nil => simp [pushParts, normals]
  | cons c rest ih =>
    cases c with
    | rootDir => simp [pushParts]
    | curDir => simp [pushParts, ih, normals]
    | parentDir => simp [pushParts]
    | normal p => simp [pushParts, ih, normals]

theorem components_foldl_push {names : List OsStr} (hnames : ∀ p ∈ names, p.IsName) :
    components (names.foldl push path) = components path ++ names.map .normal := by
  induction names generalizing path with
  | nil => simp
  | cons p names ih =>
    obtain ⟨hp, hnames⟩ := List.forall_mem_cons.mp hnames
    rw [List.foldl_cons, ih hnames, components_push hp, List.map_cons, List.append_assoc]
    rfl

/-! ### The names of a request -/

theorem ofChars_injective : Function.Injective ofChars := by
  intro s t h
  rw [← toStringLossy_ofChars s, h, toStringLossy_ofChars]

theorem eq_of_mem_utf8EncodeChar {c d : Char} (hd : d.toNat < 128)
    (h : UInt8.ofNat d.toNat ∈ String.utf8EncodeChar c) : c = d := by
  have hbyte : ∀ {n}, UInt8.ofNat d.toNat = UInt8.ofNat n → d.toNat = n % 256 := by
    intro n hn
    have h := congrArg UInt8.toNat hn
    rw [UInt8.toNat_ofNat', UInt8.toNat_ofNat'] at h
    omega
  unfold String.utf8EncodeChar at h
  dsimp only at h
  split_ifs at h with hone htwo hthree
  · have heq := hbyte (List.mem_singleton.mp h)
    rw [← Char.toNat_inj]
    exact (heq.trans (Nat.mod_eq_of_lt (by omega))).symm
  -- the bytes of longer characters all are from 128 on
  all_goals simp only [List.mem_cons, List.not_mem_nil, or_false] at h
  · rcases h with h | h <;>
    · have heq := hbyte h
      omega
  · rcases h with h | h | h <;>
    · have heq := hbyte h
      omega
  · rcases h with h | h | h | h <;>
    · have heq := hbyte h
      omega

theorem separator_not_mem {s : List Char} (hs : '/' ∉ s) : 47 ∉ ofChars s := by
  intro h
  obtain ⟨c, hc, hbyte⟩ := List.mem_flatMap.mp h
  obtain rfl : c = '/' := eq_of_mem_utf8EncodeChar (by decide) hbyte
  exact hs hc

theorem isName_ofChars {s : List Char} (hslash : '/' ∉ s) (hnil : s ≠ []) (hdot : s ≠ ['.'])
    (hdots : s ≠ ['.', '.']) : (ofChars s).IsName where
  ne_nil h := hnil (ofChars_injective (h.trans rfl))
  no_separator := separator_not_mem hslash
  ne_dot h := hdot (ofChars_injective (h.trans (by decide)))
  ne_dots h := hdots (ofChars_injective (h.trans (by decide)))

end OsStr

/-- The parts of a request between its slashes, behind those at its start. -/
def requestParts (rel : String) : List (List Char) :=
  (rel.toList.dropWhile (· = '/')).splitOn '/'

def remaining (rel : String) : List (List Char) :=
  (requestParts rel).filter fun s => s ≠ [] ∧ s ≠ ['.']

/-- The components of a request, as `safe_path` goes through them. -/
def requestComponents (rel : String) : PathBuf := components (rel.toList.dropWhile (· = '/'))

variable {rel : String}

theorem rootDir_not_mem_requestComponents : .rootDir ∉ requestComponents rel :=
  rootDir_not_mem_components (head?_dropWhile rel.toList)

theorem component_eq_parentDir {s : List Char} :
    component s = some .parentDir ↔ s = ['.', '.'] := by
  constructor
  · intro h
    unfold component at h
    split at h <;> first | rfl | cases h
  · rintro rfl
    rfl

theorem component_of_name {s : List Char} (hnil : s ≠ []) (hdot : s ≠ ['.'])
    (hdots : s ≠ ['.', '.']) : component s = some (.normal (.ofChars s)) := by
  unfold component
  split
  · exact absurd rfl hnil
  · exact absurd rfl hdot
  · exact absurd rfl hdots
  · rfl

theorem parentDir_mem_requestComponents :
    .parentDir ∈ requestComponents rel ↔ ['.', '.'] ∈ requestParts rel := by
  unfold requestComponents components requestParts
  simp only [List.mem_append, List.mem_filterMap, component_eq_parentDir, exists_eq_right]
  split_ifs <;> simp

theorem normals_append (cs cs' : PathBuf) : normals (cs ++ cs') = normals cs ++ normals cs' := by
  induction cs with
  | nil => rfl
  | cons c cs ih => cases c <;> simp [normals, ih]

theorem normals_requestComponents (h : ['.', '.'] ∉ requestParts rel) :
    normals (requestComponents rel) = (remaining rel).map .ofChars := by
  have hlead : ∀ p q : Prop, ∀ [Decidable p] [Decidable q],
      normals (if p then [.rootDir] else if q then [.curDir] else []) = [] := by
    intro p q _ _
    split_ifs <;> rfl
  unfold requestComponents components
  dsimp only
  rw [normals_append, hlead, List.nil_append, remaining]
  change normals ((requestParts rel).filterMap component) = _
  generalize requestParts rel = parts at h
  induction parts with
  | nil => rfl
  | cons s parts ih =>
    obtain ⟨hs, hparts⟩ := not_or.mp (List.mem_cons.not.mp h)
    by_cases hskip : s = [] ∨ s = ['.']
    · have hnone : component s = none := by rcases hskip with rfl | rfl <;> rfl
      rw [List.filterMap_cons_none hnone, ih hparts,
        List.filter_cons_of_neg (by simpa [imp_iff_not_or] using hskip)]
    · obtain ⟨hnil, hdot⟩ := not_or.mp hskip
      rw [List.filterMap_cons_some (component_of_name hnil hdot (Ne.symm hs)), normals,
        ih hparts, List.filter_cons_of_pos (by simp [hnil, hdot]), List.map_cons]

theorem isName_of_mem_remaining (h : ['.', '.'] ∉ requestParts rel) {p : OsStr}
    (hp : p ∈ (remaining rel).map OsStr.ofChars) : p.IsName := by
  obtain ⟨s, hs, rfl⟩ := List.mem_map.mp hp
  obtain ⟨hpart, hkept⟩ := List.mem_filter.mp hs
  obtain ⟨hnil, hdot⟩ := of_decide_eq_true hkept
  exact OsStr.isName_ofChars (not_mem_of_mem_splitOn hpart) hnil hdot fun hdots =>
    h (hdots ▸ hpart)

/-! ### What `safe_path` does -/

namespace OsStr

/-- A request is refused for a `..`, and else its remaining parts are pushed onto the root. -/
theorem safePath_eq (root : OsStr) (rel : String) : safePath root rel =
    if ['.', '.'] ∈ requestParts rel then .error .badRequest
    else .ok (((remaining rel).map ofChars).foldl push root) := by
  have hpush : pushParts root (Urc.components (rel.toList.dropWhile (· = '/'))) =
      if ['.', '.'] ∈ requestParts rel then .error .badRequest
      else .ok ((normals (requestComponents rel)).foldl push root) := by
    have h := pushParts_eq root (requestComponents rel)
    simp only [parentDir_mem_requestComponents, rootDir_not_mem_requestComponents, or_false] at h
    exact h
  unfold safePath
  dsimp only
  rw [hpush]
  by_cases h : ['.', '.'] ∈ requestParts rel
  · rw [if_pos h, if_pos h]
  · have hpushed : components (((remaining rel).map ofChars).foldl push root) =
        components root ++ ((remaining rel).map ofChars).map .normal :=
      components_foldl_push fun _ hp => isName_of_mem_remaining h hp
    rw [if_neg h, if_neg h, normals_requestComponents h]
    dsimp only
    rw [hpushed, if_pos (by simp)]

variable {root p p' : OsStr}

theorem components_of_safePath (h : safePath root rel = .ok p) :
    p.components = root.components ++ ((remaining rel).map ofChars).map .normal := by
  rw [safePath_eq] at h
  split_ifs at h with hdots
  cases h
  exact components_foldl_push fun _ hp => isName_of_mem_remaining hdots hp

/-- `safe_path` on components is `safe_path` on the texts behind them. -/
theorem map_components_safePath (root : OsStr) (rel : String) :
    (safePath root rel).map components = Urc.safePath root.components rel := by
  rw [safePath_eq, Urc.safePath_eq]
  dsimp only
  change _ = if .parentDir ∈ requestComponents rel then _ else
    Except.ok (_ ++ (normals (requestComponents rel)).map _)
  simp only [parentDir_mem_requestComponents]
  split_ifs with h
  · rfl
  · rw [normals_requestComponents h]
    exact congrArg Except.ok (components_foldl_push fun _ hp => isName_of_mem_remaining h hp)

/-- What `safe_path` does with every request to a root. -/
structure ServesExactly (root : OsStr) : Prop where
  accepts : ∀ rel, (∃ p, safePath root rel = .ok p) ↔ ['.', '.'] ∉ requestParts rel
  path : ∀ rel p, safePath root rel = .ok p → p.components =
    root.components ++ (remaining rel).map fun s => .normal (.ofChars s)
  refuses : ∀ rel, ['.', '.'] ∈ requestParts rel → safePath root rel = .error .badRequest
  not_forbidden : ∀ rel, safePath root rel ≠ .error .forbidden
  same : ∀ rel rel' p p', safePath root rel = .ok p → safePath root rel' = .ok p' →
    (p = p' ↔ remaining rel = remaining rel') ∧
      (p.components = p'.components ↔ remaining rel = remaining rel')

/-- A request is accepted exactly without a `..`, its path is the root with the remaining parts of
the request behind it, and requests have the same path exactly if their remaining parts are the
same. -/
theorem safePath_exact (root : OsStr) : ServesExactly root := by
  have hcomponents : ∀ {rel p}, safePath root rel = .ok p → p.components =
      root.components ++ (remaining rel).map fun s => .normal (.ofChars s) := by
    intro rel p h
    rw [components_of_safePath h, List.map_map]
    rfl
  have hsame : ∀ {rel rel' p p'}, safePath root rel = .ok p → safePath root rel' = .ok p' →
      p.components = p'.components → remaining rel = remaining rel' := by
    intro rel rel' p p' h h' heq
    rw [hcomponents h, hcomponents h'] at heq
    refine List.map_injective_iff.mpr (fun s t hst => ?_) (List.append_cancel_left heq)
    exact ofChars_injective (Component.normal.inj hst)
  have hpath : ∀ {rel rel' p p'}, safePath root rel = .ok p → safePath root rel' = .ok p' →
      remaining rel = remaining rel' → p = p' := by
    intro rel rel' p p' h h' heq
    rw [safePath_eq] at h h'
    split_ifs at h h'
    rw [← Except.ok.inj h, ← Except.ok.inj h', heq]
  constructor
  · intro rel
    rw [safePath_eq]
    split_ifs with h <;> simp [h]
  · exact fun rel p h => hcomponents h
  · intro rel h
    rw [safePath_eq, if_pos h]
  · intro rel
    rw [safePath_eq]
    split_ifs <;> simp
  · intro rel rel' p p' h h'
    exact ⟨⟨fun heq => hsame h h' (congrArg components heq), hpath h h'⟩,
      ⟨hsame h h', fun heq => congrArg components (hpath h h' heq)⟩⟩

end OsStr

end Urc
