import Mathlib.Data.List.Basic
import Mathlib.Data.List.Infix
import Urc.Library.Decimal

/-! # Configuration texts and line substitutions

Plain TOML documents, with one entry a line and the tables behind the keys, and the stream editor
that rewrites such texts line by line. A text is the list of its lines. A substitution of the lines
of a key sets the entries of this key, and does nothing where there are none.
-/

/-! ### Line substitutions -/

namespace Sed

/-- `s/^start.*/new/`, for a start and a new text that are taken literally. -/
def substitute (start new line : String) : String :=
  if start.toList <+: line.toList then new else line

/-- The command `first,last f`: a range ends with the next line behind its first that matches the
second address, or with the text. The flag tells whether a line lies in a range. -/
def range (first last : String → Bool) (f : String → String) : Bool → List String → List String
  | _, [] => []
  | false, line :: rest =>
    if first line then f line :: range first last f true rest
    else line :: range first last f false rest
  | true, line :: rest => f line :: range first last f (!last line) rest

/-- `/^start/`. -/
def starts (start line : String) : Bool := decide (start.toList <+: line.toList)

variable {start new : String} {first last : String → Bool} {f : String → String}
  {lines rest : List String} {line : String}

theorem range_append (h : ∀ line ∈ lines, first line = false) :
    range first last f false (lines ++ rest) = lines ++ range first last f false rest := by
  induction lines with
  | nil => rfl
  | cons line lines ih =>
    obtain ⟨hline, hlines⟩ := List.forall_mem_cons.mp h
    simp only [List.cons_append, range, hline, Bool.false_eq_true, if_false, ih hlines]

theorem range_true (h : ∀ line ∈ lines, last line = false) :
    range first last f true lines = lines.map f := by
  induction lines with
  | nil => rfl
  | cons line lines ih =>
    obtain ⟨hline, hlines⟩ := List.forall_mem_cons.mp h
    simp only [range, hline, Bool.not_false, List.map_cons, ih hlines]

end Sed

/-! ### Documents -/

namespace Toml

inductive Value
  | string (s : String)
  | integer (n : ℕ)
  | boolean (b : Bool)
  deriving DecidableEq

abbrev Entry := String × Value

structure Document where
  root : List Entry
  tables : List (String × List Entry)
  deriving DecidableEq

def IsPlain (c : Char) : Prop := c ≠ '"' ∧ c ≠ '\\' ∧ 0x20 ≤ c.toNat ∧ c.toNat ≠ 0x7F

instance (c : Char) : Decidable (IsPlain c) := inferInstanceAs (Decidable (_ ∧ _ ∧ _ ∧ _))

def IsBare (key : String) : Prop :=
  key ≠ "" ∧ ∀ c ∈ key.toList, c.isAlphanum = true ∨ c = '_' ∨ c = '-'

instance (key : String) : Decidable (IsBare key) :=
  have : Decidable (∀ c ∈ key.toList, c.isAlphanum = true ∨ c = '_' ∨ c = '-') :=
    List.decidableBAll _ _
  inferInstanceAs (Decidable (_ ∧ _))

namespace Value

def text : Value → String
  | string s => "\"" ++ s ++ "\""
  | integer n => toString n
  | boolean b => if b then "true" else "false"

def IsPlain : Value → Prop
  | string s => ∀ c ∈ s.toList, Toml.IsPlain c
  | _ => True

theorem isPlain_string {s : String} (h : s.toList.all (fun c => decide (Toml.IsPlain c)) = true) :
    (string s).IsPlain := fun c hc => of_decide_eq_true (List.all_eq_true.mp h c hc)

end Value

namespace Document

def entryLine (e : Entry) : String := e.1 ++ " = " ++ e.2.text

def header (name : String) : String := "[" ++ name ++ "]"

def tableLines (t : String × List Entry) : List String := "" :: header t.1 :: t.2.map entryLine

def lines (d : Document) : List String := d.root.map entryLine ++ d.tables.flatMap tableLines

/-- What needs no escapes: some plain keys, bare and each of them once, and plain values. -/
structure IsPlain (d : Document) : Prop where
  root : d.root ≠ []
  names : (d.root.map (·.1) ++ d.tables.map (·.1)).Nodup
  keys : ∀ t ∈ d.tables, (t.2.map (·.1)).Nodup
  rootEntries : ∀ e ∈ d.root, IsBare e.1 ∧ e.2.IsPlain
  tableEntries : ∀ t ∈ d.tables, IsBare t.1 ∧ ∀ e ∈ t.2, IsBare e.1 ∧ e.2.IsPlain

def setEntry (key : String) (v : Value) (e : Entry) : Entry := if e.1 = key then (key, v) else e

def set (d : Document) (key : String) (v : Value) : Document :=
  ⟨d.root.map (setEntry key v), d.tables.map fun t => (t.1, t.2.map (setEntry key v))⟩

end Document

structure Codec where
  print : Document → List String
  parse : List String → Option Document

/-- What is documented of them, for plain documents: one line for an entry, a table behind the
plain keys, an empty line before its header; empty lines at the end count for nothing. -/
structure Codec.Documented (codec : Codec) : Prop where
  print_eq : ∀ d : Document, d.IsPlain → codec.print d = d.lines
  parse_eq : ∀ (d : Document) (n : ℕ), d.IsPlain →
    codec.parse (d.lines ++ List.replicate n "") = some d

namespace Document

variable {key : String} {v : Value} {e : Entry} {d : Document}

theorem blank_not_mem (h : IsBare key) : ' ' ∉ key.toList := fun hmem => by
  rcases h.2 ' ' hmem with h | h | h <;> exact absurd h (by decide)

theorem takeWhile_key (h : IsBare key) (rest : List Char) :
    (key.toList ++ ' ' :: rest).takeWhile (· ≠ ' ') = key.toList := by
  have hself : ∀ c ∈ key.toList, decide (c ≠ ' ') = true := by
    intro c hc
    rw [decide_eq_true_eq]
    rintro rfl
    exact blank_not_mem h hc
  rw [List.takeWhile_append_of_pos hself]
  simp

theorem start_prefix_iff (hkey : IsBare key) (he : IsBare e.1) :
    (key ++ " = ").toList <+: (entryLine e).toList ↔ e.1 = key := by
  constructor
  · rintro ⟨rest, h⟩
    have hline : key.toList ++ ' ' :: '=' :: ' ' :: rest =
        e.1.toList ++ ' ' :: '=' :: ' ' :: e.2.text.toList := by
      simpa [entryLine] using h
    have hkeys := congrArg (List.takeWhile (· ≠ ' ')) hline
    rw [takeWhile_key hkey, takeWhile_key he] at hkeys
    exact (String.toList_inj.mp hkeys).symm
  · rintro rfl
    exact ⟨e.2.text.toList, by simp [entryLine]⟩

theorem not_prefix_start (hkey : IsBare key) {line : List Char}
    (h : ∀ c ∈ line.head?, c = '[') : ¬ (key ++ " = ").toList <+: line := by
  rintro ⟨rest, rfl⟩
  obtain ⟨c, cs, hcs⟩ := List.exists_cons_of_ne_nil (String.toList_eq_nil_iff.not.mpr hkey.1)
  have hc : c ∈ key.toList := hcs ▸ List.mem_cons_self
  rw [String.toList_append, hcs] at h
  obtain rfl := h c rfl
  rcases hkey.2 '[' hc with h | h | h <;> exact absurd h (by decide)

theorem substitute_entryLine (hkey : IsBare key) (he : IsBare e.1) :
    Sed.substitute (key ++ " = ") (entryLine (key, v)) (entryLine e) =
      entryLine (setEntry key v e) := by
  unfold Sed.substitute setEntry
  by_cases hek : e.1 = key
  · rw [if_pos ((start_prefix_iff hkey he).mpr hek), if_pos hek]
  · rw [if_neg (hek ∘ (start_prefix_iff hkey he).mp), if_neg hek]

theorem substitute_entries {es : List Entry} (hkey : IsBare key) (hes : ∀ e ∈ es, IsBare e.1) :
    (es.map entryLine).map (Sed.substitute (key ++ " = ") (entryLine (key, v))) =
      (es.map (setEntry key v)).map entryLine := by
  rw [List.map_map, List.map_map]
  exact List.map_congr_left fun e he => substitute_entryLine hkey (hes e he)

theorem substitute_blank (hkey : IsBare key) :
    Sed.substitute (key ++ " = ") (entryLine (key, v)) "" = "" :=
  if_neg (not_prefix_start hkey (by simp))

theorem substitute_header (hkey : IsBare key) (name : String) :
    Sed.substitute (key ++ " = ") (entryLine (key, v)) (header name) = header name :=
  if_neg (not_prefix_start hkey (by simp [header]))

theorem substitute_tableLines {t : String × List Entry} (hkey : IsBare key)
    (ht : ∀ e ∈ t.2, IsBare e.1) :
    (tableLines t).map (Sed.substitute (key ++ " = ") (entryLine (key, v))) =
      tableLines (t.1, t.2.map (setEntry key v)) := by
  have hheader := substitute_header (v := v) hkey t.1
  rw [tableLines, List.map_cons, List.map_cons, substitute_blank hkey, hheader,
    substitute_entries hkey ht]
  rfl

/-- To substitute the lines of a key is to set its entries. -/
theorem substitute_lines (hd : d.IsPlain) (hkey : IsBare key) (n : ℕ) :
    (d.lines ++ List.replicate n "").map (Sed.substitute (key ++ " = ") (entryLine (key, v))) =
      (d.set key v).lines ++ List.replicate n "" := by
  have htables : ∀ ts : List (String × List Entry), (∀ t ∈ ts, ∀ e ∈ t.2, IsBare e.1) →
      (ts.flatMap tableLines).map (Sed.substitute (key ++ " = ") (entryLine (key, v))) =
        (ts.map fun t => (t.1, t.2.map (setEntry key v))).flatMap tableLines := by
    intro ts hts
    rw [List.map_flatMap, List.flatMap_map]
    exact List.flatMap_congr fun t ht => substitute_tableLines hkey (hts t ht)
  rw [lines, List.map_append, List.map_append,
    substitute_entries hkey fun e he => (hd.rootEntries e he).1,
    htables d.tables fun t ht e he => ((hd.tableEntries t ht).2 e he).1, List.map_replicate,
    substitute_blank hkey]
  rfl

theorem not_starts_entryLine {start : String} (he : IsBare e.1)
    (hstart : start.toList.head? = some '[') : Sed.starts start (entryLine e) = false := by
  obtain ⟨c, cs, hcs⟩ := List.exists_cons_of_ne_nil (String.toList_eq_nil_iff.not.mpr he.1)
  have hc : c ∈ e.1.toList := hcs ▸ List.mem_cons_self
  obtain ⟨ds, hds⟩ := List.head?_eq_some_iff.mp hstart
  rw [Sed.starts, decide_eq_false_iff_not, hds, entryLine, String.toList_append,
    String.toList_append, hcs]
  rintro ⟨rest, h⟩
  obtain rfl := (List.cons.inj h).1
  rcases he.2 '[' hc with h | h | h <;> exact absurd h (by decide)

/-- With one table, to substitute the lines of a key from the header on is to set its entries in
the table. -/
theorem range_lines {name : String} {es : List Entry} (hd : d.IsPlain) (hkey : IsBare key)
    (htables : d.tables = [(name, es)]) (n : ℕ) :
    Sed.range (Sed.starts (header name)) (Sed.starts "[")
        (Sed.substitute (key ++ " = ") (entryLine (key, v))) false
        (d.lines ++ List.replicate n "") =
      (⟨d.root, [(name, es.map (setEntry key v))]⟩ : Document).lines ++ List.replicate n "" := by
  have hhead : (header name).toList.head? = some '[' := by simp [header]
  have hfirst : ∀ line ∈ d.root.map entryLine, Sed.starts (header name) line = false := by
    intro line hline
    obtain ⟨e, he, rfl⟩ := List.mem_map.mp hline
    exact not_starts_entryLine (hd.rootEntries e he).1 hhead
  have hes : ∀ e ∈ es, IsBare e.1 := by
    intro e he
    exact ((hd.tableEntries (name, es) (by simp [htables])).2 e he).1
  have hlast : ∀ line ∈ es.map entryLine ++ List.replicate n "", Sed.starts "[" line = false := by
    intro line hline
    rcases List.mem_append.mp hline with hline | hline
    · obtain ⟨e, he, rfl⟩ := List.mem_map.mp hline
      exact not_starts_entryLine (hes e he) rfl
    · rw [List.eq_of_mem_replicate hline]
      rfl
  have hblank : Sed.starts (header name) "" = false := by simp [Sed.starts, header]
  have hheader : Sed.starts (header name) (header name) = true := by simp [Sed.starts]
  simp only [lines, htables, List.flatMap_cons, List.flatMap_nil, List.append_nil, tableLines,
    List.append_assoc]
  rw [Sed.range_append hfirst]
  simp only [List.cons_append, Sed.range, hblank, hheader, Bool.false_eq_true, if_false, if_true,
    substitute_header hkey, Sed.range_true hlast, List.map_append, substitute_entries hkey hes,
    List.map_replicate, substitute_blank hkey]

end Document

/-! ### A reader of plain documents -/

def readValue : List Char → Option Value
  | '"' :: rest =>
    if rest.getLast? = some '"' then some (.string (.ofList rest.dropLast)) else none
  | cs =>
    if cs = "true".toList then some (.boolean true)
    else if cs = "false".toList then some (.boolean false)
    else if cs ≠ [] ∧ cs.all Char.isDigit then some (.integer (Decimal.value cs))
    else none

/-- The entries in front of the first header wait in the plain keys until a header takes them. -/
def readLine (line : String) (d : Document) : Option Document :=
  match line.toList with
  | [] => some d
  | '[' :: name => some ⟨[], (.ofList name.dropLast, d.root) :: d.tables⟩
  | cs =>
    let key := cs.takeWhile (· ≠ ' ')
    (readValue (cs.drop (key.length + 3))).map fun v => ⟨(.ofList key, v) :: d.root, d.tables⟩

def readLines : List String → Option Document
  | [] => some ⟨[], []⟩
  | line :: rest => (readLines rest).bind (readLine line)

def Codec.plain : Codec := ⟨Document.lines, readLines⟩

theorem readValue_digits (n : ℕ) : readValue (Nat.toDigits 10 n) = some (.integer n) := by
  have hnum := Decimal.isNumeral_toDigits n
  have hnot : ∀ {c : Char} {cs : List Char}, c.isDigit = false → Nat.toDigits 10 n ≠ c :: cs := by
    intro c cs hc h
    rw [hnum.digits c (h ▸ List.mem_cons_self)] at hc
    cases hc
  unfold readValue
  split
  · exact absurd ‹_› (hnot (by decide))
  · have htrue : Nat.toDigits 10 n ≠ "true".toList := hnot (by decide)
    have hfalse : Nat.toDigits 10 n ≠ "false".toList := hnot (by decide)
    rw [if_neg htrue, if_neg hfalse, if_pos ⟨hnum.ne_nil, List.all_eq_true.mpr hnum.digits⟩,
      Decimal.value_toDigits]

theorem readValue_text (v : Value) : readValue v.text.toList = some v := by
  cases v with
  | string s => simp [Value.text, readValue]
  | integer n =>
    rw [Value.text, Nat.toString_eq_repr, Nat.toList_repr]
    exact readValue_digits n
  | boolean b => cases b <;> rfl

theorem readLine_entryLine {e : Entry} (he : IsBare e.1) (d : Document) :
    readLine (Document.entryLine e) d = some ⟨e :: d.root, d.tables⟩ := by
  obtain ⟨c, cs, hcs⟩ := List.exists_cons_of_ne_nil (String.toList_eq_nil_iff.not.mpr he.1)
  have hline : (Document.entryLine e).toList =
      e.1.toList ++ ' ' :: '=' :: ' ' :: e.2.text.toList := by simp [Document.entryLine]
  have hbracket : c ≠ '[' := by
    rintro rfl
    rcases he.2 '[' (hcs ▸ List.mem_cons_self) with h | h | h <;> exact absurd h (by decide)
  have hkey : (Document.entryLine e).toList.takeWhile (· ≠ ' ') = e.1.toList := by
    rw [hline]
    exact Document.takeWhile_key he _
  have hvalue : (Document.entryLine e).toList.drop (e.1.toList.length + 3) = e.2.text.toList := by
    rw [hline, List.drop_append]
    simp
  unfold readLine
  split
  · rename_i hnil
    rw [hline] at hnil
    simp at hnil
  · rename_i hhead
    rw [hline, hcs] at hhead
    exact absurd (List.cons.inj hhead).1 hbracket
  · dsimp only
    rw [hkey, hvalue, readValue_text, Option.map_some, String.ofList_toList]

theorem readLines_entries {es : List Entry} (hes : ∀ e ∈ es, IsBare e.1) {lines : List String}
    {d : Document} (hd : readLines lines = some d) :
    readLines (es.map Document.entryLine ++ lines) = some ⟨es ++ d.root, d.tables⟩ := by
  induction es with
  | nil => exact hd
  | cons e es ih =>
    obtain ⟨he, hes⟩ := List.forall_mem_cons.mp hes
    rw [List.map_cons, List.cons_append, readLines, ih hes, Option.bind_some,
      readLine_entryLine he]
    rfl

theorem readLines_tables {ts : List (String × List Entry)}
    (hts : ∀ t ∈ ts, ∀ e ∈ t.2, IsBare e.1) {lines : List String} {d : Document}
    (hroot : d.root = []) (hd : readLines lines = some d) :
    readLines (ts.flatMap Document.tableLines ++ lines) = some ⟨[], ts ++ d.tables⟩ := by
  induction ts with
  | nil => rw [List.flatMap_nil, List.nil_append, hd, ← hroot]; rfl
  | cons t ts ih =>
    obtain ⟨ht, hts⟩ := List.forall_mem_cons.mp hts
    have hheader : ∀ d : Document, readLine (Document.header t.1) d =
        some ⟨[], (t.1, d.root) :: d.tables⟩ := by
      intro d
      simp [readLine, Document.header]
    rw [List.flatMap_cons, List.append_assoc, Document.tableLines, List.cons_append,
      List.cons_append, readLines, readLines, readLines_entries ht (ih hts), Option.bind_some,
      hheader, List.append_nil]
    rfl

theorem Codec.plain_documented : Codec.plain.Documented where
  print_eq _ _ := rfl
  parse_eq d n hd := by
    have hblank : readLines (List.replicate n "") = some ⟨[], []⟩ := by
      induction n with
      | zero => rfl
      | succ n ih => rw [List.replicate_succ, readLines, ih]; rfl
    have htables := readLines_tables (fun t ht e he => ((hd.tableEntries t ht).2 e he).1) rfl hblank
    have hroot := readLines_entries (fun e he => (hd.rootEntries e he).1) htables
    rw [List.append_nil, List.append_nil] at hroot
    rw [Document.lines, List.append_assoc]
    exact hroot

end Toml
