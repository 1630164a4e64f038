import Urc.Library.Run
import Mathlib.Logic.Function.Basic

/-! # The identity of the TLS tunnels

`TlsTunnel::new` makes a certificate and a key when one of the two files is missing, and writes
them one after the other. A call that is cut short leaves what it has written so far; the next
one asks only whether the files exist.
-/

namespace Urc

/-- What the tunnel uses of `rcgen`, `rustls_pemfile` and `rustls`. PEM is ASCII, so a text that is
partly written is a prefix of it. -/
structure TlsLibrary where
  KeyPair : Type
  Cert : Type
  Key : Type
  certPem : KeyPair → List Char
  keyPem : KeyPair → List Char
  certs : List Char → Option (List Cert)
  privateKey : List Char → Option (Option Key)
  /-- The error of `with_single_cert`, if it has one. -/
  singleCertError : List Cert → Key → Option String
  Belong : List Cert → Key → Prop

structure TlsLibrary.Sound (lib : TlsLibrary) (cert : lib.KeyPair → lib.Cert)
    (key : lib.KeyPair → lib.Key) : Prop where
  certs_certPem : ∀ k, lib.certs (lib.certPem k) = some [cert k]
  privateKey_keyPem : ∀ k, lib.privateKey (lib.keyPem k) = some (some (key k))
  accepts : ∀ k, lib.singleCertError [cert k] (key k) = none
  belong : ∀ k, lib.Belong [cert k] (key k)

/-- `agent.crt` and `agent.key`. -/
inductive TlsFile
  | cert
  | key
  deriving DecidableEq

abbrev TlsDir := TlsFile → Option (List Char)

/-- What a write does to a file: it is created or truncated, and then takes the text. -/
inductive FileOp
  | create (f : TlsFile)
  | append (f : TlsFile) (c : Char)
  deriving DecidableEq

namespace FileOp

def apply (d : TlsDir) : FileOp → TlsDir
  | .create f => Function.update d f (some [])
  | .append f c => Function.update d f ((d f).map (· ++ [c]))

/-- `fs::write`. -/
def writes (f : TlsFile) (text : List Char) : List FileOp := .create f :: text.map (.append f)

end FileOp

namespace TlsTunnel

variable (lib : TlsLibrary)

def generateSelfSigned (k : lib.KeyPair) : List FileOp :=
  FileOp.writes .cert (lib.certPem k) ++ FileOp.writes .key (lib.keyPem k)

/-- The file operations of `new`, with the key pair that it would generate. -/
def newOps (d : TlsDir) (k : lib.KeyPair) : List FileOp :=
  if d .cert = none ∨ d .key = none then generateSelfSigned lib k else []

def new (d : TlsDir) (k : lib.KeyPair) : TlsDir := Transition.run FileOp.apply d (newOps lib d k)

/-- A call that a crash cuts short, after some of its operations. -/
def newCut (d : TlsDir) (k : lib.KeyPair) (done : ℕ) : TlsDir :=
  Transition.run FileOp.apply d ((newOps lib d k).take done)

def buildAcceptor (d : TlsDir) : Except String (List lib.Cert × lib.Key) := do
  let certPem ← (d .cert).elim (throw "read cert") pure
  let keyPem ← (d .key).elim (throw "read key") pure
  let certs ← (lib.certs certPem).elim (throw "parse certs") pure
  let key ← (lib.privateKey keyPem).elim (throw "parse key") pure
  let key ← key.elim (throw "no private key") pure
  (lib.singleCertError certs key).elim (pure (certs, key)) throw

inductive TlsEvent
  | new (k : lib.KeyPair)
  | crash (k : lib.KeyPair) (done : ℕ)
  | delete (f : TlsFile)

def step (d : TlsDir) : TlsEvent lib → TlsDir
  | .new k => new lib d k
  | .crash k done => newCut lib d k done
  | .delete f => Function.update d f none

/-- The acceptor is built, with a certificate and a key that belong together. -/
def Serves (d : TlsDir) : Prop :=
  ∃ certs key, buildAcceptor lib d = .ok (certs, key) ∧ lib.Belong certs key

def Heals (d : TlsDir) : Prop := ∀ k, Serves lib (new lib d k)

/-- The crash does not leave two files of which one is unfinished, or not of the same pair: no
pair was to be made, nothing is written yet, the key is missing and not yet created, or what is
written of the key can be read as the key. -/
def Harmless (key : lib.KeyPair → lib.Key) (d : TlsDir) : TlsEvent lib → Prop
  | .crash k done => (d .cert ≠ none ∧ d .key ≠ none) ∨ done = 0 ∨
      (d .key = none ∧ done ≤ (lib.certPem k).length + 1) ∨
      ((lib.certPem k).length + 2 ≤ done ∧
        lib.privateKey ((lib.keyPem k).take (done - ((lib.certPem k).length + 2))) =
          some (some (key k)))
  | _ => True

variable {lib} {cert : lib.KeyPair → lib.Cert} {key : lib.KeyPair → lib.Key} {d : TlsDir}
  {e : TlsEvent lib} {k : lib.KeyPair} {f : TlsFile} {text : List Char} {n : ℕ}

/-! ### What is written -/

theorem run_appends (d : TlsDir) (f : TlsFile) (before text : List Char) (h : d f = some before) :
    Transition.run FileOp.apply d (text.map (.append f)) =
      Function.update d f (some (before ++ text)) := by
  induction text generalizing d before with
  | nil => rw [List.append_nil, ← h, Function.update_eq_self]; rfl
  | cons c text ih =>
    have hc : (FileOp.append f c).apply d = Function.update d f (some (before ++ [c])) := by
      simp [FileOp.apply, h]
    rw [List.map_cons, Transition.run_cons, hc, ih _ (before ++ [c]) (Function.update_self ..),
      Function.update_idem, List.append_assoc, List.singleton_append]

theorem run_writes_take (d : TlsDir) (f : TlsFile) (text : List Char) (n : ℕ) :
    Transition.run FileOp.apply d ((FileOp.writes f text).take (n + 1)) =
      Function.update d f (some (text.take n)) := by
  have hcreate : (FileOp.create f).apply d = Function.update d f (some []) := rfl
  rw [FileOp.writes, List.take_succ_cons, ← List.map_take, Transition.run_cons, hcreate,
    run_appends _ f [] _ (Function.update_self ..), Function.update_idem, List.nil_append]

theorem run_writes (d : TlsDir) (f : TlsFile) (text : List Char) :
    Transition.run FileOp.apply d (FileOp.writes f text) = Function.update d f (some text) := by
  have hall : (FileOp.writes f text).take (text.length + 1) = FileOp.writes f text :=
    List.take_of_length_le (by simp [FileOp.writes])
  rw [← hall, run_writes_take, List.take_length]

theorem length_writes : (FileOp.writes f text).length = text.length + 1 := by
  simp [FileOp.writes]

theorem newOps_of_missing (h : d .cert = none ∨ d .key = none) :
    newOps lib d k = generateSelfSigned lib k := if_pos h

theorem newOps_of_present (hc : d .cert ≠ none) (hk : d .key ≠ none) : newOps lib d k = [] :=
  if_neg (by simp [hc, hk])

/-- Up to the creation of the key only the certificate is touched. -/
theorem run_generate_early (hn : n ≤ (lib.certPem k).length + 1) :
    Transition.run FileOp.apply d ((generateSelfSigned lib k).take n) .key = d .key := by
  rw [generateSelfSigned, List.take_append_of_le_length (by rwa [length_writes])]
  cases n with
  | zero => rfl
  | succ n =>
    rw [run_writes_take]
    exact Function.update_of_ne (by decide) _ _

theorem run_generate_late (hn : (lib.certPem k).length + 2 ≤ n) :
    Transition.run FileOp.apply d ((generateSelfSigned lib k).take n) =
      Function.update (Function.update d .cert (some (lib.certPem k))) .key
        (some ((lib.keyPem k).take (n - ((lib.certPem k).length + 2)))) := by
  obtain ⟨m, rfl⟩ := Nat.exists_eq_add_of_le hn
  have hrest : (lib.certPem k).length + 2 + m - (FileOp.writes .cert (lib.certPem k)).length =
      m + 1 := by
    rw [length_writes]
    omega
  rw [generateSelfSigned, List.take_append, hrest,
    List.take_of_length_le (by rw [length_writes]; omega), Transition.run_append, run_writes,
    run_writes_take, Nat.add_sub_cancel_left]

theorem run_generate (d : TlsDir) (k : lib.KeyPair) :
    Transition.run FileOp.apply d (generateSelfSigned lib k) =
      Function.update (Function.update d .cert (some (lib.certPem k))) .key
        (some (lib.keyPem k)) := by
  rw [generateSelfSigned, Transition.run_append, run_writes, run_writes]

/-! ### What is served -/

theorem serves_of_read (hlib : lib.Sound cert key) {c t : List Char} (hc : d .cert = some c)
    (ht : d .key = some t) (hcert : lib.certs c = some [cert k])
    (hkey : lib.privateKey t = some (some (key k))) : Serves lib d := by
  refine ⟨[cert k], key k, ?_, hlib.belong k⟩
  simp [buildAcceptor, hc, ht, hcert, hkey, hlib.accepts k]
  rfl

/-- A file is missing, or both together are served. -/
def Healthy (lib : TlsLibrary) (d : TlsDir) : Prop :=
  d .cert = none ∨ d .key = none ∨ Serves lib d

theorem Healthy.heals (hlib : lib.Sound cert key) (hd : Healthy lib d) : Heals lib d := by
  intro k
  by_cases h : d .cert = none ∨ d .key = none
  · rw [new, newOps_of_missing h, run_generate]
    exact serves_of_read hlib (by simp [Function.update_of_ne]) (Function.update_self ..)
      (hlib.certs_certPem k) (hlib.privateKey_keyPem k)
  · simp only [not_or] at h
    rw [new, newOps_of_present h.1 h.2]
    exact (hd.resolve_left h.1).resolve_left h.2

theorem Healthy.step (hlib : lib.Sound cert key) (hd : Healthy lib d)
    (hgood : Harmless lib key d e) : Healthy lib (step lib d e) := by
  cases e with
  | new k => exact .inr (.inr (hd.heals hlib k))
  | crash k n =>
    by_cases h : d .cert = none ∨ d .key = none
    · simp only [TlsTunnel.step, newCut, newOps_of_missing h]
      rcases hgood with hboth | rfl | ⟨hk, hn⟩ | ⟨hn, hread⟩
      · exact absurd h (by simp [hboth.1, hboth.2])
      · exact hd
      · exact .inr (.inl ((run_generate_early hn).trans hk))
      · rw [run_generate_late hn]
        refine .inr (.inr ?_)
        exact serves_of_read hlib (by simp [Function.update_of_ne]) (Function.update_self ..)
          (hlib.certs_certPem k) hread
    · simp only [not_or] at h
      simpa [TlsTunnel.step, newCut, newOps_of_present h.1 h.2] using hd
  | delete f =>
    cases f with
    | cert => exact .inl (by simp [TlsTunnel.step])
    | key => exact .inr (.inl (by simp [TlsTunnel.step]))

/-- If every crash is harmless, a later call makes the tunnel serve in every state of the run. -/
theorem identity_heals (hlib : lib.Sound cert key) (es : List (TlsEvent lib))
    (h : Transition.Steps (TlsTunnel.step lib) (Harmless lib key) (fun _ => none) es) :
    Transition.Always (TlsTunnel.step lib) (Heals lib) (fun _ => none) es := by
  have hempty : Healthy lib fun _ => none := .inl rfl
  have hrun := h.always (fun _ _ hd hgood => Healthy.step hlib hd hgood) hempty
  exact hrun.mono fun _ hd => hd.heals hlib

/-- A key that is cut off before its end: both files exist, so no later call writes them. -/
theorem not_heals_of_torn (k : lib.KeyPair) (hn : (lib.certPem k).length + 2 ≤ n)
    (hread : lib.privateKey ((lib.keyPem k).take (n - ((lib.certPem k).length + 2))) = none) :
    ¬ Heals lib (step lib (fun _ => none) (.crash k n)) := by
  have hcut : step lib (fun _ => none) (.crash k n) =
      Function.update (Function.update (fun _ => none) .cert (some (lib.certPem k))) .key
        (some ((lib.keyPem k).take (n - ((lib.certPem k).length + 2)))) := by
    rw [step, newCut, newOps_of_missing (.inl rfl), run_generate_late hn]
  intro h
  obtain ⟨certs, key, hbuilt, -⟩ := h k
  rw [hcut, new, newOps_of_present (by simp [Function.update_of_ne]) (by simp)] at hbuilt
  simp [buildAcceptor, hread] at hbuilt
  cases hc : lib.certs (lib.certPem k) with
  | none =>
    simp only [hc, Option.elim_none] at hbuilt
    cases hbuilt
  | some cs =>
    simp only [hc, Option.elim_some, pure_bind] at hbuilt
    cases hbuilt

/-! ### Two key pairs -/

def beginLine (label : String) : List Char :=
  "-----BEGIN ".toList ++ label.toList ++ "-----\n".toList

def endLine (label : String) : List Char := "-----END ".toList ++ label.toList ++ "-----\n".toList

def pem (label : String) (k : Bool) : List Char :=
  beginLine label ++ [if k then 'A' else 'B', '\n'] ++ endLine label

/-- The section of a text: none, one without its end, or a whole one, for which the last line
break is not needed. -/
def pemSection (label : String) (text : List Char) : Option (Option Bool) :=
  if text = pem label true ∨ text = (pem label true).dropLast then some (some true)
  else if text = pem label false ∨ text = (pem label false).dropLast then some (some false)
  else if text.length < (beginLine label).length then some none
  else none

/-- Two key pairs, with the texts around their sections as in PEM. -/
def twoPairs : TlsLibrary where
  KeyPair := Bool
  Cert := Bool
  Key := Bool
  certPem := pem "CERTIFICATE"
  keyPem := pem "PRIVATE KEY"
  certs text := (pemSection "CERTIFICATE" text).map Option.toList
  privateKey := pemSection "PRIVATE KEY"
  singleCertError certs key :=
    if certs = [] then some "no certificates presented"
    else if certs.head? = some key then none else some "keys may not be consistent: KeyMismatch"
  Belong certs key := certs.head? = some key

theorem pemSection_pem (k : Bool) :
    pemSection "CERTIFICATE" (pem "CERTIFICATE" k) = some (some k) ∧
      pemSection "PRIVATE KEY" (pem "PRIVATE KEY" k) = some (some k) := by
  cases k <;> decide +kernel

theorem sound_twoPairs : twoPairs.Sound id id where
  certs_certPem k := congrArg (Option.map Option.toList) (pemSection_pem k).1
  privateKey_keyPem k := (pemSection_pem k).2
  accepts k := by simp [twoPairs]
  belong k := rfl

theorem length_certPem (k : Bool) : (twoPairs.certPem k).length = 56 := by
  change (pem "CERTIFICATE" k).length = 56
  cases k <;> decide +kernel

/-- A crash while the certificate is written, and one just before the last line break of the key. -/
theorem identity_heals_twoPairs : Transition.Always (TlsTunnel.step twoPairs) (Heals twoPairs)
    (fun _ => none) [.crash true 20, .new false, .delete .key, .crash true 113, .new false] := by
  refine identity_heals sound_twoPairs _ ?_
  have hread : pemSection "PRIVATE KEY" ((pem "PRIVATE KEY" true).take 55) = some (some true) := by
    decide +kernel
  refine ⟨.inr (.inr (.inl ⟨rfl, ?_⟩)), trivial, trivial, .inr (.inr (.inr ⟨?_, ?_⟩)), trivial,
    trivial⟩
  · rw [length_certPem]
    decide
  · rw [length_certPem]
    decide
  · rw [length_certPem]
    exact hread

theorem torn_twoPairs : ¬ Heals twoPairs (step twoPairs (fun _ => none) (.crash true 90)) := by
  have hread : pemSection "PRIVATE KEY" ((pem "PRIVATE KEY" true).take 32) = none := by
    decide +kernel
  apply not_heals_of_torn
  · rw [length_certPem]
    decide
  · rw [length_certPem]
    exact hread

/-- A crash within the write of the key leaves two files. -/
theorem torn_key : ¬ ∀ es : List (TlsEvent twoPairs),
    Transition.Always (TlsTunnel.step twoPairs) (Heals twoPairs) (fun _ => none) es := by
  intro h
  have hheals := h [.crash true 90]
  rw [Transition.always_cons, Transition.always_nil] at hheals
  exact torn_twoPairs hheals.2

end TlsTunnel

end Urc
