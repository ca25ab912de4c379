import Mathlib.Data.List.Basic
/-!
# Certificates and keys (server/src/main.rs, `load_certs` and `load_keys`)

| here | there |
| --- | --- |
| `Disk`                   | what the program sees at the path it is given: `is_dir`, `read_dir`, `File::open` |
| `Reader`                 | `certs`, `pkcs8_private_keys` and `rsa_private_keys`, as given functions of a file |
| `extension`              | `Path::extension` of a file name, which is a list of bytes |
| `candidates`             | `try_files` |
| `collect`                | `collect::<io::Result<Vec<_>>>()` |
| `loadCerts`, `loadKeys`  | `load_certs`, `load_keys`, and their loops over `try_files` |
| `certsIn`, `keyIn`       | what a candidate is good for |

Nothing changes on the disk while they look.
-/
namespace Calaos.TlsFiles

/-- The name of a file. -/
abbrev Name := List UInt8

def bytes (text : String) : Name := text.toUTF8.data.toList

/-- The path that is given, or one of a file in it. -/
inductive Path where
  | given
  | join (name : Name)
deriving DecidableEq

/-- What is at the path. The entries of a directory come in the order of the listing, and may be unreadable. -/
structure Disk (File : Type) where
  isDir : Bool
  readDir : Option (List (Option Name))
  openFile : Path → Option File

/-- The items of a kind in a file, each of which may be malformed. -/
structure Reader (File Cert Pkcs8 Pkcs1 E : Type) where
  certs : File → List (Except E Cert)
  pkcs8PrivateKeys : File → List (Except E Pkcs8)
  rsaPrivateKeys : File → List (Except E Pkcs1)

/-- `PrivateKeyDer`. -/
inductive PrivateKeyDer (Pkcs8 Pkcs1 : Type) where
  | pkcs8 (key : Pkcs8)
  | pkcs1 (key : Pkcs1)
deriving DecidableEq

/-- The `io::Error`s of the two functions. -/
inductive LoadError (E : Type) where
  | notFound (message : String)
  | invalidInput (e : E)
deriving DecidableEq

/-- What is after the last dot, unless it is the first byte. -/
def extension (name : Name) : Option Name :=
  let dot := 46
  let before := ((name.reverse.dropWhile (· ≠ dot)).drop 1).reverse
  let after := (name.reverse.takeWhile (· ≠ dot)).reverse
  if dot ∈ name ∧ before ≠ [] ∧ name ≠ [dot, dot] then some after else none

section
variable {File Cert Pkcs8 Pkcs1 E : Type} (disk : Disk File) (reader : Reader File Cert Pkcs8 Pkcs1 E)

/-- The `*.pem` files of the directory. -/
def listed : List Path :=
  match disk.readDir with
  | some entries => (entries.filterMap id).filterMap fun name =>
      if extension name = some (bytes "pem") then some (.join name) else none
  | none => []

/-- `try_files`, with the names that come first. -/
def candidates (names : List String) : List Path :=
  if disk.isDir then names.map (fun name => .join (bytes name)) ++ listed disk else [.given]

def certCandidates : List Path := candidates disk ["fullchain.pem", "cert.pem"]

def keyCandidates : List Path := candidates disk ["privkey.pem", "key.pem"]

def collect {α : Type} (items : List (Except E α)) : Except E (List α) := items.mapM id

def loadCertsFrom : List Path → Except (LoadError E) (List Cert)
  | [] => .error (.notFound "no valid certificate PEM found")
  | p :: rest =>
    match disk.openFile p with
    | some f =>
      match collect (reader.certs f) with
      | .ok c => if c.isEmpty then loadCertsFrom rest else .ok c
      | .error _ => loadCertsFrom rest
    | none => loadCertsFrom rest

def loadCerts : Except (LoadError E) (List Cert) := loadCertsFrom disk reader (certCandidates disk)

def loadKeysFrom : List Path → Except (LoadError E) (PrivateKeyDer Pkcs8 Pkcs1)
  | [] => .error (.notFound "no valid private key PEM found")
  | p :: rest =>
    match disk.openFile p with
    | some f =>
      match (reader.pkcs8PrivateKeys f).head? with
      | some (.ok key) => .ok (.pkcs8 key)
      | some (.error e) => .error (.invalidInput e)
      | none =>
        match disk.openFile p with
        | some f₂ =>
          match (reader.rsaPrivateKeys f₂).head? with
          | some (.ok key) => .ok (.pkcs1 key)
          | some (.error e) => .error (.invalidInput e)
          | none => loadKeysFrom rest
        | none => loadKeysFrom rest
    | none => loadKeysFrom rest

def loadKeys : Except (LoadError E) (PrivateKeyDer Pkcs8 Pkcs1) := loadKeysFrom disk reader (keyCandidates disk)

/-! ## What a candidate is good for -/

/-- The certificates of a candidate, if there are any and none is malformed. -/
def certsIn (p : Path) : Option (List Cert) :=
  (disk.openFile p).bind fun f =>
    match collect (reader.certs f) with
    | .ok c => if c.isEmpty then none else some c
    | .error _ => none

/-- The first of the items that is not malformed. -/
def firstValid {α : Type} (items : List (Except E α)) : Option α := items.findSome? Except.toOption

/-- The key of a candidate: the first valid key in PKCS#8, or else the first valid RSA key. -/
def keyIn (p : Path) : Option (PrivateKeyDer Pkcs8 Pkcs1) :=
  (disk.openFile p).bind fun f =>
    ((firstValid (reader.pkcs8PrivateKeys f)).map .pkcs8).or ((firstValid (reader.rsaPrivateKeys f)).map .pkcs1)

/-- The item with which the keys of a candidate begin, be it malformed. -/
def firstItem (p : Path) : Option (Except E (PrivateKeyDer Pkcs8 Pkcs1)) :=
  (disk.openFile p).bind fun f =>
    ((reader.pkcs8PrivateKeys f).head?.map (Except.map .pkcs8)).or
      ((reader.rsaPrivateKeys f).head?.map (Except.map .pkcs1))

end

section
variable {File Cert Pkcs8 Pkcs1 E : Type} {disk : Disk File} {reader : Reader File Cert Pkcs8 Pkcs1 E}

theorem loadCertsFrom_toOption (paths : List Path) :
    (loadCertsFrom disk reader paths).toOption = paths.findSome? (certsIn disk reader) := by
  induction paths with
  | nil => rfl
  | cons p rest ih =>
    rw [loadCertsFrom, List.findSome?_cons, ← ih]
    unfold certsIn
    cases disk.openFile p with
    | none => rfl
    | some f =>
      simp only [Option.bind_some]
      cases collect (reader.certs f) with
      | error e => rfl
      | ok c =>
        cases c with
        | nil => rfl
        | cons cert c => rfl

/-- The first item decides. -/
theorem loadKeysFrom_eq (paths : List Path) : loadKeysFrom disk reader paths =
    match paths.findSome? (firstItem disk reader) with
    | some (.ok key) => .ok key
    | some (.error e) => .error (.invalidInput e)
    | none => .error (.notFound "no valid private key PEM found") := by
  induction paths with
  | nil => rfl
  | cons p rest ih =>
    unfold loadKeysFrom
    rw [List.findSome?_cons]
    unfold firstItem at ih ⊢
    cases hopen : disk.openFile p with
    | none => exact ih
    | some f =>
      simp only [Option.bind_some]
      cases (reader.pkcs8PrivateKeys f).head? with
      | some item => cases item <;> rfl
      | none =>
        simp only [Option.map_none, Option.none_or]
        cases (reader.rsaPrivateKeys f).head? with
        | some item => cases item <;> rfl
        | none => exact ih

theorem firstValid_of_head? {α : Type} {items : List (Except E α)} :
    (items.head? = none → firstValid items = none) ∧
      ∀ a, items.head? = some (.ok a) → firstValid items = some a := by
  cases items with
  | nil => simp [firstValid]
  | cons item items =>
    constructor
    · rintro ⟨⟩
    · rintro a ⟨⟩
      rfl

theorem keyIn_of_firstItem_none {p : Path} (h : firstItem disk reader p = none) : keyIn disk reader p = none := by
  unfold firstItem keyIn at *
  cases hopen : disk.openFile p with
  | none => rfl
  | some f =>
    rw [hopen] at h
    rw [Option.bind_some, Option.or_eq_none_iff, Option.map_eq_none_iff, Option.map_eq_none_iff] at h ⊢
    exact ⟨firstValid_of_head?.1 h.1, firstValid_of_head?.1 h.2⟩

theorem keyIn_of_firstItem_ok {p : Path} {key : PrivateKeyDer Pkcs8 Pkcs1}
    (h : firstItem disk reader p = some (.ok key)) : keyIn disk reader p = some key := by
  unfold firstItem keyIn at *
  cases hopen : disk.openFile p with
  | none => simp [hopen] at h
  | some f =>
    rw [hopen] at h
    simp only [Option.bind_some] at h ⊢
    cases hp : (reader.pkcs8PrivateKeys f).head? with
    | some item =>
      rw [hp] at h
      cases item with
      | error e => cases h
      | ok key' =>
        cases h
        rw [firstValid_of_head?.2 key' hp]
        rfl
    | none =>
      rw [hp, Option.map_none, Option.none_or] at h
      rw [firstValid_of_head?.1 hp, Option.map_none, Option.none_or]
      cases hr : (reader.rsaPrivateKeys f).head? with
      | none =>
        rw [hr] at h
        cases h
      | some item =>
        rw [hr] at h
        cases item with
        | error e => cases h
        | ok key' =>
          cases h
          rw [firstValid_of_head?.2 key' hr]
          rfl

/-- Where the first item is valid, it is the first valid key. -/
theorem findSome?_keyIn {paths : List Path} {key : PrivateKeyDer Pkcs8 Pkcs1}
    (h : paths.findSome? (firstItem disk reader) = some (.ok key)) :
    paths.findSome? (keyIn disk reader) = some key := by
  induction paths with
  | nil => cases h
  | cons p rest ih =>
    rw [List.findSome?_cons] at h ⊢
    cases hp : firstItem disk reader p with
    | none =>
      rw [hp] at h
      rw [keyIn_of_firstItem_none hp]
      exact ih h
    | some item =>
      rw [hp] at h
      cases h
      rw [keyIn_of_firstItem_ok hp]

variable (disk reader) in
/-- **Certificates are always found. A key is found unless a malformed one is in the way of it.** -/
theorem tls_files_found_iff :
    ((loadCerts disk reader).toOption = (certCandidates disk).findSome? (certsIn disk reader) ∧
      (loadKeys disk reader).toOption = (keyCandidates disk).findSome? (keyIn disk reader)) ↔
    ∀ e, (keyCandidates disk).findSome? (firstItem disk reader) = some (.error e) →
      ∀ p ∈ keyCandidates disk, keyIn disk reader p = none := by
  have hcerts : (loadCerts disk reader).toOption = (certCandidates disk).findSome? (certsIn disk reader) :=
    loadCertsFrom_toOption _
  simp only [hcerts, true_and]
  unfold loadKeys
  rw [loadKeysFrom_eq]
  cases hfirst : (keyCandidates disk).findSome? (firstItem disk reader) with
  | none =>
    have hnone : (keyCandidates disk).findSome? (keyIn disk reader) = none := by
      rw [List.findSome?_eq_none_iff] at hfirst ⊢
      exact fun p hp => keyIn_of_firstItem_none (hfirst p hp)
    simp [hnone, Except.toOption]
  | some item =>
    cases item with
    | ok key => simp [findSome?_keyIn hfirst, Except.toOption]
    | error e =>
      simp only [Except.toOption, Option.some.injEq, Except.error.injEq, forall_eq']
      rw [eq_comm, List.findSome?_eq_none_iff]

end

/-! ## A broken file beside a good one -/

/-- The items of a PEM file. -/
inductive Item where
  | x509Certificate (der : Nat)
  | pkcs8Key (der : Nat)
  | pkcs1Key (der : Nat)
deriving DecidableEq

/-- A malformed item is an error of each kind. -/
def ofItems {α : Type} (kind : Item → Option α) (items : List (Except Unit Item)) : List (Except Unit α) :=
  items.filterMap fun
    | .ok item => (kind item).map .ok
    | .error e => some (.error e)

def pemReader : Reader (List (Except Unit Item)) Nat Nat Nat Unit where
  certs := ofItems fun | .x509Certificate der => some der | _ => none
  pkcs8PrivateKeys := ofItems fun | .pkcs8Key der => some der | _ => none
  rsaPrivateKeys := ofItems fun | .pkcs1Key der => some der | _ => none

/-- A directory in which `privkey.pem` is broken. -/
def brokenDisk : Disk (List (Except Unit Item)) where
  isDir := true
  readDir := some [some (bytes "key.pem"), some (bytes "privkey.pem"), some (bytes "cert.pem")]
  openFile
    | .given => none
    | .join name =>
      if name = bytes "privkey.pem" then some [.error ()]
      else if name = bytes "key.pem" then some [.ok (.pkcs8Key 1)]
      else if name = bytes "cert.pem" then some [.ok (.x509Certificate 2)]
      else none

theorem key_not_found : (loadKeys brokenDisk pemReader).toOption ≠
    (keyCandidates brokenDisk).findSome? (keyIn brokenDisk pemReader) ∧
    loadKeys brokenDisk pemReader = .error (.invalidInput ()) ∧
    (keyCandidates brokenDisk).findSome? (keyIn brokenDisk pemReader) = some (.pkcs8 1) := by
  decide

end Calaos.TlsFiles
