import HashMiner.Wallet.KeyText
import HashMiner.Wallet.Keystore

/-!
# Import of a key

The checks of the text and of the passwords come before the file is written. The check
that the key is one of the curve comes after.
-/

namespace HashMiner.Wallet

open Foundation

/-- The order of secp256k1. -/
def curveOrder : Nat := 0xfffffffffffffffffffffffffffffffebaaedce6af48a03bbfd25e8cd0364141

def IsScalar (key : B256) : Prop := 0 < key.value ∧ key.value < curveOrder

instance decidableScalar (key : B256) : Decidable (IsScalar key) :=
  inferInstanceAs (Decidable (0 < key.value ∧ key.value < curveOrder))

/-- The signers of the library. -/
structure SignerPackage (Signer : Type) where
  fromBytes : B256 → Except String Signer
  address : Signer → Address

structure StandardSigners {Signer : Type} (signers : SignerPackage Signer) : Prop where
  accepts : ∀ key, IsScalar key → ∃ signer, signers.fromBytes key = .ok signer
  rejects : ∀ key, ¬ IsScalar key → ∃ e, signers.fromBytes key = .error e

structure MinerSigner (Signer : Type) where
  inner : Signer
  address : Address

def MinerSigner.fromKey {Signer : Type} (signers : SignerPackage Signer) (key : B256) :
    Except MinerError (MinerSigner Signer) :=
  match signers.fromBytes key with
  | .error e => .error (.keystore ("invalid privkey: " ++ e))
  | .ok signer => .ok ⟨signer, signers.address signer⟩

/-- `anyhow::Error`, by what it was made from. -/
inductive AnyError where
  | io (message : String)
  | text (message : String)
  | miner (error : MinerError)

/-- What is typed at the three prompts. -/
structure Prompts where
  privateKey : Except String String
  password : Except String String
  confirmed : Except String String

def readKey (prompts : Prompts) : Except AnyError (B256 × String) :=
  match prompts.privateKey with
  | .error e => .error (.io e)
  | .ok text =>
    match parseKey text with
    | .error e => .error (.text e)
    | .ok key =>
      match prompts.password with
      | .error e => .error (.io e)
      | .ok pw1 =>
        match prompts.confirmed with
        | .error e => .error (.io e)
        | .ok pw2 =>
          if pw1 ≠ pw2 then .error (.text "passwords do not match") else .ok (key, pw1)

/-- What is printed at the end. -/
structure Report (Path : Type) where
  path : Path
  address : Address

section Import

variable {Path File Signer : Type} [DecidableEq File]
variable (pkg : Package) (paths : Paths Path File) (signers : SignerPackage Signer)

def importKey (files : Files File) (out : Path) (name : Option String) (prompts : Prompts)
    (calls : CreateCalls) : Except AnyError (Report Path) × Files File :=
  match readKey prompts with
  | .error e => (.error e, files)
  | .ok (key, pw) =>
    match createKeystore pkg paths files out key pw name calls with
    | (.error e, files) => (.error (.miner e), files)
    | (.ok path, files) =>
      match MinerSigner.fromKey signers key with
      | .error e => (.error (.miner e), files)
      | .ok signer => (.ok ⟨path, signer.address⟩, files)

/-- Every check before the write passes, the write changes its file, and what follows
fails: the write itself breaks off, or the key is no scalar. -/
structure Spoils (files : Files File) (out : Path) (name : Option String) (prompts : Prompts)
    (calls : CreateCalls) (text : String) (key : B256) (pw : String) : Prop where
  typed : prompts.privateKey = .ok text
  parsed : parseKey text = .ok key
  password : prompts.password = .ok pw
  confirmed : prompts.confirmed = .ok pw
  directory : calls.createDirAll = none
  changed :
    let before := files (paths.locate (paths.join out (name.getD calls.uuid)))
    let contents := pkg.encrypt key.toList pw calls.random
    match calls.write with
    | .done => ¬ IsScalar key ∧ before ≠ some contents
    | .refused _ => False
    | .torn _ n => before ≠ some (contents.take n)

variable {pkg paths signers} {files : Files File} {out : Path} {name : Option String}
variable {prompts : Prompts} {calls : CreateCalls} {text pw : String} {key : B256}

theorem readKey_of (typed : prompts.privateKey = .ok text) (parsed : parseKey text = .ok key)
    (password : prompts.password = .ok pw) (confirmed : prompts.confirmed = .ok pw) :
    readKey prompts = .ok (key, pw) := by
  simp [readKey, typed, parsed, password, confirmed]

theorem readKey_cases (read : readKey prompts = .ok (key, pw)) :
    ∃ text, prompts.privateKey = .ok text ∧ parseKey text = .ok key ∧
      prompts.password = .ok pw ∧ prompts.confirmed = .ok pw := by
  unfold readKey at read
  split at read
  · cases read
  next text typed =>
  split at read
  · cases read
  next parsed =>
  split at read
  · cases read
  next password =>
  split at read
  · cases read
  next confirmed =>
  split at read
  · cases read
  next same =>
  cases read
  rw [← not_not.mp same] at confirmed
  exact ⟨text, typed, parsed, password, confirmed⟩

section Outcomes

variable (read : readKey prompts = .ok (key, pw)) (directory : calls.createDirAll = none)
include read directory

/-- The file is written before the key is checked. -/
theorem importKey_done (standard : StandardSigners signers) (write : calls.write = .done)
    (pkg : Package) (paths : Paths Path File) (files : Files File) (out : Path)
    (name : Option String) :
    ∃ result, importKey pkg paths signers files out name prompts calls =
      (result, Function.update files (paths.locate (paths.join out (name.getD calls.uuid)))
        (some (pkg.encrypt key.toList pw calls.random))) ∧
      ((∃ e, result = .error e) ↔ ¬ IsScalar key) := by
  simp only [importKey, read, createKeystore, directory, encryptKey, write, MinerSigner.fromKey]
  by_cases scalar : IsScalar key
  · obtain ⟨signer, accepted⟩ := standard.accepts key scalar
    rw [accepted]
    refine ⟨_, rfl, iff_of_false ?_ (not_not.mpr scalar)⟩
    rintro ⟨e, failed⟩
    cases failed
  · obtain ⟨e, rejected⟩ := standard.rejects key scalar
    rw [rejected]
    exact ⟨_, rfl, iff_of_true ⟨_, rfl⟩ scalar⟩

theorem importKey_torn {e : String} {n : Nat} (write : calls.write = .torn e n) :
    importKey pkg paths signers files out name prompts calls =
      (.error (.miner (.keystore e)),
        Function.update files (paths.locate (paths.join out (name.getD calls.uuid)))
          (some ((pkg.encrypt key.toList pw calls.random).take n))) := by
  simp only [importKey, read, createKeystore, directory, encryptKey, write]

theorem importKey_refused {e : String} (write : calls.write = .refused e) :
    importKey pkg paths signers files out name prompts calls =
      (.error (.miner (.keystore e)), files) := by
  simp only [importKey, read, createKeystore, directory, encryptKey, write]

end Outcomes

theorem importKey_unread {e : AnyError} (read : readKey prompts = .error e) :
    importKey pkg paths signers files out name prompts calls = (.error e, files) := by
  simp only [importKey, read]

theorem importKey_noDir {e : String} (read : readKey prompts = .ok (key, pw))
    (directory : calls.createDirAll = some e) :
    importKey pkg paths signers files out name prompts calls =
      (.error (.miner (.io e)), files) := by
  simp only [importKey, read, createKeystore, directory]

/-- An import that fails leaves the files as they were, exactly when it is none of those
that spoil one. -/
theorem importKey_unchanged_iff (pkg : Package) (paths : Paths Path File)
    (standard : StandardSigners signers) (files : Files File) (out : Path)
    (name : Option String) (prompts : Prompts) (calls : CreateCalls) :
    ((∃ e, (importKey pkg paths signers files out name prompts calls).1 = .error e) →
      (importKey pkg paths signers files out name prompts calls).2 = files) ↔
    ¬ ∃ text key pw, Spoils pkg paths files out name prompts calls text key pw := by
  constructor
  · rintro unchanged ⟨text, key, pw, spoils⟩
    have read := readKey_of spoils.typed spoils.parsed spoils.password spoils.confirmed
    have changed := spoils.changed
    cases write : calls.write with
    | done =>
      rw [write] at changed
      obtain ⟨result, imported, fails⟩ := importKey_done read spoils.directory standard write
        pkg paths files out name
      rw [imported] at unchanged
      exact changed.2 (Function.update_eq_self_iff.mp (unchanged (fails.mpr changed.1))).symm
    | refused e =>
      rw [write] at changed
      exact changed
    | torn e n =>
      rw [write] at changed
      rw [importKey_torn read spoils.directory write] at unchanged
      exact changed (Function.update_eq_self_iff.mp (unchanged ⟨_, rfl⟩)).symm
  · rintro sound ⟨e, failed⟩
    cases read : readKey prompts with
    | error e => rw [importKey_unread read]
    | ok p =>
      obtain ⟨key, pw⟩ := p
      obtain ⟨text, typed, parsed, password, confirmed⟩ := readKey_cases read
      cases directory : calls.createDirAll with
      | some e => rw [importKey_noDir read directory]
      | none =>
        have spared := fun changed =>
          sound ⟨text, key, pw, typed, parsed, password, confirmed, directory, changed⟩
        cases write : calls.write with
        | done =>
          rw [write] at spared
          obtain ⟨result, imported, fails⟩ := importKey_done read directory standard write
            pkg paths files out name
          rw [imported] at failed ⊢
          have invalid := fails.mp ⟨e, failed⟩
          have same := not_not.mp fun changed => spared ⟨invalid, changed⟩
          exact Function.update_eq_self_iff.mpr same.symm
        | refused e => rw [importKey_refused read directory write]
        | torn e n =>
          rw [write] at spared
          rw [importKey_torn read directory write]
          exact Function.update_eq_self_iff.mpr (not_not.mp spared).symm

end Import

section Layout

/-- A library of signers that keeps the key, with no address. -/
def layoutSigners : SignerPackage B256 where
  fromBytes key := if IsScalar key then .ok key else .error "signature error"
  address _ := Vector.replicate 20 0

theorem standard_layoutSigners : StandardSigners layoutSigners where
  accepts key scalar := ⟨key, if_pos scalar⟩
  rejects _ invalid := ⟨"signature error", if_neg invalid⟩

/-- The key is typed in full, and the password twice. -/
def layoutPrompts (key : B256) (pw1 pw2 : String) : Prompts :=
  ⟨.ok (String.ofList (hexText key.toList)), .ok pw1, .ok pw2⟩

def layoutCalls : CreateCalls := ⟨none, "7e1d", [], .done⟩

/-- Two passwords that differ. -/
theorem importKey_mismatch_unchanged :
    (importKey layoutPackage layoutPaths layoutSigners (fun _ => none) ["keystore"] none
      (layoutPrompts B256.zero "pw" "pq") layoutCalls).2 = fun _ => none := by
  have read : readKey (layoutPrompts B256.zero "pw" "pq") =
      .error (.text "passwords do not match") := by
    simp [readKey, layoutPrompts, parseKey_hexText]
  refine (importKey_unchanged_iff layoutPackage layoutPaths standard_layoutSigners _ _ _ _ _).mpr ?_
    ⟨_, congrArg Prod.fst (importKey_unread read)⟩
  rintro ⟨text, key, pw, spoils⟩
  have first := spoils.password
  cases spoils.confirmed
  exact absurd (Except.ok.inj first) (by decide)

/-- The key is zero: the import fails, and the file is there. -/
theorem zero_key_written :
    ¬ ((∃ e, (importKey layoutPackage layoutPaths layoutSigners (fun _ => none) ["keystore"] none
      (layoutPrompts B256.zero "pw" "pw") layoutCalls).1 = .error e) →
    (importKey layoutPackage layoutPaths layoutSigners (fun _ => none) ["keystore"] none
      (layoutPrompts B256.zero "pw" "pw") layoutCalls).2 = fun _ => none) := by
  intro unchanged
  have read : readKey (layoutPrompts B256.zero "pw" "pw") = .ok (B256.zero, "pw") :=
    readKey_of rfl (parseKey_hexText B256.zero) rfl rfl
  have directory : layoutCalls.createDirAll = none := rfl
  obtain ⟨result, imported, fails⟩ := importKey_done read directory standard_layoutSigners rfl
    layoutPackage layoutPaths (fun _ => none) ["keystore"] none
  rw [imported] at unchanged
  have absent := congrFun (unchanged (fails.mpr (by decide))) ["keystore", "7e1d"]
  cases absent

end Layout

end HashMiner.Wallet
